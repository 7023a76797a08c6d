import Mathlib.Algebra.Ring.Int.Defs
import VariationalForms.Proofs.Reading
import VariationalForms.Proofs.Simplification

/-! What one pass of cleaning does.
`Expr.CleansTo` says once what becomes of an operation and when. From it follow that simplifying
keeps values, as long as numbers are added and multiplied exactly
(`Reading.IsExact.value_simplify`), and that a second pass finds nothing but zeros and ones that
folding has put in front of a product (`Expr.simplify_simplify_iff`).
-/

set_option autoImplicit false

namespace VariationalForms

variable {κ : Type}

namespace Expr

theorem ne_arith_left {op : Arith} {l r : Expr κ} : l ≠ arith op l r := fun h => by
  have hsize := congrArg size h
  rw [size_arith] at hsize
  omega

theorem ne_arith_right {op : Arith} {l r : Expr κ} : r ≠ arith op l r := fun h => by
  have hsize := congrArg size h
  rw [size_arith] at hsize
  omega

section Cleaning

variable [Zero κ] [One κ] [Neg κ] [Add κ] [Sub κ] [Mul κ] [BEq κ]

theorem cleanArith_eq_self_iff {op : Arith} {l r : Expr κ} :
    cleanArith op l r = arith op l r ↔
      (arith op l r).isTidy ∧ (arith op l r).hasIdleFactor = false := by
  constructor
  · intro h
    have hcleans := cleansTo_cleanArith op l r
    rw [h] at hcleans
    generalize hx : arith op l r = x at hcleans
    cases hcleans with
    | folded => cases hx
    | zeroAdd => exact absurd hx.symm ne_arith_right
    | addZero => exact absurd hx.symm ne_arith_left
    | zeroSub => cases hx
    | subZero => exact absurd hx.symm ne_arith_left
    | zeroMul => exact absurd hx.symm zeroLike_ne_arith
    | mulZero => exact absurd hx.symm zeroLike_ne_arith
    | oneMul => exact absurd hx.symm ne_arith_right
    | mulOne => exact absurd hx.symm ne_arith_left
    | joined => cases hx
    | kept htidy hidle => exact ⟨htidy, hidle⟩
  · rintro ⟨htidy, hidle⟩
    have hcleans := cleansTo_cleanArith op l r
    generalize cleanArith op l r = x at hcleans
    cases hcleans with
    | kept => rfl
    | folded => cases op <;> cases htidy
    | _ => simp_all [isTidy, hasIdleFactor, isNumber, isScaled]

theorem simplify_eq_self_iff (e : Expr κ) :
    e.simplify = e ↔ ∀ n ∈ e.nodes, n.isTidy ∧ n.hasIdleFactor = false := by
  induction e with
  | leaf l => simp [nodes, isTidy, hasIdleFactor]
  | arith op l r hl hr =>
    rw [simplify_arith, eq_comm, arith_eq_cleanArith_iff l.size_simplify_le r.size_simplify_le,
      cleanArith_eq_self_iff, @eq_comm _ l, hl, @eq_comm _ r, hr, and_comm]
    refine Iff.trans ?_ forall_mem_nodes.symm
    simp [children]
  | node h args ih =>
    have hargs : args.map simplify = args ↔ ∀ a ∈ args, a.simplify = a := by
      simpa using List.map_inj_left (f := simplify) (g := id) (l := args)
    rw [simplify_node, forall_nodes_node, ← forall₂_congr ih, ← hargs]
    simp [isTidy, hasIdleFactor]

theorem CleansTo.tidy {op : Arith} {l r x : Expr κ} (h : CleansTo op l r x)
    (hl : ∀ n ∈ l.nodes, n.isTidy) (hr : ∀ n ∈ r.nodes, n.isTidy) : ∀ n ∈ x.nodes, n.isTidy := by
  have hleaf : ∀ c : κ, ∀ n ∈ (number c).nodes, n.isTidy := fun c =>
    forall_mem_nodes.2 ⟨rfl, by simp [children]⟩
  have hzeroLike : ∀ e : Expr κ, ∀ n ∈ e.zeroLike.nodes, n.isTidy := by
    intro e
    unfold zeroLike
    split
    · refine forall_nodes_node.2 ⟨rfl, fun x hx => ?_⟩
      obtain ⟨-, -, rfl⟩ := List.mem_map.1 hx
      exact hleaf 0
    · exact hleaf 0
  cases h with
  | folded a b => exact hleaf _
  | zeroAdd => exact hr
  | addZero => exact hl
  | zeroSub _ hnumber =>
    refine (forall_nodes_arith ?_).2 ⟨hleaf _, hr⟩
    simp [isTidy, isZero_eq_false hnumber, isOne_eq_false hnumber, hnumber]
  | subZero => exact hl
  | zeroMul => exact hzeroLike _
  | mulZero => exact hzeroLike _
  | oneMul => exact hr
  | mulOne => exact hl
  | joined a x b =>
    have hroot := (forall_mem_nodes.1 hl).1
    refine (forall_nodes_arith ?_).2 ⟨hleaf _, ((forall_nodes_arith hroot).1 hl).2⟩
    simpa [isTidy, isNumber, isScaled] using hroot
  | kept htidy => exact (forall_nodes_arith htidy).2 ⟨hl, hr⟩

theorem tidy_simplify (e : Expr κ) : ∀ n ∈ e.simplify.nodes, n.isTidy := by
  induction e with
  | leaf l => exact forall_mem_nodes.2 ⟨rfl, by simp [children]⟩
  | arith op l r hl hr => exact (cleansTo_cleanArith op l.simplify r.simplify).tidy hl hr
  | node h args ih =>
    rw [simplify_node]
    refine forall_nodes_node.2 ⟨rfl, fun x hx => ?_⟩
    obtain ⟨e, he, rfl⟩ := List.mem_map.1 hx
    exact ih e he

/-- After one pass every operation is tidy, however numbers are rounded. A second pass changes
nothing exactly when folding has put no zero or one in front of a product. -/
theorem simplify_simplify_iff (e : Expr κ) :
    (∀ n ∈ e.simplify.nodes, n.isTidy) ∧
      (e.simplify.simplify = e.simplify ↔
        ∀ n ∈ e.simplify.nodes, n.hasIdleFactor = false) := by
  have htidy := e.tidy_simplify
  refine ⟨htidy, (simplify_eq_self_iff e.simplify).trans ?_⟩
  exact forall₂_congr fun n hn => and_iff_right (htidy n hn)

end Cleaning

section Mirrored

def mirrored : Expr Int :=
  .tuple [.add (.mul (.neg (.symbol "x")) (.number (-1)))
    (.sub (.number 0) (.mul (.symbol "y") (.number 1)))]

def mirroredOnce : Expr Int :=
  .tuple [.add (.mul (.number 1) (.symbol "x")) (.neg (.symbol "y"))]

theorem simplify_simplify_iff_mirrored :
    mirrored.simplify = mirroredOnce ∧ mirroredOnce ∈ mirrored.simplify.nodes ∧
      mirroredOnce.isTidy ∧ mirrored.simplify.simplify ≠ mirrored.simplify := by
  have hsimplify : mirrored.simplify = mirroredOnce := rfl
  obtain ⟨htidy, hfixed⟩ := simplify_simplify_iff mirrored
  rw [hsimplify] at htidy hfixed ⊢
  refine ⟨rfl, self_mem_nodes _, htidy _ (self_mem_nodes _), fun h => ?_⟩
  have hidle := hfixed.1 h (.mul (.number 1) (.symbol "x"))
    (by simp [mirroredOnce, nodes, nodesArgs])
  cases hidle

end Mirrored

end Expr

namespace Reading

variable {R : Type} [CommRing R]

/-- Numbers stand for themselves, and a tuple of zeros is worth zero. -/
structure IsExact (M : Reading R R) : Prop where
  number : ∀ c, M.leaf (.number c) = c
  zeros : ∀ xs, (∀ x ∈ xs, x = 0) → M.node .tuple xs = 0

namespace IsExact

variable {M : Reading R R}

theorem value_zeroLike (hM : M.IsExact) (e : Expr R) : M.value e.zeroLike = 0 := by
  unfold Expr.zeroLike
  split
  · rw [value_node]
    refine hM.zeros _ fun x hx => ?_
    obtain ⟨e, he, rfl⟩ := List.mem_map.1 hx
    obtain ⟨-, -, rfl⟩ := List.mem_map.1 he
    exact hM.number 0
  · exact hM.number 0

variable [BEq R] [LawfulBEq R]

theorem value_of_isZero (hM : M.IsExact) {e : Expr R} (h : e.isZero) : M.value e = 0 := by
  unfold Expr.isZero at h
  split at h
  case h_1 c => exact (hM.number c).trans (beq_iff_eq.1 h)
  case h_2 => cases h

theorem value_of_isOne (hM : M.IsExact) {e : Expr R} (h : e.isOne) : M.value e = 1 := by
  unfold Expr.isOne at h
  split at h
  case h_1 c => exact (hM.number c).trans (beq_iff_eq.1 h)
  case h_2 => cases h

theorem value_of_cleansTo (hM : M.IsExact) {op : Arith} {l r x : Expr R}
    (h : Expr.CleansTo op l r x) : M.value x = op.of (M.value l) (M.value r) := by
  have hnumber : ∀ c, M.value (.number c) = c := hM.number
  cases h with
  | folded a b => rw [hnumber, hnumber, hnumber]
  | zeroAdd hl => rw [Arith.of, hM.value_of_isZero hl, zero_add]
  | addZero hr => rw [Arith.of, hM.value_of_isZero hr, add_zero]
  | zeroSub hl => rw [Arith.of, hM.value_of_isZero hl, zero_sub, Expr.neg, value_mul, hnumber,
      neg_one_mul]
  | subZero hr => rw [Arith.of, hM.value_of_isZero hr, sub_zero]
  | zeroMul hl => rw [Arith.of, hM.value_zeroLike, hM.value_of_isZero hl, zero_mul]
  | mulZero hr => rw [Arith.of, hM.value_zeroLike, hM.value_of_isZero hr, mul_zero]
  | oneMul hl => rw [Arith.of, hM.value_of_isOne hl, one_mul]
  | mulOne hr => rw [Arith.of, hM.value_of_isOne hr, mul_one]
  | joined a x b => rw [Arith.of, value_mul, value_mul, hnumber, hnumber, hnumber, mul_right_comm]
  | kept => exact M.value_arith op l r

/-- Simplifying keeps the value when numbers are added and multiplied exactly. -/
theorem value_simplify (hM : M.IsExact) (e : Expr R) : M.value e.simplify = M.value e := by
  induction e with
  | leaf l => rfl
  | arith op l r hl hr =>
    rw [Expr.simplify_arith, hM.value_of_cleansTo (Expr.cleansTo_cleanArith ..), hl, hr,
      value_arith]
  | node h args ih =>
    have hargs : args.map (M.value ∘ Expr.simplify) = args.map M.value := List.map_congr_left ih
    rw [Expr.simplify_node, value_node, value_node, List.map_map, hargs]

end IsExact

section Whole

def whole : Reading Int Int where
  leaf
    | .number c => c
    | .symbol s => s.length
    | _ => 7
  node
    | .tuple, xs => xs.sum
    | _, xs => xs.prod + 1

def mixed : Expr Int :=
  .add (.generic .dot [.mul (.mul (.number 2) (.symbol "x")) (.number 3),
      .sub (.number 0) (.field "F")])
    (.mul (.sub (.number 4) (.number 4)) (.tuple [.symbol "x", .symbol "xy"]))

def mixedOnce : Expr Int :=
  .add (.generic .dot [.mul (.number 6) (.symbol "x"), .mul (.number (-1)) (.field "F")])
    (.tuple [.number 0, .number 0])

theorem value_simplify_mixed :
    whole.IsExact ∧ mixed.simplify = mixedOnce ∧ whole.value mixedOnce = whole.value mixed := by
  have hexact : whole.IsExact :=
    ⟨fun _ => rfl, fun xs hxs => List.sum_eq_zero hxs⟩
  have hsimplify : mixed.simplify = mixedOnce := rfl
  refine ⟨hexact, hsimplify, ?_⟩
  rw [← hsimplify]
  exact hexact.value_simplify mixed

end Whole

end Reading

end VariationalForms
