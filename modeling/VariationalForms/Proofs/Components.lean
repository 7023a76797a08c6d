import VariationalForms.Proofs.Cleaning
import VariationalForms.Proofs.Completeness

/-! Which vectors keep their components when they are simplified.
A zero factor becomes as many zeros when it stands beside a tuple. Beside a sum of tuples or a
scaled tuple it becomes the number zero, so the components are lost, unless the product is a summand
beside a vector that keeps its own. `Expr.KeepsShape` is the exact condition
(`Expr.isVector_simplify_iff`).
-/

set_option autoImplicit false

namespace VariationalForms

variable {κ : Type}

namespace Expr

section Shapes

/-- Put together by arithmetic from numbers, symbols, fields and constants. -/
def IsScalar (e : Expr κ) : Prop := e.MadeOf (fun l => l.function? = none) fun _ => False

/-- A tuple of `n` scalars, a sum or a difference of vectors, or a scaled vector. -/
inductive IsVector (n : Nat) : Expr κ → Prop
  | tuple {items : List (Expr κ)} (hn : items.length = n) (hs : ∀ e ∈ items, e.IsScalar) :
    IsVector n (.tuple items)
  | sum {op : Arith} {l r : Expr κ} (hop : op ≠ .mul) (hl : IsVector n l) (hr : IsVector n r) :
    IsVector n (.arith op l r)
  | scaled {s v : Expr κ} (hs : s.IsScalar) (hv : IsVector n v) : IsVector n (.mul s v)
  | scaledRight {v s : Expr κ} (hv : IsVector n v) (hs : s.IsScalar) : IsVector n (.mul v s)

def isTuple : Expr κ → Bool
  | .tuple _ => true
  | _ => false

variable {n : Nat} {op : Arith} {l r s v x : Expr κ}

theorem isScalar_number (c : κ) : (number c).IsScalar := madeOf_leaf.2 rfl

theorem isScalar_of_isNumber (h : v.isNumber) : v.IsScalar := by
  unfold isNumber at h
  split at h
  · exact isScalar_number _
  · cases h

theorem not_isScalar_tuple {items : List (Expr κ)} : ¬ (tuple items).IsScalar :=
  fun h => (madeOf_node.1 h).1

theorem IsVector.not_isScalar (hv : v.IsVector n) : ¬ v.IsScalar := by
  induction hv with
  | tuple => exact not_isScalar_tuple
  | sum _ _ _ ihl _ => exact fun h => ihl (madeOf_arith.1 h).1
  | scaled _ _ ih => exact fun h => ih (madeOf_arith.1 h).2
  | scaledRight _ _ ih => exact fun h => ih (madeOf_arith.1 h).1

theorem IsScalar.not_isVector (hs : s.IsScalar) : ¬ s.IsVector n := fun h => h.not_isScalar hs

theorem IsScalar.not_isTuple (hs : s.IsScalar) : ¬ s.isTuple := by
  unfold isTuple
  split
  · exact absurd hs not_isScalar_tuple
  · exact Bool.false_ne_true

theorem isVector_sum_iff (hop : op ≠ .mul) :
    (arith op l r).IsVector n ↔ l.IsVector n ∧ r.IsVector n := by
  constructor
  · intro h
    cases h with
    | sum _ hl hr => exact ⟨hl, hr⟩
    | scaled => exact absurd rfl hop
    | scaledRight => exact absurd rfl hop
  · exact fun h => .sum hop h.1 h.2

theorem isVector_mul_iff (hs : s.IsScalar) : (mul s v).IsVector n ↔ v.IsVector n := by
  constructor
  · intro h
    cases h with
    | sum hop => exact absurd rfl hop
    | scaled _ hv => exact hv
    | scaledRight hv => exact absurd hs hv.not_isScalar
  · exact .scaled hs

theorem isVector_mul_right_iff (hs : s.IsScalar) : (mul v s).IsVector n ↔ v.IsVector n := by
  constructor
  · intro h
    cases h with
    | sum hop => exact absurd rfl hop
    | scaled _ hv => exact absurd hs hv.not_isScalar
    | scaledRight hv => exact hv
  · exact fun h => .scaledRight h hs

variable [Zero κ]

theorem isScalar_zeroLike (hs : s.IsScalar) : s.zeroLike.IsScalar :=
  madeOf_zeroLike (fun _ => rfl) hs

theorem isVector_zeroLike_iff (hv : v.isTuple → v.IsVector n) :
    v.zeroLike.IsVector n ↔ v.IsVector n ∧ v.isTuple := by
  unfold zeroLike
  split
  case h_1 items =>
    have hitems := hv rfl
    refine iff_of_true ?_ ⟨hitems, rfl⟩
    cases hitems with
    | tuple hn => exact .tuple (by simpa using hn) (by simp [isScalar_number])
  case h_2 h =>
    refine iff_of_false (isScalar_number 0).not_isVector ?_
    rintro ⟨-, htuple⟩
    unfold isTuple at htuple
    split at htuple
    · exact h _ rfl
    · cases htuple

end Shapes

section Steps

variable [Zero κ] [One κ] [Neg κ] [Add κ] [Sub κ] [Mul κ] [BEq κ]
  {n : Nat} {op : Arith} {l r s v x : Expr κ}

theorem CleansTo.isVector_of_isTuple (h : CleansTo op l r x) (hl : l.isTuple → l.IsVector n)
    (hr : r.isTuple → r.IsVector n) : x.isTuple → x.IsVector n := by
  have hzeros : ∀ v : Expr κ, (v.isTuple → v.IsVector n) → v.zeroLike.isTuple →
      v.zeroLike.IsVector n := by
    intro v hv htuple
    refine (isVector_zeroLike_iff hv).2 ?_
    unfold zeroLike at htuple
    split at htuple
    · exact ⟨hv rfl, rfl⟩
    · cases htuple
  cases h with
  | folded | zeroSub | joined | kept => exact fun htuple => nomatch htuple
  | zeroAdd | oneMul => exact hr
  | addZero | subZero | mulOne => exact hl
  | zeroMul => exact hzeros r hr
  | mulZero => exact hzeros l hl

omit [One κ] [Neg κ] [Add κ] [Sub κ] [Mul κ] in
theorem not_isVector_of_isZero (h : v.isZero) : ¬ v.IsVector n :=
  (isScalar_of_isNumber (isNumber_of_isZero h)).not_isVector

omit [Zero κ] [Neg κ] [Add κ] [Sub κ] [Mul κ] in
theorem not_isVector_of_isOne (h : v.isOne) : ¬ v.IsVector n :=
  (isScalar_of_isNumber (isNumber_of_isOne h)).not_isVector

theorem CleansTo.isVector_sum (h : CleansTo op l r x) (hop : op ≠ .mul) :
    x.IsVector n ↔ (l.IsVector n ∨ l.isZero) ∧ (r.IsVector n ∨ r.isZero) ∧
      (l.IsVector n ∨ r.IsVector n) := by
  have hnumber : ∀ c : κ, ¬ (number c).IsVector n := fun c => (isScalar_number c).not_isVector
  cases h with
  | folded a b => simp only [hnumber, or_self, and_false]
  | zeroAdd hl =>
    have hnot : ¬ l.IsVector n := not_isVector_of_isZero hl
    tauto
  | addZero hr | subZero hr =>
    have hnot : ¬ r.IsVector n := not_isVector_of_isZero hr
    tauto
  | zeroSub hl =>
    have hnot : ¬ l.IsVector n := not_isVector_of_isZero hl
    rw [neg, isVector_mul_iff (isScalar_number _)]
    tauto
  | kept htidy =>
    have hzero : l.isZero = false ∧ r.isZero = false := by
      cases op <;> simp_all [isTidy]
    rw [isVector_sum_iff hop, hzero.1, hzero.2]
    tauto
  | zeroMul | mulZero | oneMul | mulOne | joined => exact absurd rfl hop

theorem CleansTo.isVector_scaled (h : CleansTo .mul s v x) (hs : s.IsScalar)
    (hv : v.isTuple → v.IsVector n) :
    x.IsVector n ↔ v.IsVector n ∧ (s.isZero → v.isTuple) := by
  cases h with
  | folded a b =>
    exact iff_of_false (isScalar_number _).not_isVector fun h =>
      (isScalar_number _).not_isVector h.1
  | zeroMul hzero => rw [isVector_zeroLike_iff hv, forall_prop_of_true hzero]
  | mulZero hzero =>
    exact iff_of_false (isScalar_zeroLike hs).not_isVector fun h => not_isVector_of_isZero hzero h.1
  | oneMul _ hzero => simp [hzero]
  | mulOne hone => exact iff_of_false hs.not_isVector fun h => not_isVector_of_isOne hone h.1
  | joined a y b =>
    have hscalar : (mul (number (a * b)) y).IsScalar :=
      madeOf_arith.2 ⟨isScalar_number _, (madeOf_arith.1 hs).2⟩
    exact iff_of_false hscalar.not_isVector fun h => (isScalar_number b).not_isVector h.1
  | kept _ hidle =>
    rw [isVector_mul_iff hs, (Bool.or_eq_false_iff.1 hidle).1]
    simp

theorem CleansTo.isVector_scaledRight (h : CleansTo .mul v s x) (hs : s.IsScalar)
    (hv : v.isTuple → v.IsVector n) :
    x.IsVector n ↔ v.IsVector n ∧ (s.isZero → v.isTuple) := by
  cases h with
  | folded a b =>
    exact iff_of_false (isScalar_number _).not_isVector fun h =>
      (isScalar_number _).not_isVector h.1
  | zeroMul hzero =>
    exact iff_of_false (isScalar_zeroLike hs).not_isVector fun h => not_isVector_of_isZero hzero h.1
  | mulZero hzero => rw [isVector_zeroLike_iff hv, forall_prop_of_true hzero]
  | oneMul hone => exact iff_of_false hs.not_isVector fun h => not_isVector_of_isOne hone h.1
  | mulOne _ hzero => simp [hzero]
  | joined a y b hzero =>
    rw [isVector_mul_iff (isScalar_number _), isVector_mul_iff (isScalar_number _), hzero]
    simp
  | kept htidy =>
    have hzero : s.isZero = false := by simp_all [isTidy]
    rw [isVector_mul_right_iff hs, hzero]
    simp

end Steps

section Keeps

variable [Zero κ] [One κ] [Neg κ] [Add κ] [Sub κ] [Mul κ] [BEq κ]

/-- Components are kept: those of a tuple always; those of a scaled vector if it keeps its own, and
is a tuple by then if the factor has become zero; and those of a sum if both operands keep theirs,
or one does and the other has become zero. -/
def KeepsShape : Expr κ → Prop
  | .mul l r =>
    l.IsScalar ∧ r.KeepsShape ∧ (l.simplify.isZero → r.simplify.isTuple) ∨
      r.IsScalar ∧ l.KeepsShape ∧ (r.simplify.isZero → l.simplify.isTuple)
  | .arith _ l r =>
    (l.KeepsShape ∨ l.simplify.isZero) ∧ (r.KeepsShape ∨ r.simplify.isZero) ∧
      (l.KeepsShape ∨ r.KeepsShape)
  | .node h _ => h = .tuple
  | .leaf _ => False

variable {n : Nat} {e s v : Expr κ}

theorem isScalar_simplify (hs : s.IsScalar) : s.simplify.IsScalar :=
  madeOf_simplify (fun _ => rfl) hs

theorem isVector_simplify_tuple {items : List (Expr κ)} (hn : items.length = n)
    (hs : ∀ e ∈ items, e.IsScalar) : (tuple items).simplify.IsVector n := by
  rw [simplify_node]
  refine .tuple (by simpa using hn) fun x hx => ?_
  obtain ⟨e, he, rfl⟩ := List.mem_map.1 hx
  exact isScalar_simplify (hs e he)

theorem isVector_of_isTuple_simplify (hv : v.IsVector n) :
    v.simplify.isTuple → v.simplify.IsVector n := by
  induction hv with
  | tuple hn hs => exact fun _ => isVector_simplify_tuple hn hs
  | @sum op l r _ _ _ hl hr =>
    exact (cleansTo_cleanArith op l.simplify r.simplify).isVector_of_isTuple hl hr
  | @scaled s v hs _ hv =>
    exact (cleansTo_cleanMul s.simplify v.simplify).isVector_of_isTuple
      (fun htuple => absurd htuple (isScalar_simplify hs).not_isTuple) hv
  | @scaledRight v s _ hs hv =>
    exact (cleansTo_cleanMul v.simplify s.simplify).isVector_of_isTuple hv
      (fun htuple => absurd htuple (isScalar_simplify hs).not_isTuple)

theorem isVector_simplify (hv : v.IsVector n) : v.simplify.IsVector n ↔ v.KeepsShape := by
  induction hv with
  | tuple hn hs => exact iff_of_true (isVector_simplify_tuple hn hs) rfl
  | @sum op l r hop _ _ hl hr =>
    have hsum := (cleansTo_cleanArith op l.simplify r.simplify).isVector_sum (n := n) hop
    rw [simplify_arith, hsum, hl, hr]
    cases op with
    | mul => exact absurd rfl hop
    | _ => rfl
  | @scaled s v hs hv ih =>
    have hscaled := (cleansTo_cleanMul s.simplify v.simplify).isVector_scaled
      (isScalar_simplify hs) (isVector_of_isTuple_simplify hv)
    have hvector : ¬ v.IsScalar := hv.not_isScalar
    rw [simplify_arith, cleanArith, hscaled, ih, KeepsShape]
    tauto
  | @scaledRight v s hv hs ih =>
    have hscaled := (cleansTo_cleanMul v.simplify s.simplify).isVector_scaledRight
      (isScalar_simplify hs) (isVector_of_isTuple_simplify hv)
    have hvector : ¬ v.IsScalar := hv.not_isScalar
    rw [simplify_arith, cleanArith, hscaled, ih, KeepsShape]
    tauto

/-- A simplified vector is again a vector with as many components, and not a scalar, exactly when no
zero factor has taken the place of its components. -/
theorem isVector_simplify_iff (hv : v.IsVector n) :
    v.simplify.IsVector n ∧ ¬ v.simplify.IsScalar ↔ v.KeepsShape := by
  rw [← isVector_simplify hv]
  exact and_iff_left_of_imp IsVector.not_isScalar

end Keeps

section Vanished

def planeTuple : Expr Float := .tuple [.symbol "x", .symbol "y"]

def vanished : Expr Float := .mul (.number 0) (.add planeTuple planeTuple)

def restored : Expr Float := .add vanished planeTuple

theorem isVector_simplify_iff_vanished :
    vanished.IsVector 2 ∧ vanished.simplify = .number 0 ∧ ¬ vanished.KeepsShape ∧
      restored.IsVector 2 ∧ restored.simplify = planeTuple ∧ restored.KeepsShape := by
  have hplane : planeTuple.IsVector 2 :=
    .tuple rfl (by simp [IsScalar, madeOf_leaf, Leaf.function?])
  have hvanished : vanished.IsVector 2 :=
    .scaled (isScalar_number 0) (.sum (by simp) hplane hplane)
  have hrestored : restored.IsVector 2 := .sum (by simp) hvanished hplane
  have hequal : ((0 : Float) == 0) = true := by decide
  have hzero : vanished.simplify = .number 0 := by
    have hsum : (Expr.add planeTuple planeTuple).simplify = .add planeTuple planeTuple := by
      simp [planeTuple, cleanArith, cleanAdd, isZero]
    rw [vanished, simplify_arith, hsum]
    simp [cleanArith, cleanMul, hequal, zeroLike]
  have hplain : restored.simplify = planeTuple := by
    rw [restored, simplify_arith, hzero, planeTuple, simplify_node]
    simp [cleanArith, cleanAdd, isZero, hequal]
  refine ⟨hvanished, hzero, fun h => ?_, hrestored, hplain, ?_⟩
  · have hkept := (isVector_simplify_iff hvanished).2 h
    rw [hzero] at hkept
    exact hkept.2 (isScalar_number 0)
  · refine (isVector_simplify_iff hrestored).1 ?_
    rw [hplain]
    exact ⟨hplane, hplane.not_isScalar⟩

end Vanished

end Expr

end VariationalForms
