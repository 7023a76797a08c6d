import VariationalForms.Expr.Numerals
import VariationalForms.Proofs.Flattening
import VariationalForms.Proofs.Occurrence

/-! Normal integrands are flat.
When every space of a function has a basis name and no component is out of range, normalizing leaves
no generic operator, no derivative, no function and no component behind, on either way through it
(`Normalization.form_flat`).
-/

set_option autoImplicit false

namespace VariationalForms

variable {κ : Type}

/-- A function with a basis name for its space, or a component of one that is in range. -/
def Leaf.NamedBy (names : BasisNames) : Leaf κ → Prop
  | .function f => (names.find? f.space).isSome
  | .component f i => (names.find? f.space).isSome ∧ i < f.space.shape?.getD 0
  | _ => True

theorem leafClosed_namedBy [Zero κ] (names : BasisNames) :
    LeafClosed (Leaf.NamedBy (κ := κ) names) where
  zero := trivial
  component _ hf _ hi := ⟨hf, hi⟩

def Leaf.Flat (l : Leaf κ) : Prop := l.function? = none

/-- A head that normalizing leaves in place. -/
def Head.Flat (h : Head) : Prop := h.Resolved ∧ ∀ a, h ≠ .derivative a

namespace Expr

section Flattened

variable [NumberText κ] {names : BasisNames}

theorem madeOf_flattened_leaf {l : Leaf κ} (hl : l.NamedBy names) :
    ((leaf l).flattened names).MadeOf Leaf.Flat Head.Flat := by
  rw [flattened_leaf]
  cases l with
  | function f =>
    obtain ⟨name, hname⟩ := Option.isSome_iff_exists.1 hl
    rw [basisSymbol?, hname]
    exact madeOf_leaf.2 rfl
  | component f i =>
    obtain ⟨name, hname⟩ := Option.isSome_iff_exists.1 hl.1
    rw [basisSymbol?, if_pos hl.2, hname]
    exact madeOf_leaf.2 rfl
  | _ => exact madeOf_leaf.2 rfl

theorem madeOf_flattened {e : Expr κ} (he : e.MadeOf (Leaf.NamedBy names) Head.Resolved)
    (hok : ∀ n ∈ e.nodes, n.isDerivative → ∃ s, n.flatSymbol names = .ok s) :
    (e.flattened names).MadeOf Leaf.Flat Head.Flat := by
  induction e with
  | leaf l => exact madeOf_flattened_leaf (madeOf_leaf.1 he)
  | arith op l r hl hr =>
    obtain ⟨hel, her⟩ := madeOf_arith.1 he
    have hnodes := (forall_mem_nodes.1 hok).2
    rw [flattened_arith]
    exact madeOf_arith.2
      ⟨hl hel (hnodes l (by simp [children])), hr her (hnodes r (by simp [children]))⟩
  | node h args ih =>
    obtain ⟨hh, hargs⟩ := madeOf_node.1 he
    obtain ⟨hself, hnodes⟩ := forall_mem_nodes.1 hok
    by_cases hd : ∃ a, h = .derivative a
    · obtain ⟨a, rfl⟩ := hd
      obtain ⟨s, hs⟩ := hself rfl
      rw [flattened_derivative rfl hs]
      exact madeOf_leaf.2 rfl
    · have hd : ∀ a, h ≠ .derivative a := fun a ha => hd ⟨a, ha⟩
      rw [flattened_node hd]
      refine madeOf_node.2 ⟨⟨hh, hd⟩, fun x hx => ?_⟩
      obtain ⟨e, hmem, rfl⟩ := List.mem_map.1 hx
      exact ih e hmem (hargs e hmem) (hnodes e hmem)

end Flattened

section Simplify

variable [Zero κ] {p : Leaf κ → Prop} {q : Head → Prop} {l r e : Expr κ}

theorem madeOf_zeroLike (hp : ∀ c, p (.number c)) (he : e.MadeOf p q) :
    e.zeroLike.MadeOf p q := by
  unfold zeroLike
  split
  · refine madeOf_node.2 ⟨(madeOf_node.1 he).1, fun x hx => ?_⟩
    obtain ⟨-, -, rfl⟩ := List.mem_map.1 hx
    exact madeOf_leaf.2 (hp 0)
  · exact madeOf_leaf.2 (hp 0)

variable [One κ] [Neg κ] [Add κ] [Sub κ] [Mul κ] [BEq κ]

theorem madeOf_of_cleansTo {op : Arith} {x : Expr κ} (hp : ∀ c, p (.number c))
    (hx : CleansTo op l r x) (hl : l.MadeOf p q) (hr : r.MadeOf p q) : x.MadeOf p q := by
  cases hx with
  | folded => exact madeOf_leaf.2 (hp _)
  | zeroMul => exact madeOf_zeroLike hp hr
  | mulZero => exact madeOf_zeroLike hp hl
  | zeroSub => exact madeOf_arith.2 ⟨madeOf_leaf.2 (hp _), hr⟩
  | joined => exact madeOf_arith.2 ⟨madeOf_leaf.2 (hp _), (madeOf_arith.1 hl).2⟩
  | kept => exact madeOf_arith.2 ⟨hl, hr⟩
  | zeroAdd | oneMul => exact hr
  | addZero | subZero | mulOne => exact hl

theorem madeOf_simplify (hp : ∀ c, p (.number c)) (he : e.MadeOf p q) :
    e.simplify.MadeOf p q := by
  induction e with
  | leaf l => exact he
  | arith op l r ihl ihr =>
    obtain ⟨hl, hr⟩ := madeOf_arith.1 he
    rw [simplify_arith]
    exact madeOf_of_cleansTo hp (cleansTo_cleanArith op _ _) (ihl hl) (ihr hr)
  | node h args ih =>
    obtain ⟨hh, hargs⟩ := madeOf_node.1 he
    rw [simplify_node]
    refine madeOf_node.2 ⟨hh, fun x hx => ?_⟩
    obtain ⟨e, hmem, rfl⟩ := List.mem_map.1 hx
    exact ih e hmem (hargs e hmem)

end Simplify

theorem resolved_of_not_containsGeneric {p : Leaf κ → Prop} {e : Expr κ}
    (hg : e.containsGeneric = false) (he : e.MadeOf p fun _ => True) :
    e.MadeOf p Head.Resolved := by
  intro n hn
  have hroot := he n hn
  cases n with
  | leaf l => exact hroot
  | arith op l r => trivial
  | node h args =>
    intro o ho
    cases ho
    cases containsGeneric_eq_false_iff_nodes.1 hg _ hn

theorem madeOf_namedBy {names : BasisNames} {e : Expr κ}
    (hn : ∀ f ∈ e.functions, (names.find? f.space).isSome)
    (hc : ∀ f i, .component f i ∈ e.nodes → i < f.space.shape?.getD 0) :
    e.MadeOf (Leaf.NamedBy names) fun _ => True := by
  intro m hm
  cases m with
  | leaf l =>
    cases l with
    | function f => exact hn f (mem_functions.2 ⟨_, hm, rfl⟩)
    | component f i => exact ⟨hn f (mem_functions.2 ⟨_, hm, rfl⟩), hc f i hm⟩
    | _ => trivial
  | _ => trivial

theorem resolve_eq_ok [Zero κ] [One κ] [NumberText κ] {cs : Coefficients} {e x : Expr κ}
    (h : e.resolve cs = .ok x) (hg : e.containsGeneric) : ∃ d, e.resolveIn cs d = .ok x := by
  simp only [resolve, bind_eq_ok_iff] at h
  obtain ⟨-, -, h⟩ := h
  rw [hg] at h
  obtain ⟨d, -, hd⟩ := bind_eq_ok_iff.1 h
  exact ⟨d, hd⟩

end Expr

namespace Normalization

variable [Zero κ] [One κ] [Neg κ] [Add κ] [Sub κ] [Mul κ] [BEq κ] [NumberText κ]
  {n : Normalization} {e x : Expr κ}

theorem flatten_eq_ok_iff :
    n.flatten e = .ok x ↔
      (∀ m ∈ e.nodes, m.isDerivative → ∃ s, m.flatSymbol n.names = .ok s) ∧
        (if n.simplify then (e.flattened n.names).simplify else e.flattened n.names) = x := by
  simp only [flatten, bind_eq_ok_iff, pure_eq_ok_iff, Expr.flatten_eq_ok_iff]
  constructor
  · rintro ⟨flat, ⟨hok, rfl⟩, hx⟩
    exact ⟨hok, hx⟩
  · rintro ⟨hok, hx⟩
    exact ⟨_, ⟨hok, rfl⟩, hx⟩

theorem madeOf_flatten (h : n.flatten e = .ok x)
    (he : e.MadeOf (Leaf.NamedBy n.names) Head.Resolved) : x.MadeOf Leaf.Flat Head.Flat := by
  obtain ⟨hok, rfl⟩ := flatten_eq_ok_iff.1 h
  have hflat := Expr.madeOf_flattened he hok
  split
  · exact Expr.madeOf_simplify (fun _ => rfl) hflat
  · exact hflat

theorem madeOf_term (h : n.term e = .ok x) (he : e.MadeOf (Leaf.NamedBy n.names) fun _ => True) :
    x.MadeOf Leaf.Flat Head.Flat := by
  rw [term] at h
  split at h
  case isTrue hg =>
    obtain ⟨y, hy, hx⟩ := bind_eq_ok_iff.1 h
    obtain ⟨d, hd⟩ := Expr.resolve_eq_ok hy hg
    exact madeOf_flatten hx (Expr.madeOf_resolveIn (leafClosed_namedBy _) hd he)
  case isFalse hg =>
    obtain ⟨y, hy, hx⟩ := bind_eq_ok_iff.1 h
    cases hy
    exact madeOf_flatten hx (Expr.resolved_of_not_containsGeneric (by simpa using hg) he)

theorem madeOf_expr (h : n.expr e = .ok x) (he : e.MadeOf (Leaf.NamedBy n.names) fun _ => True) :
    x.MadeOf Leaf.Flat Head.Flat := by
  refine Coefficients.madeOf_distribute (fun l hc _ => ?_) (fun _ _ => madeOf_term) h he
  cases l <;> first | rfl | cases hc

theorem madeOf_form {w w' : WeakForm κ} (h : n.form w = .ok w')
    (hw : w.integrand.MadeOf (Leaf.NamedBy n.names) fun _ => True) :
    w'.integrand.MadeOf Leaf.Flat Head.Flat := by
  cases w with
  | linear l => cases h
  | bilinear a =>
    obtain ⟨b, hb, h⟩ := bind_eq_ok_iff.1 h
    obtain ⟨x, hx, h⟩ := bind_eq_ok_iff.1 h
    obtain ⟨d, -, hb⟩ := bind_eq_ok_iff.1 hb
    obtain ⟨y, hy, hb⟩ := bind_eq_ok_iff.1 hb
    cases h
    cases hb
    exact madeOf_flatten hx (Expr.madeOf_resolveIn (leafClosed_namedBy _) hy hw)
  | raw e =>
    obtain ⟨-, -, h⟩ := bind_eq_ok_iff.1 h
    obtain ⟨x, hx, h⟩ := bind_eq_ok_iff.1 h
    cases h
    exact madeOf_expr hx hw

/-- Normalizing leaves no generic operator, no derivative, no function and no component. -/
theorem form_flat {w w' : WeakForm κ} (h : n.form w = .ok w')
    (hn : ∀ f ∈ w.integrand.functions, (n.names.find? f.space).isSome)
    (hc : ∀ f i, .component f i ∈ w.integrand.nodes → i < f.space.shape?.getD 0) :
    ∀ m ∈ w'.integrand.nodes,
      m.generic? = none ∧ m.isDerivative = false ∧ m.function? = none := by
  intro m hm
  have hroot := madeOf_form h (Expr.madeOf_namedBy hn hc) m hm
  cases m with
  | leaf l => exact ⟨rfl, rfl, hroot⟩
  | arith op l r => exact ⟨rfl, rfl, rfl⟩
  | node k args =>
    obtain ⟨hgeneric, hderivative⟩ := hroot
    cases k with
    | generic o => exact absurd rfl (hgeneric o)
    | derivative a => exact absurd rfl (hderivative a)
    | _ => exact ⟨rfl, rfl, rfl⟩

def gridSpace : Space := ⟨"V", 0, 2, .vector 2⟩

def gridVelocity : Argument := ⟨"u", .trial, gridSpace⟩

def gridTest : Argument := ⟨"v", .test, gridSpace⟩

def gridNormalization : Normalization := ⟨.standard, .ofList [(gridSpace, "phi")], true⟩

/-- A multiple of the divergence, tested against one component. -/
def pressureTerm : BilinearForm Float where
  integrand := .mul (.generic .div [.function gridVelocity]) (.component gridTest 1)
  spaces := ⟨some gridSpace, some gridSpace, by simp⟩

def resolvedPressureTerm : BilinearForm Float :=
  pressureTerm.withIntegrand (.mul
    (.add (.derivative .x [.component gridVelocity 0]) (.derivative .y [.component gridVelocity 1]))
    (.component gridTest 1))

def flatPressureTerm : BilinearForm Float :=
  pressureTerm.withIntegrand (.mul (.add (.symbol "phi_x[0]") (.symbol "phi_y[1]"))
    (.symbol "phi[1]"))

/-- The same term next to one without generic operators, with no form around them. -/
def dampedPressure : Expr Float :=
  .sub pressureTerm.integrand (.mul (.field "nu") (.derivative .x [.component gridTest 0]))

def flatDampedPressure : Expr Float :=
  .sub flatPressureTerm.integrand (.mul (.field "nu") (.symbol "phi_x[0]"))

theorem flatten_resolvedPressureTerm :
    gridNormalization.flatten resolvedPressureTerm.integrand =
      .ok flatPressureTerm.integrand := by
  refine flatten_eq_ok_iff.2 ⟨fun m hm hd => ?_, by with_unfolding_all rfl⟩
  simp [resolvedPressureTerm, BilinearForm.withIntegrand, Expr.nodes_eq, Expr.children] at hm
  rcases hm with rfl | rfl | rfl | rfl | rfl | rfl | rfl
  · cases hd
  · cases hd
  · exact ⟨_, Expr.flatSymbol_derivedLeaf rfl [.x]⟩
  · cases hd
  · exact ⟨_, Expr.flatSymbol_derivedLeaf rfl [.y]⟩
  · cases hd
  · cases hd

theorem form_pressureTerm :
    gridNormalization.form (.bilinear pressureTerm) = .ok (.bilinear flatPressureTerm) :=
  bind_eq_ok_iff.2 ⟨resolvedPressureTerm, by with_unfolding_all rfl,
    bind_eq_ok_iff.2 ⟨_, flatten_resolvedPressureTerm, rfl⟩⟩

theorem form_dampedPressure :
    gridNormalization.form (.raw dampedPressure) = .ok (.raw flatDampedPressure) := by
  have hpressure : gridNormalization.term pressureTerm.integrand =
      .ok flatPressureTerm.integrand := by
    rw [term, if_pos (by with_unfolding_all rfl)]
    exact bind_eq_ok_iff.2 ⟨_, by with_unfolding_all rfl, flatten_resolvedPressureTerm⟩
  have hslope : gridNormalization.term (.derivative .x [.component gridTest 0] : Expr Float) =
      .ok (.symbol "phi_x[0]") := by
    rw [term, if_neg (by with_unfolding_all exact Bool.false_ne_true)]
    refine flatten_eq_ok_iff.2 ⟨fun m hm hd => ?_, by with_unfolding_all rfl⟩
    simp [Expr.nodes_eq, Expr.children] at hm
    rcases hm with rfl | rfl
    · exact ⟨_, Expr.flatSymbol_derivedLeaf rfl [.x]⟩
    · cases hd
  refine bind_eq_ok_iff.2 ⟨(), rfl, bind_eq_ok_iff.2 ⟨flatDampedPressure, ?_, rfl⟩⟩
  refine (Coefficients.distribute_arith_eq_ok_iff (by decide)).2 ⟨_, _, ?_, ?_, rfl⟩
  · exact Coefficients.onOperands_eq_ok_iff.2 (.inr (.inr ⟨rfl, _, rfl, hpressure⟩))
  · exact Coefficients.onOperands_eq_ok_iff.2 (.inl ⟨_, _, _, rfl, rfl, hslope, rfl⟩)

theorem form_flat_pressureTerm :
    (gridNormalization.form (.bilinear pressureTerm) = .ok (.bilinear flatPressureTerm) ∧
      ∀ m ∈ flatPressureTerm.integrand.nodes,
        m.generic? = none ∧ m.isDerivative = false ∧ m.function? = none) ∧
    gridNormalization.form (.raw dampedPressure) = .ok (.raw flatDampedPressure) ∧
      ∀ m ∈ flatDampedPressure.nodes,
        m.generic? = none ∧ m.isDerivative = false ∧ m.function? = none := by
  have hpressure : pressureTerm.integrand.functions = [gridVelocity, gridTest] := by
    with_unfolding_all rfl
  have hdamped : dampedPressure.functions = [gridVelocity, gridTest] := by
    with_unfolding_all rfl
  have hspace : ∀ f ∈ [gridVelocity, gridTest], f.space = gridSpace := by
    simp [gridVelocity, gridTest]
  have hnamed : (gridNormalization.names.find? gridSpace).isSome := rfl
  refine ⟨⟨form_pressureTerm, form_flat form_pressureTerm (fun f hf => ?_) fun f i hi => ?_⟩,
    form_dampedPressure, form_flat form_dampedPressure (fun f hf => ?_) fun f i hi => ?_⟩
  · rw [WeakForm.integrand, hpressure] at hf
    rwa [hspace f hf]
  · simp [WeakForm.integrand, pressureTerm, Expr.nodes_eq, Expr.children] at hi
    obtain ⟨rfl, rfl⟩ := hi
    decide
  · rw [WeakForm.integrand, hdamped] at hf
    rwa [hspace f hf]
  · simp [WeakForm.integrand, dampedPressure, pressureTerm, Expr.nodes_eq, Expr.children] at hi
    rcases hi with ⟨rfl, rfl⟩ | ⟨rfl, rfl⟩ <;> decide

end Normalization

end VariationalForms
