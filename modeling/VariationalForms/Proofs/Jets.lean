import Mathlib.Algebra.MvPolynomial.Derivation
import Mathlib.RingTheory.Derivation.Lie
import VariationalForms.Proofs.Flattening
import VariationalForms.Proofs.Reading

/-! Flat symbols as the variables of a polynomial ring.
For every leaf and every multiset of axes there is one variable, and a derivation along an axis adds
that axis to the multiset, so the derivations commute. Since a flat symbol depends on the multiset
alone, whatever the flat symbols stand for is an evaluation of these polynomials
(`Expr.value_flattened`).
-/

set_option autoImplicit false

namespace VariationalForms

universe u

open MvPolynomial

/-- Polynomials in the derivatives of leaves, of every order. -/
abbrev Jets (κ : Type) (R : Type u) [CommRing R] : Type u := MvPolynomial (Leaf κ × Multiset Axis) R

namespace Jets

variable {κ : Type} {R : Type u} [CommRing R]

noncomputable instance : Module R (Jets κ R) := Algebra.toModule

noncomputable def derivation (a : Axis) : Derivation R (Jets κ R) (Jets κ R) :=
  mkDerivation R fun v => X (v.1, a ::ₘ v.2)

theorem derivation_X (a : Axis) (l : Leaf κ) (m : Multiset Axis) :
    derivation a (X (l, m) : Jets κ R) = X (l, a ::ₘ m) :=
  mkDerivation_X ..

theorem derivation_comm (a b : Axis) (p : Jets κ R) :
    derivation a (derivation b p) = derivation b (derivation a p) := by
  -- The commutator is a derivation, so it vanishes once it does on the variables.
  have hzero : ⁅(derivation a : Derivation R (Jets κ R) (Jets κ R)),
      (derivation b : Derivation R (Jets κ R) (Jets κ R))⁆ = 0 := by
    ext v
    rw [Derivation.commutator_apply, derivation_X, derivation_X, derivation_X, derivation_X,
      Multiset.cons_swap, sub_self]
    rfl
  have h : derivation a (derivation b p) - derivation b (derivation a p) = 0 := by
    rw [← Derivation.commutator_apply, hzero]
    rfl
  exact sub_eq_zero.1 h

noncomputable def reading (ρ : Leaf κ → R) : Reading κ (Jets κ R) where
  leaf l := if (Expr.leaf l).isConstant then C (ρ l) else X (l, 0)
  node
    | .derivative a, [p] => derivation a p
    | _, _ => 0

variable {ρ : Leaf κ → R}

theorem value_constant {l : Leaf κ} (hl : (Expr.leaf l).isConstant) :
    (reading ρ).value (.leaf l) = C (ρ l) :=
  if_pos hl

theorem value_of_isConstant {c : Expr κ} (hc : c.isConstant) :
    ∃ x : R, (reading ρ).value c = C x := by
  unfold Expr.isConstant at hc
  split at hc
  case h_1 c => exact ⟨_, value_constant rfl⟩
  case h_2 s => exact ⟨_, value_constant rfl⟩
  case h_3 => cases hc

theorem reading_isDifferential [Zero κ] (hρ : ρ (.number 0) = 0) :
    (reading ρ).IsDifferential fun a => derivation a where
  add_assoc := add_assoc
  mul_add := mul_add
  add a := map_add _
  sub a := map_sub _
  mul a x y := by
    rw [Derivation.leibniz, smul_eq_mul, smul_eq_mul, mul_comm y, add_comm]
  constant a c hc := by
    obtain ⟨x, hx⟩ := value_of_isConstant (ρ := ρ) hc
    rw [hx, derivation_C]
    change 0 = C (ρ (.number 0))
    rw [hρ, C_0]
  constant_mul a c x hc := by
    obtain ⟨y, hy⟩ := value_of_isConstant (ρ := ρ) hc
    rw [hy, Derivation.leibniz, derivation_C, smul_zero, add_zero, smul_eq_mul]
  constant_zero c hc := by
    change (reading ρ).value c * C (ρ (.number 0)) = C (ρ (.number 0))
    rw [hρ, C_0, mul_zero]
  tuple a xs := map_zero _
  derivative a x := rfl

theorem value_derivedLeaf {l : Leaf κ} (hl : (Expr.leaf l).isConstant = false) (axes : List Axis) :
    (reading ρ).value (Expr.derivedLeaf axes l) = X (l, ↑axes) := by
  induction axes with
  | nil => exact if_neg (by simp [hl])
  | cons a axes ih =>
    rw [Expr.derivedLeaf_cons, Reading.value_node, List.map_singleton, ih]
    exact derivation_X a l ↑axes

variable [NumberText κ]

/-- What the polynomials are worth when the variables stand for flat symbols. -/
noncomputable def evaluate (names : BasisNames) (M : Reading κ R) : Jets κ R →+* R :=
  eval₂Hom (RingHom.id R) fun v => M.value ((Expr.derivedLeaf v.2.toList v.1).flattened names)

end Jets

namespace Expr

/-- Sums and products of leaves and of chains of derivatives of leaves that vary. -/
inductive IsJet {κ : Type} : Expr κ → Prop
  | leaf (l : Leaf κ) : IsJet (.leaf l)
  | arith (op : Arith) {l r : Expr κ} : IsJet l → IsJet r → IsJet (.arith op l r)
  | derived (a : Axis) (axes : List Axis) {l : Leaf κ} :
    (Expr.leaf l).isConstant = false → IsJet (derivedLeaf (a :: axes) l)

variable {κ : Type} {e : Expr κ}

theorem IsJet.derive [Zero κ] (he : e.IsJet) (a : Axis) : (derive a e).IsJet := by
  have hfactors : ∀ f ∈ derivedFactors a e,
      f.1.IsJet ∧ (f.1.isConstant = false → f.2.IsJet) := by
    induction he with
    | leaf l =>
      intro f hf
      cases List.mem_singleton.1 hf
      exact ⟨.leaf l, .derived a []⟩
    | arith op hl hr ihl ihr =>
      intro f hf
      have hdl := leibniz_induct (.leaf _) (fun _ _ => .arith .add) (fun _ _ => .arith .mul) ihl
      have hdr := leibniz_induct (.leaf _) (fun _ _ => .arith .add) (fun _ _ => .arith .mul) ihr
      cases op with
      | add =>
        cases List.mem_singleton.1 hf
        exact ⟨.arith .add hl hr, fun _ => .arith .add hdl hdr⟩
      | sub =>
        cases List.mem_singleton.1 hf
        exact ⟨.arith .sub hl hr, fun _ => .arith .sub hdl hdr⟩
      | mul => exact (List.mem_append.1 hf).elim (ihl f) (ihr f)
    | derived b axes hl =>
      intro f hf
      cases List.mem_singleton.1 hf
      exact ⟨.derived b axes hl, fun _ => .derived a (b :: axes) hl⟩
  exact leibniz_induct (.leaf _) (fun _ _ => .arith .add) (fun _ _ => .arith .mul) hfactors

variable [NumberText κ] {names : BasisNames}

theorem IsJet.exists_flatSymbol (he : e.IsJet) :
    ∀ n ∈ e.nodes, n.isDerivative → ∃ s, n.flatSymbol names = .ok s := by
  induction he with
  | leaf l => exact forall_mem_nodes.2 ⟨by simp [isDerivative], by simp [children]⟩
  | arith op hl hr ihl ihr => exact (forall_nodes_arith (by simp [isDerivative])).2 ⟨ihl, ihr⟩
  | derived a axes hl =>
    intro n hn _
    obtain ⟨axes', rfl⟩ := mem_nodes_derivedLeaf hn
    exact ⟨_, flatSymbol_derivedLeaf hl axes'⟩

section Evaluate

variable {R : Type u} [CommRing R] (M : Reading κ R)

theorem value_flattened_derivedLeaf {l : Leaf κ} (hl : (Expr.leaf l).isConstant = false)
    (axes : List Axis) :
    M.value ((derivedLeaf axes l).flattened names) =
      Jets.evaluate names M (MvPolynomial.X (l, ↑axes)) := by
  have hperm : axes.Perm (↑axes : Multiset Axis).toList :=
    Multiset.coe_eq_coe.1 (Multiset.coe_toList _).symm
  rw [Jets.evaluate, MvPolynomial.coe_eval₂Hom, MvPolynomial.eval₂_X,
    flattened_derivedLeaf_perm hl hperm]

/-- An integrand of this form is worth, once it is flattened, what its polynomial is worth. -/
theorem IsJet.value_flattened (he : e.IsJet) :
    M.value (e.flattened names) = Jets.evaluate names M
      ((Jets.reading fun l => M.value ((Expr.leaf l).flattened names)).value e) := by
  induction he with
  | leaf l =>
    cases hl : (Expr.leaf l).isConstant with
    | true =>
      rw [Jets.value_constant hl, Jets.evaluate, MvPolynomial.coe_eval₂Hom, MvPolynomial.eval₂_C]
      rfl
    | false =>
      refine (value_flattened_derivedLeaf M hl []).trans ?_
      rw [← Jets.value_derivedLeaf hl []]
      rfl
  | arith op hl hr ihl ihr =>
    rw [flattened_arith, Reading.value_arith, Reading.value_arith, ihl, ihr]
    cases op <;> simp [Arith.of]
  | derived a axes hl =>
    rw [Jets.value_derivedLeaf hl]
    exact value_flattened_derivedLeaf M hl (a :: axes)

end Evaluate

end Expr

end VariationalForms
