import VariationalForms.Proofs.Agreement

/-! Coefficients in front of an integrand.
An integrand behind a coefficient is one operand: it is resolved as a whole, and the products in it
keep their order. Standing alone it is arranged as well. So a coefficient can be drawn out when the
integrand is arranged, and the meaning is the same in any case (`Expr.resolveIn_scaled`).
-/

set_option autoImplicit false

namespace VariationalForms

universe u

variable {κ : Type}

namespace Expr

section Term

variable [Zero κ] [One κ] {cs : Coefficients} {d : Nat} {e : Expr κ}

/-- Instead of distributing, one may arrange and resolve the whole as one term. -/
theorem resolveIn_eq_ok_iff_arrange {x : Expr κ} :
    e.resolveIn cs d = .ok x ↔ resolveTerm d (cs.arrange e) = .ok x :=
  (isCompositional_resolveTerm d).distribute_eq_ok_iff (g := id)

section Value

variable {V : Type u} [Add V] [Sub V] [CommMonoid V] (M : Reading κ V)

theorem value_resolveTerm_arrange (cs : Coefficients) (d : Nat) (e : Expr κ) :
    (resolveTerm d (cs.arrange e)).toOption.map M.value =
      (resolveTerm d e).toOption.map M.value :=
  ((isCompositional_resolveTerm d).isArithmetical M).mapTerms fun _ _ => rfl

end Value

theorem exists_resolveTerm_iff :
    (∃ y, resolveTerm d e = .ok y) ↔ ∃ r, e.resolveIn cs d = .ok r := by
  simp only [resolveIn_eq_ok_iff_arrange]
  exact (exists_ok_iff_of_value
    (value_resolveTerm_arrange ⟨fun _ => 1, fun _ _ => 1⟩ (V := Nat) cs d e)).symm

theorem value_of_resolveTerm {V : Type u} [Add V] [Sub V] [CommMonoid V] (M : Reading κ V)
    {y r : Expr κ} (hy : resolveTerm d e = .ok y) (hr : e.resolveIn cs d = .ok r) :
    M.value y = M.value r := by
  have h := value_resolveTerm_arrange M cs d e
  rw [resolveIn_eq_ok_iff_arrange.1 hr, hy] at h
  exact (Option.some.inj h).symm

theorem resolveTerm_eq_iff_of_resolved {y r : Expr κ} (he : e.containsGeneric = false)
    (hy : resolveTerm d e = .ok y) (hr : e.resolveIn cs d = .ok r) :
    y = r ↔ cs.isArranged e := by
  have hmade := containsGeneric_eq_false_iff.1 he
  rw [resolveTerm_of_resolved hmade] at hy
  rw [resolveIn_of_resolved hmade] at hr
  cases hy
  cases hr
  rw [eq_comm, Coefficients.arrange_eq_self_iff]

end Term

section Scaled

variable {cs : Coefficients} {c e : Expr κ}

theorem not_isProduct_of_isCoefficient (hc : cs.isCoefficient c) : c.isProduct = false := by
  obtain ⟨k, hk, -⟩ := (Option.any_eq_true _ _).1 hc
  rcases CoefficientKind.of?_cases (e := c) (by rw [hk]; rfl) with ⟨x, rfl⟩ | ⟨s, rfl⟩ | ⟨s, rfl⟩ <;>
    rfl

variable [Zero κ] [One κ]

theorem resolveIn_mul (hc : cs.isCoefficient c) (he : e.isProduct = false) (d : Nat) :
    (mul c e).resolveIn cs d = (resolveTerm d e).map (mul c) := by
  have hfactors : (mul c e).factors = [c, e] := by
    rw [factors, factors_of_not_isProduct (not_isProduct_of_isCoefficient hc),
      factors_of_not_isProduct he, List.singleton_append]
  change cs.onOperands (resolveTerm d) (mul c e) = _
  rw [Coefficients.onOperands, Coefficients.split_eq, hfactors]
  cases hce : cs.isCoefficient e with
  | false =>
    simp only [List.filter_cons, hc, hce, if_true, List.filter_nil]
    cases h : resolveTerm d e <;> simp [product?, h, Except.map]
  | true =>
    obtain ⟨k, hk, -⟩ := (Option.any_eq_true _ _).1 hce
    have hterm : resolveTerm d e = .ok e :=
      (isCompositional_resolveTerm d).coefficient (by rw [hk]; rfl)
    simp [hc, hce, hterm, product?, Except.map]

/-- A coefficient stays in front of what an integrand becomes as one operand. That exists exactly
when the integrand can be resolved alone, has the value of the outcome, and is the same when the
integrand is arranged; without generic operators, only then. -/
theorem resolveIn_scaled (hc : cs.isCoefficient c) (he : e.isProduct = false) (d : Nat) :
    ((∃ x, (mul c e).resolveIn cs d = .ok x) ↔ ∃ r, e.resolveIn cs d = .ok r) ∧
    ∀ r, e.resolveIn cs d = .ok r →
      ∃ y, (mul c e).resolveIn cs d = .ok (mul c y) ∧
        (cs.isArranged e → y = r) ∧
        (e.containsGeneric = false → (y = r ↔ cs.isArranged e)) ∧
        ∀ {V : Type u} [Add V] [Sub V] [CommMonoid V] (M : Reading κ V),
          M.value y = M.value r := by
  rw [resolveIn_mul hc he d]
  constructor
  · rw [← exists_resolveTerm_iff]
    cases resolveTerm d e <;> simp [Except.map]
  · intro r hr
    obtain ⟨y, hy⟩ := exists_resolveTerm_iff.2 ⟨r, hr⟩
    refine ⟨y, by rw [hy]; rfl, fun harranged => ?_,
      fun hplain => resolveTerm_eq_iff_of_resolved hplain hy hr,
      fun M => value_of_resolveTerm M hy hr⟩
    have hr := resolveIn_eq_ok_iff_arrange.1 hr
    rw [Coefficients.arrange_of_isArranged harranged, hy] at hr
    exact Except.ok.inj hr

end Scaled

section Flux

def flux : Expr Float :=
  .add (.mul (.generic .grad [planeTest]) (.constant "k")) (.generic .grad [planeTrial])

def slopes (f : Expr Float) : Expr Float := .tuple [.derivative .x [f], .derivative .y [f]]

def resolvedFlux : Expr Float :=
  .add (.mul (.constant "k") (slopes planeTest)) (slopes planeTrial)

def scaledFlux : Expr Float :=
  .mul (.number 2) (.add (.mul (slopes planeTest) (.constant "k")) (slopes planeTrial))

theorem resolveIn_scaled_flux :
    Coefficients.standard.isCoefficient (.number 2 : Expr Float) ∧ flux.isProduct = false ∧
      flux.resolveIn .standard 2 = .ok resolvedFlux ∧
      (mul (.number 2) flux).resolveIn .standard 2 = .ok scaledFlux ∧
      (mul (.number 2) flux).resolveIn .standard 2 ≠ .ok (.mul (.number 2) resolvedFlux) ∧
      ∀ M : Reading Float Nat,
        M.value scaledFlux = M.value (.mul (.number 2) resolvedFlux) := by
  have hnumber : Coefficients.standard.isCoefficient (.number 2 : Expr Float) := rfl
  have hscaled : (mul (.number 2) flux).resolveIn .standard 2 = .ok scaledFlux := by with_unfolding_all rfl
  have hresolved : flux.resolveIn .standard 2 = .ok resolvedFlux := by with_unfolding_all rfl
  obtain ⟨y, hy, -, -, hvalue⟩ := (resolveIn_scaled.{0} hnumber rfl 2).2 _ hresolved
  refine ⟨hnumber, rfl, hresolved, hscaled, ?_, fun M => ?_⟩
  · rw [hscaled]
    intro h
    cases h
  · cases hscaled.symm.trans hy
    exact congrArg (M.value (.number 2) * ·) (hvalue M)

end Flux

end Expr

end VariationalForms
