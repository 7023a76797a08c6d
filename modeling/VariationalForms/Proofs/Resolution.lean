import Mathlib.Algebra.Polynomial.Derivative
import VariationalForms.Proofs.Nodes
import VariationalForms.Proofs.Rules
import VariationalForms.Proofs.Visible

/-! Resolving keeps the meaning.
Where an integrand has a shape and no operator in it takes a vector for a number, it can be
resolved, and the outcome is worth what the integrand was worth, in every ring and for all values of
the leaves.
-/

set_option autoImplicit false

namespace VariationalForms

universe u

variable {κ : Type}

namespace Expr

theorem legible_factors {d : Nat} (e : Expr κ) :
    e.Legible d ↔ ∀ f ∈ e.factors, f.Legible d :=
  forall_nodes_factors (P := fun n => n.misreads d = false) (fun _ _ => rfl) e

theorem legible_product? {d : Nat} {es : List (Expr κ)} {p : Expr κ} (h : product? es = some p) :
    p.Legible d ↔ ∀ f ∈ es, f.Legible d :=
  forall_nodes_product? (P := fun n => n.misreads d = false) (fun _ _ => rfl) h

theorem existsIn_of_mem_operators {d : Nat} {e : Expr κ} (he : e.shape d ≠ .ill) {o : Operator}
    (ho : o ∈ e.operators) : o.existsIn d := by
  obtain ⟨args, hn⟩ := mem_operators.1 ho
  have hshape := shape_of_mem_nodes he hn
  rw [shape_node] at hshape
  exact Operator.existsIn_of_shape hshape

end Expr

namespace Interpretation

variable {R : Type u} [Zero κ] [CommRing R] (I : Interpretation κ R) {d : Nat}

theorem map_shape_of_forall₂ {args rs : List (Expr κ)}
    (h : List.Forall₂ (fun e r => I.value d r = I.value d e) args rs) :
    rs.map (Expr.shape d) = args.map (Expr.shape d) :=
  map_eq_map_of_forall₂ (h.imp fun e r hr => by rw [← I.shape_value, hr, I.shape_value])

theorem exists_expand_generic {o : Operator} {args : List (Expr κ)}
    (hs : (Expr.generic o args).shape d ≠ .ill) (hm : (Expr.generic o args).misreads d = false)
    (hargs : ∀ e ∈ args, ∃ r, Expr.expand d e = .ok r ∧ I.value d r = I.value d e) :
    ∃ x, Expr.expand d (.generic o args) = .ok x ∧ I.value d x = I.value d (.generic o args) := by
  obtain ⟨rs, hrs⟩ := exists_forall₂ hargs
  have hval := map_eq_map_of_forall₂ (hrs.imp fun _ _ h => h.2)
  have hshapes := I.map_shape_of_forall₂ (hrs.imp fun _ _ h => h.2)
  have hseen : (rs.map fun r => (r.shape d, r.components?.isSome)) =
      args.map fun e => (e.shape d, e.showsParts d) := by
    refine map_eq_map_of_forall₂ (forall₂_of_mem hrs fun e he r hr => ?_)
    rw [← I.shape_value d r, hr.2, I.shape_value,
      (Expr.shownBy_of_expand hr.1 (Expr.shape_of_mem_children hs he)).isSome]
  obtain ⟨x, hx, hvx⟩ := I.exists_apply (o := ⟨o, d⟩) (d := d)
    (by rw [hshapes]; rwa [Expr.shape_node] at hs) (by rw [hseen]; exact hm)
  refine ⟨x, Expr.expand_generic_eq_ok_iff.2 ⟨rs, hrs.imp fun _ _ h => h.1, hx⟩, ?_⟩
  rw [hvx, hval, value_node]
  rfl

/-- An integrand can be expanded, and means afterwards what it meant before. -/
theorem exists_expand {e : Expr κ} (hs : e.shape d ≠ .ill) (hl : e.Legible d) :
    ∃ x, Expr.expand d e = .ok x ∧ I.value d x = I.value d e := by
  induction e with
  | leaf l => exact ⟨_, rfl, rfl⟩
  | arith op l r ihl ihr =>
    obtain ⟨hll, hlr⟩ := Expr.legible_arith.1 hl
    obtain ⟨l', hl', hvl⟩ := ihl (Expr.shape_of_mem_children hs (by simp [Expr.children])) hll
    obtain ⟨r', hr', hvr⟩ := ihr (Expr.shape_of_mem_children hs (by simp [Expr.children])) hlr
    refine ⟨_, Expr.expand_arith_eq_ok_iff.2 ⟨l', r', hl', hr', rfl⟩, ?_⟩
    exact congrArg₂ op.of hvl hvr
  | node h args ih =>
    obtain ⟨hm, hla⟩ := Expr.legible_node.1 hl
    have hargs : ∀ e ∈ args, ∃ r, Expr.expand d e = .ok r ∧ I.value d r = I.value d e :=
      fun e he => ih e he (Expr.shape_of_mem_children hs he) (hla e he)
    by_cases hg : ∃ o, h = .generic o
    · obtain ⟨o, rfl⟩ := hg
      exact I.exists_expand_generic hs hm hargs
    have hg : ∀ o, h ≠ .generic o := fun o ho => hg ⟨o, ho⟩
    by_cases hd : ∃ a u, h = .derivative a ∧ args = [u]
    · obtain ⟨a, u, rfl, rfl⟩ := hd
      obtain ⟨v, hv, hval⟩ := hargs u (.head _)
      refine ⟨_, Expr.expand_derivative_eq_ok_iff.2 ⟨v, hv, rfl⟩, ?_⟩
      split
      · rw [value_derive, hval, value_node]; rfl
      · rw [value_node, value_node, List.map_singleton, hval]; rfl
    · have hd : ∀ a u, h = .derivative a → args ≠ [u] := fun a u ha hu => hd ⟨a, u, ha, hu⟩
      obtain ⟨rs, hrs⟩ := exists_forall₂ hargs
      refine ⟨_, (Expr.expand_node_eq_ok_iff hg hd).2 ⟨rs, hrs.imp fun _ _ h => h.1, rfl⟩, ?_⟩
      rw [value_node, value_node, map_eq_map_of_forall₂ (hrs.imp fun _ _ h => h.2)]

theorem exists_resolveTerm {e : Expr κ} (hs : e.shape d ≠ .ill) (hl : e.Legible d) :
    ∃ x, Expr.resolveTerm d e = .ok x ∧ I.value d x = I.value d e := by
  obtain ⟨x, hx, hval⟩ := I.exists_expand hs hl
  exact ⟨x, Expr.resolveTerm_eq_ok_iff.2 ⟨fun o => Expr.existsIn_of_mem_operators hs, hx⟩, hval⟩

section Split

variable {cs : Coefficients} {c e o : Expr κ}

theorem value_split (hc : Expr.product? (e.factors.filter cs.isCoefficient) = some c)
    (ho : Expr.product? (e.factors.filter (! cs.isCoefficient ·)) = some o) :
    I.value d c * I.value d o = I.value d e := by
  have hsplit := IsEvaluation.prod_filter (I.reading d).value cs.isCoefficient e.factors
  rwa [(I.reading d).isEvaluation.prod_factors, ← (I.reading d).isEvaluation.value_of_product? hc,
    ← (I.reading d).isEvaluation.value_of_product? ho] at hsplit

theorem value_coefficients (hc : Expr.product? (e.factors.filter cs.isCoefficient) = some c)
    (ho : e.factors.filter (! cs.isCoefficient ·) = []) : I.value d c = I.value d e := by
  have hsplit := IsEvaluation.prod_filter (I.reading d).value cs.isCoefficient e.factors
  rwa [(I.reading d).isEvaluation.prod_factors, ← (I.reading d).isEvaluation.value_of_product? hc,
    ho, List.map_nil, List.prod_nil, mul_one] at hsplit

theorem value_operands (hc : e.factors.filter cs.isCoefficient = [])
    (ho : Expr.product? (e.factors.filter (! cs.isCoefficient ·)) = some o) :
    I.value d o = I.value d e := by
  have hsplit := IsEvaluation.prod_filter (I.reading d).value cs.isCoefficient e.factors
  rwa [(I.reading d).isEvaluation.prod_factors, ← (I.reading d).isEvaluation.value_of_product? ho,
    hc, List.map_nil, List.prod_nil, one_mul] at hsplit

end Split

variable [One κ]

theorem exists_onOperands {cs : Coefficients} {e : Expr κ} (hs : e.shape d ≠ .ill)
    (hl : e.Legible d) :
    ∃ x, cs.onOperands (Expr.resolveTerm d) e = .ok x ∧ I.value d x = I.value d e := by
  have hlegible := (Expr.legible_factors e).1 hl
  cases ho : Expr.product? (e.factors.filter (! cs.isCoefficient ·)) with
  | none =>
    have hnil := Expr.product?_eq_none_iff.1 ho
    obtain ⟨c, hc⟩ : ∃ c, Expr.product? (e.factors.filter cs.isCoefficient) = some c :=
      Option.ne_none_iff_exists'.1 fun h =>
        Coefficients.operands_ne_nil (Expr.product?_eq_none_iff.1 h) hnil
    exact ⟨c, Coefficients.onOperands_eq_ok_iff.2 (.inr (.inl ⟨hnil, hc⟩)),
      I.value_coefficients hc hnil⟩
  | some o =>
    have hlo : o.Legible d :=
      (Expr.legible_product? ho).2 fun f hf => hlegible f (List.mem_filter.1 hf).1
    cases hc : Expr.product? (e.factors.filter cs.isCoefficient) with
    | none =>
      have hnil := Expr.product?_eq_none_iff.1 hc
      have hval := I.value_operands (d := d) hnil ho
      have hso : o.shape d ≠ .ill := by rwa [← I.shape_value, hval, I.shape_value]
      obtain ⟨x, hx, hvx⟩ := I.exists_resolveTerm hso hlo
      exact ⟨x, Coefficients.onOperands_eq_ok_iff.2 (.inr (.inr ⟨hnil, o, ho, hx⟩)),
        hvx.trans hval⟩
    | some c =>
      have hval := I.value_split (d := d) hc ho
      have hso : o.shape d ≠ .ill := by
        intro hill
        refine hs ?_
        rw [← I.shape_value, ← hval, Value.shape_mul, I.shape_value d o, hill, Shape.product_ill]
      obtain ⟨x, hx, hvx⟩ := I.exists_resolveTerm hso hlo
      refine ⟨.mul c x, Coefficients.onOperands_eq_ok_iff.2 (.inl ⟨c, o, x, hc, ho, hx, rfl⟩), ?_⟩
      rw [value_mul, hvx, hval]

theorem exists_resolveIn (cs : Coefficients) {e : Expr κ} (hs : e.shape d ≠ .ill)
    (hl : e.Legible d) :
    ∃ x, e.resolveIn cs d = .ok x ∧ I.value d x = I.value d e := by
  induction e with
  | leaf l => exact I.exists_resolveTerm hs hl
  | node h args => exact I.exists_resolveTerm hs hl
  | arith op l r ihl ihr =>
    by_cases hop : op = .mul
    · -- The factors of a product are sorted before anything is resolved: no induction here.
      cases hop
      exact I.exists_onOperands hs hl
    · obtain ⟨hll, hlr⟩ := Expr.legible_arith.1 hl
      obtain ⟨l', hl', hvl⟩ := ihl (Expr.shape_of_mem_children hs (by simp [Expr.children])) hll
      obtain ⟨r', hr', hvr⟩ := ihr (Expr.shape_of_mem_children hs (by simp [Expr.children])) hlr
      exact ⟨.arith op l' r',
        (Coefficients.distribute_arith_eq_ok_iff hop).2 ⟨l', r', hl', hr', rfl⟩,
        congrArg₂ op.of hvl hvr⟩

/-- Where every vector under an operator is a tuple, a function or an operator, resolving succeeds
and keeps the meaning. -/
theorem exists_resolveIn_of_writtenOut (cs : Coefficients) {e : Expr κ} (hs : e.shape d ≠ .ill)
    (hw : e.WrittenOut d) : ∃ x, e.resolveIn cs d = .ok x ∧ I.value d x = I.value d e :=
  I.exists_resolveIn cs hs (Expr.legible_of_writtenOut hs hw)

/-- Resolving keeps the meaning of a number or a vector when no operator takes a vector for a number;
`exists_resolveIn_of_writtenOut` has the usual reason for that. -/
theorem resolveIn_value {cs : Coefficients} {e : Expr κ} (hs : e.shape d ≠ .ill)
    (hl : e.Legible d) :
    ∃ r, e.resolveIn cs d = .ok r ∧ I.value d r = I.value d e ∧ (I.value d e).shape = e.shape d := by
  obtain ⟨r, hr, hval⟩ := I.exists_resolveIn cs hs hl
  exact ⟨r, hr, hval, I.shape_value d e⟩

noncomputable def polynomials : Interpretation ℤ (Polynomial ℤ) where
  leaf
    | .number c => Polynomial.C c
    | .constant _ => 2
    | _ => Polynomial.X
  D
    | .x => Polynomial.derivative.toAddMonoidHom
    | _ => 0
  leibniz a p q := by cases a <;> simp [Polynomial.derivative_mul]
  number a c := by cases a <;> simp
  constant a s := by cases a <;> simp
  zero := Polynomial.C_0

def stokesIntegrand : Expr ℤ :=
  .sub
    (.mul (.constant "nu") (.generic .inner
      [.generic .grad [.field "u"], .generic .grad [.function ⟨"v", .test, ⟨"V", 0, 2, .scalar⟩⟩]]))
    (.mul (.symbol "p") (.generic .div [.function ⟨"w", .test, ⟨"W", 1, 2, .vector 2⟩⟩]))

theorem resolveIn_value_stokesIntegrand :
    stokesIntegrand.shape 2 = .scalar ∧ stokesIntegrand.Legible 2 ∧
      ∃ r, stokesIntegrand.resolveIn .standard 2 = .ok r ∧
        polynomials.value 2 r = polynomials.value 2 stokesIntegrand ∧
        (polynomials.value 2 stokesIntegrand).shape = stokesIntegrand.shape 2 :=
  ⟨by decide, by decide, polynomials.resolveIn_value (by decide) (by decide)⟩

end Interpretation

end VariationalForms
