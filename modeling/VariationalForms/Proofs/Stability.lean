import VariationalForms.Proofs.Conservation
import VariationalForms.Proofs.Parts

/-! Resolving twice without a form.
Nothing that an integrand without a form resolves to is a leaf: of all leaves the rules can only
leave zero behind, and zero would have lost the function that decided the dimension. So a second run
either gives the outcome back or cannot tell the dimension any more (`Expr.resolve_resolve_raw`).
-/

set_option autoImplicit false

namespace VariationalForms

variable {κ : Type}

namespace Expr

theorem mem_of_sum?_eq_leaf {es : List (Expr κ)} {l : Leaf κ} (h : sum? es = some (.leaf l)) :
    .leaf l ∈ es := by
  match es with
  | [] => cases h
  | [e] => cases h; exact .head _
  | e :: e' :: es =>
    obtain ⟨_, _, hadd⟩ := exists_add_of_sum? h
    cases hadd

end Expr

namespace OperatorAt

open VariationalForms.Expr (eq_zero_of_derive_eq_leaf mem_of_sum?_eq_leaf)

variable {o : OperatorAt} {u v : Expr κ} {l : Leaf κ}

theorem mem_of_sum?_getD_eq_leaf {es : List (Expr κ)} {args : List (Expr κ)}
    (h : (Expr.sum? es).getD (.concrete o args) = .leaf l) : .leaf l ∈ es := by
  cases hs : Expr.sum? es with
  | none => rw [hs] at h; cases h
  | some s =>
    rw [hs] at h
    cases h
    exact mem_of_sum?_eq_leaf hs

theorem innerProduct_ne_leaf : o.innerProduct u v ≠ .ok (.leaf l) := by
  intro h
  rcases innerProduct_eq_ok_iff.1 h with ⟨us, vs, -, -, -, -, hx⟩ | ⟨-, -, hx⟩ | ⟨-, hx⟩
  · have hne : ∀ e ∈ List.zipWith Expr.mul us vs, e ≠ .leaf l :=
      forall_mem_zipWith fun _ _ _ _ hmul => by cases hmul
    exact hne _ (mem_of_sum?_getD_eq_leaf hx) rfl
  · cases hx
  · cases hx

theorem crossProduct_ne_leaf : o.crossProduct u v ≠ .ok (.leaf l) := by
  intro h
  rcases crossProduct_eq_ok_iff.1 h with ⟨_, _, _, _, -, -, -, hx⟩ |
    ⟨_, _, _, _, _, _, _, _, -, -, -, -, hx⟩ | ⟨-, hx⟩ <;> cases hx

variable [Zero κ]

theorem eq_zero_of_gradient_eq_leaf (h : o.gradient u = .leaf l) : l = .number 0 := by
  unfold gradient at h
  split at h
  · cases h
  · split at h
    · exact eq_zero_of_derive_eq_leaf h
    · cases h

theorem eq_zero_of_divergence_eq_leaf (h : o.divergence u = .ok (.leaf l)) : l = .number 0 := by
  rcases divergence_eq_ok_iff.1 h with ⟨parts, -, -, hx⟩ | ⟨-, hx⟩
  · have hzero : ∀ e ∈ List.zipWith Expr.derive (Axis.spanning o.dim) parts,
        e = .leaf l → l = .number 0 :=
      forall_mem_zipWith fun _ _ _ _ => eq_zero_of_derive_eq_leaf
    exact hzero _ (mem_of_sum?_getD_eq_leaf hx) rfl
  · split at hx
    · exact eq_zero_of_derive_eq_leaf hx
    · cases hx

theorem rotation_ne_leaf : o.rotation u ≠ .ok (.leaf l) := by
  intro h
  rcases rotation_eq_ok_iff.1 h with ⟨_, _, _, -, -, hx⟩ | ⟨-, hx⟩ <;> cases hx

theorem curl_ne_leaf : o.curl u ≠ .ok (.leaf l) := by
  intro h
  rcases curl_eq_ok_iff.1 h with ⟨_, _, _, _, -, -, hx⟩ | ⟨-, hx⟩ <;> cases hx

theorem eq_zero_of_apply_eq_leaf {args : List (Expr κ)} (h : o.apply args = .ok (.leaf l)) :
    l = .number 0 := by
  unfold apply at h
  split at h
  case h_1 => exact eq_zero_of_gradient_eq_leaf (Except.ok.inj h)
  case h_2 => exact eq_zero_of_divergence_eq_leaf h
  case h_3 => exact absurd h rotation_ne_leaf
  case h_4 => exact absurd h curl_ne_leaf
  case h_5 => exact absurd h innerProduct_ne_leaf
  case h_6 => exact absurd h innerProduct_ne_leaf
  case h_7 => exact absurd h crossProduct_ne_leaf
  case h_8 => cases h

end OperatorAt

namespace Expr

variable [Zero κ] {d : Nat} {e : Expr κ} {l : Leaf κ}

theorem eq_of_expand_eq_leaf (h : expand d e = .ok (.leaf l)) : e = .leaf l ∨ l = .number 0 := by
  refine expand_induct (P := fun e x => ∀ l, x = .leaf l → e = .leaf l ∨ l = .number 0)
    ?leaf ?arith ?derived ?generic ?node h l rfl
  case leaf => exact fun _ _ h => .inl h
  case arith =>
    intro op l r l' r' _ _ _ _ m hm
    cases hm
  case derived => exact fun _ _ _ _ _ _ _ hm => .inr (eq_zero_of_derive_eq_leaf hm)
  case generic =>
    intro o args rs x _ hx m hm
    exact .inr (OperatorAt.eq_zero_of_apply_eq_leaf (hm ▸ hx))
  case node =>
    intro k args rs _ _ _ m hm
    cases hm

theorem eq_of_resolveIn_eq_leaf [One κ] {cs : Coefficients}
    (h : e.resolveIn cs d = .ok (.leaf l)) : e = .leaf l ∨ l = .number 0 := by
  refine Coefficients.distribute_induct
    (P := fun e x => ∀ l, x = .leaf l → e = .leaf l ∨ l = .number 0) ?sum ?product ?other h l rfl
  case sum =>
    intro op l r l' r' _ _ _ m hm
    cases hm
  case product =>
    intro r s x hx m hm
    subst hm
    rcases Coefficients.onOperands_eq_ok_iff.1 hx with ⟨_, _, _, -, -, -, hx⟩ | ⟨hnone, hc⟩ |
      ⟨hnone, o, ho, hx⟩
    · cases hx
    · rw [filter_eq_self_of_filter_not hnone] at hc
      cases isProduct_of_product?_factors hc
    · rw [filter_not_eq_self_of_filter hnone] at ho
      refine (eq_of_expand_eq_leaf (resolveTerm_eq_ok_iff.1 hx).2).imp_left ?_
      rintro rfl
      cases isProduct_of_product?_factors ho
  case other =>
    intro e x _ hx m hm
    exact eq_of_expand_eq_leaf (hm ▸ (resolveTerm_eq_ok_iff.1 hx).2)

variable [One κ] [NumberText κ] {cs : Coefficients} {r : Expr κ}

theorem resolve_ne_leaf (h : e.resolve cs = .ok r) : r ≠ .leaf l := by
  rintro rfl
  have he : ∀ l, e ≠ .leaf l := by
    simp only [resolve, bind_eq_ok_iff] at h
    obtain ⟨⟨⟩, hleaf, -⟩ := h
    exact rejectLeaf_eq_ok_iff.1 hleaf
  rcases resolve_cases h with ⟨-, -, hsame⟩ | ⟨-, d, hd, hr⟩
  · exact he l hsame.symm
  · rcases eq_of_resolveIn_eq_leaf hr with hsame | rfl
    · exact he l hsame
    · obtain ⟨f, hf, -⟩ := exists_function_of_dimension hd
      obtain ⟨n, hn, hfn⟩ := mem_functions.1 ((mem_functions_resolveIn_iff hr f).2 hf)
      cases List.mem_singleton.1 hn
      cases hfn

omit [Zero κ] [One κ] in
theorem dimension_of_not_containsGeneric (hg : e.containsGeneric = false) :
    e.dimension = .error (.noGenericOperator e.text) := by
  rw [containsGeneric_eq_isSome, firstGeneric?, Option.isSome_eq_false_iff,
    Option.isNone_iff_eq_none] at hg
  rw [dimension, hg]

theorem containsGeneric_of_resolve (h : e.resolve cs = .ok r) : r.containsGeneric = false := by
  rcases resolve_cases h with ⟨hg, -, rfl⟩ | ⟨-, d, -, hr⟩
  · exact hg
  · exact containsGeneric_resolveIn hr

/-- A second run on an integrand without a form changes nothing: it gives the outcome of the first
run back if that shows its dimension, and otherwise cannot infer it. It never meets a leaf. -/
theorem resolve_resolve_raw (h : e.resolve cs = .ok r) :
    (r.containsDimensioned → r.resolve cs = .ok r) ∧
      (r.containsDimensioned = false → r.resolve cs = .error (.noGenericOperator r.text)) ∧
      (∀ l, r ≠ .leaf l) ∧ ∀ k, r.resolve cs ≠ .error (.inputKind k) := by
  have hleaf : ∀ l, r ≠ .leaf l := fun l => resolve_ne_leaf h
  have hg := containsGeneric_of_resolve h
  have hsame : r.containsDimensioned → r.resolve cs = .ok r :=
    resolve_of_not_containsGeneric hleaf hg
  have hfails : r.containsDimensioned = false →
      r.resolve cs = .error (.noGenericOperator r.text) := by
    intro hd
    rw [resolve, rejectLeaf_eq_ok_iff.2 hleaf, hg, hd, dimension_of_not_containsGeneric hg]
    rfl
  refine ⟨hsame, hfails, hleaf, fun k hk => ?_⟩
  cases hd : r.containsDimensioned with
  | true => rw [hsame hd] at hk; cases hk
  | false => rw [hfails hd] at hk; cases hk

def mass : Expr Float := .generic .inner [planeTest, planeTrial]

theorem resolve_resolve_raw_mass :
    mass.resolve .standard = .ok (.mul planeTest planeTrial) ∧
      resolve .standard (.mul planeTest planeTrial) =
        .error (.noGenericOperator (mul planeTest planeTrial).text) ∧
      diffusion.resolve .standard = .ok resolvedDiffusion ∧
      resolvedDiffusion.resolve .standard = .ok resolvedDiffusion := by
  have hmass : mass.resolve .standard = .ok (.mul planeTest planeTrial) := by with_unfolding_all rfl
  have hlost : (mul planeTest planeTrial).containsDimensioned = false := by
    with_unfolding_all rfl
  have hkept : resolvedDiffusion.containsDimensioned := by with_unfolding_all rfl
  exact ⟨hmass, (resolve_resolve_raw hmass).2.1 hlost, resolve_diffusion,
    (resolve_resolve_raw resolve_diffusion).1 hkept⟩

end Expr

end VariationalForms
