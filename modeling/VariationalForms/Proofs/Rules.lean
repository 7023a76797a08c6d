import VariationalForms.Proofs.Legible
import VariationalForms.Proofs.Parts

/-! The rules of the operators against their meaning.
On operands of the shapes that an operator is defined for, and whose vectors it sees as vectors, its
rule has an outcome, and the outcome is worth what the operator means
(`Interpretation.exists_apply`).
-/

set_option autoImplicit false

namespace VariationalForms

universe u

namespace Interpretation

variable {κ : Type} {R : Type u} [Zero κ] [CommRing R] (I : Interpretation κ R)

theorem total_map_scalar {xs : List R} (h : xs ≠ []) :
    Reading.total (xs.map Value.scalar) = some (.scalar xs.sum) := by
  have hfold : ∀ (xs : List R) (x : R),
      (xs.map Value.scalar).foldl (· + ·) (Value.scalar x) = .scalar (x + xs.sum) := by
    intro xs
    induction xs with
    | nil => intro x; simp
    | cons y ys ih =>
      intro x
      rw [List.map_cons, List.foldl_cons, Value.scalar_add, ih, List.sum_cons, add_assoc]
  cases xs with
  | nil => exact absurd rfl h
  | cons x xs => rw [List.map_cons, Reading.total, hfold, List.sum_cons]

theorem exists_sum? {d : Nat} {es : List (Expr κ)} {xs : List R}
    (hes : es.map (I.value d) = xs.map .scalar) (hne : es ≠ []) :
    ∃ s, Expr.sum? es = some s ∧ I.value d s = .scalar xs.sum := by
  have hxs : xs ≠ [] := by rintro rfl; simp at hes; exact hne hes
  have hsum := (I.reading d).isEvaluation.value_sum? es
  rw [show es.map (I.reading d).value = xs.map .scalar from hes, total_map_scalar hxs] at hsum
  exact Option.map_eq_some_iff.1 hsum

theorem value_sub (d : Nat) (l r : Expr κ) :
    I.value d (.sub l r) = I.value d l - I.value d r := rfl

theorem value_mul (d : Nat) (l r : Expr κ) :
    I.value d (.mul l r) = I.value d l * I.value d r := rfl

theorem value_concrete (d : Nat) (o : OperatorAt) (args : List (Expr κ)) :
    I.value d (.concrete o args) =
      o.operator.meaning (fun a => I.D a) o.dim (args.map (I.value d)) :=
  I.value_node d _ args

theorem exists_parts {d n : Nat} {u : Expr κ} {parts : List (Expr κ)}
    (hp : u.components? = some parts) (hu : u.shape d = .vector n) :
    ∃ xs : List R, parts.length = n ∧ xs.length = n ∧ parts.map (I.value d) = xs.map .scalar ∧
      I.value d u = .vector xs := by
  have hill : u.shape d ≠ .ill := by simp [hu]
  have hlen : parts.length = n := by simpa [hu] using (Expr.shape_of_components? hp hill).symm
  obtain ⟨xs, hparts, hval⟩ := I.value_of_components? hp hill
  exact ⟨xs, hlen, by simpa [hlen] using (congrArg List.length hparts).symm, hparts, hval⟩

theorem exists_two_parts {d : Nat} {u : Expr κ} {parts : List (Expr κ)}
    (hp : u.components? = some parts) (hu : u.shape d = .vector 2) :
    ∃ u₀ u₁ x₀ x₁, parts = [u₀, u₁] ∧ I.value d u = .vector [x₀, x₁] ∧
      I.value d u₀ = .scalar x₀ ∧ I.value d u₁ = .scalar x₁ := by
  obtain ⟨xs, hlen, hxs, hparts, hval⟩ := I.exists_parts hp hu
  obtain ⟨u₀, u₁, rfl⟩ := List.length_eq_two.1 hlen
  obtain ⟨x₀, x₁, rfl⟩ := List.length_eq_two.1 hxs
  simp only [List.map_cons, List.map_nil, List.cons.injEq, and_true] at hparts
  exact ⟨u₀, u₁, x₀, x₁, rfl, hval, hparts⟩

theorem exists_three_parts {d : Nat} {u : Expr κ} {parts : List (Expr κ)}
    (hp : u.components? = some parts) (hu : u.shape d = .vector 3) :
    ∃ u₀ u₁ u₂ x₀ x₁ x₂, parts = [u₀, u₁, u₂] ∧ I.value d u = .vector [x₀, x₁, x₂] ∧
      I.value d u₀ = .scalar x₀ ∧ I.value d u₁ = .scalar x₁ ∧ I.value d u₂ = .scalar x₂ := by
  obtain ⟨xs, hlen, hxs, hparts, hval⟩ := I.exists_parts hp hu
  obtain ⟨u₀, u₁, u₂, rfl⟩ := List.length_eq_three.1 hlen
  obtain ⟨x₀, x₁, x₂, rfl⟩ := List.length_eq_three.1 hxs
  simp only [List.map_cons, List.map_nil, List.cons.injEq, and_true] at hparts
  exact ⟨u₀, u₁, u₂, x₀, x₁, x₂, rfl, hval, hparts⟩

variable {d k : Nat} {u v : Expr κ}

theorem value_gradient (h : Operator.grad.shape k [u.shape d] ≠ .ill) :
    I.value d (OperatorAt.gradient ⟨.grad, k⟩ u) =
      Operator.grad.meaning (fun a => I.D a) k [I.value d u] := by
  obtain ⟨hk, hu⟩ := Operator.shape_grad_ne_ill.1 h
  obtain ⟨x, hx⟩ := Value.shape_eq_scalar ((I.shape_value d u).trans hu)
  simp only [OperatorAt.gradient, Expr.components?_of_scalar hu, Operator.meaning, hk, if_true, hx,
    Value.grad]
  by_cases hk : k = 1
  · simp only [hk, if_true, value_derive, hx, Value.map_scalar]
  · have hitems : ((Axis.spanning k).map fun a => Expr.derive a u).map (I.value d) =
        ((Axis.spanning k).map fun a => I.D a x).map .scalar := by
      rw [List.map_map, List.map_map]
      exact List.map_congr_left fun a _ => by simp [value_derive, hx]
    simp only [hk, if_false, value_node, hitems]
    exact Value.tuple_map_scalar _

theorem exists_sum_derive {parts : List (Expr κ)} {xs : List R} (hk : 0 < k)
    (hparts : parts.map (I.value d) = xs.map .scalar) (hlen : parts.length = k) (hk3 : k ≤ 3) :
    ∃ s, Expr.sum? (List.zipWith Expr.derive (Axis.spanning k) parts) = some s ∧
      I.value d s = .scalar (List.zipWith (fun a x => I.D a x) (Axis.spanning k) xs).sum := by
  refine I.exists_sum? ?_ fun h => ?_
  · have h : List.zipWith (fun a v => Value.map (I.D a) v) (Axis.spanning k)
        (parts.map (I.value d)) =
        List.zipWith (fun a v => Value.map (I.D a) v) (Axis.spanning k) (xs.map .scalar) := by
      rw [hparts]
    simpa [List.map_zipWith, List.zipWith_map_right, value_derive] using h
  · have hzero := congrArg List.length h
    rw [List.length_zipWith, Axis.length_spanning, List.length_nil] at hzero
    omega

theorem exists_divergence (h : Operator.div.shape k [u.shape d] ≠ .ill)
    (hm : Operator.div.misreads k [(u.shape d, u.components?.isSome)] = false) :
    ∃ r, OperatorAt.divergence ⟨.div, k⟩ u = .ok r ∧
      I.value d r = Operator.div.meaning (fun a => I.D a) k [I.value d u] := by
  obtain ⟨hk, hu⟩ := Operator.shape_div_ne_ill.1 h
  obtain ⟨hk1, hk3⟩ := Operator.le_of_existsIn hk
  cases hp : u.components? with
  | none =>
    refine ⟨_, OperatorAt.divergence_eq_ok_iff.2 (.inr ⟨hp, rfl⟩), ?_⟩
    rcases hu with ⟨rfl, hu⟩ | hu
    · obtain ⟨x, hx⟩ := Value.shape_eq_scalar ((I.shape_value d u).trans hu)
      simp only [if_true, value_derive, hx]
      rfl
    · have hone : k ≠ 1 := by
        rintro rfl
        simp [Operator.misreads, hu, hp] at hm
      simp only [hone, if_false]
      exact I.value_concrete d _ _
  | some parts =>
    have hvec : u.shape d = .vector k := by
      refine hu.resolve_left fun hs => ?_
      rw [Expr.components?_of_scalar hs.2] at hp
      cases hp
    obtain ⟨xs, hlen, hxs, hparts, hval⟩ := I.exists_parts hp hvec
    obtain ⟨s, hs, hvs⟩ := I.exists_sum_derive hk1 hparts hlen hk3
    refine ⟨s, OperatorAt.divergence_eq_ok_iff.2 (.inl ⟨parts, hp, hlen, ?_⟩), ?_⟩
    · rw [hs]; rfl
    · simp only [hvs, hval, Operator.meaning, hk, if_true, Value.div, hxs]

theorem exists_rotation (h : Operator.rot.shape k [u.shape d] ≠ .ill) :
    ∃ r, OperatorAt.rotation ⟨.rot, k⟩ u = .ok r ∧
      I.value d r = Operator.rot.meaning (fun a => I.D a) k [I.value d u] := by
  obtain ⟨rfl, hu⟩ := Operator.shape_rot_ne_ill.1 h
  cases hp : u.components? with
  | none =>
    exact ⟨_, OperatorAt.rotation_eq_ok_iff.2 (.inr ⟨hp, rfl⟩), I.value_concrete d _ _⟩
  | some parts =>
    obtain ⟨u₀, u₁, x₀, x₁, rfl, hval, h₀, h₁⟩ := I.exists_two_parts hp hu
    refine ⟨_, OperatorAt.rotation_eq_ok_iff.2 (.inl ⟨u₀, u₁, [], hp, rfl, rfl⟩), ?_⟩
    rw [hval, value_sub, value_derive, value_derive, h₀, h₁]
    rfl

theorem exists_curl (h : Operator.curl.shape k [u.shape d] ≠ .ill) :
    ∃ r, OperatorAt.curl ⟨.curl, k⟩ u = .ok r ∧
      I.value d r = Operator.curl.meaning (fun a => I.D a) k [I.value d u] := by
  obtain ⟨rfl, hu⟩ := Operator.shape_curl_ne_ill.1 h
  cases hp : u.components? with
  | none =>
    exact ⟨_, OperatorAt.curl_eq_ok_iff.2 (.inr ⟨hp, rfl⟩), I.value_concrete d _ _⟩
  | some parts =>
    obtain ⟨u₀, u₁, u₂, x₀, x₁, x₂, rfl, hval, h₀, h₁, h₂⟩ := I.exists_three_parts hp hu
    refine ⟨_, OperatorAt.curl_eq_ok_iff.2 (.inl ⟨u₀, u₁, u₂, [], hp, rfl, rfl⟩), ?_⟩
    simp only [value_node, List.map_cons, List.map_nil, value_sub, value_derive, hval, h₀, h₁, h₂]
    rfl

theorem exists_sum_mul {us vs : List (Expr κ)} {xs ys : List R} (hk : 0 < k)
    (hus : us.map (I.value d) = xs.map .scalar) (hvs : vs.map (I.value d) = ys.map .scalar)
    (hlu : us.length = k) (hlv : vs.length = k) :
    ∃ s, Expr.sum? (List.zipWith Expr.mul us vs) = some s ∧
      I.value d s = .scalar (List.zipWith (· * ·) xs ys).sum := by
  refine I.exists_sum? ?_ fun h => ?_
  · have h : List.zipWith (· * ·) (us.map (I.value d)) (vs.map (I.value d)) =
        List.zipWith (· * ·) (xs.map Value.scalar) (ys.map Value.scalar) := by
      rw [hus, hvs]
    simpa [List.map_zipWith, List.zipWith_map, value_mul] using h
  · have hzero := congrArg List.length h
    rw [List.length_zipWith, List.length_nil] at hzero
    omega

theorem exists_innerProduct_of_vectors {o : OperatorAt} (hk : Operator.dot.existsIn o.dim)
    (ho : o.operator = .dot ∨ o.operator = .inner) (hu : u.shape d = .vector o.dim)
    (hv : v.shape d = .vector o.dim) (hseen : ¬ (u.components? = none ∧ v.components? = none)) :
    ∃ r, o.innerProduct u v = .ok r ∧
      I.value d r = Operator.dot.meaning (fun a => I.D a) o.dim [I.value d u, I.value d v] := by
  by_cases hmixed : u.components?.isSome = v.components?.isSome
  · obtain ⟨us, hpu⟩ : ∃ us, u.components? = some us := by
      refine Option.ne_none_iff_exists'.1 fun hpu => hseen ⟨hpu, ?_⟩
      simpa [hpu] using hmixed
    obtain ⟨vs, hpv⟩ : ∃ vs, v.components? = some vs := by
      refine Option.isSome_iff_exists.1 ?_
      rw [← hmixed, hpu]; rfl
    obtain ⟨xs, hlu, hlx, hxs, hvalu⟩ := I.exists_parts hpu hu
    obtain ⟨ys, hlv, hly, hys, hvalv⟩ := I.exists_parts hpv hv
    obtain ⟨s, hs, hval⟩ := I.exists_sum_mul (Operator.le_of_existsIn hk).1 hxs hys hlu hlv
    refine ⟨s, OperatorAt.innerProduct_eq_ok_iff.2
      (.inl ⟨us, vs, hpu, hpv, hlu, hlv, by rw [hs]; rfl⟩), ?_⟩
    simp only [hval, hvalu, hvalv, Operator.meaning, hk, if_true, Value.dot, hlx, hly, and_self]
  · refine ⟨_, OperatorAt.innerProduct_eq_ok_iff.2 (.inr (.inr ⟨hmixed, rfl⟩)), ?_⟩
    rw [value_concrete]
    rcases ho with ho | ho <;> rw [ho] <;> rfl

theorem exists_innerProduct {o : OperatorAt} (ho : o.operator = .dot ∨ o.operator = .inner)
    (h : Operator.dot.shape o.dim [u.shape d, v.shape d] ≠ .ill)
    (hm : Operator.dot.misreads o.dim
      [(u.shape d, u.components?.isSome), (v.shape d, v.components?.isSome)] = false) :
    ∃ r, o.innerProduct u v = .ok r ∧
      I.value d r = Operator.dot.meaning (fun a => I.D a) o.dim [I.value d u, I.value d v] := by
  obtain ⟨hk, huv⟩ := Operator.shape_dot_ne_ill.1 h
  rcases huv with ⟨hu, hv⟩ | ⟨hu, hv⟩
  · refine ⟨.mul u v, OperatorAt.innerProduct_eq_ok_iff.2 (.inr (.inl ⟨?_, ?_, rfl⟩)), ?_⟩
    · exact Expr.components?_of_scalar hu
    · exact Expr.components?_of_scalar hv
    · obtain ⟨x, hx⟩ := Value.shape_eq_scalar ((I.shape_value d u).trans hu)
      obtain ⟨y, hy⟩ := Value.shape_eq_scalar ((I.shape_value d v).trans hv)
      simp only [value_mul, hx, hy, Operator.meaning, hk, if_true]
      rfl
  · refine I.exists_innerProduct_of_vectors hk ho hu hv fun hnone => ?_
    simp [Operator.misreads, hu, hnone.1, hnone.2] at hm

theorem exists_crossProduct (h : Operator.cross.shape k [u.shape d, v.shape d] ≠ .ill) :
    ∃ r, OperatorAt.crossProduct ⟨.cross, k⟩ u v = .ok r ∧
      I.value d r = Operator.cross.meaning (fun a => I.D a) k [I.value d u, I.value d v] := by
  by_cases hnone : u.components? = none ∨ v.components? = none
  · exact ⟨_, OperatorAt.crossProduct_eq_ok_iff.2 (.inr (.inr ⟨hnone, rfl⟩)),
      I.value_concrete d _ _⟩
  · obtain ⟨hpu, hpv⟩ := not_or.1 hnone
    obtain ⟨us, hpu⟩ := Option.ne_none_iff_exists'.1 hpu
    obtain ⟨vs, hpv⟩ := Option.ne_none_iff_exists'.1 hpv
    rcases Operator.shape_cross_ne_ill.1 h with ⟨rfl, hu, hv⟩ | ⟨rfl, hu, hv⟩
    · obtain ⟨u₀, u₁, x₀, x₁, rfl, hvalu, hu₀, hu₁⟩ := I.exists_two_parts hpu hu
      obtain ⟨v₀, v₁, y₀, y₁, rfl, hvalv, hv₀, hv₁⟩ := I.exists_two_parts hpv hv
      refine ⟨_, OperatorAt.crossProduct_eq_ok_iff.2
        (.inl ⟨u₀, u₁, v₀, v₁, hpu, hpv, rfl, rfl⟩), ?_⟩
      simp only [hvalu, hvalv, value_sub, value_mul, hu₀, hu₁, hv₀, hv₁]
      rfl
    · obtain ⟨u₀, u₁, u₂, x₀, x₁, x₂, rfl, hvalu, hu₀, hu₁, hu₂⟩ := I.exists_three_parts hpu hu
      obtain ⟨v₀, v₁, v₂, y₀, y₁, y₂, rfl, hvalv, hv₀, hv₁, hv₂⟩ := I.exists_three_parts hpv hv
      refine ⟨_, OperatorAt.crossProduct_eq_ok_iff.2
        (.inr (.inl ⟨u₀, u₁, u₂, [], v₀, v₁, v₂, [], hpu, hpv, rfl, rfl, rfl⟩)), ?_⟩
      simp only [value_node, List.map_cons, List.map_nil, hvalu, hvalv, value_sub, value_mul,
        hu₀, hu₁, hu₂, hv₀, hv₁, hv₂]
      rfl

/-- A rule has an outcome that is worth what the operator means, on operands of the right shapes
among which no vector is taken for a number. -/
theorem exists_apply {o : OperatorAt} {args : List (Expr κ)}
    (h : o.operator.shape o.dim (args.map (Expr.shape d)) ≠ .ill)
    (hm : o.operator.misreads o.dim
      (args.map fun u => (u.shape d, u.components?.isSome)) = false) :
    ∃ r, o.apply args = .ok r ∧
      I.value d r = o.operator.meaning (fun a => I.D a) o.dim (args.map (I.value d)) := by
  have hlen := Operator.length_of_shape h
  rw [List.length_map] at hlen
  obtain ⟨op, k⟩ := o
  cases op with
  | grad =>
    obtain ⟨u, rfl⟩ := List.length_eq_one_iff.1 hlen
    exact ⟨_, rfl, I.value_gradient h⟩
  | div =>
    obtain ⟨u, rfl⟩ := List.length_eq_one_iff.1 hlen
    exact I.exists_divergence h hm
  | rot =>
    obtain ⟨u, rfl⟩ := List.length_eq_one_iff.1 hlen
    exact I.exists_rotation h
  | curl =>
    obtain ⟨u, rfl⟩ := List.length_eq_one_iff.1 hlen
    exact I.exists_curl h
  | dot =>
    obtain ⟨u, v, rfl⟩ := List.length_eq_two.1 hlen
    exact I.exists_innerProduct (.inl rfl) h hm
  | inner =>
    obtain ⟨u, v, rfl⟩ := List.length_eq_two.1 hlen
    exact I.exists_innerProduct (.inr rfl) h hm
  | cross =>
    obtain ⟨u, v, rfl⟩ := List.length_eq_two.1 hlen
    exact I.exists_crossProduct h

end Interpretation

end VariationalForms
