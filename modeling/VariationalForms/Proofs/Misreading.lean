import VariationalForms.Proofs.Resolution

/-! What becomes of an integrand that is not legible.
A vector that is taken for a number leaves a product of two vectors behind, or on a line a vector in
place of a number. No rule repairs this, so that resolving keeps the shape of a number if and only
if the integrand is legible (`Expr.shape_resolveIn_iff`).
-/

set_option autoImplicit false

namespace VariationalForms

/-- What a number must not turn into: it has no shape any more, or on a line it has another one. -/
def Shape.Spoilt (d : Nat) (s : Shape) : Prop := s = .ill ∨ d = 1 ∧ s ≠ .scalar

namespace Shape.Spoilt

variable {d : Nat} {s : Shape}

theorem ill : Spoilt d .ill := .inl rfl

theorem ne_scalar (h : Spoilt d s) : s ≠ .scalar := by
  rcases h with rfl | ⟨-, h⟩
  · simp
  · exact h

theorem arith_left (h : Spoilt d s) (op : Arith) (t : Shape) : Spoilt d (op.shape s t) := by
  rcases h with rfl | ⟨hd, h⟩
  · cases op <;> simp [Arith.shape, ill]
  · exact .inr ⟨hd, fun hs => h (Arith.shape_eq_scalar.1 hs).1⟩

theorem arith_right (h : Spoilt d s) (op : Arith) (t : Shape) : Spoilt d (op.shape t s) := by
  rcases h with rfl | ⟨hd, h⟩
  · cases op <;> simp [Arith.shape, ill]
  · exact .inr ⟨hd, fun hs => h (Arith.shape_eq_scalar.1 hs).2⟩

end Shape.Spoilt

variable {κ : Type}

def Interpretation.trivial [Zero κ] : Interpretation κ ℤ where
  leaf _ := 0
  D _ := 0
  leibniz _ _ _ := by simp
  number _ _ := rfl
  constant _ _ := rfl
  zero := rfl

namespace Expr

variable {d : Nat}

theorem shape_derive [Zero κ] (d : Nat) (a : Axis) (e : Expr κ) :
    (derive a e).shape d = e.shape d := by
  rw [← Interpretation.trivial.shape_value, Interpretation.value_derive, Value.shape_map,
    Interpretation.shape_value]

theorem shape_expand [Zero κ] {e x : Expr κ} (h : expand d e = .ok x) (hs : e.shape d ≠ .ill)
    (hl : e.Legible d) : x.shape d = e.shape d := by
  obtain ⟨y, hy, hval⟩ := (Interpretation.trivial (κ := κ)).exists_expand hs hl
  cases hy.symm.trans h
  rw [← Interpretation.trivial.shape_value, hval, Interpretation.shape_value]

theorem spoilt_derive [Zero κ] {e : Expr κ} (h : (e.shape d).Spoilt d) (a : Axis) :
    ((derive a e).shape d).Spoilt d := by
  rwa [shape_derive]

theorem spoilt_left {l : Expr κ} (h : (l.shape d).Spoilt d) (op : Arith) (r : Expr κ) :
    ((arith op l r).shape d).Spoilt d := h.arith_left op _

theorem spoilt_right {r : Expr κ} (h : (r.shape d).Spoilt d) (op : Arith) (l : Expr κ) :
    ((arith op l r).shape d).Spoilt d := h.arith_right op _

theorem spoilt_foldl_add {es : List (Expr κ)} {e : Expr κ}
    (h : (e.shape d).Spoilt d ∨ ∃ e' ∈ es, (e'.shape d).Spoilt d) :
    ((es.foldl add e).shape d).Spoilt d := by
  induction es generalizing e with
  | nil => simpa using h
  | cons e' es ih =>
    refine ih ?_
    rcases h with h | ⟨f, hf, h⟩
    · exact .inl (spoilt_left h .add e')
    · cases hf with
      | head => exact .inl (spoilt_right h .add e)
      | tail _ hf => exact .inr ⟨f, hf, h⟩

theorem spoilt_sum {es : List (Expr κ)} {e : Expr κ} (he : e ∈ es) (h : (e.shape d).Spoilt d)
    (x : Expr κ) : (((sum? es).getD x).shape d).Spoilt d := by
  cases es with
  | nil => cases he
  | cons e' es =>
    refine spoilt_foldl_add ?_
    cases he with
    | head => exact .inl h
    | tail _ he => exact .inr ⟨e, he, h⟩

/-- What an integrand of shape `s` has become that is not legible. A vector has no shape any more,
and a part of it is spoilt if parts are to be seen. -/
structure Ruined (d : Nat) (s : Shape) (x : Expr κ) : Prop where
  spoilt : (x.shape d).Spoilt d
  ill : s ≠ .scalar → x.shape d = .ill
  part : ∀ parts, x.components? = some parts → ∃ p ∈ parts, (p.shape d).Spoilt d

namespace Ruined

variable {s : Shape} {x : Expr κ}

theorem of_scalar (hx : (x.shape d).Spoilt d) (hnone : x.components? = none) :
    Ruined d .scalar x :=
  ⟨hx, fun h => absurd rfl h, by simp [hnone]⟩

theorem of_ill (hx : x.shape d = .ill) (hnone : x.components? = none) : Ruined d s x :=
  ⟨.inl hx, fun _ => hx, by simp [hnone]⟩

theorem tuple {items : List (Expr κ)} {e : Expr κ} (he : e ∈ items) (h : (e.shape d).Spoilt d) :
    Ruined d s (.tuple items) := by
  have hill : (Expr.tuple items).shape d = .ill := by
    by_contra hne
    exact h.ne_scalar (shape_tuple_ne_ill.1 hne e he)
  refine ⟨.inl hill, fun _ => hill, fun parts hparts => ?_⟩
  cases hparts
  exact ⟨e, he, h⟩

theorem concrete {o : OperatorAt} {args : List (Expr κ)} {e : Expr κ} (he : e ∈ args)
    (h : e.shape d = .ill) : Ruined d s (.concrete o args) := by
  refine of_ill ?_ rfl
  rw [shape_node]
  exact Operator.shape_of_ill_mem (h ▸ List.mem_map_of_mem he)

end Ruined

structure Expanded (d : Nat) (e x : Expr κ) : Prop where
  shown : x.ShownBy d e
  shape : x.shape d = e.shape d ∨ Ruined d (e.shape d) x

namespace Expanded

variable {e x : Expr κ}

theorem ne_scalar (h : Expanded d e x) (he : e.shape d ≠ .scalar) : x.shape d ≠ .scalar := by
  rcases h.shape with hx | hx
  · rwa [hx]
  · rw [hx.ill he]; simp

end Expanded

end Expr

namespace OperatorAt

open VariationalForms.Expr (Ruined Expanded)

section Rules

variable {d : Nat} {e f u v x : Expr κ}

section Derivatives

variable [Zero κ]

theorem ruined_gradient (hs : Operator.grad.shape d [e.shape d] ≠ .ill)
    (hu : Expanded d e u) (hbad : Ruined d (e.shape d) u) :
    Ruined d (Operator.grad.shape d [e.shape d]) (gradient ⟨.grad, d⟩ u) := by
  obtain ⟨hd, he⟩ := Operator.shape_grad_ne_ill.1 hs
  have hnone := hu.shown.none_of_scalar he
  have hderive := Expr.spoilt_derive hbad.spoilt
  simp only [gradient, hnone]
  by_cases hone : d = 1
  · rw [if_pos hone, he]
    subst hone
    exact Ruined.of_scalar (hderive .x) (Expr.components?_derive_of_none hnone .x)
  · rw [if_neg hone]
    exact Ruined.tuple (List.mem_map_of_mem (Axis.x_mem_spanning (Operator.le_of_existsIn hd).1))
      (hderive .x)

theorem spoilt_sum_derive {axes : List Axis} {parts : List (Expr κ)}
    (hlen : parts.length ≤ axes.length) (h : ∃ p ∈ parts, (p.shape d).Spoilt d) (y : Expr κ) :
    (((Expr.sum? (List.zipWith Expr.derive axes parts)).getD y).shape d).Spoilt d := by
  obtain ⟨p, hmem, hspoilt⟩ := h
  obtain ⟨a, ha⟩ := exists_mem_zipWith_right Expr.derive hlen hmem
  exact Expr.spoilt_sum ha (Expr.spoilt_derive hspoilt a) y

theorem ruined_divergence_unseen (hs : Operator.div.shape d [e.shape d] ≠ .ill)
    (hu : Expanded d e u) (hp : u.components? = none)
    (hbad : Ruined d (e.shape d) u ∨
      Operator.div.misreads d [(e.shape d, u.components?.isSome)] = true) :
    Ruined d .scalar (if d = 1 then u.derive .x else .concrete ⟨.div, d⟩ [u]) := by
  obtain ⟨-, he⟩ := Operator.shape_div_ne_ill.1 hs
  by_cases hone : d = 1
  · rw [if_pos hone]
    refine Ruined.of_scalar (Expr.spoilt_derive ?_ .x) (Expr.components?_derive_of_none hp .x)
    rcases hbad with hbad | hbad
    · exact hbad.spoilt
    · have hvec : e.shape d ≠ .scalar := by
        intro hscalar
        simp [Operator.misreads, hscalar] at hbad
      exact .inr ⟨hone, hu.ne_scalar hvec⟩
  · rw [if_neg hone]
    rcases hbad with hbad | hbad
    · have hvec : e.shape d ≠ .scalar := by
        rcases he with ⟨h, -⟩ | he
        · exact absurd h hone
        · simp [he]
      exact Ruined.concrete (.head _) (hbad.ill hvec)
    · simp [Operator.misreads, hone] at hbad

theorem ruined_divergence (hs : Operator.div.shape d [e.shape d] ≠ .ill)
    (hx : divergence ⟨.div, d⟩ u = .ok x) (hu : Expanded d e u)
    (hbad : Ruined d (e.shape d) u ∨
      Operator.div.misreads d [(e.shape d, e.showsParts d)] = true) :
    Ruined d .scalar x := by
  obtain ⟨hd, -⟩ := Operator.shape_div_ne_ill.1 hs
  rw [← hu.shown.isSome] at hbad
  rcases divergence_eq_ok_iff.1 hx with ⟨parts, hp, hlen, rfl⟩ | ⟨hp, rfl⟩
  · rcases hbad with hbad | hbad
    · have hle : parts.length ≤ (Axis.spanning d).length := by
        have := (Operator.le_of_existsIn hd).2
        rw [Axis.length_spanning, hlen]
        exact Nat.le_min.2 ⟨Nat.le_refl d, this⟩
      refine Ruined.of_scalar (spoilt_sum_derive hle (hbad.part parts hp) _) ?_
      exact Option.not_isSome_iff_eq_none.1 (by simp [(seen_divergence hx hu.shown.plain).isSome])
    · simp [Operator.misreads, hp] at hbad
  · exact ruined_divergence_unseen hs hu hp hbad

theorem ruined_rotation (hs : Operator.rot.shape d [e.shape d] ≠ .ill)
    (hx : rotation ⟨.rot, d⟩ u = .ok x) (hbad : Ruined d (e.shape d) u) :
    Ruined d .scalar x := by
  obtain ⟨rfl, he⟩ := Operator.shape_rot_ne_ill.1 hs
  rcases rotation_eq_ok_iff.1 hx with ⟨u₀, u₁, rest, hp, hlen, rfl⟩ | ⟨-, rfl⟩
  · obtain rfl : rest = [] := by simpa using hlen
    obtain ⟨p, hmem, hspoilt⟩ := hbad.part _ hp
    simp only [List.mem_cons, List.not_mem_nil, or_false] at hmem
    refine Ruined.of_scalar ?_ rfl
    rcases hmem with rfl | rfl
    · exact Expr.spoilt_left (Expr.spoilt_derive hspoilt .y) .sub _
    · exact Expr.spoilt_right (Expr.spoilt_derive hspoilt .x) .sub _
  · exact Ruined.concrete (.head _) (hbad.ill (by simp [he]))

theorem ruined_curl (hs : Operator.curl.shape d [e.shape d] ≠ .ill)
    (hx : curl ⟨.curl, d⟩ u = .ok x) (hbad : Ruined d (e.shape d) u) (s : Shape) :
    Ruined d s x := by
  obtain ⟨rfl, he⟩ := Operator.shape_curl_ne_ill.1 hs
  rcases curl_eq_ok_iff.1 hx with ⟨u₀, u₁, u₂, rest, hp, hlen, rfl⟩ | ⟨-, rfl⟩
  · obtain rfl : rest = [] := by simpa using hlen
    obtain ⟨p, hmem, hspoilt⟩ := hbad.part _ hp
    simp only [List.mem_cons, List.not_mem_nil, or_false] at hmem
    have hderive := Expr.spoilt_derive hspoilt
    rcases hmem with rfl | rfl | rfl
    · exact Ruined.tuple (.tail _ (.head _)) (Expr.spoilt_left (hderive .z) .sub _)
    · exact Ruined.tuple (.head _) (Expr.spoilt_right (hderive .z) .sub _)
    · exact Ruined.tuple (.head _) (Expr.spoilt_left (hderive .y) .sub _)
  · exact Ruined.concrete (.head _) (hbad.ill (by simp [he]))

end Derivatives

theorem spoilt_sum_mul {us vs : List (Expr κ)} (hlen : us.length = vs.length)
    (h : (∃ p ∈ us, (p.shape d).Spoilt d) ∨ ∃ q ∈ vs, (q.shape d).Spoilt d) (y : Expr κ) :
    (((Expr.sum? (List.zipWith .mul us vs)).getD y).shape d).Spoilt d := by
  rcases h with ⟨p, hmem, hspoilt⟩ | ⟨q, hmem, hspoilt⟩
  · obtain ⟨q, hq⟩ := exists_mem_zipWith_left Expr.mul hlen.le hmem
    exact Expr.spoilt_sum hq (Expr.spoilt_left hspoilt .mul q) y
  · obtain ⟨p, hp⟩ := exists_mem_zipWith_right Expr.mul hlen.ge hmem
    exact Expr.spoilt_sum hp (Expr.spoilt_right hspoilt .mul p) y

theorem ruined_innerProduct {o : OperatorAt}
    (hs : Operator.dot.shape d [e.shape d, f.shape d] ≠ .ill)
    (hx : o.innerProduct u v = .ok x) (hu : Expanded d e u) (hv : Expanded d f v)
    (hbad : Ruined d (e.shape d) u ∨ Ruined d (f.shape d) v ∨
      Operator.dot.misreads d
        [(e.shape d, e.showsParts d), (f.shape d, f.showsParts d)] = true) :
    Ruined d .scalar x := by
  obtain ⟨hd, hshapes⟩ := Operator.shape_dot_ne_ill.1 hs
  have hnone : x.components? = none :=
    Option.not_isSome_iff_eq_none.1 (by simp [(seen_innerProduct hx).isSome])
  rw [← hu.shown.isSome, ← hv.shown.isSome] at hbad
  rcases innerProduct_eq_ok_iff.1 hx with
    ⟨us, vs, hpu, hpv, hlu, hlv, rfl⟩ | ⟨hpu, hpv, rfl⟩ | ⟨hmixed, rfl⟩
  · refine Ruined.of_scalar ?_ hnone
    have hlen : us.length = vs.length := hlu.trans hlv.symm
    rcases hbad with hbad | hbad | hbad
    · exact spoilt_sum_mul hlen (.inl (hbad.part us hpu)) _
    · exact spoilt_sum_mul hlen (.inr (hbad.part vs hpv)) _
    · simp [Operator.misreads, hpu] at hbad
  · refine Ruined.of_scalar ?_ hnone
    rcases hshapes with ⟨he, hf⟩ | ⟨he, hf⟩
    · rcases hbad with hbad | hbad | hbad
      · exact Expr.spoilt_left hbad.spoilt .mul v
      · exact Expr.spoilt_right hbad.spoilt .mul u
      · simp [Operator.misreads, he] at hbad
    · exact .inl (Shape.product_of_ne_scalar (hu.ne_scalar (by simp [he]))
        (hv.ne_scalar (by simp [hf])))
  · rcases hshapes with ⟨he, hf⟩ | ⟨he, hf⟩
    · rw [hu.shown.none_of_scalar he, hv.shown.none_of_scalar hf] at hmixed
      exact absurd rfl hmixed
    · rcases hbad with hbad | hbad | hbad
      · exact Ruined.concrete (.head _) (hbad.ill (by simp [he]))
      · exact Ruined.concrete (.tail _ (.head _)) (hbad.ill (by simp [hf]))
      · simp only [Operator.misreads] at hbad
        simp_all

theorem spoilt_cross_plane {u₀ u₁ v₀ v₁ : Expr κ}
    (h : (∃ p ∈ [u₀, u₁], (p.shape d).Spoilt d) ∨ ∃ p ∈ [v₀, v₁], (p.shape d).Spoilt d) :
    ((Expr.sub (.mul u₀ v₁) (.mul u₁ v₀)).shape d).Spoilt d := by
  simp only [List.mem_cons, List.not_mem_nil, or_false, exists_eq_or_imp, exists_eq_left] at h
  rcases h with (h | h) | h | h
  · exact Expr.spoilt_left (Expr.spoilt_left h .mul _) .sub _
  · exact Expr.spoilt_right (Expr.spoilt_left h .mul _) .sub _
  · exact Expr.spoilt_right (Expr.spoilt_right h .mul _) .sub _
  · exact Expr.spoilt_left (Expr.spoilt_right h .mul _) .sub _

theorem ruined_cross_space {u₀ u₁ u₂ v₀ v₁ v₂ : Expr κ} {s : Shape}
    (h : (∃ p ∈ [u₀, u₁, u₂], (p.shape d).Spoilt d) ∨ ∃ p ∈ [v₀, v₁, v₂], (p.shape d).Spoilt d) :
    Ruined d s (.tuple [.sub (.mul u₁ v₂) (.mul u₂ v₁), .sub (.mul u₂ v₀) (.mul u₀ v₂),
      .sub (.mul u₀ v₁) (.mul u₁ v₀)]) := by
  simp only [List.mem_cons, List.not_mem_nil, or_false, exists_eq_or_imp, exists_eq_left] at h
  rcases h with (h | h | h) | h | h | h
  · exact Ruined.tuple (.tail _ (.head _)) (Expr.spoilt_right (Expr.spoilt_left h .mul _) .sub _)
  · exact Ruined.tuple (.head _) (Expr.spoilt_left (Expr.spoilt_left h .mul _) .sub _)
  · exact Ruined.tuple (.head _) (Expr.spoilt_right (Expr.spoilt_left h .mul _) .sub _)
  · exact Ruined.tuple (.tail _ (.head _)) (Expr.spoilt_left (Expr.spoilt_right h .mul _) .sub _)
  · exact Ruined.tuple (.head _) (Expr.spoilt_right (Expr.spoilt_right h .mul _) .sub _)
  · exact Ruined.tuple (.head _) (Expr.spoilt_left (Expr.spoilt_right h .mul _) .sub _)

theorem ruined_crossProduct (hs : Operator.cross.shape d [e.shape d, f.shape d] ≠ .ill)
    (hx : crossProduct ⟨.cross, d⟩ u v = .ok x)
    (hbad : Ruined d (e.shape d) u ∨ Ruined d (f.shape d) v) :
    Ruined d (Operator.cross.shape d [e.shape d, f.shape d]) x := by
  rcases crossProduct_eq_ok_iff.1 hx with ⟨u₀, u₁, v₀, v₁, hpu, hpv, hd, rfl⟩ |
    ⟨u₀, u₁, u₂, us, v₀, v₁, v₂, vs, hpu, hpv, hlu, hlv, rfl⟩ | ⟨-, rfl⟩
  · cases (show d = 2 from hd)
    rcases Operator.shape_cross_ne_ill.1 hs with ⟨-, he, hf⟩ | ⟨h, -, -⟩
    · rw [he, hf]
      exact Ruined.of_scalar
        (spoilt_cross_plane (hbad.imp (fun h => h.part _ hpu) fun h => h.part _ hpv)) rfl
    · cases h
  · have hd := Operator.le_of_existsIn (Operator.existsIn_of_shape hs)
    simp only at hlu hlv
    obtain rfl : us = [] := List.length_eq_zero_iff.1 (by omega)
    obtain rfl : vs = [] := List.length_eq_zero_iff.1 (by omega)
    exact ruined_cross_space (hbad.imp (fun h => h.part _ hpu) fun h => h.part _ hpv)
  · have hvec : e.shape d ≠ .scalar ∧ f.shape d ≠ .scalar := by
      rcases Operator.shape_cross_ne_ill.1 hs with ⟨-, he, hf⟩ | ⟨-, he, hf⟩ <;> simp [he, hf]
    rcases hbad with hbad | hbad
    · exact Ruined.concrete (.head _) (hbad.ill hvec.1)
    · exact Ruined.concrete (.tail _ (.head _)) (hbad.ill hvec.2)

end Rules

variable [Zero κ] {d : Nat}

theorem ruined_apply_one {o : Operator} {e u x : Expr κ} (hs : o.shape d [e.shape d] ≠ .ill)
    (hu : Expanded d e u) (hx : apply ⟨o, d⟩ [u] = .ok x)
    (hbad : Ruined d (e.shape d) u ∨ o.misreads d [(e.shape d, e.showsParts d)] = true) :
    Ruined d (o.shape d [e.shape d]) x := by
  cases o with
  | grad =>
    cases hx
    exact ruined_gradient hs hu (hbad.resolve_right (by simp [Operator.misreads]))
  | div => exact Operator.shape_div_eq_scalar hs ▸ ruined_divergence hs hx hu hbad
  | rot =>
    obtain ⟨rfl, he⟩ := Operator.shape_rot_ne_ill.1 hs
    rw [he]
    exact ruined_rotation hs hx (hbad.resolve_right (by simp [Operator.misreads]))
  | curl => exact ruined_curl hs hx (hbad.resolve_right (by simp [Operator.misreads])) _
  | dot | inner | cross => cases hx

theorem ruined_apply_two {o : Operator} {e f u v x : Expr κ}
    (hs : o.shape d [e.shape d, f.shape d] ≠ .ill) (hu : Expanded d e u) (hv : Expanded d f v)
    (hx : apply ⟨o, d⟩ [u, v] = .ok x)
    (hbad : Ruined d (e.shape d) u ∨ Ruined d (f.shape d) v ∨
      o.misreads d [(e.shape d, e.showsParts d), (f.shape d, f.showsParts d)] = true) :
    Ruined d (o.shape d [e.shape d, f.shape d]) x := by
  cases o with
  | dot => exact Operator.shape_dot_eq_scalar hs ▸ ruined_innerProduct hs hx hu hv hbad
  | inner => exact Operator.shape_dot_eq_scalar hs ▸ ruined_innerProduct hs hx hu hv hbad
  | cross =>
    refine ruined_crossProduct hs hx ?_
    rcases hbad with h | h | h
    · exact .inl h
    · exact .inr h
    · simp [Operator.misreads] at h
  | grad | div | rot | curl => cases hx

/-- A ruined operand ruins the outcome of a rule, and so does a vector that is taken for a number.
-/
theorem ruined_apply {o : Operator} {args rs : List (Expr κ)} {x : Expr κ}
    (hs : o.shape d (args.map (Expr.shape d)) ≠ .ill) (hrs : List.Forall₂ (Expanded d) args rs)
    (hx : apply ⟨o, d⟩ rs = .ok x)
    (hbad : (∃ p ∈ args.zip rs, Ruined d (p.1.shape d) p.2) ∨
      o.misreads d (args.map fun e => (e.shape d, e.showsParts d)) = true) :
    Ruined d (o.shape d (args.map (Expr.shape d))) x := by
  have hlen := Operator.length_of_shape hs
  rw [List.length_map] at hlen
  have harity : o.arity = 1 ∨ o.arity = 2 := by cases o <;> simp [Operator.arity]
  rcases harity with hone | htwo
  · obtain ⟨e, rfl⟩ := List.length_eq_one_iff.1 (hlen.trans hone)
    obtain ⟨u, _, hu, hnil, rfl⟩ := List.forall₂_cons_left_iff.1 hrs
    cases hnil
    exact ruined_apply_one hs hu hx (by simpa using hbad)
  · obtain ⟨e, f, rfl⟩ := List.length_eq_two.1 (hlen.trans htwo)
    obtain ⟨u, _, hu, hrest, rfl⟩ := List.forall₂_cons_left_iff.1 hrs
    obtain ⟨v, _, hv, hnil, rfl⟩ := List.forall₂_cons_left_iff.1 hrest
    cases hnil
    exact ruined_apply_two hs hu hv hx (by simpa [or_assoc] using hbad)

end OperatorAt

namespace Expr

variable {d : Nat}

def isConcrete : Expr κ → Bool
  | .concrete _ _ => true
  | _ => false

/-- No operator in the integrand has been left unevaluated before. -/
def ConcreteFree (e : Expr κ) : Prop := ∀ n ∈ e.nodes, n.isConcrete = false

instance (e : Expr κ) : Decidable e.ConcreteFree := by
  unfold ConcreteFree; infer_instance

theorem concreteFree_arith {op : Arith} {l r : Expr κ} :
    (arith op l r).ConcreteFree ↔ l.ConcreteFree ∧ r.ConcreteFree :=
  forall_nodes_arith (P := fun n => n.isConcrete = false) rfl

theorem concreteFree_node {h : Head} {args : List (Expr κ)} :
    (node h args).ConcreteFree ↔ (node h args).isConcrete = false ∧ ∀ e ∈ args, e.ConcreteFree :=
  forall_nodes_node

namespace Ruined

variable {s t : Shape} {l r x y : Expr κ}

theorem arith_left {op : Arith} (hs : op.shape s t ≠ .ill) (hl : Ruined d s l)
    (hr : t ≠ .scalar → r.shape d ≠ .scalar) : Ruined d (op.shape s t) (.arith op l r) := by
  refine ⟨spoilt_left hl.spoilt op r, fun hne => ?_, by simp [components?]⟩
  change op.shape (l.shape d) (r.shape d) = .ill
  cases op with
  | mul =>
    by_cases hscalar : s = .scalar
    · have ht : t ≠ .scalar := fun ht => hne (Arith.shape_eq_scalar.2 ⟨hscalar, ht⟩)
      exact Shape.product_of_ne_scalar hl.spoilt.ne_scalar (hr ht)
    · rw [hl.ill hscalar]
      exact Shape.ill_product _
  | _ =>
    have hst : s = t := (Shape.sum_ne_ill hs).1
    have hill := hl.ill fun hscalar => hne (Arith.shape_eq_scalar.2 ⟨hscalar, hst ▸ hscalar⟩)
    simp [Arith.shape, hill]

theorem arith_right {op : Arith} (hs : op.shape s t ≠ .ill) (hr : Ruined d t r)
    (hl : s ≠ .scalar → l.shape d ≠ .scalar) : Ruined d (op.shape s t) (.arith op l r) := by
  refine ⟨spoilt_right hr.spoilt op l, fun hne => ?_, by simp [components?]⟩
  change op.shape (l.shape d) (r.shape d) = .ill
  cases op with
  | mul =>
    by_cases hscalar : t = .scalar
    · have ht : s ≠ .scalar := fun ht => hne (Arith.shape_eq_scalar.2 ⟨ht, hscalar⟩)
      exact Shape.product_of_ne_scalar (hl ht) hr.spoilt.ne_scalar
    · rw [hr.ill hscalar]
      exact Shape.product_ill _
  | _ =>
    have hst : s = t := (Shape.sum_ne_ill hs).1
    have hill := hr.ill fun hscalar => hne (Arith.shape_eq_scalar.2 ⟨hst ▸ hscalar, hscalar⟩)
    simp [Arith.shape, hill]

theorem derivative (h : Ruined d s x) (a : Axis) : Ruined d s (.derivative a [x]) :=
  have hshape : (Expr.derivative a [x]).shape d = x.shape d := by rw [shape_node]; rfl
  ⟨by rw [hshape]; exact h.spoilt, fun hs => by rw [hshape]; exact h.ill hs, by simp [components?]⟩

theorem derive [Zero κ] (h : Ruined d s x) (a : Axis) : Ruined d s (x.derive a) := by
  refine ⟨spoilt_derive h.spoilt a, fun hs => by rw [shape_derive]; exact h.ill hs, ?_⟩
  intro parts hparts
  rw [components?_derive] at hparts
  split at hparts
  case h_1 items =>
    cases hparts
    obtain ⟨p, hp, hspoilt⟩ := h.part items rfl
    exact ⟨_, List.mem_map_of_mem hp, spoilt_derive hspoilt a⟩
  case h_2 => cases hparts

end Ruined

theorem concreteFree_factors (e : Expr κ) :
    e.ConcreteFree ↔ ∀ f ∈ e.factors, f.ConcreteFree :=
  forall_nodes_factors (P := fun n => n.isConcrete = false) (fun _ _ => rfl) e

theorem concreteFree_product? {es : List (Expr κ)} {p : Expr κ} (h : product? es = some p) :
    p.ConcreteFree ↔ ∀ f ∈ es, f.ConcreteFree :=
  forall_nodes_product? (P := fun n => n.isConcrete = false) (fun _ _ => rfl) h

theorem legible_of_operands {cs : Coefficients} {e : Expr κ}
    (h : ∀ f ∈ e.factors.filter (! cs.isCoefficient ·), f.Legible d) : e.Legible d := by
  refine (legible_factors e).2 fun f hf => ?_
  cases hc : cs.isCoefficient f with
  | false => exact h f (List.mem_filter.2 ⟨hf, by simp [hc]⟩)
  | true =>
    cases f with
    | leaf l => exact legible_leaf d l
    | _ => cases hc

variable [Zero κ]

theorem expanded_of_expand {e x : Expr κ} (h : expand d e = .ok x) (hs : e.shape d ≠ .ill)
    (hruined : ¬ e.Legible d → Ruined d (e.shape d) x) : Expanded d e x := by
  refine ⟨shownBy_of_expand h hs, ?_⟩
  by_cases hl : e.Legible d
  · exact .inl (shape_expand h hs hl)
  · exact .inr (hruined hl)

omit [Zero κ] in
theorem ruined_node {h : Head} {args rs : List (Expr κ)} (hs : (node h args).shape d ≠ .ill)
    (hg : ∀ o, h ≠ .generic o) (hc : d = 1 → (node h args).ConcreteFree)
    (hrs : List.Forall₂ (fun e r => ¬ e.Legible d → Ruined d (e.shape d) r) args rs)
    (hl : ¬ (node h args).Legible d) : Ruined d ((node h args).shape d) (node h rs) := by
  obtain ⟨e, he, hle⟩ : ∃ e ∈ args, ¬ e.Legible d := by
    by_contra hall
    refine hl (legible_node.2 ⟨?_, fun e he => by_contra fun hle => hall ⟨e, he, hle⟩⟩)
    cases h with
    | generic o => exact absurd rfl (hg o)
    | _ => rfl
  obtain ⟨r, hr, hruined⟩ := exists_of_mem_left hrs he
  have hruined := hruined hle
  cases h with
  | generic o => exact absurd rfl (hg o)
  | tuple => exact Ruined.tuple hr hruined.spoilt
  | concrete o =>
    have hd : d ≠ 1 := fun hd => by
      have hself := (concreteFree_node.1 (hc hd)).1
      cases hself
    exact Ruined.concrete hr (hruined.spoilt.resolve_right fun h => hd h.1)
  | derivative a =>
    match args, rs, hrs, hs with
    | [u], [v], _, _ =>
      cases List.mem_singleton.1 he
      cases List.mem_singleton.1 hr
      rw [show (node (.derivative a) [e]).shape d = e.shape d by rw [shape_node]; rfl]
      exact hruined.derivative a
    | [], _, _, hs => cases he
    | _ :: _ :: _, _, _, hs => exact absurd (by rw [shape_node]; rfl) hs

theorem ruined_generic {o : Operator} {args rs : List (Expr κ)} {x : Expr κ}
    (hs : (generic o args).shape d ≠ .ill) (hrs : List.Forall₂ (Expanded d) args rs)
    (hruined : List.Forall₂ (fun e r => ¬ e.Legible d → Ruined d (e.shape d) r) args rs)
    (hx : OperatorAt.apply ⟨o, d⟩ rs = .ok x) (hl : ¬ (generic o args).Legible d) :
    Ruined d ((generic o args).shape d) x := by
  rw [shape_node] at hs ⊢
  refine OperatorAt.ruined_apply hs hrs hx ?_
  by_cases hall : ∀ e ∈ args, e.Legible d
  · exact .inr (by_contra fun hm => hl (legible_node.2 ⟨Bool.eq_false_iff.2 hm, hall⟩))
  · obtain ⟨e, hall⟩ := not_forall.1 hall
    obtain ⟨he, hle⟩ := Classical.not_imp.1 hall
    obtain ⟨r, hzip, hr⟩ := exists_zip_of_mem hruined he
    exact .inl ⟨(e, r), hzip, hr hle⟩

/-- What expanding makes of an integrand that is not legible. On a line a concrete operator could
take what is spoilt for the vector of one component that it asks for. -/
theorem ruined_of_expand {e x : Expr κ} (h : expand d e = .ok x) (hs : e.shape d ≠ .ill)
    (hc : d = 1 → e.ConcreteFree) (hl : ¬ e.Legible d) : Ruined d (e.shape d) x := by
  refine expand_induct (P := fun e x => e.shape d ≠ .ill → (d = 1 → e.ConcreteFree) →
    ¬ e.Legible d → Ruined d (e.shape d) x) ?leaf ?arith ?derived ?generic ?node h hs hc hl
  case leaf =>
    intro l _ _ hl
    exact absurd (legible_leaf d l) hl
  case arith =>
    intro op l r l' r' hl' hr' ihl ihr hs hc hlegible
    have hsl := shape_of_mem_children hs (by simp [children] : l ∈ _)
    have hsr := shape_of_mem_children hs (by simp [children] : r ∈ _)
    have hcl := fun hd => (concreteFree_arith.1 (hc hd)).1
    have hcr := fun hd => (concreteFree_arith.1 (hc hd)).2
    by_cases hll : l.Legible d
    · have hlr : ¬ r.Legible d := fun hlr => hlegible (legible_arith.2 ⟨hll, hlr⟩)
      exact (ihr hsr hcr hlr).arith_right hs (expanded_of_expand hl' hsl (ihl hsl hcl)).ne_scalar
    · exact (ihl hsl hcl hll).arith_left hs (expanded_of_expand hr' hsr (ihr hsr hcr)).ne_scalar
  case derived =>
    intro a u v _ _ ih hs hc hlegible
    have hshape : (Expr.derivative a [u]).shape d = u.shape d := by rw [shape_node]; rfl
    rw [hshape] at hs ⊢
    refine (ih hs (fun hd => (concreteFree_node.1 (hc hd)).2 u (.head _)) fun hlu => ?_).derive a
    exact hlegible (legible_node.2 ⟨rfl, by simpa using hlu⟩)
  case generic =>
    intro o args rs x hrs hx hs hc hlegible
    have hruined : List.Forall₂ (fun e r => ¬ e.Legible d → Ruined d (e.shape d) r) args rs :=
      forall₂_of_mem hrs fun e he r hr =>
        hr.2 (shape_of_mem_children hs he) fun hd => (concreteFree_node.1 (hc hd)).2 e he
    refine ruined_generic hs (forall₂_of_mem hrs fun e he r hr => ?_) hruined hx hlegible
    have hse := shape_of_mem_children hs he
    exact expanded_of_expand hr.1 hse (hr.2 hse fun hd => (concreteFree_node.1 (hc hd)).2 e he)
  case node =>
    intro h args rs hg _ hrs hs hc hlegible
    refine ruined_node hs hg hc (forall₂_of_mem hrs fun e he r hr => ?_) hlegible
    exact hr.2 (shape_of_mem_children hs he) fun hd => (concreteFree_node.1 (hc hd)).2 e he

variable [One κ] {cs : Coefficients}

theorem spoilt_onOperands {e x : Expr κ} (hs : e.shape d = .scalar)
    (hc : d = 1 → e.ConcreteFree) (hl : ¬ e.Legible d)
    (h : cs.onOperands (resolveTerm d) e = .ok x) : (x.shape d).Spoilt d := by
  have hterm : ∀ o y, product? (e.factors.filter (! cs.isCoefficient ·)) = some o →
      o.shape d = .scalar → resolveTerm d o = .ok y → (y.shape d).Spoilt d := by
    intro o y ho hso hy
    have hlo : ¬ o.Legible d := fun hlo => hl (legible_of_operands ((legible_product? ho).1 hlo))
    have hco : d = 1 → o.ConcreteFree := fun hd => (concreteFree_product? ho).2 fun f hf =>
      (concreteFree_factors e).1 (hc hd) f (List.mem_filter.1 hf).1
    exact (ruined_of_expand (resolveTerm_eq_ok_iff.1 hy).2 (by simp [hso]) hco hlo).spoilt
  let I : Interpretation κ ℤ := .trivial
  rcases Coefficients.onOperands_eq_ok_iff.1 h with
    ⟨c, o, y, hpc, hpo, hy, rfl⟩ | ⟨hnil, -⟩ | ⟨hnil, o, hpo, hy⟩
  · have hval := I.value_split (d := d) hpc hpo
    rw [← I.shape_value, ← hval, Value.shape_mul, I.shape_value, I.shape_value] at hs
    exact spoilt_right (hterm o y hpo (Shape.product_eq_scalar.1 hs).2 hy) .mul c
  · have hops : ∀ f ∈ e.factors.filter (! cs.isCoefficient ·), f.Legible d := by simp [hnil]
    exact absurd (legible_of_operands hops) hl
  · have hval := I.value_operands (d := d) hnil hpo
    exact hterm o x hpo (by rw [← I.shape_value, hval, I.shape_value, hs]) hy

theorem spoilt_resolveIn {e x : Expr κ} (hs : e.shape d = .scalar) (hc : d = 1 → e.ConcreteFree)
    (hl : ¬ e.Legible d) (h : e.resolveIn cs d = .ok x) : (x.shape d).Spoilt d := by
  refine Coefficients.distribute_induct (P := fun e x => e.shape d = .scalar →
    (d = 1 → e.ConcreteFree) → ¬ e.Legible d → (x.shape d).Spoilt d) ?sum ?product ?other h hs hc hl
  case sum =>
    intro op l r l' r' _ ihl ihr hs hc hlegible
    obtain ⟨hsl, hsr⟩ := Arith.shape_eq_scalar.1 hs
    have hcl := fun hd => (concreteFree_arith.1 (hc hd)).1
    have hcr := fun hd => (concreteFree_arith.1 (hc hd)).2
    by_cases hll : l.Legible d
    · have hlr : ¬ r.Legible d := fun hlr => hlegible (legible_arith.2 ⟨hll, hlr⟩)
      exact spoilt_right (ihr hsr hcr hlr) op l'
    · exact spoilt_left (ihl hsl hcl hll) op r'
  case product =>
    intro l r x hx hs hc hlegible
    exact spoilt_onOperands hs hc hlegible hx
  case other =>
    intro e x _ hx hs hc hlegible
    exact (ruined_of_expand (resolveTerm_eq_ok_iff.1 hx).2 (by simp [hs]) hc hlegible).spoilt

theorem shape_resolveIn {e x : Expr κ} (hs : e.shape d ≠ .ill) (hl : e.Legible d)
    (h : e.resolveIn cs d = .ok x) : x.shape d = e.shape d := by
  let I : Interpretation κ ℤ := .trivial
  obtain ⟨y, hy, hval⟩ := I.exists_resolveIn cs hs hl
  cases hy.symm.trans h
  rw [← I.shape_value, hval, I.shape_value]

/-- Resolving keeps the shape of a number, and multiplies no two vectors, if the integrand is
legible; otherwise, it never does. On a line a concrete operator may hide that two of its operands
have become vectors. -/
theorem shape_resolveIn_iff {e x : Expr κ} (hs : e.shape d = .scalar)
    (h : e.resolveIn cs d = .ok x) :
    (e.Legible d → x.shape d = .scalar ∧
      ∀ l r, .mul l r ∈ x.nodes → l.shape d = .scalar ∨ r.shape d = .scalar) ∧
    ((d = 1 → e.ConcreteFree) → x.shape d = .scalar → e.Legible d) := by
  refine ⟨fun hl => ?_, fun hc hx => ?_⟩
  · have hx : x.shape d = .scalar := (shape_resolveIn (by simp [hs]) hl h).trans hs
    refine ⟨hx, fun l r hlr => ?_⟩
    have hmul := shape_of_mem_nodes (d := d) (by simp [hx]) hlr
    by_contra hne
    obtain ⟨hl, hr⟩ := not_or.1 hne
    exact hmul (Shape.product_of_ne_scalar hl hr)
  · by_contra hl
    exact (spoilt_resolveIn hs hc hl h).ne_scalar hx

def scaledTrial : Expr ℤ := .mul (.number 2) (.function ⟨"u", .trial, ⟨"V", 0, 2, .vector 2⟩⟩)

def scaledTest : Expr ℤ := .mul (.number 3) (.function ⟨"v", .test, ⟨"V", 0, 2, .vector 2⟩⟩)

/-- The dot product of multiples of vectors becomes a product of two vectors. -/
theorem shape_resolveIn_dot :
    (Expr.generic .dot [scaledTrial, scaledTest]).shape 2 = .scalar ∧
      (Expr.generic .dot [scaledTrial, scaledTest]).resolveIn .standard 2 =
        .ok (.mul scaledTrial scaledTest) ∧
      (Expr.mul scaledTrial scaledTest).shape 2 ≠ .scalar := by
  have hresolve : (Expr.generic .dot [scaledTrial, scaledTest]).resolveIn .standard 2 =
      .ok (.mul scaledTrial scaledTest) := by with_unfolding_all rfl
  refine ⟨by decide, hresolve, fun hx => ?_⟩
  have hl := (shape_resolveIn_iff (by decide) hresolve).2 (by decide) hx
  exact absurd hl (by decide)

end Expr

end VariationalForms
