import VariationalForms.Proofs.Expand
import VariationalForms.Proofs.Legible
import VariationalForms.Proofs.Parts

/-! Which integrands show their parts once they are resolved.
`Expr.showsParts` foretells it for every integrand that has a shape (`Expr.components?_expand`), so
that what the rules will see is known before any of them is applied.
-/

set_option autoImplicit false

namespace VariationalForms

variable {κ : Type}

namespace Expr

/-- The parts, if there are any, show no parts themselves. -/
def PlainParts (e : Expr κ) : Prop :=
  ∀ parts, e.components? = some parts → ∀ p ∈ parts, p.components? = none

theorem plainParts_of_none {e : Expr κ} (h : e.components? = none) : e.PlainParts := by
  intro parts hparts
  rw [h] at hparts
  cases hparts

theorem plainParts_tuple {items : List (Expr κ)} (h : ∀ e ∈ items, e.components? = none) :
    (tuple items).PlainParts := by
  intro parts hparts
  cases hparts
  exact h

theorem plainParts_leaf (l : Leaf κ) : (leaf l).PlainParts := by
  intro parts hparts p hp
  cases l with
  | function f =>
    simp only [components?] at hparts
    split at hparts
    · cases hparts
      obtain ⟨i, -, rfl⟩ := List.mem_map.1 hp
      rfl
    · cases hparts
  | _ => cases hparts

theorem components?_leaf (d : Nat) (l : Leaf κ) :
    (leaf l).components?.isSome = (leaf l).showsParts d := by
  cases l with
  | function f =>
    cases h : f.space.shape? <;> simp [components?, showsParts, Space.isVectorValued, h]
  | _ => rfl

section Derive

variable [Zero κ]

theorem components?_derive_of_none {e : Expr κ} (h : e.components? = none) (a : Axis) :
    (derive a e).components? = none := by
  rw [components?_derive]
  split
  · cases h
  · rfl

theorem plainParts_derive {e : Expr κ} (h : e.PlainParts) (a : Axis) :
    (derive a e).PlainParts := by
  intro parts hparts p hp
  rw [components?_derive] at hparts
  split at hparts
  case h_1 items =>
    cases hparts
    obtain ⟨q, hq, rfl⟩ := List.mem_map.1 hp
    exact components?_derive_of_none (h items rfl q hq) a
  case h_2 => cases hparts

theorem isSome_components?_derive {e : Expr κ} (h : ∀ f, e ≠ .function f) (a : Axis) :
    (derive a e).components?.isSome = e.components?.isSome := by
  rw [components?_derive]
  unfold components?
  split <;> split <;> simp_all

end Derive

theorem showsParts_of_scalar {d : Nat} {e : Expr κ} (h : e.shape d = .scalar) :
    e.showsParts d = false := by
  induction e with
  | leaf l =>
    cases l with
    | function f =>
      rw [shape_leaf] at h
      cases hf : f.space.shape? <;> simp_all [Leaf.shape, showsParts]
    | _ => rfl
  | arith op l r => rfl
  | node k args ih =>
    rw [shape_node] at h
    cases k with
    | tuple =>
      simp only [Head.shape, Shape.tuple] at h
      split at h <;> cases h
    | concrete o => rfl
    | derivative a =>
      rcases args with _ | ⟨u, _ | _⟩
      · rfl
      · have hu : u.shape d = .scalar := h
        rw [showsParts, ih u (.head _) hu, Bool.and_false]
      · rfl
    | generic o =>
      rw [showsParts_generic]
      exact Operator.showsParts_of_scalar h _

/-- What is known of the outcome of a rule: whether it shows parts, that the parts are plain, and
that it is no function any more. -/
structure Seen (p : Bool) (e : Expr κ) : Prop where
  isSome : e.components?.isSome = p
  plain : e.PlainParts
  ne_function : ∀ f, e ≠ .function f

namespace Seen

theorem arith (op : Arith) (l r : Expr κ) : Seen false (.arith op l r) :=
  ⟨rfl, plainParts_of_none rfl, by simp⟩

theorem concrete (o : OperatorAt) (args : List (Expr κ)) : Seen false (.concrete o args) :=
  ⟨rfl, plainParts_of_none rfl, by simp⟩

theorem tuple {items : List (Expr κ)} (h : ∀ e ∈ items, e.components? = none) :
    Seen true (.tuple items) :=
  ⟨rfl, plainParts_tuple h, by simp⟩

theorem derive [Zero κ] {e : Expr κ} (h : e.components? = none) (a : Axis) :
    Seen false (e.derive a) :=
  have hnone := components?_derive_of_none h a
  ⟨by rw [hnone]; rfl, plainParts_of_none hnone, derive_ne_function a e⟩

theorem sum {es : List (Expr κ)} {e : Expr κ} (hes : ∀ e ∈ es, Seen false e) (he : Seen false e) :
    Seen false ((sum? es).getD e) := by
  match es with
  | [] => exact he
  | [e'] => exact hes e' (.head _)
  | e' :: e'' :: es =>
    obtain ⟨l, r, hs⟩ := exists_add_of_sum? (s := (es.foldl add (.add e' e''))) rfl
    change Seen false (es.foldl add (.add e' e''))
    rw [hs]
    exact arith ..

end Seen

end Expr

namespace OperatorAt

open VariationalForms.Expr (Seen)

section Rules

variable {o : OperatorAt} {u v x : Expr κ}

section Derivatives

variable [Zero κ]

theorem seen_gradient (hu : u.components? = none) : Seen (o.dim != 1) (o.gradient u) := by
  simp only [gradient, hu]
  by_cases hd : o.dim = 1
  · simpa [hd] using Seen.derive hu .x
  · rw [if_neg hd, bne_iff_ne.2 hd]
    refine Seen.tuple fun e he => ?_
    obtain ⟨a, -, rfl⟩ := List.mem_map.1 he
    exact Expr.components?_derive_of_none hu a

theorem seen_divergence (h : o.divergence u = .ok x) (hu : u.PlainParts) : Seen false x := by
  rcases divergence_eq_ok_iff.1 h with ⟨parts, hp, -, rfl⟩ | ⟨hp, rfl⟩
  · exact Seen.sum (forall_mem_zipWith fun a _ e he => Seen.derive (hu parts hp e he) a)
      (Seen.concrete ..)
  · split
    · exact Seen.derive hp .x
    · exact Seen.concrete ..

theorem seen_rotation (h : o.rotation u = .ok x) : Seen false x := by
  rcases rotation_eq_ok_iff.1 h with ⟨_, _, _, -, -, rfl⟩ | ⟨-, rfl⟩
  · exact Seen.arith ..
  · exact Seen.concrete ..

theorem seen_curl (h : o.curl u = .ok x) : Seen u.components?.isSome x := by
  rcases curl_eq_ok_iff.1 h with ⟨_, _, _, _, hp, -, rfl⟩ | ⟨hp, rfl⟩
  · rw [hp]
    exact Seen.tuple (by simp [Expr.components?])
  · rw [hp]
    exact Seen.concrete ..

end Derivatives

theorem seen_innerProduct (h : o.innerProduct u v = .ok x) : Seen false x := by
  rcases innerProduct_eq_ok_iff.1 h with ⟨us, vs, -, -, -, -, rfl⟩ | ⟨-, -, rfl⟩ | ⟨-, rfl⟩
  · exact Seen.sum (forall_mem_zipWith fun _ _ _ _ => Seen.arith ..) (Seen.concrete ..)
  · exact Seen.arith ..
  · exact Seen.concrete ..

theorem seen_crossProduct (h : o.crossProduct u v = .ok x) (hd : o.dim ≤ 3) :
    Seen (o.dim == 3 && u.components?.isSome && v.components?.isSome) x := by
  rcases crossProduct_eq_ok_iff.1 h with ⟨_, _, _, _, -, -, htwo, rfl⟩ |
    ⟨_, _, _, us, _, _, _, vs, hu, hv, hlen, -, rfl⟩ | ⟨hnone, rfl⟩
  · rw [htwo]
    exact Seen.arith ..
  · have hthree : o.dim = 3 := by omega
    rw [hu, hv, hthree]
    exact Seen.tuple (by simp [Expr.components?])
  · have hfalse : (o.dim == 3 && u.components?.isSome && v.components?.isSome) = false := by
      rcases hnone with hp | hp <;> simp [hp]
    rw [hfalse]
    exact Seen.concrete ..

end Rules

variable [Zero κ] {o : OperatorAt} {args : List (Expr κ)} {x : Expr κ}

/-- The outcome of a rule, for operands with plain parts of which the one of a gradient shows none.
-/
theorem seen_apply (h : o.apply args = .ok x) (hd : o.operator.existsIn o.dim)
    (hgrad : o.operator = .grad → ∀ u ∈ args, u.components? = none)
    (hargs : ∀ u ∈ args, u.PlainParts) :
    Seen (o.operator.showsParts o.dim (args.map fun u => u.components?.isSome)) x := by
  have hd := (Operator.le_of_existsIn hd).2
  obtain ⟨op, k⟩ := o
  unfold apply at h
  split at h
  case h_1 u hop => cases hop; cases h; exact seen_gradient (hgrad rfl u (.head _))
  case h_2 u hop => cases hop; exact seen_divergence h (hargs u (.head _))
  case h_3 u hop => cases hop; exact seen_rotation h
  case h_4 u hop => cases hop; exact seen_curl h
  case h_5 u v hop => cases hop; exact seen_innerProduct h
  case h_6 u v hop => cases hop; exact seen_innerProduct h
  case h_7 u v hop => cases hop; exact seen_crossProduct h hd
  case h_8 => cases h

end OperatorAt

namespace Expr

/-- What is known of an integrand that has a shape once it is expanded to `x`. -/
structure ShownBy (d : Nat) (x e : Expr κ) : Prop where
  isSome : x.components?.isSome = e.showsParts d
  plain : x.PlainParts
  ne_function : e.containsGeneric → ∀ f, x ≠ .function f

variable {d : Nat}

theorem ShownBy.none_of_scalar {e x : Expr κ} (h : x.ShownBy d e) (he : e.shape d = .scalar) :
    x.components? = none := by
  have hsome := h.isSome
  rw [showsParts_of_scalar he] at hsome
  exact Option.not_isSome_iff_eq_none.1 (by simp [hsome])

variable [Zero κ]

theorem shownBy_generic {o : Operator} {args rs : List (Expr κ)} {x : Expr κ}
    (hs : (generic o args).shape d ≠ .ill)
    (hrs : List.Forall₂ (fun e r => e.shape d ≠ .ill → r.ShownBy d e) args rs)
    (hx : OperatorAt.apply ⟨o, d⟩ rs = .ok x) : x.ShownBy d (generic o args) := by
  have hshape : o.shape d (args.map (shape d)) ≠ .ill := by rwa [shape_node] at hs
  have hargs : ∀ e ∈ args, e.shape d ≠ .ill := fun e he hill =>
    hshape (Operator.shape_of_ill_mem (hill ▸ List.mem_map_of_mem he))
  have hrs : List.Forall₂ (fun e r => r.ShownBy d e) args rs :=
    forall₂_of_mem hrs fun e he r hr => hr (hargs e he)
  have hmap : rs.map (fun r => r.components?.isSome) = args.map (showsParts d) :=
    map_eq_map_of_forall₂ (hrs.imp fun _ _ h => h.isSome)
  have hseen := OperatorAt.seen_apply hx (Operator.existsIn_of_shape hshape) (fun ho r hr => ?_)
    fun r hr => ?_
  · have hshown : x.components?.isSome = (generic o args).showsParts d := by
      rw [hseen.isSome, showsParts_generic, ← hmap]
    exact ⟨hshown, hseen.plain, fun _ => hseen.ne_function⟩
  · obtain ⟨e, he, her⟩ := exists_of_mem_right hrs hr
    cases ho
    have hlen := Operator.length_of_shape hshape
    rw [List.length_map] at hlen
    obtain ⟨u, rfl⟩ := List.length_eq_one_iff.1 hlen
    cases List.mem_singleton.1 he
    exact her.none_of_scalar (Operator.shape_grad_ne_ill.1 hshape).2
  · obtain ⟨e, -, her⟩ := exists_of_mem_right hrs hr
    exact her.plain

omit [Zero κ] in
theorem shownBy_node {h : Head} {args rs : List (Expr κ)} (hg : ∀ o, h ≠ .generic o)
    (hd : ∀ a u, h = .derivative a → args = [u] → u.containsGeneric = false)
    (hs : (node h args).shape d ≠ .ill)
    (hrs : List.Forall₂ (fun e r => e.shape d ≠ .ill → r.ShownBy d e) args rs) :
    (node h rs).ShownBy d (node h args) := by
  cases h with
  | generic o => exact absurd rfl (hg o)
  | concrete o => exact ⟨rfl, plainParts_of_none rfl, fun _ => by simp⟩
  | derivative a =>
    refine ⟨?_, plainParts_of_none rfl, fun _ => by simp⟩
    match args with
    | [] | _ :: _ :: _ => rfl
    | [u] => rw [showsParts, hd a u rfl rfl]; rfl
  | tuple =>
    refine ⟨rfl, plainParts_tuple fun r hr => ?_, fun _ => by simp⟩
    obtain ⟨e, he, her⟩ := exists_of_mem_right hrs hr
    have hscalar := shape_tuple_ne_ill.1 hs e he
    exact (her (by simp [hscalar])).none_of_scalar hscalar

theorem shownBy_of_expand {e x : Expr κ} (h : expand d e = .ok x) (hs : e.shape d ≠ .ill) :
    x.ShownBy d e := by
  refine expand_induct (P := fun e x => e.shape d ≠ .ill → x.ShownBy d e)
    ?leaf ?arith ?derived ?generic ?node h hs
  case leaf =>
    intro l _
    exact ⟨components?_leaf d l, plainParts_leaf l, fun hg => by
      simp [containsGeneric, preorder_eq_nodes, nodes, generic?] at hg⟩
  case arith =>
    intro op l r l' r' _ _ _ _ _
    exact ⟨rfl, plainParts_of_none rfl, fun _ => by simp⟩
  case derived =>
    intro a u v hu _ ih hs
    have huv := ih (by simpa [Head.shape] using hs)
    have hv := huv.ne_function hu
    exact ⟨by rw [isSome_components?_derive hv, huv.isSome, showsParts, hu]; rfl,
      plainParts_derive huv.plain a, fun _ => derive_ne_function a v⟩
  case generic =>
    intro o args rs x hrs hx hs
    exact shownBy_generic hs (hrs.imp fun _ _ h => h.2) hx
  case node =>
    intro h args rs hg hd hrs hs
    exact shownBy_node hg hd hs (hrs.imp fun _ _ h => h.2)

end Expr

end VariationalForms
