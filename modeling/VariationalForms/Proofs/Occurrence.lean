import VariationalForms.Proofs.Expand
import VariationalForms.Proofs.Nodes

/-! Which leaves and heads occur in an integrand.
Taking derivatives and applying the rules brings in zeros, components of functions that were there,
arithmetic, tuples, derivatives of what cannot be taken apart, and unevaluated operators. What all of
these have is kept (`RuleClosed.derive`, `RuleClosed.apply`). After resolving there is no generic
operator any more (`Expr.madeOf_resolveIn`).
-/

set_option autoImplicit false

namespace VariationalForms

variable {κ : Type}

namespace Expr

def rootIn (p : Leaf κ → Prop) (q : Head → Prop) : Expr κ → Prop
  | .leaf l => p l
  | .arith _ _ _ => True
  | .node h _ => q h

/-- All leaves have the property `p` and all heads have `q`. -/
def MadeOf (p : Leaf κ → Prop) (q : Head → Prop) (e : Expr κ) : Prop :=
  ∀ n ∈ e.nodes, n.rootIn p q

section MadeOf

variable {p : Leaf κ → Prop} {q : Head → Prop}

theorem madeOf_leaf {l : Leaf κ} : (leaf l).MadeOf p q ↔ p l := by
  simp [MadeOf, nodes, rootIn]

theorem madeOf_arith {op : Arith} {l r : Expr κ} :
    (arith op l r).MadeOf p q ↔ l.MadeOf p q ∧ r.MadeOf p q :=
  forall_nodes_arith trivial

theorem madeOf_node {h : Head} {args : List (Expr κ)} :
    (node h args).MadeOf p q ↔ q h ∧ ∀ e ∈ args, e.MadeOf p q :=
  forall_nodes_node

theorem madeOf_factors {e : Expr κ} : e.MadeOf p q ↔ ∀ f ∈ e.factors, f.MadeOf p q :=
  forall_nodes_factors (fun _ _ => trivial) e

theorem madeOf_product? {es : List (Expr κ)} {x : Expr κ} (h : product? es = some x) :
    x.MadeOf p q ↔ ∀ e ∈ es, e.MadeOf p q :=
  forall_nodes_product? (fun _ _ => trivial) h

end MadeOf

/-- What has a derivative of its own: neither a number nor a constant, and nothing that a derivative
goes through. -/
def isAtomic : Expr κ → Bool
  | .number _ | .constant _ | .arith _ _ _ | .tuple _ => false
  | _ => true

end Expr

/-- What the rules of the derivative and of the operators give to all that they put together when
their operands have it. -/
structure RuleClosed [Zero κ] (P : Expr κ → Prop) : Prop where
  zero : P (.number 0)
  component : ∀ f, P (.function f) → ∀ i < f.space.shape?.getD 0, P (.component f i)
  arith_iff : ∀ {op l r}, P (.arith op l r) ↔ P l ∧ P r
  tuple_iff : ∀ {items}, P (.tuple items) ↔ ∀ e ∈ items, P e
  concrete : ∀ {o args}, (∀ e ∈ args, P e) → P (.concrete o args)
  derivative : ∀ {a e}, e.isAtomic → P e → P (.derivative a [e])

namespace RuleClosed

variable [Zero κ] {P : Expr κ → Prop}

theorem sum (hP : RuleClosed P) {es : List (Expr κ)} {x : Expr κ} (hes : ∀ e ∈ es, P e) (hx : P x) :
    P ((Expr.sum? es).getD x) := by
  cases h : Expr.sum? es with
  | none => exact hx
  | some s => exact Expr.sum?_induct (fun _ _ hl hr => hP.arith_iff.2 ⟨hl, hr⟩) h hes

theorem leibniz (hP : RuleClosed P) {fs : List (Expr κ × Expr κ)}
    (hfs : ∀ f ∈ fs, P f.1 ∧ (f.1.isConstant = false → P f.2)) : P (Expr.leibniz fs) :=
  Expr.leibniz_induct hP.zero (fun _ _ hl hr => hP.arith_iff.2 ⟨hl, hr⟩)
    (fun _ _ hl hr => hP.arith_iff.2 ⟨hl, hr⟩) hfs

theorem derivedFactors (hP : RuleClosed P) {a : Axis} {e : Expr κ} (he : P e) :
    ∀ f ∈ Expr.derivedFactors a e, P f.1 ∧ (f.1.isConstant = false → P f.2) := by
  induction e with
  | leaf l =>
    intro f hf
    cases List.mem_singleton.1 hf
    refine ⟨he, fun hvaries => hP.derivative ?_ he⟩
    cases l <;> first | rfl | cases hvaries
  | arith op l r hl hr =>
    intro f hf
    obtain ⟨hel, her⟩ := hP.arith_iff.1 he
    have hdl := hP.leibniz (hl hel)
    have hdr := hP.leibniz (hr her)
    cases op with
    | add => cases List.mem_singleton.1 hf; exact ⟨he, fun _ => hP.arith_iff.2 ⟨hdl, hdr⟩⟩
    | sub => cases List.mem_singleton.1 hf; exact ⟨he, fun _ => hP.arith_iff.2 ⟨hdl, hdr⟩⟩
    | mul => exact (List.mem_append.1 hf).elim (hl hel f) (hr her f)
  | node h args ih =>
    intro f hf
    cases h with
    | tuple =>
      cases List.mem_singleton.1 hf
      refine ⟨he, fun _ => hP.tuple_iff.2 fun e' he' => ?_⟩
      rw [Expr.derivedItems_eq_map] at he'
      obtain ⟨e, hmem, rfl⟩ := List.mem_map.1 he'
      exact hP.leibniz (ih e hmem (hP.tuple_iff.1 he e hmem))
    | _ =>
      cases List.mem_singleton.1 hf
      exact ⟨he, fun _ => hP.derivative rfl he⟩

theorem derive (hP : RuleClosed P) {e : Expr κ} (he : P e) (a : Axis) : P (e.derive a) :=
  hP.leibniz (hP.derivedFactors he)

section Apply

variable {o : OperatorAt} {args : List (Expr κ)} {u v x : Expr κ}

theorem components? (hP : RuleClosed P) (hu : P u) {parts : List (Expr κ)}
    (h : u.components? = some parts) : ∀ e ∈ parts, P e := by
  intro e he
  unfold Expr.components? at h
  split at h
  case h_1 => cases h; exact hP.tuple_iff.1 hu e he
  case h_2 f =>
    split at h
    case isTrue =>
      cases h
      obtain ⟨i, hi, rfl⟩ := List.mem_map.1 he
      exact hP.component f hu i (List.mem_range.1 hi)
    case isFalse => cases h
  case h_3 => cases h

theorem gradient (hP : RuleClosed P) (hu : P u) : P (o.gradient u) := by
  unfold OperatorAt.gradient
  split
  · exact hP.concrete (List.forall_mem_singleton.2 hu)
  · split
    · exact hP.derive hu .x
    · refine hP.tuple_iff.2 fun e he => ?_
      obtain ⟨a, -, rfl⟩ := List.mem_map.1 he
      exact hP.derive hu a

theorem divergence (hP : RuleClosed P) (hu : P u) (h : o.divergence u = .ok x) : P x := by
  have hconcrete : P (.concrete o [u]) := hP.concrete (List.forall_mem_singleton.2 hu)
  rcases OperatorAt.divergence_eq_ok_iff.1 h with ⟨parts, hparts, -, rfl⟩ | ⟨-, rfl⟩
  · have hmem := hP.components? hu hparts
    exact hP.sum (forall_mem_zipWith fun a _ e he => hP.derive (hmem e he) a) hconcrete
  · split
    · exact hP.derive hu .x
    · exact hconcrete

theorem rotation (hP : RuleClosed P) (hu : P u) (h : o.rotation u = .ok x) : P x := by
  rcases OperatorAt.rotation_eq_ok_iff.1 h with ⟨u₀, u₁, _, hparts, -, rfl⟩ | ⟨-, rfl⟩
  · have hmem := hP.components? hu hparts
    exact hP.arith_iff.2 ⟨hP.derive (hmem u₀ (by simp)) .y, hP.derive (hmem u₁ (by simp)) .x⟩
  · exact hP.concrete (List.forall_mem_singleton.2 hu)

theorem curl (hP : RuleClosed P) (hu : P u) (h : o.curl u = .ok x) : P x := by
  rcases OperatorAt.curl_eq_ok_iff.1 h with ⟨u₀, u₁, u₂, _, hparts, -, rfl⟩ | ⟨-, rfl⟩
  · have hmem := hP.components? hu hparts
    have h₀ := hP.derive (hmem u₀ (by simp))
    have h₁ := hP.derive (hmem u₁ (by simp))
    have h₂ := hP.derive (hmem u₂ (by simp))
    simp [hP.tuple_iff, hP.arith_iff, h₀, h₁, h₂]
  · exact hP.concrete (List.forall_mem_singleton.2 hu)

theorem innerProduct (hP : RuleClosed P) (hu : P u) (hv : P v) (h : o.innerProduct u v = .ok x) :
    P x := by
  have hconcrete : P (.concrete o [u, v]) := hP.concrete (by simp [hu, hv])
  rcases OperatorAt.innerProduct_eq_ok_iff.1 h with
    ⟨us, vs, hus, hvs, -, -, rfl⟩ | ⟨-, -, rfl⟩ | ⟨-, rfl⟩
  · have hmemu := hP.components? hu hus
    have hmemv := hP.components? hv hvs
    exact hP.sum (forall_mem_zipWith fun e he f hf => hP.arith_iff.2 ⟨hmemu e he, hmemv f hf⟩)
      hconcrete
  · exact hP.arith_iff.2 ⟨hu, hv⟩
  · exact hconcrete

theorem crossProduct (hP : RuleClosed P) (hu : P u) (hv : P v) (h : o.crossProduct u v = .ok x) :
    P x := by
  rcases OperatorAt.crossProduct_eq_ok_iff.1 h with ⟨u₀, u₁, v₀, v₁, hus, hvs, -, rfl⟩ |
    ⟨u₀, u₁, u₂, _, v₀, v₁, v₂, _, hus, hvs, -, -, rfl⟩ | ⟨-, rfl⟩
  · have hmemu := hP.components? hu hus
    have hmemv := hP.components? hv hvs
    simp [hP.arith_iff, hmemu, hmemv]
  · have hmemu := hP.components? hu hus
    have hmemv := hP.components? hv hvs
    simp [hP.tuple_iff, hP.arith_iff, hmemu, hmemv]
  · exact hP.concrete (by simp [hu, hv])

theorem apply (hP : RuleClosed P) (h : o.apply args = .ok x) (hargs : ∀ e ∈ args, P e) : P x := by
  unfold OperatorAt.apply at h
  split at h
  case h_1 u _ => cases h; exact hP.gradient (hargs u (by simp))
  case h_2 u _ => exact hP.divergence (hargs u (by simp)) h
  case h_3 u _ => exact hP.rotation (hargs u (by simp)) h
  case h_4 u _ => exact hP.curl (hargs u (by simp)) h
  case h_5 u v _ => exact hP.innerProduct (hargs u (by simp)) (hargs v (by simp)) h
  case h_6 u v _ => exact hP.innerProduct (hargs u (by simp)) (hargs v (by simp)) h
  case h_7 u v _ => exact hP.crossProduct (hargs u (by simp)) (hargs v (by simp)) h
  case h_8 => cases h

end Apply

end RuleClosed

/-- The rules bring in zeros and the components of vector functions. -/
structure LeafClosed [Zero κ] (p : Leaf κ → Prop) : Prop where
  zero : p (.number 0)
  component : ∀ f, p (.function f) → ∀ i < f.space.shape?.getD 0, p (.component f i)

/-- A head that is left when the dimension is known. -/
def Head.Resolved (h : Head) : Prop := ∀ o, h ≠ .generic o

theorem LeafClosed.ruleClosed [Zero κ] {p : Leaf κ → Prop} (hp : LeafClosed p) :
    RuleClosed fun e : Expr κ => e.MadeOf p Head.Resolved where
  zero := Expr.madeOf_leaf.2 hp.zero
  component f hf i hi := Expr.madeOf_leaf.2 (hp.component f (Expr.madeOf_leaf.1 hf) i hi)
  arith_iff := Expr.madeOf_arith
  tuple_iff := by simp [Expr.madeOf_node, Head.Resolved]
  concrete hargs := Expr.madeOf_node.2 ⟨by simp [Head.Resolved], hargs⟩
  derivative _ he := Expr.madeOf_node.2 ⟨by simp [Head.Resolved], by simpa using he⟩

namespace Expr

variable [Zero κ] {p : Leaf κ → Prop} {d : Nat} {e x : Expr κ}

theorem madeOf_args {h : Head} {args rs : List (Expr κ)}
    (hrs : List.Forall₂
      (fun e r => expand d e = .ok r ∧ ((e.MadeOf p fun _ => True) → r.MadeOf p Head.Resolved))
      args rs)
    (he : (node h args).MadeOf p fun _ => True) : ∀ r ∈ rs, r.MadeOf p Head.Resolved :=
  forall_mem_of_forall₂ (hrs.imp fun _ _ h => h.2) (madeOf_node.1 he).2

theorem madeOf_expand (hp : LeafClosed p) (h : expand d e = .ok x)
    (he : e.MadeOf p fun _ => True) : x.MadeOf p Head.Resolved := by
  refine expand_induct (P := fun e x => (e.MadeOf p fun _ => True) → x.MadeOf p Head.Resolved)
    ?leaf ?arith ?derived ?generic ?node h he
  case leaf => exact fun l hl => madeOf_leaf.2 (madeOf_leaf.1 hl)
  case arith =>
    intro op l r l' r' _ _ ihl ihr he
    obtain ⟨hl, hr⟩ := madeOf_arith.1 he
    exact madeOf_arith.2 ⟨ihl hl, ihr hr⟩
  case derived =>
    intro a u v _ _ ih he
    exact hp.ruleClosed.derive (ih ((madeOf_node.1 he).2 u (.head _))) a
  case generic =>
    intro o args rs x hrs hx he
    exact hp.ruleClosed.apply hx (madeOf_args hrs he)
  case node =>
    intro k args rs hg _ hrs he
    exact madeOf_node.2 ⟨hg, madeOf_args hrs he⟩

theorem madeOf_resolveTerm (hp : LeafClosed p) (h : resolveTerm d e = .ok x)
    (he : e.MadeOf p fun _ => True) : x.MadeOf p Head.Resolved :=
  madeOf_expand hp (resolveTerm_eq_ok_iff.1 h).2 he

end Expr

namespace Coefficients

open VariationalForms.Expr (MadeOf madeOf_leaf madeOf_arith)

variable [One κ] {ε : Type} {cs : Coefficients} {f : Expr κ → Except ε (Expr κ)} {e x : Expr κ}
  {P P' : Expr κ → Prop}

omit [One κ] in
theorem closed_coefficients (hmul : ∀ l r, P (.mul l r) → P l ∧ P r)
    (hmul' : ∀ l r, P' l → P' r → P' (.mul l r))
    (hleaf : ∀ l, cs.isCoefficient (.leaf l) → P (.leaf l) → P' (.leaf l)) (he : P e) {c : Expr κ}
    (hc : Expr.product? (e.factors.filter cs.isCoefficient) = some c) : P' c := by
  refine Expr.product?_induct hmul' hc fun f hf => ?_
  obtain ⟨hmem, hcoeff⟩ := List.mem_filter.1 hf
  have hf := Expr.forall_factors hmul he f hmem
  cases f with
  | leaf l => exact hleaf l hcoeff hf
  | _ => cases hcoeff

theorem closed_distribute (harith : ∀ {op l r}, P (.arith op l r) ↔ P l ∧ P r)
    (harith' : ∀ op l r, P' l → P' r → P' (.arith op l r))
    (hleaf : ∀ l, cs.isCoefficient (.leaf l) → P (.leaf l) → P' (.leaf l))
    (hf : ∀ e x, f e = .ok x → P e → P' x) (h : cs.distribute f e = .ok x) (he : P e) : P' x := by
  refine distribute_induct (P := fun e x => P e → P' x) ?sum ?product ?other h he
  case sum =>
    intro op l r l' r' _ ihl ihr he
    obtain ⟨hl, hr⟩ := harith.1 he
    exact harith' op l' r' (ihl hl) (ihr hr)
  case product =>
    intro l r x hx he
    have hoperands : ∀ o, Expr.product? ((Expr.mul l r).factors.filter (! cs.isCoefficient ·)) =
        some o → P o := fun o ho =>
      Expr.product?_induct (fun _ _ hl hr => harith.2 ⟨hl, hr⟩) ho fun f hf =>
        Expr.forall_factors (fun _ _ => harith.1) he f (List.mem_filter.1 hf).1
    have hcoefficients : ∀ c, Expr.product? ((Expr.mul l r).factors.filter cs.isCoefficient) =
        some c → P' c := fun c hc =>
      closed_coefficients (fun _ _ => harith.1) (harith' .mul) hleaf he hc
    rcases onOperands_eq_ok_iff.1 hx with ⟨c, o, y, hc, ho, hy, rfl⟩ | ⟨-, hc⟩ | ⟨-, o, ho, hy⟩
    · exact harith' .mul c y (hcoefficients c hc) (hf o y hy (hoperands o ho))
    · exact hcoefficients x hc
    · exact hf o x hy (hoperands o ho)
  case other => exact fun e x _ hx he => hf e x hx he

theorem madeOf_distribute {p p' : Leaf κ → Prop} {q q' : Head → Prop}
    (hp : ∀ l, cs.isCoefficient (.leaf l) → p l → p' l)
    (hf : ∀ e x, f e = .ok x → e.MadeOf p q → x.MadeOf p' q') (h : cs.distribute f e = .ok x)
    (he : e.MadeOf p q) : x.MadeOf p' q' :=
  closed_distribute madeOf_arith (fun _ _ _ hl hr => madeOf_arith.2 ⟨hl, hr⟩)
    (fun l hc hl => madeOf_leaf.2 (hp l hc (madeOf_leaf.1 hl))) hf h he

end Coefficients

theorem Expr.madeOf_resolveIn [Zero κ] [One κ] {p : Leaf κ → Prop} {cs : Coefficients} {d : Nat}
    {e x : Expr κ} (hp : LeafClosed p) (h : e.resolveIn cs d = .ok x)
    (he : e.MadeOf p fun _ => True) : x.MadeOf p Head.Resolved :=
  Coefficients.madeOf_distribute (fun _ _ hl => hl) (fun _ _ => madeOf_resolveTerm hp) h he

end VariationalForms
