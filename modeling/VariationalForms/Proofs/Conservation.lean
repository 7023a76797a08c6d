import VariationalForms.Proofs.Agreement
import VariationalForms.Proofs.Order

/-! Resolving loses no function and no field.
Constants go when a derivative is taken, products become sums of products, and vector functions are
replaced by their components; every function and every field that was there is there afterwards, and
nothing else is (`Expr.madeOf_resolveIn_iff`). The functions of a form are listed in the same order
before and after, so a form is applied position by position as before.
-/

set_option autoImplicit false

namespace VariationalForms

variable {κ : Type}

/-- A property that numbers and constants have, and that a function shares with its components. -/
structure LeafPersistent (p : Leaf κ → Prop) : Prop where
  number : ∀ c, p (.number c)
  constant : ∀ s, p (.constant s)
  component : ∀ f i, p (.component f i) ↔ p (.function f)

namespace Expr

section Derive

variable {p : Leaf κ → Prop} {q : Head → Prop}

theorem madeOf_foldl_add {es : List (Expr κ)} {e : Expr κ} :
    (es.foldl add e).MadeOf p q ↔ e.MadeOf p q ∧ ∀ f ∈ es, f.MadeOf p q := by
  induction es generalizing e with
  | nil => simp
  | cons f es ih => rw [List.foldl_cons, ih, madeOf_arith, List.forall_mem_cons, and_assoc]

theorem madeOf_sum? {es : List (Expr κ)} {s : Expr κ} (h : sum? es = some s) :
    s.MadeOf p q ↔ ∀ e ∈ es, e.MadeOf p q := by
  cases es with
  | nil => cases h
  | cons e es =>
    cases h
    rw [List.forall_mem_cons]
    exact madeOf_foldl_add

theorem mem_or_mem_of_mem_derivedProducts {fs : List (Expr κ × Expr κ)} {es : List (Expr κ)}
    (hes : es ∈ derivedProducts fs) {f : Expr κ × Expr κ} (hf : f ∈ fs) : f.1 ∈ es ∨ f.2 ∈ es := by
  induction fs generalizing es with
  | nil => cases hf
  | cons g fs ih =>
    rw [derivedProducts, List.mem_cons, List.mem_map] at hes
    rcases hes with rfl | ⟨es', hes', rfl⟩
    · rcases List.mem_cons.1 hf with rfl | hf
      · exact .inr (.head _)
      · exact .inl (.tail _ (List.mem_map_of_mem hf))
    · rcases List.mem_cons.1 hf with rfl | hf
      · exact .inl (.head _)
      · exact (ih hes' hf).imp (.tail _) (.tail _)

theorem madeOf_of_isConstant (hp : LeafPersistent p) {e : Expr κ} (he : e.isConstant) :
    e.MadeOf p q := by
  unfold isConstant at he
  split at he
  · exact madeOf_leaf.2 (hp.number _)
  · exact madeOf_leaf.2 (hp.constant _)
  · cases he

theorem madeOf_of_derivedSum? {fs : List (Expr κ × Expr κ)} {s : Expr κ}
    (h : derivedSum? fs = some s) (hs : s.MadeOf p q) {f : Expr κ × Expr κ}
    (hf : f ∈ varying fs) : f.1.MadeOf p q ∨ f.2.MadeOf p q := by
  obtain ⟨g, rest, hv⟩ := List.exists_cons_of_ne_nil (List.ne_nil_of_mem hf)
  rw [derivedSum?] at h
  have hall := (madeOf_sum? h).1 hs
  rw [hv] at hall hf
  have hes : g.2 :: rest.map Prod.fst ∈ derivedProducts (g :: rest) := .head _
  obtain ⟨x, hx⟩ : ∃ x, product? (g.2 :: rest.map Prod.fst) = some x := ⟨_, rfl⟩
  have hfactors := (madeOf_product? hx).1 (hall x (List.mem_filterMap.2 ⟨_, hes, hx⟩))
  exact (mem_or_mem_of_mem_derivedProducts hes hf).imp (hfactors _) (hfactors _)

variable [Zero κ]

theorem madeOf_of_leibniz (hp : LeafPersistent p) {fs : List (Expr κ × Expr κ)}
    (hfs : ∀ f ∈ fs, f.2.MadeOf p q → f.1.MadeOf p q) (h : (leibniz fs).MadeOf p q) :
    ∀ f ∈ fs, f.1.MadeOf p q := by
  intro f hf
  cases hc : f.1.isConstant with
  | true => exact madeOf_of_isConstant hp hc
  | false =>
    have hmem : f ∈ varying fs := List.mem_filter.2 ⟨hf, by simp [hc]⟩
    have hsum : ∀ s, derivedSum? fs = some s → s.MadeOf p q → f.1.MadeOf p q :=
      fun s hs hmade => (madeOf_of_derivedSum? hs hmade hmem).elim id (hfs f hf)
    rcases leibniz_cases fs with ⟨hnil, -⟩ | ⟨s, hs, ⟨-, heq⟩ | ⟨c, -, heq⟩⟩
    · rw [hnil] at hmem
      cases hmem
    · exact hsum s hs (heq ▸ h)
    · exact hsum s hs (madeOf_arith.1 (heq ▸ h)).2

theorem madeOf_of_derive (hp : LeafPersistent p) {a : Axis} {e : Expr κ}
    (h : (derive a e).MadeOf p fun _ => True) : e.MadeOf p fun _ => True := by
  have hwhole : ∀ e : Expr κ,
      (∀ f ∈ derivedFactors a e, f.2.MadeOf p (fun _ => True) → f.1.MadeOf p fun _ => True) →
        (leibniz (derivedFactors a e)).MadeOf p (fun _ => True) → e.MadeOf p fun _ => True := by
    intro e hfs h
    refine madeOf_factors.2 fun x hx => ?_
    rw [← map_fst_derivedFactors a] at hx
    obtain ⟨f, hf, rfl⟩ := List.mem_map.1 hx
    exact madeOf_of_leibniz hp hfs h f hf
  have hfactors : ∀ e : Expr κ, ∀ f ∈ derivedFactors a e,
      f.2.MadeOf p (fun _ => True) → f.1.MadeOf p fun _ => True := by
    intro e
    induction e with
    | leaf l =>
      intro f hf hd
      cases List.mem_singleton.1 hf
      exact (madeOf_node.1 hd).2 _ (.head _)
    | arith op l r hl hr =>
      intro f hf hd
      cases op with
      | mul => exact (List.mem_append.1 hf).elim (hl f · hd) (hr f · hd)
      | _ =>
        cases List.mem_singleton.1 hf
        obtain ⟨hdl, hdr⟩ := madeOf_arith.1 hd
        exact madeOf_arith.2 ⟨hwhole l hl hdl, hwhole r hr hdr⟩
    | node k args ih =>
      intro f hf hd
      cases k with
      | tuple =>
        cases List.mem_singleton.1 hf
        refine madeOf_node.2 ⟨trivial, fun e he => hwhole e (ih e he) ?_⟩
        refine (madeOf_node.1 hd).2 _ ?_
        rw [derivedItems_eq_map]
        exact List.mem_map_of_mem he
      | _ =>
        cases List.mem_singleton.1 hf
        exact (madeOf_node.1 hd).2 _ (.head _)
  exact hwhole e (hfactors e) h

end Derive

end Expr

namespace OperatorAt

open VariationalForms.Expr (MadeOf madeOf_leaf madeOf_arith madeOf_node madeOf_of_derive madeOf_sum?)

variable {p : Leaf κ → Prop} {o : OperatorAt} {args : List (Expr κ)} {u v x : Expr κ}

theorem madeOf_of_components? (hp : LeafPersistent p) {parts : List (Expr κ)}
    (h : u.components? = some parts) (hne : parts ≠ [])
    (hparts : ∀ e ∈ parts, e.MadeOf p fun _ => True) : u.MadeOf p fun _ => True := by
  unfold Expr.components? at h
  split at h
  case h_1 =>
    cases h
    exact madeOf_node.2 ⟨trivial, hparts⟩
  case h_2 f =>
    split at h
    case isTrue =>
      cases h
      obtain ⟨e, he⟩ := List.exists_mem_of_ne_nil _ hne
      have hmade := hparts e he
      obtain ⟨i, -, rfl⟩ := List.mem_map.1 he
      exact madeOf_leaf.2 ((hp.component f i).1 (madeOf_leaf.1 hmade))
    case isFalse => cases h
  case h_3 => cases h

theorem madeOf_of_concrete (h : (Expr.concrete o args).MadeOf p fun _ => True) :
    ∀ e ∈ args, e.MadeOf p fun _ => True :=
  (madeOf_node.1 h).2

variable [Zero κ]

theorem madeOf_of_gradient (hp : LeafPersistent p) (hd : 1 ≤ o.dim)
    (h : (o.gradient u).MadeOf p fun _ => True) : u.MadeOf p fun _ => True := by
  unfold gradient at h
  split at h
  · exact madeOf_of_concrete h u (.head _)
  · split at h
    · exact madeOf_of_derive hp h
    · refine madeOf_of_derive hp (a := .x) ((madeOf_node.1 h).2 _ ?_)
      exact List.mem_map_of_mem (Axis.x_mem_spanning hd)

theorem madeOf_of_divergence (hp : LeafPersistent p) (hd : 1 ≤ o.dim ∧ o.dim ≤ 3)
    (h : o.divergence u = .ok x) (hx : x.MadeOf p fun _ => True) :
    u.MadeOf p fun _ => True := by
  rcases divergence_eq_ok_iff.1 h with ⟨parts, hparts, hlen, rfl⟩ | ⟨-, rfl⟩
  · cases hs : Expr.sum? (List.zipWith Expr.derive (Axis.spanning o.dim) parts) with
    | none => exact madeOf_of_concrete (by simpa [hs] using hx) u (.head _)
    | some s =>
      rw [hs] at hx
      refine madeOf_of_components? hp hparts (List.ne_nil_of_length_pos (by omega)) fun e he => ?_
      have haxes : parts.length ≤ (Axis.spanning o.dim).length := by
        rw [Axis.length_spanning]
        omega
      obtain ⟨a, ha⟩ := exists_mem_zipWith_right Expr.derive haxes he
      exact madeOf_of_derive hp ((madeOf_sum? hs).1 hx _ ha)
  · split at hx
    · exact madeOf_of_derive hp hx
    · exact madeOf_of_concrete hx u (.head _)

theorem madeOf_of_rotation (hp : LeafPersistent p) (hd : o.dim = 2) (h : o.rotation u = .ok x)
    (hx : x.MadeOf p fun _ => True) : u.MadeOf p fun _ => True := by
  rcases rotation_eq_ok_iff.1 h with ⟨u₀, u₁, rest, hparts, hlen, rfl⟩ | ⟨-, rfl⟩
  · obtain rfl : rest = [] := List.eq_nil_of_length_eq_zero (by simp at hlen; omega)
    obtain ⟨h₀, h₁⟩ := madeOf_arith.1 hx
    refine madeOf_of_components? hp hparts (by simp) ?_
    simp [madeOf_of_derive hp h₀, madeOf_of_derive hp h₁]
  · exact madeOf_of_concrete hx u (.head _)

theorem madeOf_of_curl (hp : LeafPersistent p) (hd : o.dim = 3) (h : o.curl u = .ok x)
    (hx : x.MadeOf p fun _ => True) : u.MadeOf p fun _ => True := by
  rcases curl_eq_ok_iff.1 h with ⟨u₀, u₁, u₂, rest, hparts, hlen, rfl⟩ | ⟨-, rfl⟩
  · obtain rfl : rest = [] := List.eq_nil_of_length_eq_zero (by simp at hlen; omega)
    have hitems := (madeOf_node.1 hx).2
    simp only [List.forall_mem_cons, madeOf_arith] at hitems
    obtain ⟨⟨h₂, h₁⟩, ⟨h₀, -⟩, -⟩ := hitems
    refine madeOf_of_components? hp hparts (by simp) ?_
    simp [madeOf_of_derive hp h₀, madeOf_of_derive hp h₁, madeOf_of_derive hp h₂]
  · exact madeOf_of_concrete hx u (.head _)

omit [Zero κ] in
theorem madeOf_of_innerProduct (hp : LeafPersistent p) (hd : 1 ≤ o.dim)
    (h : o.innerProduct u v = .ok x) (hx : x.MadeOf p fun _ => True) :
    (u.MadeOf p fun _ => True) ∧ v.MadeOf p fun _ => True := by
  have hconcrete : (Expr.concrete o [u, v]).MadeOf p (fun _ => True) →
      (u.MadeOf p fun _ => True) ∧ v.MadeOf p fun _ => True :=
    fun h => ⟨madeOf_of_concrete h u (by simp), madeOf_of_concrete h v (by simp)⟩
  rcases innerProduct_eq_ok_iff.1 h with ⟨us, vs, hus, hvs, hlu, hlv, rfl⟩ | ⟨-, -, rfl⟩ | ⟨-, rfl⟩
  · cases hs : Expr.sum? (List.zipWith Expr.mul us vs) with
    | none => exact hconcrete (by simpa [hs] using hx)
    | some s =>
      rw [hs] at hx
      have hproducts := (madeOf_sum? hs).1 hx
      constructor
      · refine madeOf_of_components? hp hus (List.ne_nil_of_length_pos (by omega)) fun e he => ?_
        obtain ⟨f, hf⟩ := exists_mem_zipWith_left Expr.mul (by omega : us.length ≤ vs.length) he
        exact (madeOf_arith.1 (hproducts _ hf)).1
      · refine madeOf_of_components? hp hvs (List.ne_nil_of_length_pos (by omega)) fun f hf => ?_
        obtain ⟨e, he⟩ := exists_mem_zipWith_right Expr.mul (by omega : vs.length ≤ us.length) hf
        exact (madeOf_arith.1 (hproducts _ he)).2
  · exact madeOf_arith.1 hx
  · exact hconcrete hx

omit [Zero κ] in
theorem madeOf_of_crossProduct (hp : LeafPersistent p) (hd : o.dim ≤ 3)
    (h : o.crossProduct u v = .ok x) (hx : x.MadeOf p fun _ => True) :
    (u.MadeOf p fun _ => True) ∧ v.MadeOf p fun _ => True := by
  rcases crossProduct_eq_ok_iff.1 h with ⟨u₀, u₁, v₀, v₁, hus, hvs, -, rfl⟩ |
    ⟨u₀, u₁, u₂, us, v₀, v₁, v₂, vs, hus, hvs, hlu, hlv, rfl⟩ | ⟨-, rfl⟩
  · simp only [madeOf_arith] at hx
    obtain ⟨⟨hu₀, hv₁⟩, hu₁, hv₀⟩ := hx
    exact ⟨madeOf_of_components? hp hus (by simp) (by simp [hu₀, hu₁]),
      madeOf_of_components? hp hvs (by simp) (by simp [hv₀, hv₁])⟩
  · obtain rfl : us = [] := List.eq_nil_of_length_eq_zero (by omega)
    obtain rfl : vs = [] := List.eq_nil_of_length_eq_zero (by omega)
    have hitems := (madeOf_node.1 hx).2
    simp only [List.forall_mem_cons, madeOf_arith] at hitems
    obtain ⟨⟨⟨hu₁, hv₂⟩, hu₂, hv₁⟩, ⟨⟨-, hv₀⟩, hu₀, -⟩, -⟩ := hitems
    exact ⟨madeOf_of_components? hp hus (by simp) (by simp [hu₀, hu₁, hu₂]),
      madeOf_of_components? hp hvs (by simp) (by simp [hv₀, hv₁, hv₂])⟩
  · exact ⟨madeOf_of_concrete hx u (by simp), madeOf_of_concrete hx v (by simp)⟩

theorem madeOf_of_apply (hp : LeafPersistent p) (hd : o.operator.existsIn o.dim)
    (h : o.apply args = .ok x) (hx : x.MadeOf p fun _ => True) :
    ∀ e ∈ args, e.MadeOf p fun _ => True := by
  have hdim := Operator.le_of_existsIn hd
  unfold apply at h
  split at h
  case h_1 u _ =>
    cases h
    simp [madeOf_of_gradient hp hdim.1 hx]
  case h_2 u _ => simp [madeOf_of_divergence hp hdim h hx]
  case h_3 u ho =>
    rw [ho] at hd
    simp [madeOf_of_rotation hp (by simpa [Operator.existsIn] using hd) h hx]
  case h_4 u ho =>
    rw [ho] at hd
    simp [madeOf_of_curl hp (by simpa [Operator.existsIn] using hd) h hx]
  case h_5 u v _ => simp [madeOf_of_innerProduct hp hdim.1 h hx]
  case h_6 u v _ => simp [madeOf_of_innerProduct hp hdim.1 h hx]
  case h_7 u v _ => simp [madeOf_of_crossProduct hp hdim.2 h hx]
  case h_8 => cases h

end OperatorAt

namespace Expr

variable {p : Leaf κ → Prop} {e x : Expr κ}

section Resolve

theorem madeOf_node_of_forall₂ {h : Head} {args rs : List (Expr κ)}
    (hrs : List.Forall₂ (fun e r => (r.MadeOf p fun _ => True) → e.MadeOf p fun _ => True) args rs)
    (hmade : ∀ r ∈ rs, r.MadeOf p fun _ => True) : (node h args).MadeOf p fun _ => True := by
  refine madeOf_node.2 ⟨trivial, fun e he => ?_⟩
  obtain ⟨r, hr, hback⟩ := exists_of_mem_left hrs he
  exact hback (hmade r hr)

variable [Zero κ] {d : Nat}

theorem madeOf_of_expand (hp : LeafPersistent p) (h : expand d e = .ok x)
    (he : e.MadeOf (fun _ => True) fun k => ∀ o, k = .generic o → o.existsIn d)
    (hx : x.MadeOf p fun _ => True) : e.MadeOf p fun _ => True := by
  refine expand_induct
    (P := fun e x => (e.MadeOf (fun _ => True) fun k => ∀ o, k = .generic o → o.existsIn d) →
      (x.MadeOf p fun _ => True) → e.MadeOf p fun _ => True)
    ?leaf ?arith ?derived ?generic ?node h he hx
  case leaf => exact fun l _ hl => hl
  case arith =>
    intro op l r l' r' _ _ ihl ihr he hx
    obtain ⟨hel, her⟩ := madeOf_arith.1 he
    obtain ⟨hl, hr⟩ := madeOf_arith.1 hx
    exact madeOf_arith.2 ⟨ihl hel hl, ihr her hr⟩
  case derived =>
    intro a u v _ _ ih he hx
    refine madeOf_node.2 ⟨trivial, List.forall_mem_singleton.2 ?_⟩
    exact ih ((madeOf_node.1 he).2 u (.head _)) (madeOf_of_derive hp hx)
  case generic =>
    intro o args rs x hrs hx he hmade
    obtain ⟨ho, hargs⟩ := madeOf_node.1 he
    exact madeOf_node_of_forall₂ (forall₂_of_mem hrs fun e hmem r hr => hr.2 (hargs e hmem))
      (OperatorAt.madeOf_of_apply hp (ho o rfl) hx hmade)
  case node =>
    intro k args rs _ _ hrs he hmade
    exact madeOf_node_of_forall₂
      (forall₂_of_mem hrs fun e hmem r hr => hr.2 ((madeOf_node.1 he).2 e hmem))
      (madeOf_node.1 hmade).2

theorem madeOf_of_resolveTerm (hp : LeafPersistent p) (h : resolveTerm d e = .ok x)
    (hx : x.MadeOf p fun _ => True) : e.MadeOf p fun _ => True := by
  obtain ⟨hos, hexpand⟩ := resolveTerm_eq_ok_iff.1 h
  refine madeOf_of_expand hp hexpand (fun n hn => ?_) hx
  cases n with
  | node k args =>
    rintro o rfl
    exact hos o (mem_operators.2 ⟨args, hn⟩)
  | _ => trivial

end Resolve

end Expr

namespace Coefficients

open VariationalForms.Expr (MadeOf madeOf_arith madeOf_factors madeOf_product?)

variable [One κ] {ε : Type} {cs : Coefficients} {f : Expr κ → Except ε (Expr κ)} {e x : Expr κ}
  {p : Leaf κ → Prop} {q q' : Head → Prop}

omit [One κ] in
theorem madeOf_of_split
    (hc : ∀ c ∈ e.factors.filter cs.isCoefficient, c.MadeOf p q)
    (ho : ∀ o ∈ e.factors.filter (! cs.isCoefficient ·), o.MadeOf p q) : e.MadeOf p q := by
  refine madeOf_factors.2 fun f hf => ?_
  cases hcoefficient : cs.isCoefficient f with
  | true => exact hc f (List.mem_filter.2 ⟨hf, hcoefficient⟩)
  | false => exact ho f (List.mem_filter.2 ⟨hf, by simp [hcoefficient]⟩)

theorem madeOf_of_distribute (hf : ∀ e x, f e = .ok x → x.MadeOf p q → e.MadeOf p q)
    (h : cs.distribute f e = .ok x) (hx : x.MadeOf p q) : e.MadeOf p q := by
  refine distribute_induct (P := fun e x => x.MadeOf p q → e.MadeOf p q)
    ?sum ?product ?other h hx
  case sum =>
    intro op l r l' r' _ ihl ihr hx
    obtain ⟨hl, hr⟩ := madeOf_arith.1 hx
    exact madeOf_arith.2 ⟨ihl hl, ihr hr⟩
  case product =>
    intro l r x hx hmade
    rcases onOperands_eq_ok_iff.1 hx with
      ⟨c, o, y, hc, ho, hy, rfl⟩ | ⟨hnone, hc⟩ | ⟨hnone, o, ho, hy⟩
    · obtain ⟨hmc, hmy⟩ := madeOf_arith.1 hmade
      exact madeOf_of_split ((madeOf_product? hc).1 hmc) ((madeOf_product? ho).1 (hf o y hy hmy))
    · exact madeOf_of_split ((madeOf_product? hc).1 hmade) (by simp [hnone])
    · exact madeOf_of_split (by simp [hnone]) ((madeOf_product? ho).1 (hf o x hy hmade))
  case other => exact fun e x _ hx hmade => hf e x hx hmade

end Coefficients

namespace Expr

variable [Zero κ] [One κ] {p : Leaf κ → Prop} {cs : Coefficients} {d : Nat} {e x : Expr κ}

theorem madeOf_of_resolveIn (hp : LeafPersistent p) (h : e.resolveIn cs d = .ok x)
    (hx : x.MadeOf p fun _ => True) : e.MadeOf p fun _ => True :=
  Coefficients.madeOf_of_distribute (fun _ _ => madeOf_of_resolveTerm hp) h hx

/-- All leaves have a persistent property after resolving if and only if they had it before. -/
theorem madeOf_resolveIn_iff (hp : LeafPersistent p) (h : e.resolveIn cs d = .ok x) :
    (x.MadeOf p fun _ => True) ↔ e.MadeOf p fun _ => True := by
  refine ⟨madeOf_of_resolveIn hp h, fun he n hn => ?_⟩
  have hclosed : LeafClosed p := ⟨hp.number 0, fun f hf i _ => (hp.component f i).2 hf⟩
  have hroot := madeOf_resolveIn hclosed h he n hn
  cases n with
  | leaf l => exact hroot
  | _ => trivial

omit [Zero κ] [One κ] in
theorem mem_fields {s : String} : s ∈ e.fields ↔ ∃ n ∈ e.nodes, n.field? = some s := by
  rw [fields, List.mem_eraseDups, List.mem_filterMap, preorder_eq_nodes]

omit [Zero κ] [One κ] in
theorem forall_fields_iff {P : String → Prop} :
    (∀ s ∈ e.fields, P s) ↔
      e.MadeOf (fun l => ∀ s, l.field? = some s → P s) fun _ => True := by
  constructor
  · intro h n hn
    cases n with
    | leaf l => exact fun s hs => h s (mem_fields.2 ⟨_, hn, hs⟩)
    | _ => trivial
  · intro h s hs
    obtain ⟨n, hn, hns⟩ := mem_fields.1 hs
    have hroot := h n hn
    cases n with
    | leaf l => exact hroot s hns
    | _ => cases hns

theorem mem_functions_resolveIn_iff (h : e.resolveIn cs d = .ok x) (f : Argument) :
    f ∈ x.functions ↔ f ∈ e.functions := by
  have hall : (∀ g ∈ x.functions, g ≠ f) ↔ ∀ g ∈ e.functions, g ≠ f := by
    rw [forall_functions_iff, forall_functions_iff]
    exact madeOf_resolveIn_iff
      ⟨by simp [Leaf.function?], by simp [Leaf.function?], fun _ _ => Iff.rfl⟩ h
  simpa using not_congr hall

theorem mem_fields_resolveIn_iff (h : e.resolveIn cs d = .ok x) (s : String) :
    s ∈ x.fields ↔ s ∈ e.fields := by
  have hall : (∀ t ∈ x.fields, t ≠ s) ↔ ∀ t ∈ e.fields, t ≠ s := by
    rw [forall_fields_iff, forall_fields_iff]
    exact madeOf_resolveIn_iff
      ⟨by simp [Leaf.field?], by simp [Leaf.field?], by simp [Leaf.field?]⟩ h
  simpa using not_congr hall

theorem containsGeneric_resolveIn (h : e.resolveIn cs d = .ok x) : x.containsGeneric = false :=
  containsGeneric_eq_false_iff.2
    (madeOf_resolveIn ⟨trivial, fun _ _ _ _ => trivial⟩ h (madeOf_true e))

end Expr

namespace BilinearForm

section Apply

variable {a b : BilinearForm κ} {tests trials : List Argument}

/-- What takes the place of what when a form is applied. -/
def placements (a : BilinearForm κ) (tests trials : List Argument) :
    Except Fault (List (Argument × Argument)) := do
  return (← bindings .test a.testFunctions tests) ++ (← bindings .trial a.trialFunctions trials)

theorem apply_eq_map (a : BilinearForm κ) (tests trials : List Argument) :
    a.apply tests trials =
      (a.placements tests trials).map fun pairs => a.withIntegrand (a.integrand.rename pairs) := by
  unfold apply placements
  cases bindings .test a.testFunctions tests with
  | error _ => rfl
  | ok _ => cases bindings .trial a.trialFunctions trials <;> rfl

theorem placements_congr (htest : b.testFunctions = a.testFunctions)
    (htrial : b.trialFunctions = a.trialFunctions) :
    b.placements tests trials = a.placements tests trials := by
  rw [placements, placements, htest, htrial]

end Apply

variable [Zero κ] [One κ] [NumberText κ] {cs : Coefficients} {a b : BilinearForm κ}

theorem resolve_eq_ok (h : a.resolve cs = .ok b) :
    ∃ d x, a.integrand.resolveIn cs d = .ok x ∧ b = a.withIntegrand x := by
  obtain ⟨d, -, h⟩ := bind_eq_ok_iff.1 h
  obtain ⟨x, hx, h⟩ := bind_eq_ok_iff.1 h
  cases h
  exact ⟨d, x, hx, rfl⟩

theorem functionsOf_resolve (h : a.resolve cs = .ok b) (ha : a.integrand.SerialsIdentify)
    (r : Role) : b.integrand.functionsOf r = a.integrand.functionsOf r := by
  obtain ⟨d, x, hx, rfl⟩ := resolve_eq_ok h
  exact Expr.functionsOf_congr ha (Expr.mem_functions_resolveIn_iff hx) r

theorem placements_resolve (h : a.resolve cs = .ok b) (ha : a.integrand.SerialsIdentify)
    (tests trials : List Argument) : b.placements tests trials = a.placements tests trials :=
  placements_congr (functionsOf_resolve h ha .test) (functionsOf_resolve h ha .trial)

end BilinearForm

section Symbols

variable [Zero κ] [One κ] [NumberText κ]

/-- Resolving leaves no generic operator and keeps the functions and the fields that occur. A form
lists its functions and fields in the same order as before; it is applied to other functions with
the same verdict, and each of them takes the same place. -/
theorem resolve_keeps_symbols (cs : Coefficients) :
    (∀ d (e x : Expr κ), e.resolveIn cs d = .ok x →
      x.containsGeneric = false ∧ (∀ f, f ∈ x.functions ↔ f ∈ e.functions) ∧
        ∀ s, s ∈ x.fields ↔ s ∈ e.fields) ∧
    (∀ a b : BilinearForm κ, a.resolve cs = .ok b → a.integrand.SerialsIdentify →
      b.testFunctions = a.testFunctions ∧ b.trialFunctions = a.trialFunctions ∧
        b.fields = a.fields ∧
        ∀ tests trials,
          (∀ fault, a.apply tests trials = .error fault ↔ b.apply tests trials = .error fault) ∧
          ∀ pairs, a.placements tests trials = .ok pairs →
            a.apply tests trials = .ok (a.withIntegrand (a.integrand.rename pairs)) ∧
              b.apply tests trials = .ok (b.withIntegrand (b.integrand.rename pairs))) ∧
    ∀ l m : LinearForm κ, l.resolve cs = .ok m → l.integrand.SerialsIdentify →
      m.testFunctions = l.testFunctions ∧ m.fields = l.fields := by
  refine ⟨fun d e x hx => ?_, fun a b hb ha => ?_, fun l m hm hl => ?_⟩
  · exact ⟨Expr.containsGeneric_resolveIn hx, Expr.mem_functions_resolveIn_iff hx,
      Expr.mem_fields_resolveIn_iff hx⟩
  · obtain ⟨d, x, hx, hbx⟩ := BilinearForm.resolve_eq_ok hb
    refine ⟨BilinearForm.functionsOf_resolve hb ha .test,
      BilinearForm.functionsOf_resolve hb ha .trial, ?_, fun tests trials => ?_⟩
    · rw [hbx]
      exact Expr.sortedFields_congr (Expr.mem_fields_resolveIn_iff hx)
    · rw [BilinearForm.apply_eq_map, BilinearForm.apply_eq_map,
        BilinearForm.placements_resolve hb ha]
      cases a.placements tests trials with
      | error fault => simp [Except.map]
      | ok pairs => simp [Except.map]
  · obtain ⟨d, -, hm⟩ := bind_eq_ok_iff.1 hm
    obtain ⟨x, hx, hm⟩ := bind_eq_ok_iff.1 hm
    cases hm
    exact ⟨Expr.functionsOf_congr hl (Expr.mem_functions_resolveIn_iff hx) .test,
      Expr.sortedFields_congr (Expr.mem_fields_resolveIn_iff hx)⟩

end Symbols

section Vorticity

def stream : Argument := ⟨"p", .trial, ⟨"Q", 0, 2, .scalar⟩⟩

def velocity : Argument := ⟨"v", .test, ⟨"V", 1, 2, .vector 2⟩⟩

def vorticity : BilinearForm Float where
  integrand := .mul (.field "F") (.mul (.function stream) (.generic .rot [.function velocity]))
  spaces := ⟨some stream.space, some velocity.space, by simp [stream, velocity]⟩

def resolvedVorticity : BilinearForm Float :=
  vorticity.withIntegrand (.mul (.field "F") (.mul (.function stream)
    (.sub (.derivative .y [.component velocity 0]) (.derivative .x [.component velocity 1]))))

theorem resolve_keeps_symbols_vorticity :
    vorticity.resolve .standard = .ok resolvedVorticity ∧ vorticity.integrand.SerialsIdentify ∧
      resolvedVorticity.testFunctions = vorticity.testFunctions ∧
      resolvedVorticity.trialFunctions = vorticity.trialFunctions ∧
      resolvedVorticity.fields = vorticity.fields := by
  have h : vorticity.resolve .standard = .ok resolvedVorticity := by with_unfolding_all rfl
  have hs : vorticity.integrand.SerialsIdentify := by
    have hfunctions : vorticity.integrand.functions = [stream, velocity] := by with_unfolding_all rfl
    simp [Expr.SerialsIdentify, hfunctions, stream, velocity]
  obtain ⟨htest, htrial, hfields, -⟩ :=
    (resolve_keeps_symbols .standard).2.1 vorticity resolvedVorticity h hs
  exact ⟨h, hs, htest, htrial, hfields⟩

end Vorticity

end VariationalForms
