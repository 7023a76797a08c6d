import VariationalForms.Proofs.Linearity
import VariationalForms.Proofs.OnePass

/-! Normalizing with a form and without one.
A form is resolved as a whole in the dimension of its spaces. Without a form every term finds its own
dimension, and coefficients are set aside once more inside of it. What is found decides whether the
second way succeeds where the first does; the outcomes differ by the order of factors at most
(`Normalization.form_raw`).
-/

set_option autoImplicit false

namespace VariationalForms

universe u

variable {κ : Type}

theorem exists_ok_iff_of_value {α : Type} {V : Type u} {f : α → V} {x y : Except Fault α}
    (h : x.toOption.map f = y.toOption.map f) : (∃ a, x = .ok a) ↔ ∃ b, y = .ok b := by
  cases x <;> cases y <;> simp [Except.toOption] at h ⊢

/-- Works on both sides of sums, differences and products and leaves coefficients as they are. -/
structure IsCompositional (F : Expr κ → Except Fault (Expr κ)) : Prop where
  arith : ∀ {op l r x}, F (.arith op l r) = .ok x ↔
    ∃ l' r', F l = .ok l' ∧ F r = .ok r' ∧ .arith op l' r' = x
  coefficient : ∀ {c}, (CoefficientKind.of? c).isSome → F c = .ok c

namespace IsCompositional

variable {F G : Expr κ → Except Fault (Expr κ)}

theorem comp (hF : IsCompositional F) (hG : IsCompositional G) :
    IsCompositional fun e => F e >>= G where
  arith := by
    intro op l r x
    simp only [bind_eq_ok_iff, hF.arith]
    constructor
    · rintro ⟨y, ⟨l', r', hl, hr, rfl⟩, hx⟩
      obtain ⟨l'', r'', hl', hr', rfl⟩ := hG.arith.1 hx
      exact ⟨l'', r'', ⟨l', hl, hl'⟩, ⟨r', hr, hr'⟩, rfl⟩
    · rintro ⟨l'', r'', ⟨l', hl, hl'⟩, ⟨r', hr, hr'⟩, rfl⟩
      exact ⟨_, ⟨l', r', hl, hr, rfl⟩, hG.arith.2 ⟨l'', r'', hl', hr', rfl⟩⟩
  coefficient hc := bind_eq_ok_iff.2 ⟨_, hF.coefficient hc, hG.coefficient hc⟩

variable (hF : IsCompositional F) {cs : Coefficients}

include hF

theorem product_coefficients {e c : Expr κ}
    (hc : Expr.product? (e.factors.filter cs.isCoefficient) = some c) : F c = .ok c := by
  refine Expr.product?_induct (P := fun e => F e = .ok e)
    (fun l r hl hr => hF.arith.2 ⟨l, r, hl, hr, rfl⟩) hc fun f hf => ?_
  obtain ⟨k, hk, -⟩ := (Option.any_eq_true _ _).1 (List.mem_filter.1 hf).2
  exact hF.coefficient (by rw [hk]; rfl)

theorem distribute_eq_ok_iff [One κ] {g : Expr κ → Expr κ} {e x : Expr κ} :
    cs.distribute (fun t => F (g t)) e = .ok x ↔ F (cs.mapTerms g e) = .ok x := by
  induction e generalizing x with
  | leaf l => rfl
  | node k args => rfl
  | arith op l r hl hr =>
    cases op with
    | mul =>
      simp only [Coefficients.distribute, Coefficients.onOperands, Coefficients.split_eq,
        Coefficients.mapTerms]
      cases hc : Expr.product? ((Expr.mul l r).factors.filter cs.isCoefficient) with
      | none =>
        cases Expr.product? ((Expr.mul l r).factors.filter (! cs.isCoefficient ·)) with
        | none =>
          have hone : F (.number 1) = .ok (.number 1) := hF.coefficient rfl
          simp [hone]
        | some o => simp
      | some c =>
        have hcoefficient := hF.product_coefficients hc
        cases Expr.product? ((Expr.mul l r).factors.filter (! cs.isCoefficient ·)) with
        | none => simp [hcoefficient]
        | some o => simp [hF.arith, hcoefficient, bind_eq_ok_iff, -bind_pure_comp]
    | _ =>
      rw [Coefficients.mapTerms, hF.arith, Coefficients.distribute_arith_eq_ok_iff (by simp)]
      simp only [hl, hr]

theorem isArithmetical {V : Type u} [Add V] [Sub V] [CommMonoid V] (M : Reading κ V) :
    Expr.IsArithmetical fun e => (F e).toOption.map M.value := by
  intro op l r
  cases h : F (.arith op l r) with
  | ok x =>
    obtain ⟨l', r', hl, hr, rfl⟩ := hF.arith.1 h
    simp [Except.toOption, hl, hr, h, M.value_arith]
  | error fault =>
    cases hl : F l with
    | error _ => simp [Except.toOption, hl, h]
    | ok l' =>
      cases hr : F r with
      | error _ => simp [Except.toOption, hr, h]
      | ok r' =>
        rw [hF.arith.2 ⟨l', r', hl, hr, rfl⟩] at h
        cases h

end IsCompositional

theorem CoefficientKind.of?_cases {e : Expr κ} (h : (of? e).isSome) :
    (∃ c, e = .number c) ∨ (∃ s, e = .constant s) ∨ ∃ s, e = .field s := by
  unfold of? at h
  split at h
  case h_1 c => exact .inl ⟨c, rfl⟩
  case h_2 s => exact .inr (.inl ⟨s, rfl⟩)
  case h_3 s => exact .inr (.inr ⟨s, rfl⟩)
  case h_4 => cases h

namespace Expr

theorem mem_operators_arith {op : Arith} {l r : Expr κ} {o : Operator} :
    o ∈ (arith op l r).operators ↔ o ∈ l.operators ∨ o ∈ r.operators := by
  simp only [mem_operators, nodes, List.mem_cons, List.mem_append]
  simp [exists_or]

theorem forall_functions_iff {P : Argument → Prop} {e : Expr κ} :
    (∀ f ∈ e.functions, P f) ↔
      e.MadeOf (fun l => ∀ f, l.function? = some f → P f) fun _ => True := by
  constructor
  · intro h n hn
    cases n with
    | leaf l => exact fun f hf => h f (mem_functions.2 ⟨_, hn, hf⟩)
    | _ => trivial
  · intro h f hf
    obtain ⟨n, hn, hnf⟩ := mem_functions.1 hf
    have hroot := h n hn
    cases n with
    | leaf l => exact hroot f hnf
    | _ => cases hnf

theorem isCompositional_resolveTerm [Zero κ] (d : Nat) :
    IsCompositional fun e : Expr κ => resolveTerm d e where
  arith := by
    intro op l r x
    simp only [resolveTerm_eq_ok_iff, mem_operators_arith, expand_arith_eq_ok_iff]
    constructor
    · rintro ⟨hos, l', r', hl, hr, rfl⟩
      exact ⟨l', r', ⟨fun o ho => hos o (.inl ho), hl⟩, ⟨fun o ho => hos o (.inr ho), hr⟩, rfl⟩
    · rintro ⟨l', r', ⟨hol, hl⟩, ⟨hor, hr⟩, rfl⟩
      exact ⟨fun o ho => ho.elim (hol o) (hor o), l', r', hl, hr, rfl⟩
  coefficient hc := by
    rcases CoefficientKind.of?_cases hc with ⟨c, rfl⟩ | ⟨s, rfl⟩ | ⟨s, rfl⟩ <;>
      exact resolveTerm_of_resolved (p := fun _ => True) (madeOf_leaf.2 trivial)

end Expr

namespace Normalization

variable [Zero κ] [One κ] [Neg κ] [Add κ] [Sub κ] [Mul κ] [BEq κ] [NumberText κ]
  {n : Normalization}

theorem isCompositional_flatten (hn : n.simplify = false) :
    IsCompositional fun e : Expr κ => n.flatten e where
  arith := by
    intro op l r x
    have hnodes : (∀ m ∈ (Expr.arith op l r).nodes,
          m.isDerivative → ∃ s, m.flatSymbol n.names = .ok s) ↔
        (∀ m ∈ l.nodes, m.isDerivative → ∃ s, m.flatSymbol n.names = .ok s) ∧
          ∀ m ∈ r.nodes, m.isDerivative → ∃ s, m.flatSymbol n.names = .ok s :=
      Expr.forall_nodes_arith fun h => nomatch h
    simp only [flatten_eq_ok_iff, hn, hnodes, Expr.flattened_arith, Bool.false_eq_true, if_false]
    constructor
    · rintro ⟨⟨hl, hr⟩, rfl⟩
      exact ⟨_, _, ⟨hl, rfl⟩, ⟨hr, rfl⟩, rfl⟩
    · rintro ⟨_, _, ⟨hl, rfl⟩, ⟨hr, rfl⟩, rfl⟩
      exact ⟨⟨hl, hr⟩, rfl⟩
  coefficient hc := by
    refine flatten_eq_ok_iff.2 ⟨?_, ?_⟩
    · rcases CoefficientKind.of?_cases hc with ⟨c, rfl⟩ | ⟨s, rfl⟩ | ⟨s, rfl⟩ <;>
        simp [Expr.nodes, Expr.isDerivative]
    · rw [hn]
      rcases CoefficientKind.of?_cases hc with ⟨c, rfl⟩ | ⟨s, rfl⟩ | ⟨s, rfl⟩ <;> rfl

/-- Resolves one term in a dimension and flattens it. -/
def settle (n : Normalization) (d : Nat) (e : Expr κ) : Except Fault (Expr κ) := do
  n.flatten (← Expr.resolveTerm d e)

theorem isCompositional_settle (hn : n.simplify = false) (d : Nat) :
    IsCompositional fun e : Expr κ => n.settle d e :=
  (Expr.isCompositional_resolveTerm d).comp (isCompositional_flatten hn)

end Normalization

namespace Coefficients

variable {cs : Coefficients}

/-- Every term with a generic operator has a function under the first one. -/
def FindsDimensions [NumberText κ] (cs : Coefficients) (e : Expr κ) : Prop :=
  ∀ t ∈ cs.operandTerms e, t.containsGeneric → ∃ d, t.dimension = .ok d

variable [One κ]

/-- A term with generic operators has its coefficients set aside once more. -/
def regroup (cs : Coefficients) (t : Expr κ) : Expr κ :=
  if t.containsGeneric then cs.arrange t else t

def regrouped (cs : Coefficients) (e : Expr κ) : Expr κ := cs.mapTerms cs.regroup e

theorem regroup_of_isArranged {t : Expr κ} (ht : t.containsGeneric → cs.isArranged t) :
    cs.regroup t = t := by
  unfold regroup
  split
  case isTrue hg => exact arrange_of_isArranged (ht hg)
  case isFalse => rfl

theorem regrouped_of_isArranged {e : Expr κ}
    (he : ∀ t ∈ cs.operandTerms e, t.containsGeneric → cs.isArranged t) :
    cs.regrouped e = cs.arrange e := by
  have hterms : ∀ t ∈ cs.operandTerms e, (.ok (cs.regroup t) : Except Fault _) = .ok (id t) :=
    fun t ht => congrArg Except.ok (regroup_of_isArranged (he t ht))
  exact Except.ok.inj ((distribute_ok cs.regroup e).symm.trans (distribute_eq_ok hterms))

theorem isProductOf_regroup {o : Expr κ} (ho : o.isProductOf (! cs.isCoefficient ·)) :
    (cs.regroup o).isProductOf (! cs.isCoefficient ·) := by
  unfold regroup
  split
  case isFalse => exact ho
  case isTrue =>
    cases o with
    | leaf l => exact ho
    | node k args => exact ho
    | arith op l r =>
      cases op with
      | mul => rwa [arrange_of_isArranged (by simp [isArranged, ho])]
      | _ => rfl

theorem isArranged_regrouped (e : Expr κ) : cs.isArranged (cs.regrouped e) := by
  unfold regrouped
  induction e with
  | leaf l =>
    change cs.isArranged (cs.regroup (.leaf l))
    rw [regroup_of_isArranged fun _ => rfl]
    rfl
  | node k args =>
    change cs.isArranged (cs.regroup (.node k args))
    rw [regroup_of_isArranged fun _ => rfl]
    rfl
  | arith op l r hl hr =>
    cases op with
    | mul =>
      rw [mapTerms]
      split
      case h_1 c o hc ho =>
        have hgrouped := isProductOf_regroup (isProductOf_of_filter ho)
        simp [isArranged, isProductOf_of_filter hc, hgrouped]
      case h_2 c hc _ => exact isArranged_of_coefficients (isProductOf_of_filter hc)
      case h_3 o hc ho =>
        rw [regroup_of_isArranged fun _ => isArranged_of_operands hc ho]
        exact isArranged_of_operands hc ho
      case h_4 => rfl
    | _ => simp [mapTerms, isArranged, hl, hr]

end Coefficients

namespace Normalization

variable [Zero κ] [One κ] [Neg κ] [Add κ] [Sub κ] [Mul κ] [BEq κ] [NumberText κ]
  {n : Normalization} {d : Nat} {s : FormSpaces} {e x : Expr κ}

theorem settle_arrange_eq_ok_iff :
    n.settle d (n.coefficients.arrange e) = .ok x ↔
      ∃ y, e.resolveIn n.coefficients d = .ok y ∧ n.flatten y = .ok x := by
  simp only [settle, bind_eq_ok_iff]
  refine exists_congr fun y => and_congr_left fun _ => ?_
  exact ((Expr.isCompositional_resolveTerm d).distribute_eq_ok_iff (g := id)).symm

theorem settle_of_resolved {p : Leaf κ → Prop} (he : e.MadeOf p Head.Resolved) :
    n.settle d e = n.flatten e := by
  rw [settle, Expr.resolveTerm_of_resolved he]
  rfl

theorem form_bilinear_eq_ok_iff {w : WeakForm κ} (hs : s.ldim? = some d) :
    n.form (.bilinear ⟨e, s⟩) = .ok w ↔
      ∃ x, n.settle d (n.coefficients.arrange e) = .ok x ∧ .bilinear ⟨x, s⟩ = w := by
  have hdimension : BilinearForm.dimension ⟨e, s⟩ = .ok d := by
    simp [BilinearForm.dimension, BilinearForm.ldim?, hs]
  simp only [form, BilinearForm.resolve, hdimension, bind_eq_ok_iff, pure_eq_ok_iff,
    settle_arrange_eq_ok_iff, BilinearForm.withIntegrand]
  constructor
  · rintro ⟨_, ⟨_, hd, y, hy, rfl⟩, x, hx, rfl⟩
    cases hd
    exact ⟨x, ⟨y, hy, hx⟩, rfl⟩
  · rintro ⟨x, ⟨y, hy, hx⟩, rfl⟩
    exact ⟨_, ⟨d, rfl, y, hy, rfl⟩, x, hx, rfl⟩

theorem form_raw_eq_ok_iff {w : WeakForm κ} (he : ∀ l, e ≠ .leaf l) :
    n.form (.raw e) = .ok w ↔ ∃ x, n.expr e = .ok x ∧ .raw x = w := by
  simp [form, Expr.rejectLeaf_eq_ok_iff.2 he, bind_eq_ok_iff, -bind_pure_comp]

theorem term_eq_ok_iff (hf : ∀ f ∈ e.functions, f.space.ldim = d) :
    n.term e = .ok x ↔
      (e.containsGeneric → ∃ d, e.dimension = .ok d) ∧
        n.settle d (n.coefficients.regroup e) = .ok x := by
  cases hg : e.containsGeneric with
  | false =>
    have hterm : n.term e = n.flatten e := by rw [term, hg]; rfl
    have hregroup : n.coefficients.regroup e = e :=
      Coefficients.regroup_of_isArranged fun h => by simp [hg] at h
    rw [hterm, hregroup, settle_of_resolved (Expr.containsGeneric_eq_false_iff.1 hg)]
    simp
  | true =>
    have hterm : n.term e = e.resolve n.coefficients >>= n.flatten := by rw [term, hg]; rfl
    have hregroup : n.coefficients.regroup e = n.coefficients.arrange e := if_pos hg
    have hnoleaf : ∀ l, e ≠ .leaf l := by
      rintro l rfl
      simp [Expr.containsGeneric, Expr.preorder_eq_nodes, Expr.nodes, Expr.generic?] at hg
    rw [hterm, hregroup, settle_arrange_eq_ok_iff, bind_eq_ok_iff]
    constructor
    · rintro ⟨y, hy, hx⟩
      have hd := Expr.dimension_of_resolve hy hg hf
      rw [Expr.resolve_of_dimension hnoleaf hd] at hy
      exact ⟨fun _ => ⟨d, hd⟩, y, hy, hx⟩
    · rintro ⟨hfinds, y, hy, hx⟩
      obtain ⟨d', hd⟩ := hfinds rfl
      obtain ⟨f, hmem, rfl⟩ := Expr.exists_function_of_dimension hd
      rw [hf f hmem] at hd
      exact ⟨y, (Expr.resolve_of_dimension hnoleaf hd).trans hy, hx⟩

theorem expr_eq_ok_iff (hn : n.simplify = false) (hf : ∀ f ∈ e.functions, f.space.ldim = d) :
    n.expr e = .ok x ↔
      n.coefficients.FindsDimensions e ∧ n.settle d (n.coefficients.regrouped e) = .ok x := by
  have hfunctions : ∀ t ∈ n.coefficients.operandTerms e, ∀ f ∈ t.functions, f.space.ldim = d :=
    fun t ht => Expr.forall_functions_iff.2
      (Expr.madeOf_operandTerms (Expr.forall_functions_iff.1 hf) t ht)
  unfold expr Coefficients.regrouped
  -- Faults differ between the two sides, so only the successes of the terms are compared.
  rw [← (isCompositional_settle hn d).distribute_eq_ok_iff]
  constructor
  · intro hx
    have hfinds : n.coefficients.FindsDimensions e := fun t ht => by
      obtain ⟨y, hy⟩ := Coefficients.exists_of_distribute_eq_ok hx t ht
      exact ((term_eq_ok_iff (hfunctions t ht)).1 hy).1
    refine ⟨hfinds, Coefficients.distribute_mono (fun t ht y hy => ?_) hx⟩
    exact ((term_eq_ok_iff (hfunctions t ht)).1 hy).2
  · rintro ⟨hfinds, hx⟩
    refine Coefficients.distribute_mono (fun t ht y hy => ?_) hx
    exact (term_eq_ok_iff (hfunctions t ht)).2 ⟨hfinds t ht, hy⟩

section Value

variable {V : Type u} [Add V] [Sub V] [CommMonoid V] (M : Reading κ V)

theorem value_settle_arrange (hn : n.simplify = false) (cs : Coefficients) (e : Expr κ) :
    (n.settle d (cs.arrange e)).toOption.map M.value = (n.settle d e).toOption.map M.value :=
  ((isCompositional_settle hn d).isArithmetical M).mapTerms fun _ _ => rfl

theorem value_settle_regrouped (hn : n.simplify = false) (cs : Coefficients) (e : Expr κ) :
    (n.settle d (cs.regrouped e)).toOption.map M.value =
      (n.settle d (cs.arrange e)).toOption.map M.value := by
  rw [value_settle_arrange M hn]
  refine ((isCompositional_settle hn d).isArithmetical M).mapTerms fun t _ => ?_
  unfold Coefficients.regroup
  split
  · exact value_settle_arrange M hn cs t
  · rfl

end Value

theorem exists_settle_regrouped_iff (hn : n.simplify = false) (cs : Coefficients) :
    (∃ x, n.settle d (cs.regrouped e) = .ok x) ↔ ∃ x, n.settle d (cs.arrange e) = .ok x := by
  exact exists_ok_iff_of_value
    (value_settle_regrouped ⟨fun _ => 1, fun _ _ => 1⟩ (V := Nat) hn cs e)

/-- Without a form, an integrand is normalized exactly when it is with one and its terms find their
dimensions. The outcome is that of the form over the regrouped integrand, has the value of the
outcome of the form over the integrand itself, and is the same when the terms with generic operators
are arranged. -/
theorem form_raw (hn : n.simplify = false) (he : ∀ l, e ≠ .leaf l)
    (hf : ∀ f ∈ e.functions, f.space.ldim = d) (hs : s.ldim? = some d) :
    ((∃ w, n.form (.raw e) = .ok w) ↔
      n.coefficients.FindsDimensions e ∧ ∃ w, n.form (.bilinear ⟨e, s⟩) = .ok w) ∧
    ∀ x y, n.form (.raw e) = .ok (.raw x) →
      n.form (.bilinear ⟨e, s⟩) = .ok (.bilinear ⟨y, s⟩) →
      n.form (.bilinear ⟨n.coefficients.regrouped e, s⟩) = .ok (.bilinear ⟨x, s⟩) ∧
        ((∀ t ∈ n.coefficients.operandTerms e, t.containsGeneric → n.coefficients.isArranged t) →
          x = y) ∧
        ∀ {V : Type u} [Add V] [Sub V] [CommMonoid V] (M : Reading κ V),
          M.value x = M.value y := by
  constructor
  · constructor
    · rintro ⟨w, hw⟩
      obtain ⟨x, hx, -⟩ := (form_raw_eq_ok_iff he).1 hw
      obtain ⟨hfinds, hx⟩ := (expr_eq_ok_iff hn hf).1 hx
      obtain ⟨y, hy⟩ := (exists_settle_regrouped_iff hn n.coefficients).1 ⟨x, hx⟩
      exact ⟨hfinds, _, (form_bilinear_eq_ok_iff hs).2 ⟨y, hy, rfl⟩⟩
    · rintro ⟨hfinds, w, hw⟩
      obtain ⟨y, hy, -⟩ := (form_bilinear_eq_ok_iff hs).1 hw
      obtain ⟨x, hx⟩ := (exists_settle_regrouped_iff hn n.coefficients).2 ⟨y, hy⟩
      exact ⟨_, (form_raw_eq_ok_iff he).2 ⟨x, (expr_eq_ok_iff hn hf).2 ⟨hfinds, hx⟩, rfl⟩⟩
  · intro x y hx hy
    obtain ⟨_, hx, h⟩ := (form_raw_eq_ok_iff he).1 hx
    cases h
    obtain ⟨_, hy, h⟩ := (form_bilinear_eq_ok_iff hs).1 hy
    cases h
    have hregrouped := ((expr_eq_ok_iff hn hf).1 hx).2
    refine ⟨?_, fun harranged => ?_, fun M => ?_⟩
    · rw [form_bilinear_eq_ok_iff hs, Coefficients.arrange_of_isArranged
        (Coefficients.isArranged_regrouped e)]
      exact ⟨x, hregrouped, rfl⟩
    · rw [Coefficients.regrouped_of_isArranged harranged] at hregrouped
      exact Except.ok.inj (hregrouped.symm.trans hy)
    · have h := value_settle_regrouped M hn (d := d) n.coefficients e
      rw [hregrouped, hy] at h
      exact Option.some.inj h

section DrivenDiffusion

def fieldSource : Expr Float :=
  .mul Expr.planeTest (.generic .div [.tuple [.field "F", .field "G"]])

def drivenDiffusion : Expr Float := .add Expr.diffusion fieldSource

def resolvedDrivenDiffusion : Expr Float :=
  .add Expr.resolvedDiffusion
    (.mul Expr.planeTest (.add (.derivative .x [.field "F"]) (.derivative .y [.field "G"])))

def flatDrivenDiffusion : Expr Float :=
  .add (.add (.mul (.symbol "w_x") (.symbol "u_x")) (.mul (.symbol "w_y") (.symbol "u_y")))
    (.mul Expr.planeTest (.add (.symbol "F_x") (.symbol "G_y")))

theorem ldim_planeSpace :
    ∀ u ∈ some WeakForm.planeSpace, ∀ v ∈ some WeakForm.planeSpace, u.ldim = v.ldim := by
  simp

def planeSpaces : FormSpaces :=
  ⟨some WeakForm.planeSpace, some WeakForm.planeSpace, ldim_planeSpace⟩

theorem form_raw_drivenDiffusion :
    (∀ f ∈ drivenDiffusion.functions, f.space.ldim = 2) ∧ planeSpaces.ldim? = some 2 ∧
      form ⟨.standard, .empty, false⟩ (.bilinear ⟨drivenDiffusion, planeSpaces⟩) =
        .ok (.bilinear ⟨flatDrivenDiffusion, planeSpaces⟩) ∧
      ∀ w, form ⟨.standard, .empty, false⟩ (.raw drivenDiffusion) ≠ .ok w := by
  have hf : ∀ f ∈ drivenDiffusion.functions, f.space.ldim = 2 := by
    have hfunctions : drivenDiffusion.functions =
        [⟨"w", .test, WeakForm.planeSpace⟩, ⟨"u", .trial, WeakForm.planeSpace⟩] := by
      with_unfolding_all rfl
    simp [hfunctions, WeakForm.planeSpace]
  have hnoleaf : ∀ l, drivenDiffusion ≠ .leaf l := by simp [drivenDiffusion]
  have hform : form ⟨.standard, .empty, false⟩ (.bilinear ⟨drivenDiffusion, planeSpaces⟩) =
      .ok (.bilinear ⟨flatDrivenDiffusion, planeSpaces⟩) := by
    have hresolved : drivenDiffusion.resolveIn .standard 2 = .ok resolvedDrivenDiffusion := by
      with_unfolding_all rfl
    have hflat : resolvedDrivenDiffusion.localized .empty = flatDrivenDiffusion := by
      with_unfolding_all rfl
    exact (form_bilinear_eq_ok_iff rfl).2 ⟨_, settle_arrange_eq_ok_iff.2 ⟨_, hresolved,
      flatten_of_unbroken rfl hflat⟩, rfl⟩
  refine ⟨hf, rfl, hform, fun w hw => ?_⟩
  obtain ⟨hfinds, -⟩ :=
    (form_raw.{0} (n := ⟨.standard, .empty, false⟩) (s := planeSpaces) rfl hnoleaf hf rfl).1.1
      ⟨w, hw⟩
  have hterms : Coefficients.standard.operandTerms drivenDiffusion =
      [Expr.diffusion, fieldSource] := rfl
  have hsource : fieldSource ∈ Coefficients.standard.operandTerms drivenDiffusion := by
    simp [hterms]
  have hnone : fieldSource.dimension = .error (.noFunctionOperand .div) := by with_unfolding_all rfl
  obtain ⟨d, hd⟩ := hfinds fieldSource hsource (by with_unfolding_all rfl)
  rw [hnone] at hd
  cases hd

end DrivenDiffusion

end Normalization

end VariationalForms
