import VariationalForms.Proofs.Agreement

/-! Simplifying terms and simplifying the whole.
The outcome for a form is simplified as a whole. Without a form every term is simplified on its own,
and what is put together from the terms is left as it is. Neither way of simplifying decides whether
there is an outcome, and the two agree exactly when there is nothing to clean where the terms are put
together (`Normalization.form_simplify`).
-/

set_option autoImplicit false

namespace VariationalForms

variable {κ : Type}

namespace Expr

section Size

theorem one_le_size (e : Expr κ) : 1 ≤ e.size := by
  rw [size_eq]
  omega

theorem totalSize_map_le {f : Expr κ → Expr κ} {es : List (Expr κ)}
    (h : ∀ e ∈ es, (f e).size ≤ e.size) : totalSize (es.map f) ≤ totalSize es := by
  induction es with
  | nil => exact Nat.le_refl _
  | cons e es ih =>
    have he := h e (.head _)
    have hes := ih fun a ha => h a (.tail _ ha)
    simp only [List.map_cons, totalSize_cons]
    omega

variable [Zero κ]

theorem size_zeroLike_le (e : Expr κ) : e.zeroLike.size ≤ e.size := by
  unfold zeroLike
  split
  · rw [size_node, size_node]
    exact Nat.succ_le_succ (totalSize_map_le fun a _ => one_le_size a)
  · exact one_le_size e

variable [One κ] [Neg κ] [Add κ] [Sub κ] [Mul κ] [BEq κ]

theorem size_le_of_cleansTo {op : Arith} {l r x : Expr κ} (hx : CleansTo op l r x) :
    x.size ≤ l.size + r.size + 1 := by
  have hl := one_le_size l
  cases hx with
  | zeroMul =>
    have hzero := size_zeroLike_le r
    omega
  | mulZero =>
    have hzero := size_zeroLike_le l
    omega
  | zeroSub =>
    simp only [neg, size_arith, size_leaf]
    omega
  | joined =>
    simp only [size_arith, size_leaf]
    omega
  | folded | kept => simp
  | zeroAdd | addZero | subZero | oneMul | mulOne => omega

/-- If cleaning leaves an operation with operands that are no smaller than before, these are the
operands from before: else one would have been dropped, or two numbers joined. -/
theorem operands_of_cleansTo {op : Arith} {l r x y z : Expr κ} (hx : CleansTo op l r x)
    (h : x = .arith op y z) (hl : l.size ≤ y.size) (hr : r.size ≤ z.size) : l = y ∧ r = z := by
  cases hx with
  | folded => cases h
  | zeroMul => exact absurd h zeroLike_ne_arith
  | mulZero => exact absurd h zeroLike_ne_arith
  | zeroSub => cases h
  | joined =>
    cases h
    simp only [size_arith, size_leaf] at hl
    omega
  | kept => cases h; exact ⟨rfl, rfl⟩
  | zeroAdd | oneMul =>
    rw [h, size_arith] at hr
    omega
  | addZero | subZero | mulOne =>
    rw [h, size_arith] at hl
    omega

theorem arith_eq_cleanArith_iff {op : Arith} {l r y z : Expr κ} (hl : l.size ≤ y.size)
    (hr : r.size ≤ z.size) :
    arith op y z = cleanArith op l r ↔
      (y = l ∧ z = r) ∧ cleanArith op y z = .arith op y z := by
  constructor
  · intro h
    obtain ⟨rfl, rfl⟩ := operands_of_cleansTo (cleansTo_cleanArith op l r) h.symm hl hr
    exact ⟨⟨rfl, rfl⟩, h.symm⟩
  · rintro ⟨⟨rfl, rfl⟩, h⟩
    exact h.symm

theorem size_simplify_le (e : Expr κ) : e.simplify.size ≤ e.size := by
  induction e with
  | leaf l => exact Nat.le_refl _
  | arith op l r hl hr =>
    have h := size_le_of_cleansTo (cleansTo_cleanArith op l.simplify r.simplify)
    rw [simplify_arith, size_arith]
    omega
  | node h args ih =>
    rw [simplify_node, size_node, size_node]
    exact Nat.succ_le_succ (totalSize_map_le ih)

end Size

end Expr

namespace Coefficients

variable [Zero κ] [One κ] [Neg κ] [Add κ] [Sub κ] [Mul κ] [BEq κ] {cs : Coefficients}

/-- There is nothing to clean where the outcomes of terms are put together to sums and differences,
nor where coefficients are put in front of them. -/
def AssembledClean (cs : Coefficients) (g : Expr κ → Expr κ) : Expr κ → Prop
  | .add l r => cs.AssembledClean g l ∧ cs.AssembledClean g r ∧
      Expr.cleanAdd (cs.mapTerms g l) (cs.mapTerms g r) = .add (cs.mapTerms g l) (cs.mapTerms g r)
  | .sub l r => cs.AssembledClean g l ∧ cs.AssembledClean g r ∧
      Expr.cleanSub (cs.mapTerms g l) (cs.mapTerms g r) = .sub (cs.mapTerms g l) (cs.mapTerms g r)
  | .mul l r =>
    match Expr.product? ((Expr.mul l r).factors.filter cs.isCoefficient),
      Expr.product? ((Expr.mul l r).factors.filter (! cs.isCoefficient ·)) with
    | some c, some o => c.simplify = c ∧ Expr.cleanMul c (g o) = .mul c (g o)
    | some c, none => c.simplify = c
    | none, _ => True
  | _ => True

theorem size_simplify_mapTerms_le (g : Expr κ → Expr κ) (e : Expr κ) :
    (cs.mapTerms g e).simplify.size ≤ (cs.mapTerms (fun t => (g t).simplify) e).size := by
  induction e with
  | leaf l => exact Nat.le_refl _
  | node h args => exact Nat.le_refl _
  | arith op l r hl hr =>
    cases op with
    | mul =>
      rw [mapTerms, mapTerms]
      split
      case h_1 c o hc ho =>
        have h := Expr.size_le_of_cleansTo (Expr.cleansTo_cleanArith .mul c.simplify (g o).simplify)
        have hcs := c.size_simplify_le
        rw [Expr.simplify_arith, Expr.size_arith]
        omega
      case h_2 c hc ho => exact c.size_simplify_le
      case h_3 => exact Nat.le_refl _
      case h_4 => exact Nat.le_refl _
    | _ =>
      rw [mapTerms, mapTerms, Expr.simplify_arith, Expr.size_arith]
      exact Nat.le_trans (Expr.size_le_of_cleansTo (Expr.cleansTo_cleanArith ..)) (by omega)

/-- Simplifying the terms is simplifying the whole exactly when there is nothing left to clean. -/
theorem mapTerms_simplify_iff (g : Expr κ → Expr κ) (e : Expr κ) :
    cs.mapTerms (fun t => (g t).simplify) e = (cs.mapTerms g e).simplify ↔
      cs.AssembledClean (fun t => (g t).simplify) e := by
  induction e with
  | leaf l => exact iff_of_true rfl trivial
  | node h args => exact iff_of_true rfl trivial
  | arith op l r hl hr =>
    cases op with
    | mul =>
      rw [mapTerms, mapTerms, AssembledClean]
      cases Expr.product? ((Expr.mul l r).factors.filter cs.isCoefficient) <;>
        cases Expr.product? ((Expr.mul l r).factors.filter (! cs.isCoefficient ·))
      case none.none => exact iff_of_true rfl trivial
      case none.some => exact iff_of_true rfl trivial
      case some.none c => exact eq_comm
      case some.some c o =>
        refine (Expr.arith_eq_cleanArith_iff c.size_simplify_le (Nat.le_refl _)).trans ?_
        rw [eq_self, and_true, eq_comm]
        rfl
    | _ =>
      rw [mapTerms, mapTerms, AssembledClean, Expr.simplify_arith, Expr.arith_eq_cleanArith_iff
        (size_simplify_mapTerms_le g l) (size_simplify_mapTerms_le g r)]
      exact (and_congr_left fun _ => and_congr hl hr).trans and_assoc

end Coefficients

section Verdict

variable {ε α β γ : Type}

def verdict (x : Except ε α) : Except ε Unit := x.map fun _ => ()

theorem verdict_eq_error_iff {x : Except ε α} {fault : ε} :
    verdict x = .error fault ↔ x = .error fault := by
  cases x <;> simp [verdict, Except.map]

theorem verdict_map (f : α → β) (x : Except ε α) : verdict (x.map f) = verdict x := by
  cases x <;> rfl

theorem verdict_bind_pure (f : α → β) (x : Except ε α) :
    verdict (x >>= fun a => pure (f a)) = verdict x := by
  cases x <;> rfl

theorem verdict_bind₂ (f : α → β → γ) (x : Except ε α) (y : Except ε β) :
    verdict (x >>= fun a => y >>= fun b => pure (f a b)) = verdict x >>= fun _ => verdict y := by
  cases x <;> cases y <;> rfl

theorem Coefficients.verdict_distribute [One κ] {cs : Coefficients}
    {f f' : Expr κ → Except ε (Expr κ)} (h : ∀ t, verdict (f' t) = verdict (f t)) (e : Expr κ) :
    verdict (cs.distribute f' e) = verdict (cs.distribute f e) := by
  induction e with
  | leaf l => exact h (.leaf l)
  | node k args => exact h (.node k args)
  | arith op l r hl hr =>
    cases op with
    | mul =>
      simp only [distribute, onOperands, split_eq]
      cases Expr.product? ((Expr.mul l r).factors.filter cs.isCoefficient) <;>
        cases Expr.product? ((Expr.mul l r).factors.filter (! cs.isCoefficient ·))
      case none.none => rfl
      case none.some o => exact h o
      case some.none => rfl
      case some.some c o => simpa only [verdict_bind_pure] using h o
    | _ => rw [distribute, distribute, verdict_bind₂, verdict_bind₂, hl, hr]

end Verdict

namespace Normalization

variable [Zero κ] [One κ] [Neg κ] [Add κ] [Sub κ] [Mul κ] [BEq κ] [NumberText κ]

section Outcome

variable {n : Normalization} {e x : Expr κ}

def outcome (n : Normalization) (t : Expr κ) : Expr κ := (n.term t).toOption.getD t

theorem term_eq_ok_outcome {t : Expr κ} (h : ∃ x, n.term t = .ok x) :
    n.term t = .ok (n.outcome t) := by
  obtain ⟨x, hx⟩ := h
  rw [outcome, hx]
  rfl

theorem terms_of_expr_eq_ok (h : n.expr e = .ok x) :
    ∀ t ∈ n.coefficients.operandTerms e, n.term t = .ok (n.outcome t) :=
  fun t ht => term_eq_ok_outcome (Coefficients.exists_of_distribute_eq_ok h t ht)

end Outcome

variable (cs : Coefficients) (names : BasisNames)

theorem flatten_simplify (e : Expr κ) :
    flatten ⟨cs, names, true⟩ e = (flatten ⟨cs, names, false⟩ e).map Expr.simplify := by
  rw [flatten, flatten]
  cases e.flatten names <;> rfl

theorem term_simplify (t : Expr κ) :
    term ⟨cs, names, true⟩ t = (term ⟨cs, names, false⟩ t).map Expr.simplify := by
  rw [term, term]
  split
  · cases t.resolve cs with
    | error fault => rfl
    | ok e => exact flatten_simplify cs names e
  · exact flatten_simplify cs names t

theorem verdict_form (w : WeakForm κ) :
    verdict (form ⟨cs, names, true⟩ w) = verdict (form ⟨cs, names, false⟩ w) := by
  cases w with
  | bilinear a =>
    rw [form, form]
    cases a.resolve cs with
    | error fault => rfl
    | ok b =>
      change verdict (flatten _ b.integrand >>= fun x => pure _) =
        verdict (flatten _ b.integrand >>= fun x => pure _)
      rw [verdict_bind_pure, verdict_bind_pure, flatten_simplify, verdict_map]
  | linear l => rfl
  | raw e =>
    rw [form, form]
    cases e.rejectLeaf with
    | error fault => rfl
    | ok _ =>
      change verdict (expr _ e >>= fun x => pure _) = verdict (expr _ e >>= fun x => pure _)
      rw [verdict_bind_pure, verdict_bind_pure]
      refine Coefficients.verdict_distribute (fun t => ?_) e
      rw [term_simplify, verdict_map]

theorem form_bilinear_simplify {a b : BilinearForm κ}
    (h : form ⟨cs, names, false⟩ (.bilinear a) = .ok (.bilinear b)) :
    form ⟨cs, names, true⟩ (.bilinear a) = .ok (.bilinear (b.withIntegrand b.integrand.simplify)) := by
  obtain ⟨c, hc, h⟩ := bind_eq_ok_iff.1 h
  obtain ⟨x, hx, h⟩ := bind_eq_ok_iff.1 h
  cases h
  refine bind_eq_ok_iff.2 ⟨c, hc, bind_eq_ok_iff.2 ⟨x.simplify, ?_, rfl⟩⟩
  rw [flatten_simplify, hx]
  rfl

theorem form_raw_simplify {e x : Expr κ}
    (h : form ⟨cs, names, false⟩ (.raw e) = .ok (.raw x)) :
    x = cs.mapTerms (outcome ⟨cs, names, false⟩) e ∧
      form ⟨cs, names, true⟩ (.raw e) =
        .ok (.raw (cs.mapTerms (fun t => (outcome ⟨cs, names, false⟩ t).simplify) e)) := by
  have hnoleaf : ∀ l, e ≠ .leaf l := by
    rintro l rfl
    cases h
  obtain ⟨_, hx, h⟩ := (form_raw_eq_ok_iff hnoleaf).1 h
  cases h
  have hterms := terms_of_expr_eq_ok hx
  refine ⟨Except.ok.inj (hx.symm.trans (Coefficients.distribute_eq_ok hterms)), ?_⟩
  refine (form_raw_eq_ok_iff hnoleaf).2 ⟨_, Coefficients.distribute_eq_ok fun t ht => ?_, rfl⟩
  rw [term_simplify, hterms t ht]
  rfl

/-- Simplifying decides neither whether there is an outcome nor which fault there is. The outcome
for a form is simplified as a whole. Without a form, the outcomes of the terms are simplified before
they are put together; that is the outcome simplified as a whole exactly when there is nothing to
clean where they are put together. -/
theorem form_simplify :
    (∀ (w : WeakForm κ) fault,
      form ⟨cs, names, true⟩ w = .error fault ↔ form ⟨cs, names, false⟩ w = .error fault) ∧
    (∀ a b : BilinearForm κ, form ⟨cs, names, false⟩ (.bilinear a) = .ok (.bilinear b) →
      form ⟨cs, names, true⟩ (.bilinear a) =
        .ok (.bilinear (b.withIntegrand b.integrand.simplify))) ∧
    ∀ e x : Expr κ, form ⟨cs, names, false⟩ (.raw e) = .ok (.raw x) →
      x = cs.mapTerms (outcome ⟨cs, names, false⟩) e ∧
      ∃ y, form ⟨cs, names, true⟩ (.raw e) = .ok (.raw y) ∧
        y = cs.mapTerms (fun t => (outcome ⟨cs, names, false⟩ t).simplify) e ∧
        (y = x.simplify ↔
          cs.AssembledClean (fun t => (outcome ⟨cs, names, false⟩ t).simplify) e) := by
  refine ⟨fun w fault => ?_, fun a b h => form_bilinear_simplify cs names h, fun e x h => ?_⟩
  · rw [← verdict_eq_error_iff, verdict_form, verdict_eq_error_iff]
  · obtain ⟨hx, hy⟩ := form_raw_simplify cs names h
    refine ⟨hx, _, hy, rfl, ?_⟩
    rw [hx]
    exact Coefficients.mapTerms_simplify_iff _ e

section Scaled

def scaledSlope : Expr Float :=
  .mul (.mul (.number 2) (.number 3)) (.derivative .x [Expr.planeTest])

def flatSlope : Expr Float := .mul (.mul (.number 2) (.number 3)) (.symbol "w_x")

theorem form_simplify_scaledSlope :
    form ⟨.standard, .empty, false⟩ (.raw scaledSlope) = .ok (.raw flatSlope) ∧
      form ⟨.standard, .empty, true⟩ (.raw scaledSlope) = .ok (.raw flatSlope) ∧
      flatSlope ≠ flatSlope.simplify := by
  have hslope : flatten ⟨.standard, .empty, false⟩
      (.derivative .x [Expr.planeTest] : Expr Float) = .ok (.symbol "w_x") :=
    flatten_of_unbroken rfl (by with_unfolding_all rfl)
  have hterm : term ⟨.standard, .empty, false⟩
      (.derivative .x [Expr.planeTest] : Expr Float) = .ok (.symbol "w_x") := by
    have hplain : (Expr.derivative .x [Expr.planeTest] : Expr Float).containsGeneric = false := by
      with_unfolding_all rfl
    rw [term, if_neg (by simp [hplain])]
    exact hslope
  have hexpr : expr ⟨.standard, .empty, false⟩ scaledSlope = .ok flatSlope := by
    change Coefficients.onOperands .standard (term ⟨.standard, .empty, false⟩) scaledSlope = _
    refine Coefficients.onOperands_eq_ok_iff.2
      (.inl ⟨.mul (.number 2) (.number 3), _, _, ?_, ?_, hterm, rfl⟩)
    · with_unfolding_all rfl
    · with_unfolding_all rfl
  have hplain : form ⟨.standard, .empty, false⟩ (.raw scaledSlope) = .ok (.raw flatSlope) :=
    (form_raw_eq_ok_iff (by simp [scaledSlope])).2 ⟨_, hexpr, rfl⟩
  have hassemble : ∀ g : Expr Float → Expr Float, Coefficients.standard.mapTerms g scaledSlope =
      .mul (.mul (.number 2) (.number 3)) (g (.derivative .x [Expr.planeTest])) := fun _ => rfl
  have hnumbers : ∀ g : Expr Float → Expr Float,
      ¬ Coefficients.standard.AssembledClean g scaledSlope := by
    intro g hclean
    have hfold : (Expr.mul (.number 2) (.number 3) : Expr Float).simplify =
        .mul (.number 2) (.number 3) := hclean.1
    cases hfold
  obtain ⟨-, y, hy, hterms, hiff⟩ := (form_simplify _ _).2.2 _ _ hplain
  rw [hassemble, outcome, hterm] at hterms
  cases hterms
  exact ⟨hplain, hy, fun h => hnumbers _ (hiff.1 h)⟩

end Scaled

end Normalization

end VariationalForms
