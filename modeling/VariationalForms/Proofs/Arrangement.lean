import Mathlib.Data.List.Perm.Basic
import Mathlib.Data.Option.NAry
import VariationalForms.Proofs.Expand
import VariationalForms.Proofs.Reading

/-! Arranged products.
Setting the coefficients aside puts them in front of the operands and groups both to the left.
Products that have this form already are left as they are (`Coefficients.arrange_eq_self_iff`), and
every product has it afterwards.
-/

set_option autoImplicit false

namespace VariationalForms

universe u

variable {κ : Type}

namespace Expr

def isProduct : Expr κ → Bool
  | .mul _ _ => true
  | _ => false

/-- A product of factors with the property `p`, grouped to the left. -/
def isProductOf (p : Expr κ → Bool) : Expr κ → Bool
  | .mul l r => l.isProductOf p && !r.isProduct && p r
  | e => p e

theorem factors_of_not_isProduct {e : Expr κ} (h : e.isProduct = false) : e.factors = [e] := by
  unfold factors
  split
  · cases h
  · rfl

theorem isProductOf_of_not_isProduct {p : Expr κ → Bool} {e : Expr κ} (h : e.isProduct = false) :
    e.isProductOf p = p e := by
  unfold isProductOf
  split
  · cases h
  · rfl

theorem isProduct_of_mem_factors {e f : Expr κ} (hf : f ∈ e.factors) : f.isProduct = false := by
  fun_induction factors e with
  | case1 l r hl hr => exact (List.mem_append.1 hf).elim hl hr
  | case2 e h =>
    cases List.mem_singleton.1 hf
    unfold isProduct
    split
    · exact absurd rfl (h _ _)
    · rfl

theorem product?_concat {es : List (Expr κ)} {x : Expr κ} (h : product? es = some x)
    (f : Expr κ) : product? (es ++ [f]) = some (mul x f) := by
  cases es with
  | nil => cases h
  | cons e es =>
    cases h
    simp [product?]

theorem isProductOf_foldl_mul {p : Expr κ → Bool} {es : List (Expr κ)}
    (hes : ∀ f ∈ es, f.isProduct = false ∧ p f) {e : Expr κ} (he : e.isProductOf p) :
    (es.foldl mul e).isProductOf p := by
  induction es generalizing e with
  | nil => exact he
  | cons f es ih =>
    obtain ⟨hf, hp⟩ := hes f (.head _)
    refine ih (fun g hg => hes g (.tail _ hg)) ?_
    simp [isProductOf, he, hf, hp]

theorem isProductOf_of_product? {p : Expr κ → Bool} {es : List (Expr κ)} {x : Expr κ}
    (h : product? es = some x) (hes : ∀ f ∈ es, f.isProduct = false ∧ p f) : x.isProductOf p := by
  cases es with
  | nil => cases h
  | cons e es =>
    cases h
    obtain ⟨he, hp⟩ := hes e (.head _)
    refine isProductOf_foldl_mul (fun f hf => hes f (.tail _ hf)) ?_
    rw [isProductOf_of_not_isProduct he, hp]

theorem isProductOf_iff {p : Expr κ → Bool} {e : Expr κ} :
    e.isProductOf p ↔ product? e.factors = some e ∧ ∀ f ∈ e.factors, p f := by
  refine ⟨fun h => ?_, fun ⟨h, hp⟩ =>
    isProductOf_of_product? h fun f hf => ⟨isProduct_of_mem_factors hf, hp f hf⟩⟩
  induction e with
  | leaf l => simpa [isProductOf, factors, product?] using h
  | node k args => simpa [isProductOf, factors, product?] using h
  | arith op l r hl _ =>
    cases op with
    | add => simpa [isProductOf, factors, product?] using h
    | sub => simpa [isProductOf, factors, product?] using h
    | mul =>
      simp only [isProductOf, Bool.and_eq_true, Bool.not_eq_true'] at h
      obtain ⟨⟨hpl, hr⟩, hpr⟩ := h
      obtain ⟨hprod, hall⟩ := hl hpl
      rw [factors, factors_of_not_isProduct hr, product?_concat hprod]
      exact ⟨rfl, List.forall_mem_append.2 ⟨hall, by simpa using hpr⟩⟩

theorem isProduct_of_product? {es : List (Expr κ)} {x : Expr κ} (h : product? es = some x)
    (hlen : 2 ≤ es.length) : x.isProduct := by
  rcases List.eq_nil_or_concat es with rfl | ⟨init, f, rfl⟩
  · cases h
  · cases init with
    | nil => simp at hlen
    | cons e init =>
      rw [List.concat_eq_append, product?_concat (x := init.foldl mul e) rfl] at h
      cases h
      rfl

theorem two_le_length_factors (l r : Expr κ) : 2 ≤ (mul l r).factors.length := by
  have hl := List.length_pos_of_ne_nil l.factors_ne_nil
  have hr := List.length_pos_of_ne_nil r.factors_ne_nil
  rw [factors, List.length_append]
  omega

theorem isProduct_of_product?_factors {l r x : Expr κ} (h : product? (mul l r).factors = some x) :
    x.isProduct :=
  isProduct_of_product? h (two_le_length_factors l r)

end Expr

theorem filter_eq_self_of_filter_not {α : Type} {p : α → Bool} {xs : List α}
    (h : xs.filter (! p ·) = []) : xs.filter p = xs :=
  List.filter_eq_self.2 fun x hx => by simpa using List.filter_eq_nil_iff.1 h x hx

theorem filter_not_eq_self_of_filter {α : Type} {p : α → Bool} {xs : List α}
    (h : xs.filter p = []) : xs.filter (! p ·) = xs :=
  List.filter_eq_self.2 fun x hx => by simpa using List.filter_eq_nil_iff.1 h x hx

namespace Coefficients

open VariationalForms.Expr (product? isProductOf factors)

/-- Every product among the terms has its coefficients, if there are any, grouped in front of its
operands, if there are any. -/
def isArranged (cs : Coefficients) : Expr κ → Bool
  | .add l r => cs.isArranged l && cs.isArranged r
  | .sub l r => cs.isArranged l && cs.isArranged r
  | .mul l r =>
    l.isProductOf cs.isCoefficient && r.isProductOf (! cs.isCoefficient ·) ||
      (Expr.mul l r).isProductOf cs.isCoefficient ||
      (Expr.mul l r).isProductOf (! cs.isCoefficient ·)
  | _ => true

/-- What a distribution works on: the terms of sums, and of a product the product of its operands. -/
def operandTerms (cs : Coefficients) : Expr κ → List (Expr κ)
  | .add l r => cs.operandTerms l ++ cs.operandTerms r
  | .sub l r => cs.operandTerms l ++ cs.operandTerms r
  | .mul l r => (product? ((Expr.mul l r).factors.filter (! cs.isCoefficient ·))).toList
  | e => [e]

section Map

variable [One κ]

def mapTerms (cs : Coefficients) (g : Expr κ → Expr κ) : Expr κ → Expr κ
  | .add l r => .add (cs.mapTerms g l) (cs.mapTerms g r)
  | .sub l r => .sub (cs.mapTerms g l) (cs.mapTerms g r)
  | .mul l r =>
    match product? ((Expr.mul l r).factors.filter cs.isCoefficient),
      product? ((Expr.mul l r).factors.filter (! cs.isCoefficient ·)) with
    | some c, some o => .mul c (g o)
    | some c, none => c
    | none, some o => g o
    | none, none => .number 1
  | e => g e

/-- Sets the coefficients of every product among the terms aside. -/
def arrange (cs : Coefficients) (e : Expr κ) : Expr κ := cs.mapTerms id e

end Map

variable {cs : Coefficients} [One κ] {ε : Type} {f : Expr κ → Except ε (Expr κ)}

theorem distribute_mono {f' : Expr κ → Except ε (Expr κ)} {e x : Expr κ}
    (h : ∀ t ∈ cs.operandTerms e, ∀ y, f t = .ok y → f' t = .ok y)
    (hx : cs.distribute f e = .ok x) : cs.distribute f' e = .ok x := by
  induction e generalizing x with
  | leaf l => exact h _ (.head _) x hx
  | node k args => exact h _ (.head _) x hx
  | arith op l r hl hr =>
    rw [operandTerms.eq_def] at h
    by_cases hop : op = .mul
    · subst hop
      refine onOperands_eq_ok_iff.2 ?_
      rcases onOperands_eq_ok_iff.1 hx with ⟨c, o, y, hc, ho, hy, rfl⟩ | hall | ⟨hc, o, ho, hy⟩
      · exact .inl ⟨c, o, y, hc, ho, h o (by simp [ho]) y hy, rfl⟩
      · exact .inr (.inl hall)
      · exact .inr (.inr ⟨hc, o, ho, h o (by simp [ho]) x hy⟩)
    · obtain ⟨l', r', hl', hr', rfl⟩ := (distribute_arith_eq_ok_iff hop).1 hx
      obtain ⟨hml, hmr⟩ : (∀ t ∈ cs.operandTerms l, ∀ y, f t = .ok y → f' t = .ok y) ∧
          ∀ t ∈ cs.operandTerms r, ∀ y, f t = .ok y → f' t = .ok y := by
        cases op with
        | mul => exact absurd rfl hop
        | _ => exact List.forall_mem_append.1 h
      exact (distribute_arith_eq_ok_iff hop).2 ⟨l', r', hl hml hl', hr hmr hr', rfl⟩

theorem exists_of_distribute_eq_ok {e x : Expr κ} (hx : cs.distribute f e = .ok x) :
    ∀ t ∈ cs.operandTerms e, ∃ y, f t = .ok y := by
  induction e generalizing x with
  | leaf l => exact List.forall_mem_singleton.2 ⟨x, hx⟩
  | node k args => exact List.forall_mem_singleton.2 ⟨x, hx⟩
  | arith op l r hl hr =>
    rw [operandTerms.eq_def]
    by_cases hop : op = .mul
    · subst hop
      intro t ht
      have ht := Option.mem_toList.1 ht
      rcases onOperands_eq_ok_iff.1 hx with ⟨c, o, y, -, ho, hy, -⟩ | ⟨hnone, -⟩ | ⟨-, o, ho, hy⟩
      · cases ho.symm.trans ht
        exact ⟨y, hy⟩
      · rw [hnone] at ht
        cases ht
      · cases ho.symm.trans ht
        exact ⟨x, hy⟩
    · obtain ⟨l', r', hl', hr', -⟩ := (distribute_arith_eq_ok_iff hop).1 hx
      cases op with
      | mul => exact absurd rfl hop
      | _ => exact List.forall_mem_append.2 ⟨hl hl', hr hr'⟩

theorem distribute_ok (g : Expr κ → Expr κ) (e : Expr κ) :
    cs.distribute (fun t => .ok (g t)) e = (.ok (cs.mapTerms g e) : Except ε (Expr κ)) := by
  induction e with
  | leaf l => rfl
  | node k args => rfl
  | arith op l r hl hr =>
    cases op with
    | mul =>
      simp only [distribute, onOperands, split_eq, mapTerms]
      split <;> simp_all
    | _ => rw [distribute, mapTerms, hl, hr]; rfl

theorem distribute_eq_ok {g : Expr κ → Expr κ} {e : Expr κ}
    (h : ∀ t ∈ cs.operandTerms e, f t = .ok (g t)) : cs.distribute f e = .ok (cs.mapTerms g e) :=
  distribute_mono (fun t ht _ hy => (h t ht).trans hy) (distribute_ok g e)

section Arranged

omit [One κ]

variable {p : Expr κ → Bool} {e x : Expr κ}

theorem isProductOf_of_filter (h : product? (e.factors.filter p) = some x) : x.isProductOf p :=
  Expr.isProductOf_of_product? h fun _ hf =>
    ⟨Expr.isProduct_of_mem_factors (List.mem_filter.1 hf).1, (List.mem_filter.1 hf).2⟩

theorem filter_factors_of_isProductOf (h : e.isProductOf p) : e.factors.filter p = e.factors :=
  List.filter_eq_self.2 (Expr.isProductOf_iff.1 h).2

theorem filter_not_factors_of_isProductOf (h : e.isProductOf p) :
    e.factors.filter (! p ·) = [] :=
  List.filter_eq_nil_iff.2 fun f hf => by simp [(Expr.isProductOf_iff.1 h).2 f hf]

theorem isArranged_of_coefficients (h : e.isProductOf cs.isCoefficient) : cs.isArranged e := by
  cases e with
  | leaf l => rfl
  | node k args => rfl
  | arith op l r =>
    cases op with
    | mul => simp [isArranged, h]
    | _ => cases h

theorem isArranged_of_operands {l r o : Expr κ}
    (hc : product? ((Expr.mul l r).factors.filter cs.isCoefficient) = none)
    (ho : product? ((Expr.mul l r).factors.filter (! cs.isCoefficient ·)) = some o) :
    cs.isArranged o := by
  have hgrouped := isProductOf_of_filter ho
  rw [filter_not_eq_self_of_filter (Expr.product?_eq_none_iff.1 hc)] at ho
  have hprod := Expr.isProduct_of_product?_factors ho
  unfold Expr.isProduct at hprod
  split at hprod
  · simp [isArranged, hgrouped]
  · cases hprod

end Arranged

theorem isArranged_arrange (e : Expr κ) : cs.isArranged (cs.arrange e) := by
  unfold arrange
  induction e with
  | leaf l => rfl
  | node k args => rfl
  | arith op l r hl hr =>
    cases op with
    | mul =>
      rw [mapTerms]
      split
      case h_1 c o hc ho =>
        simp [isArranged, isProductOf_of_filter hc, isProductOf_of_filter ho]
      case h_2 c hc _ => exact isArranged_of_coefficients (isProductOf_of_filter hc)
      case h_3 o hc ho => exact isArranged_of_operands hc ho
      case h_4 => rfl
    | _ => simp [mapTerms, isArranged, hl, hr]

theorem arrange_of_isArranged {e : Expr κ} (h : cs.isArranged e) : cs.arrange e = e := by
  unfold arrange
  induction e with
  | leaf l => rfl
  | node k args => rfl
  | arith op l r ihl ihr =>
    cases op with
    | mul =>
      simp only [isArranged, Bool.or_eq_true, Bool.and_eq_true] at h
      rw [mapTerms]
      rcases h with (⟨hl, hr⟩ | hc) | ho
      · have hrc : r.factors.filter cs.isCoefficient = [] := by
          simpa using filter_not_factors_of_isProductOf hr
        rw [factors, List.filter_append, List.filter_append, filter_factors_of_isProductOf hl,
          filter_factors_of_isProductOf hr, filter_not_factors_of_isProductOf hl, hrc,
          List.append_nil, List.nil_append, (Expr.isProductOf_iff.1 hl).1,
          (Expr.isProductOf_iff.1 hr).1]
        rfl
      · rw [filter_factors_of_isProductOf hc, filter_not_factors_of_isProductOf hc,
          (Expr.isProductOf_iff.1 hc).1]
        rfl
      · have hnone : (Expr.mul l r).factors.filter cs.isCoefficient = [] := by
          simpa using filter_not_factors_of_isProductOf ho
        rw [filter_factors_of_isProductOf ho, hnone, (Expr.isProductOf_iff.1 ho).1]
        rfl
    | _ =>
      simp only [isArranged, Bool.and_eq_true] at h
      rw [mapTerms, ihl h.1, ihr h.2]

/-- What is arranged, and nothing else, stays as it is when it is arranged. -/
theorem arrange_eq_self_iff {e : Expr κ} : cs.arrange e = e ↔ cs.isArranged e :=
  ⟨fun h => h ▸ isArranged_arrange e, arrange_of_isArranged⟩

theorem arrange_arrange (e : Expr κ) : cs.arrange (cs.arrange e) = cs.arrange e :=
  arrange_of_isArranged (isArranged_arrange e)

end Coefficients

section Values

variable {V : Type u} [Add V] [Sub V] [CommMonoid V]

/-- A value for some integrands, which goes with sums, differences and products. -/
def Expr.IsArithmetical (φ : Expr κ → Option V) : Prop :=
  ∀ op l r, φ (.arith op l r) = Option.map₂ op.of (φ l) (φ r)

def totalProduct (xs : List (Option V)) : Option V := xs.foldr (Option.map₂ (· * ·)) (some 1)

section Total

omit [Add V] [Sub V]

@[simp] theorem totalProduct_nil : totalProduct ([] : List (Option V)) = some 1 := rfl

@[simp] theorem totalProduct_cons (x : Option V) (xs : List (Option V)) :
    totalProduct (x :: xs) = Option.map₂ (· * ·) x (totalProduct xs) := rfl

theorem totalProduct_singleton (x : Option V) : totalProduct [x] = x := by
  cases x <;> simp

theorem totalProduct_append (xs ys : List (Option V)) :
    totalProduct (xs ++ ys) = Option.map₂ (· * ·) (totalProduct xs) (totalProduct ys) := by
  induction xs with
  | nil => cases hys : totalProduct ys <;> simp [hys]
  | cons x xs ih =>
    rw [List.cons_append, totalProduct_cons, ih, totalProduct_cons, Option.map₂_assoc mul_assoc]

theorem totalProduct_perm {xs ys : List (Option V)} (h : xs.Perm ys) :
    totalProduct xs = totalProduct ys := by
  have : LeftCommutative (Option.map₂ fun x y : V => x * y) :=
    ⟨fun _ _ _ => Option.map₂_left_comm mul_left_comm⟩
  exact h.foldr_eq _

end Total

namespace Expr.IsArithmetical

variable {φ : Expr κ → Option V} (hφ : IsArithmetical φ)

include hφ

theorem totalProduct_factors (e : Expr κ) : totalProduct (e.factors.map φ) = φ e := by
  fun_induction Expr.factors e with
  | case1 l r hl hr => rw [List.map_append, totalProduct_append, hl, hr, hφ]; rfl
  | case2 e h => exact totalProduct_singleton (φ e)

theorem totalProduct_product? {es : List (Expr κ)} {p : Expr κ} (h : product? es = some p) :
    totalProduct (es.map φ) = φ p := by
  have hfold : ∀ (es : List (Expr κ)) (e : Expr κ),
      totalProduct ((e :: es).map φ) = φ (es.foldl mul e) := by
    intro es
    induction es with
    | nil => exact fun e => totalProduct_singleton (φ e)
    | cons f es ih =>
      intro e
      rw [List.foldl_cons, ← ih, List.map_cons, List.map_cons, List.map_cons, hφ,
        totalProduct_cons, totalProduct_cons, totalProduct_cons]
      exact (Option.map₂_assoc mul_assoc).symm
  cases es with
  | nil => cases h
  | cons e es => cases h; exact hfold es e

theorem mapTerms [One κ] {cs : Coefficients} {g : Expr κ → Expr κ} {e : Expr κ}
    (hg : ∀ t ∈ cs.operandTerms e, φ (g t) = φ t) : φ (cs.mapTerms g e) = φ e := by
  induction e with
  | leaf l => exact hg _ (.head _)
  | node k args => exact hg _ (.head _)
  | arith op l r hl hr =>
    rw [Coefficients.operandTerms.eq_def] at hg
    cases op with
    | mul =>
      have hsplit : totalProduct (((Expr.mul l r).factors.filter cs.isCoefficient).map φ ++
          ((Expr.mul l r).factors.filter (! cs.isCoefficient ·)).map φ) = φ (.mul l r) := by
        rw [← List.map_append, ← hφ.totalProduct_factors]
        exact totalProduct_perm ((List.filter_append_perm ..).map φ)
      rw [Coefficients.mapTerms]
      split
      case h_1 c o hc ho =>
        rw [totalProduct_append, hφ.totalProduct_product? hc, hφ.totalProduct_product? ho] at hsplit
        rw [hφ, hg o (by simp [ho])]
        exact hsplit
      case h_2 c hc ho =>
        rwa [Expr.product?_eq_none_iff.1 ho, List.map_nil, List.append_nil,
          hφ.totalProduct_product? hc] at hsplit
      case h_3 o hc ho =>
        rw [Expr.product?_eq_none_iff.1 hc, List.map_nil, List.nil_append,
          hφ.totalProduct_product? ho] at hsplit
        rw [hg o (by simp [ho]), hsplit]
      case h_4 hc ho =>
        exact absurd (Expr.product?_eq_none_iff.1 ho)
          (Coefficients.operands_ne_nil (Expr.product?_eq_none_iff.1 hc))
    | _ =>
      obtain ⟨hml, hmr⟩ := List.forall_mem_append.1 hg
      rw [Coefficients.mapTerms, hφ, hφ, hl hml, hr hmr]

end Expr.IsArithmetical

theorem Reading.value_arrange [One κ] (M : Reading κ V) (cs : Coefficients) (e : Expr κ) :
    M.value (cs.arrange e) = M.value e := by
  have hφ : Expr.IsArithmetical fun e => some (M.value e) := fun _ _ _ => rfl
  exact Option.some.inj (hφ.mapTerms fun _ _ => rfl)

end Values

end VariationalForms
