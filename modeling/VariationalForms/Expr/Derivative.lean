import VariationalForms.Expr.Product

/-! The partial derivative of an integrand.
It is taken term by term and item by item, numbers and constants have derivative zero, and in a
product they are set aside in front before the product rule goes through the other factors. What is
neither of these is left under a derivative node.
-/

set_option autoImplicit false

namespace VariationalForms

namespace Expr

variable {κ : Type}

def isConstant : Expr κ → Bool
  | .number _ => true
  | .constant _ => true
  | _ => false

/-- From factors and their derivatives, the products in which one factor is derived. -/
def derivedProducts : List (Expr κ × Expr κ) → List (List (Expr κ))
  | [] => []
  | (f, d) :: rest => (d :: rest.map Prod.fst) :: (derivedProducts rest).map (f :: ·)

theorem ne_nil_of_mem_derivedProducts {fs : List (Expr κ × Expr κ)} {es : List (Expr κ)}
    (h : es ∈ derivedProducts fs) : es ≠ [] := by
  cases fs with
  | nil => cases h
  | cons f fs =>
    rw [derivedProducts, List.mem_cons, List.mem_map] at h
    rcases h with rfl | ⟨_, _, rfl⟩ <;> simp

def constants (fs : List (Expr κ × Expr κ)) : List (Expr κ) :=
  (fs.filter fun f => f.1.isConstant).map Prod.fst

def varying (fs : List (Expr κ × Expr κ)) : List (Expr κ × Expr κ) :=
  fs.filter fun f => ! f.1.isConstant

def derivedSum? (fs : List (Expr κ × Expr κ)) : Option (Expr κ) :=
  sum? ((derivedProducts (varying fs)).filterMap product?)

theorem derivedSum?_eq_none_iff {fs : List (Expr κ × Expr κ)} :
    derivedSum? fs = none ↔ varying fs = [] := by
  rw [derivedSum?, sum?_eq_none_iff, List.filterMap_eq_nil_iff]
  cases hv : varying fs with
  | nil => simp [derivedProducts]
  | cons f rest => simp [derivedProducts, product?]

variable [Zero κ]

/-- The product rule for factors that are given together with their derivatives. -/
def leibniz (fs : List (Expr κ × Expr κ)) : Expr κ :=
  let (constants, varying) := fs.partition fun f => f.1.isConstant
  match sum? ((derivedProducts varying).filterMap product?) with
  | none => .number 0
  | some d =>
    match product? (constants.map Prod.fst) with
    | none => d
    | some c => .mul c d

mutual

/-- The factors of an integrand, each with its derivative. -/
def derivedFactors (a : Axis) : Expr κ → List (Expr κ × Expr κ)
  | .leaf l => [(.leaf l, .derivative a [.leaf l])]
  | .add l r => [(.add l r, .add (leibniz (derivedFactors a l)) (leibniz (derivedFactors a r)))]
  | .sub l r => [(.sub l r, .sub (leibniz (derivedFactors a l)) (leibniz (derivedFactors a r)))]
  | .mul l r => derivedFactors a l ++ derivedFactors a r
  | .tuple items => [(.tuple items, .tuple (derivedItems a items))]
  | .node h args => [(.node h args, .derivative a [.node h args])]

def derivedItems (a : Axis) : List (Expr κ) → List (Expr κ)
  | [] => []
  | e :: es => leibniz (derivedFactors a e) :: derivedItems a es

end

def derive (a : Axis) (e : Expr κ) : Expr κ := leibniz (derivedFactors a e)

theorem derivedItems_eq_map (a : Axis) (es : List (Expr κ)) :
    derivedItems a es = es.map (derive a) := by
  induction es with
  | nil => rfl
  | cons e es ih => rw [derivedItems, ih, List.map_cons, derive]

theorem leibniz_eq (fs : List (Expr κ × Expr κ)) :
    leibniz fs = match derivedSum? fs with
      | none => .number 0
      | some d => match product? (constants fs) with
        | none => d
        | some c => .mul c d := by
  unfold leibniz
  rw [List.partition_eq_filter_filter]
  rfl

theorem leibniz_cases (fs : List (Expr κ × Expr κ)) :
    varying fs = [] ∧ leibniz fs = .number 0 ∨
      ∃ d, derivedSum? fs = some d ∧
        (constants fs = [] ∧ leibniz fs = d ∨
          ∃ c, product? (constants fs) = some c ∧ leibniz fs = .mul c d) := by
  rw [leibniz_eq]
  cases hd : derivedSum? fs with
  | none => exact .inl ⟨derivedSum?_eq_none_iff.1 hd, rfl⟩
  | some d =>
    refine .inr ⟨d, rfl, ?_⟩
    cases hc : product? (constants fs) with
    | none => exact .inl ⟨product?_eq_none_iff.1 hc, rfl⟩
    | some c => exact .inr ⟨c, rfl, rfl⟩

omit [Zero κ] in
theorem mem_of_mem_derivedProducts {fs : List (Expr κ × Expr κ)} {es : List (Expr κ)} {e : Expr κ}
    (hes : es ∈ derivedProducts fs) (he : e ∈ es) : ∃ f ∈ fs, e = f.1 ∨ e = f.2 := by
  induction fs generalizing es with
  | nil => cases hes
  | cons f fs ih =>
    rw [derivedProducts, List.mem_cons, List.mem_map] at hes
    rcases hes with rfl | ⟨es', hes', rfl⟩
    · rcases List.mem_cons.1 he with rfl | he
      · exact ⟨f, .head _, .inr rfl⟩
      · obtain ⟨g, hg, rfl⟩ := List.mem_map.1 he
        exact ⟨g, .tail _ hg, .inl rfl⟩
    · rcases List.mem_cons.1 he with rfl | he
      · exact ⟨f, .head _, .inl rfl⟩
      · obtain ⟨g, hg, h⟩ := ih hes' he
        exact ⟨g, .tail _ hg, h⟩

/-- What zero has and sums and products keep holds of the outcome of the product rule. The derivative
of a constant does not matter. -/
theorem leibniz_induct {P : Expr κ → Prop} (hzero : P (.number 0))
    (hadd : ∀ l r, P l → P r → P (add l r)) (hmul : ∀ l r, P l → P r → P (mul l r))
    {fs : List (Expr κ × Expr κ)} (hfs : ∀ f ∈ fs, P f.1 ∧ (f.1.isConstant = false → P f.2)) :
    P (leibniz fs) := by
  have hsum : ∀ d, derivedSum? fs = some d → P d := by
    intro d hd
    refine sum?_induct hadd hd fun e he => ?_
    obtain ⟨es, hes, hprod⟩ := List.mem_filterMap.1 he
    refine product?_induct hmul hprod fun e' he' => ?_
    obtain ⟨f, hf, h⟩ := mem_of_mem_derivedProducts hes he'
    obtain ⟨hmem, hvar⟩ := List.mem_filter.1 hf
    obtain ⟨hfst, hsnd⟩ := hfs f hmem
    rcases h with rfl | rfl
    · exact hfst
    · exact hsnd (by simpa using hvar)
  rcases leibniz_cases fs with ⟨-, h⟩ | ⟨d, hd, ⟨-, h⟩ | ⟨c, hc, h⟩⟩
  · exact h ▸ hzero
  · exact h ▸ hsum d hd
  · rw [h]
    refine hmul c d (product?_induct hmul hc fun e he => ?_) (hsum d hd)
    obtain ⟨f, hf, rfl⟩ := List.mem_map.1 he
    exact (hfs f (List.mem_filter.1 hf).1).1

theorem leibniz_singleton (f d : Expr κ) :
    leibniz [(f, d)] = if f.isConstant then .number 0 else d := by
  cases hf : f.isConstant <;>
    simp [leibniz, List.partition_eq_filter_filter, hf, derivedProducts, product?, sum?]

theorem derive_add (a : Axis) (l r : Expr κ) :
    derive a (.add l r) = .add (derive a l) (derive a r) := leibniz_singleton ..

theorem derive_sub (a : Axis) (l r : Expr κ) :
    derive a (.sub l r) = .sub (derive a l) (derive a r) := leibniz_singleton ..

theorem derive_tuple (a : Axis) (items : List (Expr κ)) :
    derive a (.tuple items) = .tuple (items.map (derive a)) := by
  rw [derive, derivedFactors, leibniz_singleton, derivedItems_eq_map]; rfl

theorem map_fst_derivedFactors (a : Axis) (e : Expr κ) :
    (derivedFactors a e).map Prod.fst = e.factors := by
  fun_induction factors e with
  | case1 l r hl hr => rw [derivedFactors, List.map_append, hl, hr]
  | case2 e h =>
    cases e with
    | leaf l => rfl
    | arith op l r =>
      cases op with
      | add => rfl
      | sub => rfl
      | mul => exact absurd rfl (h l r)
    | node k args => cases k <;> rfl

end Expr

end VariationalForms
