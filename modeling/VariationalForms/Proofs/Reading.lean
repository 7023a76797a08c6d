import Mathlib.Algebra.BigOperators.Group.List.Basic
import VariationalForms.Expr.Derivative

/-! Integrands read as values.
A reading says what leaves and heads mean; sums, differences and products are those of the values.
Taking an integrand apart and building it again keeps the value under every evaluation for which
that is so, and where the values have a derivative with the product rule, the derivative of an
integrand is read as the derivative of its value (`Reading.value_derive`).
-/

set_option autoImplicit false

namespace VariationalForms

universe u

structure Reading (κ : Type) (V : Type u) where
  leaf : Leaf κ → V
  node : Head → List V → V

namespace Reading

variable {κ : Type} {V : Type u}

section Value

variable [Add V] [Sub V] [Mul V] (M : Reading κ V)

def value (e : Expr κ) : V := e.fold M.leaf Arith.of M.node

@[simp] theorem value_add (l r : Expr κ) : M.value (.add l r) = M.value l + M.value r := rfl

@[simp] theorem value_sub (l r : Expr κ) : M.value (.sub l r) = M.value l - M.value r := rfl

@[simp] theorem value_mul (l r : Expr κ) : M.value (.mul l r) = M.value l * M.value r := rfl

theorem value_arith (op : Arith) (l r : Expr κ) :
    M.value (.arith op l r) = op.of (M.value l) (M.value r) := rfl

@[simp] theorem value_node (h : Head) (args : List (Expr κ)) :
    M.value (.node h args) = M.node h (args.map M.value) := by
  rw [value, Expr.fold_node]; rfl

end Value

def total [Add V] : List V → Option V
  | [] => none
  | x :: xs => some (xs.foldl (· + ·) x)

end Reading

/-- A sum, a difference or a product is worth the sum, the difference or the product of what the
operands are worth. -/
structure IsEvaluation {κ : Type} {V : Type u} [Add V] [Sub V] [Mul V] (v : Expr κ → V) : Prop where
  add : ∀ l r, v (.add l r) = v l + v r
  sub : ∀ l r, v (.sub l r) = v l - v r
  mul : ∀ l r, v (.mul l r) = v l * v r

namespace IsEvaluation

variable {κ : Type} {V : Type u} [Add V] [Sub V] [CommMonoid V] {v : Expr κ → V}

theorem value_foldl_mul (hv : IsEvaluation v) (es : List (Expr κ)) (e : Expr κ) :
    v (es.foldl .mul e) = v e * (es.map v).prod := by
  induction es generalizing e with
  | nil => simp
  | cons e' es ih => rw [List.foldl_cons, ih, hv.mul, List.map_cons, List.prod_cons, mul_assoc]

theorem value_of_product? (hv : IsEvaluation v) {es : List (Expr κ)} {p : Expr κ}
    (h : Expr.product? es = some p) : v p = (es.map v).prod := by
  cases es with
  | nil => cases h
  | cons e es =>
    cases h
    rw [hv.value_foldl_mul, List.map_cons, List.prod_cons]

theorem prod_factors (hv : IsEvaluation v) (e : Expr κ) : (e.factors.map v).prod = v e := by
  fun_induction Expr.factors e with
  | case1 l r hl hr => rw [List.map_append, List.prod_append, hl, hr, hv.mul]
  | case2 e h => simp

omit [Add V] [Sub V] in
theorem prod_filter (v : Expr κ → V) (p : Expr κ → Bool) (es : List (Expr κ)) :
    ((es.filter p).map v).prod * ((es.filter (! p ·)).map v).prod = (es.map v).prod := by
  induction es with
  | nil => simp
  | cons e es ih =>
    cases hp : p e with
    | true => simp [hp, ← ih, mul_assoc]
    | false => simp [hp, ← ih, mul_left_comm]

theorem value_sum? (hv : IsEvaluation v) (es : List (Expr κ)) :
    (Expr.sum? es).map v = Reading.total (es.map v) := by
  have hfold : ∀ (es : List (Expr κ)) (e : Expr κ),
      v (es.foldl .add e) = (es.map v).foldl (· + ·) (v e) := by
    intro es
    induction es with
    | nil => intro e; rfl
    | cons e' es ih => intro e; rw [List.foldl_cons, ih, hv.add]; rfl
  cases es with
  | nil => rfl
  | cons e es => simp [Expr.sum?, Reading.total, hfold]

theorem map_value_filterMap_product? (hv : IsEvaluation v) {ess : List (List (Expr κ))}
    (h : ∀ es ∈ ess, es ≠ []) :
    (ess.filterMap Expr.product?).map v = ess.map fun es => (es.map v).prod := by
  induction ess with
  | nil => rfl
  | cons es ess ih =>
    cases hp : Expr.product? es with
    | none => exact absurd (Expr.product?_eq_none_iff.1 hp) (h es (.head _))
    | some p =>
      rw [List.filterMap_cons_some hp, List.map_cons, List.map_cons, hv.value_of_product? hp,
        ih fun es hes => h es (.tail _ hes)]

omit [Add V] [Sub V] in
theorem prod_constants_varying (v : Expr κ → V) (fs : List (Expr κ × Expr κ)) :
    ((Expr.constants fs).map v).prod *
      ((Expr.varying fs).map fun f => v f.1).prod = (fs.map fun f => v f.1).prod := by
  have h := prod_filter v Expr.isConstant (fs.map Prod.fst)
  simpa only [List.filter_map, List.map_map, Expr.constants, Expr.varying, Function.comp_def]
    using h

end IsEvaluation

/-- What the product rule needs of an evaluation. The values need not have a zero, so that lists of
numbers of any length can be among them. -/
structure IsDerivation {κ : Type} {V : Type u} [Zero κ] [Add V] [Sub V] [CommMonoid V]
    (v : Expr κ → V) (D : Axis → V → V) : Prop extends IsEvaluation v where
  add_assoc : ∀ x y z : V, x + y + z = x + (y + z)
  mul_add : ∀ x y z : V, x * (y + z) = x * y + x * z
  map_add : ∀ a x y, D a (x + y) = D a x + D a y
  map_sub : ∀ a x y, D a (x - y) = D a x - D a y
  map_mul : ∀ a x y, D a (x * y) = D a x * y + x * D a y
  constant : ∀ a (c : Expr κ), c.isConstant → D a (v c) = v (.number 0)
  constant_mul : ∀ a (c : Expr κ) (x : V), c.isConstant → D a (v c * x) = v c * D a x
  constant_zero : ∀ c : Expr κ, c.isConstant → v c * v (.number 0) = v (.number 0)

namespace IsDerivation

variable {κ : Type} {V : Type u} [Zero κ] [Add V] [Sub V] [CommMonoid V] {v : Expr κ → V}
  {D : Axis → V → V}

theorem total_cons (hv : IsDerivation v D) (x : V) {xs : List V} {s : V}
    (h : Reading.total xs = some s) : Reading.total (x :: xs) = some (x + s) := by
  cases xs with
  | nil => cases h
  | cons y ys =>
    cases h
    have : Std.Associative (α := V) (· + ·) := ⟨hv.add_assoc⟩
    exact congrArg some List.foldl_assoc

theorem total_map_mul (hv : IsDerivation v D) (x : V) (xs : List V) :
    Reading.total (xs.map (x * ·)) = (Reading.total xs).map (x * ·) := by
  have hfold : ∀ (xs : List V) (y : V),
      (xs.map (x * ·)).foldl (· + ·) (x * y) = x * xs.foldl (· + ·) y := by
    intro xs
    induction xs with
    | nil => intro y; rfl
    | cons z xs ih => intro y; simp only [List.map_cons, List.foldl_cons, ← hv.mul_add, ih]
  cases xs with
  | nil => rfl
  | cons y ys => exact congrArg some (hfold ys y)

/-- The product rule for any number of factors that are given with their derivatives. -/
theorem total_derivedProducts (hv : IsDerivation v D) (a : Axis)
    {fs : List (Expr κ × Expr κ)} (hne : fs ≠ [])
    (hfs : ∀ f ∈ fs, v f.2 = D a (v f.1)) :
    Reading.total ((Expr.derivedProducts fs).map fun es => (es.map v).prod) =
      some (D a (fs.map fun f => v f.1).prod) := by
  induction fs with
  | nil => exact absurd rfl hne
  | cons f fs ih =>
    have hf := hfs f (.head _)
    cases fs with
    | nil => simp [Expr.derivedProducts, Reading.total, hf]
    | cons g fs =>
      have ih := ih (by simp) fun p hp => hfs p (.tail _ hp)
      have hrest : Reading.total (((Expr.derivedProducts (g :: fs)).map (f.1 :: ·)).map
          fun es => (es.map v).prod) =
          some (v f.1 * D a ((g :: fs).map fun p => v p.1).prod) := by
        have hmap := hv.total_map_mul (v f.1)
          ((Expr.derivedProducts (g :: fs)).map fun es => (es.map v).prod)
        rw [ih] at hmap
        simpa [Function.comp_def] using hmap
      have hprod : ((f :: g :: fs).map fun p => v p.1).prod =
          v f.1 * ((g :: fs).map fun p => v p.1).prod := rfl
      rw [Expr.derivedProducts, List.map_cons, hv.total_cons _ hrest, hprod, hv.map_mul,
        List.map_cons, List.prod_cons, hf, List.map_map]
      rfl

theorem constants_mul (hv : IsDerivation v D) (a : Axis) {cs : List (Expr κ)}
    (hcs : ∀ c ∈ cs, c.isConstant) (x : V) :
    D a ((cs.map v).prod * x) = (cs.map v).prod * D a x := by
  induction cs with
  | nil => simp
  | cons c cs ih =>
    have ih := ih fun c' hc' => hcs c' (.tail _ hc')
    simp only [List.map_cons, List.prod_cons, mul_assoc]
    rw [hv.constant_mul a c _ (hcs c (.head _)), ih]

theorem constants_prod (hv : IsDerivation v D) (a : Axis) {cs : List (Expr κ)} (hne : cs ≠ [])
    (hcs : ∀ c ∈ cs, c.isConstant) : D a (cs.map v).prod = v (.number 0) := by
  induction cs with
  | nil => exact absurd rfl hne
  | cons c cs ih =>
    have hc := hcs c (.head _)
    cases cs with
    | nil => simpa using hv.constant a c hc
    | cons c' cs =>
      have ih := ih (by simp) fun b hb => hcs b (.tail _ hb)
      rw [List.map_cons, List.prod_cons, hv.constant_mul a c _ hc, ih, hv.constant_zero c hc]

theorem value_derivedSum? (hv : IsDerivation v D) (a : Axis) {fs : List (Expr κ × Expr κ)}
    {d : Expr κ} (hfs : ∀ f ∈ fs, v f.2 = D a (v f.1)) (hd : Expr.derivedSum? fs = some d) :
    v d = D a ((Expr.varying fs).map fun f => v f.1).prod := by
  have hne : Expr.varying fs ≠ [] := fun h => by
    rw [Expr.derivedSum?_eq_none_iff.2 h] at hd
    cases hd
  have hsum := hv.value_sum? ((Expr.derivedProducts (Expr.varying fs)).filterMap Expr.product?)
  rw [hv.map_value_filterMap_product? fun _ => Expr.ne_nil_of_mem_derivedProducts,
    hv.total_derivedProducts a hne fun f hf => hfs f (List.mem_filter.1 hf).1] at hsum
  obtain ⟨s, hs, hval⟩ := Option.map_eq_some_iff.1 hsum
  have hsd : some s = some d := hs.symm.trans hd
  cases hsd
  exact hval

theorem value_leibniz (hv : IsDerivation v D) (a : Axis) {fs : List (Expr κ × Expr κ)}
    (hne : fs ≠ []) (hfs : ∀ f ∈ fs, v f.2 = D a (v f.1)) :
    v (Expr.leibniz fs) = D a (fs.map fun f => v f.1).prod := by
  have hconst : ∀ c ∈ Expr.constants fs, c.isConstant := by
    intro c hc
    obtain ⟨f, hf, rfl⟩ := List.mem_map.1 hc
    exact (List.mem_filter.1 hf).2
  have hsplit := IsEvaluation.prod_constants_varying v fs
  rcases Expr.leibniz_cases fs with ⟨hvarying, h⟩ | ⟨d, hd, hout⟩
  · have hc : Expr.constants fs ≠ [] := by
      intro hc
      obtain ⟨f, hf⟩ := List.exists_mem_of_ne_nil fs hne
      have hk : f.1.isConstant = true := by
        simpa using (List.filter_eq_nil_iff.1 hvarying) f hf
      have hmem : f.1 ∈ Expr.constants fs :=
        List.mem_map_of_mem (List.mem_filter.2 ⟨hf, hk⟩)
      rw [hc] at hmem
      cases hmem
    rw [h, ← hsplit, hvarying, List.map_nil, List.prod_nil, mul_one, hv.constants_prod a hc hconst]
  · have hval := hv.value_derivedSum? a hfs hd
    rw [← hsplit, hv.constants_mul a hconst, ← hval]
    rcases hout with ⟨hc, h⟩ | ⟨c, hc, h⟩
    · rw [h, hc, List.map_nil, List.prod_nil, one_mul]
    · rw [h, hv.mul, hv.value_of_product? hc]

theorem value_derive_of_factors (hv : IsDerivation v D) {a : Axis} {e : Expr κ}
    (h : ∀ f ∈ Expr.derivedFactors a e, v f.2 = D a (v f.1)) : v (e.derive a) = D a (v e) := by
  have hfst := Expr.map_fst_derivedFactors a e
  have hne : Expr.derivedFactors a e ≠ [] := fun hnil => by
    rw [hnil] at hfst
    exact e.factors_ne_nil hfst.symm
  rw [Expr.derive, hv.value_leibniz a hne h, ← hv.prod_factors e, ← hfst, List.map_map]
  rfl

theorem value_derivedFactors_arith (hv : IsDerivation v D) {a : Axis} {op : Arith} {l r : Expr κ}
    (hl : ∀ f ∈ Expr.derivedFactors a l, v f.2 = D a (v f.1))
    (hr : ∀ f ∈ Expr.derivedFactors a r, v f.2 = D a (v f.1)) :
    ∀ f ∈ Expr.derivedFactors a (.arith op l r), v f.2 = D a (v f.1) := by
  have hdl := hv.value_derive_of_factors hl
  have hdr := hv.value_derive_of_factors hr
  intro f hf
  cases op with
  | add =>
    cases List.mem_singleton.1 hf
    calc v (.add (l.derive a) (r.derive a)) = D a (v l) + D a (v r) := by rw [hv.add, hdl, hdr]
      _ = D a (v (.add l r)) := by rw [hv.add, hv.map_add]
  | sub =>
    cases List.mem_singleton.1 hf
    calc v (.sub (l.derive a) (r.derive a)) = D a (v l) - D a (v r) := by rw [hv.sub, hdl, hdr]
      _ = D a (v (.sub l r)) := by rw [hv.sub, hv.map_sub]
  | mul => exact (List.mem_append.1 hf).elim (hl f) (hr f)

end IsDerivation

namespace Reading

variable {κ : Type} {V : Type u}

theorem isEvaluation [Add V] [Sub V] [Mul V] (M : Reading κ V) : IsEvaluation M.value :=
  ⟨M.value_add, M.value_sub, M.value_mul⟩

/-- What the rules of the derivative need of a reading. -/
structure IsDifferential [Zero κ] [Add V] [Sub V] [CommMonoid V] (M : Reading κ V)
    (D : Axis → V → V) : Prop where
  add_assoc : ∀ x y z : V, x + y + z = x + (y + z)
  mul_add : ∀ x y z : V, x * (y + z) = x * y + x * z
  add : ∀ a x y, D a (x + y) = D a x + D a y
  sub : ∀ a x y, D a (x - y) = D a x - D a y
  mul : ∀ a x y, D a (x * y) = D a x * y + x * D a y
  constant : ∀ a (c : Expr κ), c.isConstant → D a (M.value c) = M.leaf (.number 0)
  constant_mul : ∀ a (c : Expr κ) (x : V), c.isConstant →
    D a (M.value c * x) = M.value c * D a x
  constant_zero : ∀ c : Expr κ, c.isConstant →
    M.value c * M.leaf (.number 0) = M.leaf (.number 0)
  tuple : ∀ a xs, D a (M.node .tuple xs) = M.node .tuple (xs.map (D a))
  derivative : ∀ a x, M.node (.derivative a) [x] = D a x

namespace IsDifferential

variable [Zero κ] [Add V] [Sub V] [CommMonoid V] {M : Reading κ V} {D : Axis → V → V}

theorem isDerivation (hM : M.IsDifferential D) : IsDerivation M.value D where
  toIsEvaluation := M.isEvaluation
  add_assoc := hM.add_assoc
  mul_add := hM.mul_add
  map_add := hM.add
  map_sub := hM.sub
  map_mul := hM.mul
  constant := hM.constant
  constant_mul := hM.constant_mul
  constant_zero := hM.constant_zero

theorem value_derivedFactors (hM : M.IsDifferential D) (a : Axis) (e : Expr κ) :
    ∀ f ∈ Expr.derivedFactors a e, M.value f.2 = D a (M.value f.1) := by
  induction e with
  | leaf l =>
    intro f hf
    cases List.mem_singleton.1 hf
    exact hM.derivative a _
  | arith op l r hl hr => exact hM.isDerivation.value_derivedFactors_arith hl hr
  | node h args ih =>
    intro f hf
    cases h with
    | tuple =>
      cases List.mem_singleton.1 hf
      have hitems : args.map (M.value ∘ Expr.derive a) = args.map (D a ∘ M.value) :=
        List.map_congr_left fun e he => hM.isDerivation.value_derive_of_factors (ih e he)
      rw [value_node, value_node, hM.tuple, Expr.derivedItems_eq_map, List.map_map, List.map_map,
        hitems]
    | _ =>
      cases List.mem_singleton.1 hf
      exact hM.derivative a _

/-- The derivative of an integrand is read as the derivative of its value. -/
theorem value_derive (hM : M.IsDifferential D) (a : Axis) (e : Expr κ) :
    M.value (e.derive a) = D a (M.value e) :=
  hM.isDerivation.value_derive_of_factors (hM.value_derivedFactors a e)

end IsDifferential

end Reading

end VariationalForms
