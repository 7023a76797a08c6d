import VariationalForms.Proofs.Resolution

/-! The derivative of an integrand is a derivation.
Nothing is assumed here about what the operators mean: an operator that is left in place is worth
any element of the ring. The integrands are put together from leaves, derivatives and operators by
sums, differences and products, and grouped by tuples in any depth.
-/

set_option autoImplicit false

namespace VariationalForms

universe u

variable {κ : Type}

/-- An element of the ring, or a group of such values. -/
inductive Nested (R : Type u)
  | element (x : R)
  | items (vs : List (Nested R))

namespace Nested

variable {R : Type u}

mutual

def map (f : R → R) : Nested R → Nested R
  | .element x => .element (f x)
  | .items vs => .items (mapItems f vs)

def mapItems (f : R → R) : List (Nested R) → List (Nested R)
  | [] => []
  | v :: vs => v.map f :: mapItems f vs

end

theorem mapItems_eq_map (f : R → R) (vs : List (Nested R)) : mapItems f vs = vs.map (map f) := by
  induction vs with
  | nil => rfl
  | cons v vs ih => rw [mapItems, ih, List.map_cons]

theorem map_items (f : R → R) (vs : List (Nested R)) :
    (items vs).map f = .items (vs.map (map f)) := by
  rw [map, mapItems_eq_map]

end Nested

namespace Expr

/-- Neither a tuple nor arithmetic on tuples. What stands under an operator is not looked at. -/
def isElement : Expr κ → Bool
  | .leaf _ => true
  | .arith _ l r => l.isElement && r.isElement
  | .node h _ => h != .tuple

/-- An integrand without arithmetic on tuples, or a tuple of such integrands, in any depth. -/
inductive IsNested : Expr κ → Prop
  | element {e : Expr κ} (h : e.isElement) : IsNested e
  | tuple {items : List (Expr κ)} (h : ∀ e ∈ items, IsNested e) : IsNested (.tuple items)

end Expr

namespace Interpretation

variable {R : Type u} [Zero κ] [CommRing R] (I : Interpretation κ R)
  (op : Head → List (Expr κ) → R)

/-- The element of the ring that an integrand stands for when an operator applied to operands is
worth what `op` says. -/
def element : Expr κ → R
  | .leaf l => I.leaf l
  | .arith o l r => o.of (element l) (element r)
  | .derivative a [u] => I.D a (element u)
  | .node h args => op h args

mutual

/-- Tuples are worth the group of what their items are worth. -/
def nested : Expr κ → Nested R
  | .tuple items => .items (nestedItems items)
  | .derivative a [u] => (nested u).map (I.D a)
  | e => .element (I.element op e)

def nestedItems : List (Expr κ) → List (Nested R)
  | [] => []
  | e :: es => nested e :: nestedItems es

end

theorem nestedItems_eq_map (es : List (Expr κ)) :
    I.nestedItems op es = es.map (I.nested op) := by
  induction es with
  | nil => rfl
  | cons e es ih => rw [nestedItems, ih, List.map_cons]

theorem nested_tuple (items : List (Expr κ)) :
    I.nested op (.tuple items) = .items (items.map (I.nested op)) := by
  rw [nested, nestedItems_eq_map]

variable {I} in
theorem element_of_isConstant {c : Expr κ} (h : c.isConstant) (a : Axis) :
    I.D a (I.element op c) = 0 := by
  unfold Expr.isConstant at h
  split at h
  · exact I.number a _
  · exact I.constant a _
  · cases h

theorem element_isDerivation : IsDerivation (I.element op) fun a => I.D a where
  add _ _ := rfl
  sub _ _ := rfl
  mul _ _ := rfl
  add_assoc := add_assoc
  mul_add := mul_add
  map_add a := (I.D a).map_add
  map_sub a := (I.D a).map_sub
  map_mul := I.leibniz
  constant a c hc := (element_of_isConstant op hc a).trans I.zero.symm
  constant_mul a c x hc := by rw [I.leibniz, element_of_isConstant op hc, zero_mul, zero_add]
  constant_zero c _ := by
    change I.element op c * I.leaf (.number 0) = I.leaf (.number 0)
    rw [I.zero, mul_zero]

theorem element_derivedFactors {e : Expr κ} (he : e.isElement) (a : Axis) :
    ∀ f ∈ Expr.derivedFactors a e, I.element op f.2 = I.D a (I.element op f.1) := by
  induction e with
  | leaf l =>
    intro f hf
    cases List.mem_singleton.1 hf
    rfl
  | arith o l r hl hr =>
    obtain ⟨hel, her⟩ := Bool.and_eq_true_iff.1 he
    exact (I.element_isDerivation op).value_derivedFactors_arith (hl hel) (hr her)
  | node h args =>
    intro f hf
    cases h with
    | tuple => cases he
    | _ => cases List.mem_singleton.1 hf; rfl

/-- Without arithmetic on tuples the derivative of an integrand is worth the derivative of what the
integrand is worth, whatever the operators in it mean. -/
theorem element_derive {e : Expr κ} (he : e.isElement) (a : Axis) :
    I.element op (e.derive a) = I.D a (I.element op e) :=
  (I.element_isDerivation op).value_derive_of_factors (I.element_derivedFactors op he a)

theorem nested_derive_leaf (a : Axis) (l : Leaf κ) :
    I.nested op (Expr.derive a (.leaf l)) = .element (I.element op (Expr.derive a (.leaf l))) := by
  rw [Expr.derive_leaf]
  split <;> rfl

theorem nested_derive_arith (a : Axis) (o : Arith) (l r : Expr κ) :
    I.nested op (Expr.derive a (.arith o l r)) =
      .element (I.element op (Expr.derive a (.arith o l r))) := by
  cases o with
  | add => rw [Expr.derive_add]; rfl
  | sub => rw [Expr.derive_sub]; rfl
  | mul => rcases Expr.derive_mul a l r with h | ⟨o, l', r', h⟩ <;> rw [h] <;> rfl

theorem nested_derive {e : Expr κ} (he : e.IsNested) (a : Axis) :
    I.nested op (e.derive a) = (I.nested op e).map (I.D a) := by
  induction he with
  | @element e h =>
    cases e with
    | leaf l => rw [nested_derive_leaf, I.element_derive op h]; rfl
    | arith o l r => rw [nested_derive_arith, I.element_derive op h]; rfl
    | node k args =>
      have hk : k ≠ .tuple := by rintro rfl; cases h
      rw [Expr.derive_node a hk]
      rfl
  | @tuple items h ih =>
    rw [Expr.derive_tuple, nested_tuple, nested_tuple, Nested.map_items, List.map_map,
      List.map_map]
    exact congrArg Nested.items (List.map_congr_left ih)

/-- Taking the derivative is a derivation on what integrands are worth, and goes through tuples item
by item. -/
theorem derive_itemwise (e : Expr κ) (a : Axis) :
    (e.isElement → I.element op (e.derive a) = I.D a (I.element op e)) ∧
      (e.IsNested → I.nested op (e.derive a) = (I.nested op e).map (I.D a)) :=
  ⟨fun he => I.element_derive op he a, fun he => I.nested_derive op he a⟩

def swirl : Expr ℤ :=
  .mul (.number 2) (.mul (.field "p") (.concrete ⟨.rot, 2⟩ [.field "u"]))

theorem derive_itemwise_swirl :
    (polynomials.element (fun _ _ => .X) (swirl.derive .x) =
        polynomials.D .x (polynomials.element (fun _ _ => .X) swirl)) ∧
      polynomials.nested (fun _ _ => .X)
          (Expr.derive .x (.tuple [swirl, .tuple [.sub (.constant "nu") swirl]])) =
        (polynomials.nested (fun _ _ => .X)
          (.tuple [swirl, .tuple [.sub (.constant "nu") swirl]])).map (polynomials.D .x) := by
  refine ⟨(polynomials.derive_itemwise _ swirl .x).1 rfl,
    (polynomials.derive_itemwise _ _ .x).2 (.tuple ?_)⟩
  have hinner : Expr.IsNested (.tuple [.sub (.constant "nu") swirl]) :=
    .tuple (List.forall_mem_singleton.2 (.element rfl))
  exact List.forall_mem_cons.2 ⟨.element rfl, List.forall_mem_singleton.2 hinner⟩

end Interpretation

end VariationalForms
