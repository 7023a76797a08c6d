import VariationalForms.Proofs.Reading
import VariationalForms.Proofs.Shape
import VariationalForms.Proofs.Value

/-! What integrands mean in a commutative ring with a derivative along each axis.
The operators of vector calculus have their textbook meaning in each dimension. A value has the
shape that its integrand shows (`Interpretation.shape_value`), and derivatives mean derivatives
(`Interpretation.value_derive`).
-/

set_option autoImplicit false

namespace VariationalForms

universe u

namespace Value

variable {R : Type u} [CommRing R] (D : Axis → R → R)

def grad (d : Nat) : Value R → Value R
  | scalar f => if d = 1 then scalar (D .x f) else vector ((Axis.spanning d).map fun a => D a f)
  | _ => undefined

def div (d : Nat) : Value R → Value R
  | scalar f => if d = 1 then scalar (D .x f) else undefined
  | vector u =>
    if u.length = d then scalar (List.zipWith D (Axis.spanning d) u).sum else undefined
  | undefined => undefined

def rot : Value R → Value R
  | vector [u₀, u₁] => scalar (D .y u₀ - D .x u₁)
  | _ => undefined

def curl : Value R → Value R
  | vector [u₀, u₁, u₂] => vector [D .y u₂ - D .z u₁, D .z u₀ - D .x u₂, D .x u₁ - D .y u₀]
  | _ => undefined

def dot (d : Nat) : Value R → Value R → Value R
  | scalar f, scalar g => scalar (f * g)
  | vector u, vector v =>
    if u.length = d ∧ v.length = d then scalar (List.zipWith (· * ·) u v).sum else undefined
  | _, _ => undefined

def cross : Nat → Value R → Value R → Value R
  | 2, vector [u₀, u₁], vector [v₀, v₁] => scalar (u₀ * v₁ - u₁ * v₀)
  | 3, vector [u₀, u₁, u₂], vector [v₀, v₁, v₂] =>
    vector [u₁ * v₂ - u₂ * v₁, u₂ * v₀ - u₀ * v₂, u₀ * v₁ - u₁ * v₀]
  | _, _, _ => undefined

end Value

/-- The meaning of an operator in a dimension, for operands of the shapes that it is defined for. -/
def Operator.meaning {R : Type u} [CommRing R] (D : Axis → R → R) (o : Operator) (d : Nat)
    (vs : List (Value R)) : Value R :=
  if o.existsIn d then
    match o, vs with
    | .grad, [u] => u.grad D d
    | .div, [u] => u.div D d
    | .rot, [u] => u.rot D
    | .curl, [u] => u.curl D
    | .dot, [u, v] | .inner, [u, v] => u.dot d v
    | .cross, [u, v] => .cross d u v
    | _, _ => .undefined
  else .undefined

namespace Value

variable {R : Type u}

def shape : Value R → Shape
  | .undefined => .ill
  | .scalar _ => .scalar
  | .vector xs => .vector xs.length

theorem shape_eq_scalar {v : Value R} (h : v.shape = .scalar) : ∃ x, v = scalar x := by
  cases v <;> simp_all [shape]

theorem eq_map_scalar {vs : List (Value R)} (h : ∀ v ∈ vs, v.shape = .scalar) :
    ∃ xs : List R, vs = xs.map scalar := by
  induction vs with
  | nil => exact ⟨[], rfl⟩
  | cons v vs ih =>
    obtain ⟨x, rfl⟩ := shape_eq_scalar (h v (.head _))
    obtain ⟨xs, rfl⟩ := ih fun w hw => h w (.tail _ hw)
    exact ⟨x :: xs, rfl⟩

theorem shape_map (f : R → R) (v : Value R) : (v.map f).shape = v.shape := by
  cases v <;> simp [map, shape]

theorem shape_zip (f : R → R → R) (u v : Value R) : (zip f u v).shape = u.shape.sum v.shape := by
  cases u <;> cases v <;> try rfl
  case vector.vector xs ys => by_cases h : xs.length = ys.length <;> simp [zip, h, shape, Shape.sum]

theorem shape_mul [CommRing R] (u v : Value R) : (u * v).shape = u.shape.product v.shape := by
  rw [mul_def]
  cases u <;> cases v <;> simp [scale, shape, Shape.product]

theorem shape_tuple (vs : List (Value R)) : (tuple vs).shape = .tuple (vs.map shape) := by
  by_cases h : ∀ v ∈ vs, v.shape = .scalar
  · obtain ⟨xs, rfl⟩ := eq_map_scalar h
    simp [shape, Shape.tuple, Function.comp_def]
  · have hnone : numbers? vs = none := by
      refine Option.eq_none_iff_forall_ne_some.2 fun xs hxs => h fun v hv => ?_
      rw [eq_of_numbers? hxs] at hv
      obtain ⟨x, -, rfl⟩ := List.mem_map.1 hv
      rfl
    simpa [tuple, hnone, shape, Shape.tuple] using h

section Operators

variable [CommRing R] (D : Axis → R → R)

omit [CommRing R] in
theorem shape_grad {d : Nat} (hd : d ≤ 3) (u : Value R) : (u.grad D d).shape = u.shape.grad d := by
  cases u with
  | scalar f =>
    by_cases h : d = 1 <;> simp [grad, shape, Shape.grad, h, Axis.length_spanning, hd]
  | _ => rfl

theorem shape_div (d : Nat) (u : Value R) : (u.div D d).shape = u.shape.div d := by
  cases u with
  | scalar f => by_cases h : d = 1 <;> simp [div, shape, Shape.div, h]
  | vector u => by_cases h : u.length = d <;> simp [div, shape, Shape.div, h]
  | undefined => rfl

theorem shape_rot (u : Value R) : (u.rot D).shape = u.shape.rot := by
  match u with
  | undefined | scalar _ | vector [] | vector [_] | vector [_, _] | vector (_ :: _ :: _ :: _) => rfl

theorem shape_curl (u : Value R) : (u.curl D).shape = u.shape.curl := by
  match u with
  | undefined | scalar _ | vector [] | vector [_] | vector [_, _] | vector [_, _, _]
  | vector (_ :: _ :: _ :: _ :: _) => rfl

theorem shape_dot (d : Nat) (u v : Value R) : (u.dot d v).shape = u.shape.dot d v.shape := by
  cases u <;> cases v <;> try rfl
  case vector.vector u v =>
    by_cases h : u.length = d ∧ v.length = d <;> simp [dot, shape, Shape.dot, h]

theorem shape_cross (d : Nat) (u v : Value R) :
    (cross d u v).shape = Shape.cross d u.shape v.shape := by
  have hd : d = 2 ∨ d = 3 ∨ d ≠ 2 ∧ d ≠ 3 := by omega
  rcases hd with rfl | rfl | ⟨h₂, h₃⟩
  · match u, v with
    | vector [_, _], vector [_, _] => rfl
    | undefined, _ | scalar _, _ | vector [], _ | vector [_], _ | vector (_ :: _ :: _ :: _), _
    | vector [_, _], undefined | vector [_, _], scalar _ | vector [_, _], vector []
    | vector [_, _], vector [_] | vector [_, _], vector (_ :: _ :: _ :: _) => rfl
  · match u, v with
    | vector [_, _, _], vector [_, _, _] => rfl
    | undefined, _ | scalar _, _ | vector [], _ | vector [_], _ | vector [_, _], _
    | vector (_ :: _ :: _ :: _ :: _), _
    | vector [_, _, _], undefined | vector [_, _, _], scalar _ | vector [_, _, _], vector []
    | vector [_, _, _], vector [_] | vector [_, _, _], vector [_, _]
    | vector [_, _, _], vector (_ :: _ :: _ :: _ :: _) => rfl
  · have hv : cross d u v = undefined := by unfold cross; split <;> first | rfl | contradiction
    have hs : Shape.cross d u.shape v.shape = .ill := by
      unfold Shape.cross; split <;> first | rfl | contradiction
    rw [hv, hs]; rfl

end Operators

end Value

theorem Operator.shape_meaning {R : Type u} [CommRing R] (D : Axis → R → R) (o : Operator) (d : Nat)
    (vs : List (Value R)) : (o.meaning D d vs).shape = o.shape d (vs.map Value.shape) := by
  unfold Operator.meaning Operator.shape
  split
  case isFalse => rfl
  case isTrue h =>
    have hd := (Operator.le_of_existsIn h).2
    match o, vs with
    | .grad, [u] => exact u.shape_grad D hd
    | .div, [u] => exact u.shape_div D d
    | .rot, [u] => exact u.shape_rot D
    | .curl, [u] => exact u.shape_curl D
    | .dot, [u, v] => exact u.shape_dot d v
    | .inner, [u, v] => exact u.shape_dot d v
    | .cross, [u, v] => exact Value.shape_cross d u v
    | .grad, [] | .div, [] | .rot, [] | .curl, [] | .dot, [] | .inner, [] | .cross, []
    | .dot, [_] | .inner, [_] | .cross, [_]
    | .grad, _ :: _ :: _ | .div, _ :: _ :: _ | .rot, _ :: _ :: _ | .curl, _ :: _ :: _
    | .dot, _ :: _ :: _ :: _ | .inner, _ :: _ :: _ :: _ | .cross, _ :: _ :: _ :: _ => rfl

/-- An interpretation gives every leaf an element of the ring, a vector function one for each
component. Numbers and constants do not vary. -/
structure Interpretation (κ : Type) (R : Type u) [Zero κ] [CommRing R] where
  leaf : Leaf κ → R
  D : Axis → R →+ R
  leibniz : ∀ a x y, D a (x * y) = D a x * y + x * D a y
  number : ∀ a c, D a (leaf (.number c)) = 0
  constant : ∀ a s, D a (leaf (.constant s)) = 0
  zero : leaf (.number 0) = 0

namespace Interpretation

variable {κ : Type} {R : Type u} [Zero κ] [CommRing R] (I : Interpretation κ R)

def leafValue : Leaf κ → Value R
  | .function f =>
    f.space.shape?.elim (.scalar (I.leaf (.function f)))
      fun n => .vector ((List.range n).map fun i => I.leaf (.component f i))
  | l => .scalar (I.leaf l)

def nodeValue (d : Nat) : Head → List (Value R) → Value R
  | .tuple, vs => .tuple vs
  | .generic o, vs => o.meaning (fun a => I.D a) d vs
  | .concrete o, vs => o.operator.meaning (fun a => I.D a) o.dim vs
  | .derivative a, [v] => v.map (I.D a)
  | .derivative _, _ => .undefined

/-- How integrands are read when generic operators stand in dimension `d`. -/
def reading (d : Nat) : Reading κ (Value R) := ⟨I.leafValue, I.nodeValue d⟩

def value (d : Nat) (e : Expr κ) : Value R := (I.reading d).value e

variable {I} in
theorem value_of_isConstant {d : Nat} {c : Expr κ} (h : c.isConstant) :
    ∃ x, (I.reading d).value c = .scalar x ∧ ∀ a, I.D a x = 0 := by
  unfold Expr.isConstant at h
  split at h
  · exact ⟨_, rfl, fun a => I.number a _⟩
  · exact ⟨_, rfl, fun a => I.constant a _⟩
  · cases h

theorem value_node (d : Nat) (h : Head) (args : List (Expr κ)) :
    I.value d (.node h args) = I.nodeValue d h (args.map (I.value d)) :=
  (I.reading d).value_node h args

theorem reading_isDifferential (d : Nat) :
    (I.reading d).IsDifferential fun a => Value.map (I.D a) where
  add_assoc := Value.zip_assoc add_assoc
  mul_add := Value.mul_distrib
  add a := Value.map_zip (I.D a).map_add
  sub a := Value.map_zip (I.D a).map_sub
  mul a := Value.map_mul (I.leibniz a)
  constant a c hc := by
    obtain ⟨x, hx, hD⟩ := value_of_isConstant (I := I) (d := d) hc
    rw [hx, Value.map_scalar, hD]
    exact congrArg Value.scalar I.zero.symm
  constant_mul a c v hc := by
    obtain ⟨x, hx, hD⟩ := value_of_isConstant (I := I) (d := d) hc
    rw [hx]
    cases v <;> simp [Value.mul_def, Value.scale, Value.map, I.leibniz, hD]
  constant_zero c hc := by
    obtain ⟨x, hx, -⟩ := value_of_isConstant (I := I) (d := d) hc
    change (I.reading d).value c * .scalar (I.leaf (.number 0)) = .scalar (I.leaf (.number 0))
    rw [hx, I.zero, Value.scalar_mul, mul_zero]
  tuple a xs := Value.map_tuple (I.D a) xs
  derivative a x := rfl

theorem value_derive (d : Nat) (a : Axis) (e : Expr κ) :
    I.value d (e.derive a) = (I.value d e).map (I.D a) :=
  (I.reading_isDifferential d).value_derive a e

theorem shape_leafValue (l : Leaf κ) : (I.leafValue l).shape = l.shape := by
  cases l with
  | function f =>
    simp only [leafValue, Leaf.shape]
    cases f.space.shape? <;> simp [Value.shape]
  | _ => rfl

/-- A value has the shape that its integrand shows. -/
theorem shape_value (d : Nat) (e : Expr κ) : (I.value d e).shape = e.shape d := by
  induction e with
  | leaf l => exact I.shape_leafValue l
  | arith op l r hl hr =>
    rw [Expr.shape_arith, ← hl, ← hr]
    cases op with
    | mul => exact Value.shape_mul ..
    | _ => exact Value.shape_zip ..
  | node h args ih =>
    have hargs : args.map (Expr.shape d) = (args.map (I.value d)).map Value.shape := by
      rw [List.map_map]
      exact List.map_congr_left fun e he => (ih e he).symm
    rw [Expr.shape_node, hargs, value_node]
    cases h with
    | tuple => exact Value.shape_tuple _
    | generic o => exact Operator.shape_meaning ..
    | concrete o => exact Operator.shape_meaning ..
    | derivative a =>
      match args with
      | [] => rfl
      | [u] => exact Value.shape_map ..
      | _ :: _ :: _ => rfl

end Interpretation

end VariationalForms
