import Mathlib.Algebra.BigOperators.Group.List.Basic
import Mathlib.Algebra.Ring.Basic

/-! Values of integrands over a ring: numbers and lists of numbers, with sums and products as far as
they have a meaning. A sum of vectors of different lengths and a product of two vectors have none.
-/

set_option autoImplicit false

namespace VariationalForms

universe u

/-- What is put together in a way that has no meaning, such as a product of two vectors, is
`undefined`. -/
inductive Value (R : Type u)
  | undefined
  | scalar (x : R)
  | vector (xs : List R)

namespace Value

variable {R : Type u}

def map (f : R → R) : Value R → Value R
  | .undefined => .undefined
  | .scalar x => .scalar (f x)
  | .vector xs => .vector (xs.map f)

def zip (f : R → R → R) : Value R → Value R → Value R
  | .scalar x, .scalar y => .scalar (f x y)
  | .vector xs, .vector ys =>
    if xs.length = ys.length then .vector (List.zipWith f xs ys) else .undefined
  | _, _ => .undefined

def scale [Mul R] : Value R → Value R → Value R
  | .scalar x, .scalar y => .scalar (x * y)
  | .scalar x, .vector ys => .vector (ys.map (x * ·))
  | .vector xs, .scalar y => .vector (xs.map (y * ·))
  | _, _ => .undefined

/-- The numbers that several values are, if all of them are numbers. -/
def numbers? : List (Value R) → Option (List R)
  | [] => some []
  | .scalar x :: vs => (numbers? vs).map (x :: ·)
  | _ => none

def tuple (vs : List (Value R)) : Value R := (numbers? vs).elim .undefined .vector

instance [Add R] : Add (Value R) := ⟨zip (· + ·)⟩

instance [Sub R] : Sub (Value R) := ⟨zip (· - ·)⟩

instance [Mul R] : Mul (Value R) := ⟨scale⟩

@[simp] theorem scalar_add [Add R] (x y : R) : scalar x + scalar y = scalar (x + y) := rfl

@[simp] theorem scalar_mul [Mul R] (x y : R) : scalar x * scalar y = scalar (x * y) := rfl

@[simp] theorem map_scalar (f : R → R) (x : R) : map f (scalar x) = scalar (f x) := rfl

theorem numbers?_map_scalar (xs : List R) : numbers? (xs.map scalar) = some xs := by
  induction xs with
  | nil => rfl
  | cons x xs ih => simp [numbers?, ih]

theorem eq_of_numbers? {vs : List (Value R)} {xs : List R} (h : numbers? vs = some xs) :
    vs = xs.map scalar := by
  fun_induction numbers? vs generalizing xs with
  | case1 => cases h; rfl
  | case2 x vs ih =>
    obtain ⟨ys, hys, rfl⟩ := Option.map_eq_some_iff.1 h
    rw [List.map_cons, ← ih hys]
  | case3 => cases h

@[simp] theorem tuple_map_scalar (xs : List R) : tuple (xs.map scalar) = vector xs := by
  rw [tuple, numbers?_map_scalar]; rfl

theorem numbers?_map_map (f : R → R) (vs : List (Value R)) :
    numbers? (vs.map (map f)) = (numbers? vs).map (List.map f) := by
  induction vs with
  | nil => rfl
  | cons v vs ih =>
    cases v with
    | scalar x => cases h : numbers? vs <;> simp [map, numbers?, ih, h]
    | _ => rfl

theorem map_tuple (f : R → R) (vs : List (Value R)) :
    map f (tuple vs) = tuple (vs.map (map f)) := by
  rw [tuple, tuple, numbers?_map_map]
  cases numbers? vs <;> rfl

theorem zipWith_assoc {f : R → R → R} (hf : ∀ x y z, f (f x y) z = f x (f y z))
    (xs ys zs : List R) :
    List.zipWith f (List.zipWith f xs ys) zs = List.zipWith f xs (List.zipWith f ys zs) := by
  induction xs generalizing ys zs with
  | nil => simp
  | cons x xs ih => cases ys <;> cases zs <;> simp [hf, ih]

theorem zip_vector {f : R → R → R} {xs ys : List R} (h : xs.length = ys.length) :
    zip f (vector xs) (vector ys) = vector (List.zipWith f xs ys) := if_pos h

theorem zip_vector_of_ne {f : R → R → R} {xs ys : List R} (h : xs.length ≠ ys.length) :
    zip f (vector xs) (vector ys) = undefined := if_neg h

@[simp] theorem undefined_zip (f : R → R → R) (v : Value R) : zip f undefined v = undefined := by
  cases v <;> rfl

@[simp] theorem zip_undefined (f : R → R → R) (v : Value R) : zip f v undefined = undefined := by
  cases v <;> rfl

theorem zip_assoc {f : R → R → R} (hf : ∀ x y z, f (f x y) z = f x (f y z)) (u v w : Value R) :
    zip f (zip f u v) w = zip f u (zip f v w) := by
  cases u <;> cases v <;> cases w <;> try rfl
  case scalar.scalar.scalar x y z => exact congrArg scalar (hf x y z)
  case scalar.vector.vector x ys zs => by_cases h : ys.length = zs.length <;> simp [zip, h]
  case vector.vector.undefined xs ys => by_cases h : xs.length = ys.length <;> simp [zip, h]
  case vector.vector.scalar xs ys z => by_cases h : xs.length = ys.length <;> simp [zip, h]
  case vector.vector.vector xs ys zs =>
    by_cases hxy : xs.length = ys.length
    · by_cases hyz : ys.length = zs.length
      · simp [zip, hxy, hyz, zipWith_assoc hf]
      · simp [zip, hxy, hyz]
    · by_cases hyz : ys.length = zs.length
      · have hxz : xs.length ≠ zs.length := hyz ▸ hxy
        simp [zip_vector, zip_vector_of_ne, hyz, hxz]
      · simp [zip_vector_of_ne hxy, zip_vector_of_ne hyz]

theorem map_zip {g : R → R} {f : R → R → R} (h : ∀ x y, g (f x y) = f (g x) (g y))
    (u v : Value R) : map g (zip f u v) = zip f (map g u) (map g v) := by
  cases u <;> cases v <;> try rfl
  case scalar.scalar x y => exact congrArg scalar (h x y)
  case vector.vector xs ys =>
    by_cases hl : xs.length = ys.length <;>
      simp [zip, map, hl, h, List.map_zipWith, List.zipWith_map]

section Ring

variable [CommRing R]

theorem mul_def (u v : Value R) : u * v = scale u v := rfl

instance : CommMonoid (Value R) where
  one := scalar 1
  mul_assoc u v w := by
    cases u <;> cases v <;> cases w <;>
      simp [mul_def, scale, mul_comm, mul_left_comm]
  one_mul u := by
    change scale (scalar 1) u = u
    cases u <;> simp [scale]
  mul_one u := by
    change scale u (scalar 1) = u
    cases u <;> simp [scale]
  mul_comm u v := by
    cases u <;> cases v <;> simp [mul_def, scale, mul_comm]

theorem mul_distrib (u v w : Value R) : u * (v + w) = u * v + u * w := by
  change scale u (zip _ v w) = zip _ (scale u v) (scale u w)
  cases u <;> cases v <;> cases w <;> try rfl
  case scalar.scalar.scalar x y z => exact congrArg scalar (mul_add x y z)
  case vector.scalar.scalar xs y z =>
    simp [zip, scale, add_mul, List.zipWith_map]
  case scalar.vector.vector x ys zs =>
    by_cases h : ys.length = zs.length <;>
      simp [zip, scale, h, mul_add, List.map_zipWith, List.zipWith_map]
  case vector.vector.vector xs ys zs =>
    by_cases h : ys.length = zs.length <;> simp [zip, scale, h]

theorem map_mul {D : R →+ R} (hD : ∀ x y, D (x * y) = D x * y + x * D y) (u v : Value R) :
    map D (u * v) = map D u * v + u * map D v := by
  change map D (scale u v) = zip _ (scale (map D u) v) (scale u (map D v))
  cases u <;> cases v <;> try rfl
  case scalar.scalar x y => exact congrArg scalar (hD x y)
  case scalar.vector x ys => simp [scale, map, zip, hD, List.zipWith_map]
  case vector.scalar xs y => simp [scale, map, zip, hD, List.zipWith_map, add_comm]

end Ring

end Value

end VariationalForms
