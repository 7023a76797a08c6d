/-! Function spaces and the test and trial functions that live on them.
Spaces made one after another are different even when all they were made from agrees, so a space
carries its place in the order of creation. Functions are ordered by name, role and space.
-/

set_option autoImplicit false

namespace VariationalForms

/-- What the functions of a space take as values: one number, or so many components. -/
inductive Values
  | scalar
  | vector (size : Nat)
  | block (size : Nat)
  deriving DecidableEq, Repr

def Values.size? : Values → Option Nat
  | .scalar => none
  | .vector n => some n
  | .block n => some n

def Values.kind : Values → String
  | .scalar => "Scalar"
  | .vector _ => "Vector"
  | .block _ => "Block"

/-- A function space over a domain of dimension `ldim`. -/
structure Space where
  name : String
  serial : Nat
  ldim : Nat
  values : Values
  deriving DecidableEq, Repr

namespace Space

/-- The number of components, `none` for a scalar space. -/
def shape? (s : Space) : Option Nat := s.values.size?

def isVectorValued (s : Space) : Bool := s.shape?.isSome

/-- Spaces are ordered by name; of two spaces with one name the older comes first. -/
instance : Ord Space where
  compare s t := (compare s.name t.name).then (compare s.serial t.serial)

end Space

inductive Role
  | test
  | trial
  deriving DecidableEq, Repr

namespace Role

def name : Role → String
  | .test => "Test"
  | .trial => "Trial"

def rank : Role → Nat
  | .test => 0
  | .trial => 1

theorem rank_injective {r s : Role} (h : r.rank = s.rank) : r = s := by
  cases r <;> cases s <;> simp_all [rank]

instance : Ord Role where
  compare r s := compare r.rank s.rank

end Role

structure Argument where
  name : String
  role : Role
  space : Space
  deriving DecidableEq, Repr

def indexed (name : String) (i : Nat) : String := name ++ "[" ++ toString i ++ "]"

namespace Argument

/-- Functions are ordered by name, then by role, then by space. -/
instance : Ord Argument where
  compare f g := ((compare f.name g.name).then (compare f.role g.role)).then
    (compare f.space g.space)

def componentName (f : Argument) (i : Nat) : String := indexed f.name i

def sort (fs : List Argument) : List Argument :=
  fs.mergeSort fun f g => (compare f g).isLE

end Argument

end VariationalForms
