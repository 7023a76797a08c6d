import VariationalForms.Expr.Traversal
import VariationalForms.Expr.Substitution
import VariationalForms.Fault

/-! Bilinear and linear forms: an integrand with the spaces that are declared for it.
The functions of a form are those of its integrand in ascending order. A form is applied to other
functions by position in that order, or rebound by naming what is replaced.
-/

set_option autoImplicit false

namespace VariationalForms

variable {κ : Type}

namespace Expr

/-- The functions of one role, in ascending order. -/
def functionsOf (r : Role) (e : Expr κ) : List Argument :=
  Argument.sort (e.functions.filter fun f => f.role = r)

def sortedFields (e : Expr κ) : List String :=
  e.fields.mergeSort fun a b => (compare a b).isLE

end Expr

/-- The spaces of a bilinear form. Two declared spaces have one dimension. -/
structure FormSpaces where
  trial : Option Space
  test : Option Space
  ldim_eq : ∀ u ∈ trial, ∀ v ∈ test, u.ldim = v.ldim
  deriving DecidableEq

namespace FormSpaces

def of : (trial test : Option Space) → Except Fault FormSpaces
  | some u, some v =>
    if h : u.ldim = v.ldim then .ok ⟨some u, some v, by simpa using h⟩
    else .error (.dimensionMismatch u.ldim v.ldim)
  | none, test => .ok ⟨none, test, by simp⟩
  | trial, none => .ok ⟨trial, none, by simp⟩

/-- The dimension of the test space, or of the trial space when no test space is declared. -/
def ldim? (s : FormSpaces) : Option Nat := (s.test <|> s.trial).map Space.ldim

end FormSpaces

structure BilinearForm (κ : Type) where
  integrand : Expr κ
  spaces : FormSpaces

structure LinearForm (κ : Type) where
  integrand : Expr κ
  test : Option Space

def bindings (r : Role) (current supplied : List Argument) :
    Except Fault (List (Argument × Argument)) :=
  match supplied.find? fun f => f.role ≠ r with
  | some f => .error (.wrongRole r f)
  | none =>
    if supplied.length = current.length then .ok (current.zip supplied)
    else .error (.argumentCount r current.length supplied.length)

namespace BilinearForm

def of (e : Expr κ) (trial test : Option Space) : Except Fault (BilinearForm κ) := do
  return ⟨e, ← FormSpaces.of trial test⟩

def withIntegrand (a : BilinearForm κ) (e : Expr κ) : BilinearForm κ := ⟨e, a.spaces⟩

def ldim? (a : BilinearForm κ) : Option Nat := a.spaces.ldim?

def testFunctions (a : BilinearForm κ) : List Argument := a.integrand.functionsOf .test

def trialFunctions (a : BilinearForm κ) : List Argument := a.integrand.functionsOf .trial

def fields (a : BilinearForm κ) : List String := a.integrand.sortedFields

/-- The form with its test and trial functions replaced by others, position by position. -/
def apply (a : BilinearForm κ) (tests trials : List Argument) :
    Except Fault (BilinearForm κ) := do
  let onTests ← bindings .test a.testFunctions tests
  let onTrials ← bindings .trial a.trialFunctions trials
  return a.withIntegrand (a.integrand.rename (onTests ++ onTrials))

/-- The form with every function of a pair replaced by its partner of the same role. -/
def rebind (a : BilinearForm κ) (pairs : List (Argument × Argument)) :
    Except Fault (BilinearForm κ) :=
  match pairs.find? fun p => p.1.role ≠ p.2.role with
  | some (old, new) => .error (.roleChange old new)
  | none => .ok (a.withIntegrand (a.integrand.rename pairs))

def add (a b : BilinearForm κ) : Except Fault (BilinearForm κ) :=
  if a.spaces = b.spaces then .ok (a.withIntegrand (.add a.integrand b.integrand))
  else .error (.spaceMismatch a.spaces.trial a.spaces.test b.spaces.trial b.spaces.test)

instance [BEq κ] : BEq (BilinearForm κ) where
  beq a b := a.integrand == b.integrand && a.spaces == b.spaces

end BilinearForm

namespace LinearForm

def withIntegrand (l : LinearForm κ) (e : Expr κ) : LinearForm κ := ⟨e, l.test⟩

def ldim? (l : LinearForm κ) : Option Nat := l.test.map Space.ldim

def testFunctions (l : LinearForm κ) : List Argument := l.integrand.functionsOf .test

def fields (l : LinearForm κ) : List String := l.integrand.sortedFields

instance [BEq κ] : BEq (LinearForm κ) where
  beq l m := l.integrand == m.integrand && l.test == m.test

end LinearForm

inductive WeakForm (κ : Type)
  | bilinear (a : BilinearForm κ)
  | linear (l : LinearForm κ)
  | raw (e : Expr κ)

namespace WeakForm

def integrand : WeakForm κ → Expr κ
  | .bilinear a => a.integrand
  | .linear l => l.integrand
  | .raw e => e

instance [BEq κ] : BEq (WeakForm κ) where
  beq
    | .bilinear a, .bilinear b => a == b
    | .linear l, .linear m => l == m
    | .raw e, .raw e' => e == e'
    | _, _ => false

end WeakForm

end VariationalForms
