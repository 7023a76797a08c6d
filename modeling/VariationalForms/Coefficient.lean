import VariationalForms.Expr.Product

/-! Coefficients: the factors of a product that only scale the rest and are never operands. -/

set_option autoImplicit false

namespace VariationalForms

variable {κ : Type}

inductive CoefficientKind
  | number
  | constant
  | field
  deriving DecidableEq, Repr

namespace CoefficientKind

def name : CoefficientKind → String
  | number => "Number"
  | constant => "Constant"
  | field => "Field"

def of? : Expr κ → Option CoefficientKind
  | .number _ => some number
  | .constant _ => some constant
  | .field _ => some field
  | _ => none

end CoefficientKind

/-- The kinds of leaves that count as coefficients. -/
structure Coefficients where
  kinds : List CoefficientKind
  deriving DecidableEq, Repr

namespace Coefficients

def standard : Coefficients := ⟨[.number, .constant, .field]⟩

def isCoefficient (cs : Coefficients) (e : Expr κ) : Bool :=
  (CoefficientKind.of? e).any cs.kinds.contains

/-- The coefficients among the factors and the operands among them, each in their order. -/
def split (cs : Coefficients) (factors : List (Expr κ)) : List (Expr κ) × List (Expr κ) :=
  factors.partition cs.isCoefficient

theorem split_eq (cs : Coefficients) (factors : List (Expr κ)) :
    cs.split factors =
      (factors.filter cs.isCoefficient, factors.filter (! cs.isCoefficient ·)) :=
  List.partition_eq_filter_filter ..

section Distribute

variable {ε : Type} [One κ]

/-- Sets the coefficients of a product aside, passes the product of its operands to `f`, and puts the
product of the coefficients in front of the answer. -/
def onOperands (cs : Coefficients) (f : Expr κ → Except ε (Expr κ)) (e : Expr κ) :
    Except ε (Expr κ) :=
  let (coefficients, operands) := cs.split e.factors
  match Expr.product? coefficients, Expr.product? operands with
  | some c, some o => do return .mul c (← f o)
  | some c, none => .ok c
  | none, some o => f o
  | none, none => .ok (.number 1)

/-- Passes every term of nested sums and differences to `f`, products without their coefficients. -/
def distribute (cs : Coefficients) (f : Expr κ → Except ε (Expr κ)) :
    Expr κ → Except ε (Expr κ)
  | .add l r => do return .add (← cs.distribute f l) (← cs.distribute f r)
  | .sub l r => do return .sub (← cs.distribute f l) (← cs.distribute f r)
  | .mul l r => cs.onOperands f (.mul l r)
  | e => f e

end Distribute

end Coefficients

end VariationalForms
