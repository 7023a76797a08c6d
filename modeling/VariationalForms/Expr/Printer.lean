import VariationalForms.Expr.Basic

/-! The text of an integrand and the name of its outermost construction.
Every arithmetic operation is written in brackets of its own, so the text shows the grouping.
-/

set_option autoImplicit false

namespace VariationalForms

/-- How the numbers of a type are written. -/
class NumberText (κ : Type) where
  text : κ → String

variable {κ : Type}

def Leaf.text [NumberText κ] : Leaf κ → String
  | .number c => NumberText.text c
  | .symbol s => s
  | .field s => s
  | .constant s => s
  | .function f => f.name
  | .component f i => f.componentName i

def Arith.sign : Arith → String
  | .add => " + "
  | .sub => " - "
  | .mul => " * "

def Head.label : Head → String
  | .tuple => ""
  | .generic o => o.name
  | .concrete o => o.name
  | .derivative a => "d" ++ a.name

namespace Expr

def text [NumberText κ] (e : Expr κ) : String :=
  e.fold Leaf.text
    (fun op l r => "(" ++ l ++ op.sign ++ r ++ ")")
    (fun h args => h.label ++ "(" ++ String.intercalate ", " args ++ ")")

end Expr

inductive Kind
  | number
  | symbol
  | testFunction
  | trialFunction
  | component
  | field
  | constant
  | tuple
  | sum
  | difference
  | product
  | genericOperator
  | concreteOperator
  | derivative
  deriving DecidableEq, Repr

namespace Kind

def name : Kind → String
  | number => "Const"
  | symbol => "Var"
  | testFunction => "TestFunction"
  | trialFunction => "TrialFunction"
  | component => "Component"
  | field => "Field"
  | constant => "Constant"
  | tuple => "Tuple"
  | sum => "Add"
  | difference => "Sub"
  | product => "Mul"
  | genericOperator => "GenericOperator"
  | concreteOperator => "ConcreteOperator"
  | derivative => "PartialDerivative"

def ofRole : Role → Kind
  | .test => testFunction
  | .trial => trialFunction

end Kind

def Expr.kind : Expr κ → Kind
  | .number _ => .number
  | .symbol _ => .symbol
  | .field _ => .field
  | .constant _ => .constant
  | .function f => .ofRole f.role
  | .component _ _ => .component
  | .add _ _ => .sum
  | .sub _ _ => .difference
  | .mul _ _ => .product
  | .tuple _ => .tuple
  | .generic _ _ => .genericOperator
  | .concrete _ _ => .concreteOperator
  | .derivative _ _ => .derivative

end VariationalForms
