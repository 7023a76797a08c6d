import VariationalForms.Expr.Printer

/-! Why a form is refused. Each cause is a constructor with what its message tells. -/

set_option autoImplicit false

namespace VariationalForms

inductive Fault
  | inputKind (k : Kind)
  | derivativeOf (k : Kind)
  | noGenericOperator (text : String)
  | noFunctionOperand (o : Operator)
  | unsupportedDimension (o : Operator) (dim : Nat)
  | shapeMismatch (o : Operator) (expected found : Nat)
  | missingComponent (o : OperatorAt)
  | operandCount (o : OperatorAt) (found : Nat)
  | derivativeOperandCount (found : Nat) (text : String)
  | argumentCount (r : Role) (expected found : Nat)
  | wrongRole (expected : Role) (f : Argument)
  | roleChange (old new : Argument)
  | componentRange (f : Argument) (index : Nat)
  | dimensionMismatch (trial test : Nat)
  | spaceMismatch (trial test trial' test' : Option Space)
  | linearNormalization
  deriving DecidableEq, Repr

namespace Fault

def inputText (what : String) : String :=
  "wrong input type `" ++ what ++ "`: expecting BilinearForm, LinearForm, Add, Mul, " ++
    "partial derivatives or calculus operators"

def spacesText (trial test : Option Space) : String :=
  "(" ++ (trial.map Space.name).getD "<none>" ++ ", " ++ (test.map Space.name).getD "<none>" ++ ")"

def message : Fault → String
  | inputKind k => inputText k.name
  | derivativeOf k => inputText (k.name ++ " under a partial derivative")
  | noGenericOperator text =>
    "cannot infer the dimension: `" ++ text ++
      "` holds no generic operator and is not wrapped in a form"
  | noFunctionOperand o =>
    "cannot infer the dimension: operator " ++ o.name ++ " has no test or trial function operand"
  | unsupportedDimension o dim =>
    "operator " ++ o.name ++ " is not defined in dimension " ++ toString dim
  | shapeMismatch o expected found =>
    "operator " ++ o.name ++ " expects " ++ toString expected ++ " components, got " ++
      toString found
  | missingComponent o => "operator " ++ o.name ++ " has too few components"
  | operandCount o found =>
    "arity mismatch: " ++ o.name ++ " expects " ++ toString o.operator.arity ++
      " operand(s), got " ++ toString found
  | derivativeOperandCount found text =>
    "arity mismatch: expecting only one argument for partial derivatives, got " ++
      toString found ++ " in `" ++ text ++ "`"
  | argumentCount r expected found =>
    "arity mismatch: the form has " ++ toString expected ++ " " ++ r.name ++ " function(s), " ++
      toString found ++ " supplied"
  | wrongRole expected f =>
    "wrong argument type: expecting " ++ expected.name ++ " functions, `" ++ f.name ++
      "` is a " ++ f.role.name ++ " function"
  | roleChange old new =>
    "wrong argument type: cannot replace " ++ old.role.name ++ " function `" ++ old.name ++
      "` by " ++ new.role.name ++ " function `" ++ new.name ++ "`"
  | componentRange f index =>
    "component " ++ toString index ++ " of `" ++ f.name ++ "` is out of range (shape " ++
      toString (f.space.shape?.getD 0) ++ ")"
  | dimensionMismatch trial test =>
    "trial space dimension " ++ toString trial ++ " does not match test space dimension " ++
      toString test
  | spaceMismatch trial test trial' test' =>
    "cannot combine forms over different spaces: " ++ spacesText trial test ++ " and " ++
      spacesText trial' test'
  | linearNormalization => "not implemented: normalization of linear forms"

end Fault

theorem bind_eq_ok_iff {ε α β : Type} {x : Except ε α} {f : α → Except ε β} {b : β} :
    x >>= f = .ok b ↔ ∃ a, x = .ok a ∧ f a = .ok b := by
  cases x <;> simp [bind, Except.bind]

@[simp] theorem pure_eq_ok_iff {ε α : Type} {a b : α} : (pure a : Except ε α) = .ok b ↔ a = b :=
  Except.ok.injEq a b ▸ Iff.rfl

@[simp] theorem throw_ne_ok {ε α : Type} {e : ε} {a : α} : (throw e : Except ε α) ≠ .ok a := by
  simp [throw, throwThe, MonadExceptOf.throw]

end VariationalForms
