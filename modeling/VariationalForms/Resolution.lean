import VariationalForms.Coefficient
import VariationalForms.Expansion
import VariationalForms.Form

/-! Resolving generic operators in a dimension.
A form that declares a space has the dimension of that space; otherwise the first function under the
first generic operator decides. Sums are resolved term by term and coefficients stay in front of
products; inside a term, inner operators are expanded before the outer ones.
-/

set_option autoImplicit false

namespace VariationalForms

variable {κ : Type}

namespace Expr

/-- Refuses an integrand that is only a leaf. -/
def rejectLeaf : Expr κ → Except Fault Unit
  | .leaf l => .error (.inputKind (leaf l).kind)
  | _ => .ok ()

/-- The dimension of the space of the first function under the first generic operator. -/
def dimension [NumberText κ] (e : Expr κ) : Except Fault Nat :=
  match e.preorder.find? fun n => n.generic?.isSome with
  | some (.generic o args) =>
    match (args.flatMap preorder).findSome? function? with
    | some f => .ok f.space.ldim
    | none => .error (.noFunctionOperand o)
  | _ => .error (.noGenericOperator e.text)

section Expand

variable [Zero κ]

mutual

/-- Replaces every generic operator by the rule that a table has for it, the inner ones first; one
that the table lacks stays. A derivative of what was expanded is taken anew, so that it goes through
the sums and products that have appeared. -/
def expandBy (table : List OperatorAt) : Expr κ → Except Fault (Expr κ)
  | .leaf l => .ok (.leaf l)
  | .arith op l r => do return .arith op (← expandBy table l) (← expandBy table r)
  | .derivative a [u] => do
    let v ← expandBy table u
    return if u.containsGeneric then derive a v else .derivative a [v]
  | .generic o args => do
    let args ← expandArgsBy table args
    match table.find? (·.operator == o) with
    | some rule => rule.apply args
    | none => return .generic o args
  | .node h args => do return .node h (← expandArgsBy table args)

def expandArgsBy (table : List OperatorAt) : List (Expr κ) → Except Fault (List (Expr κ))
  | [] => .ok []
  | e :: es => do return (← expandBy table e) :: (← expandArgsBy table es)

end

/-- Expands the generic operators by the table of their rules in the dimension, in which all of them
have to exist. -/
def resolveTerm (dim : Nat) (e : Expr κ) : Except Fault (Expr κ) := do
  if e.operators.isEmpty then return e
  e.expandBy (← e.operators.mapM fun o => o.inDimension dim)

variable [One κ]

def resolveIn (cs : Coefficients) (dim : Nat) (e : Expr κ) : Except Fault (Expr κ) :=
  cs.distribute (resolveTerm dim) e

/-- Resolves an integrand that has no form around it. One without generic operators is left as it is
if it shows that its dimension was known before. -/
def resolve [NumberText κ] (cs : Coefficients) (e : Expr κ) : Except Fault (Expr κ) := do
  e.rejectLeaf
  if !e.containsGeneric && e.containsDimensioned then return e
  e.resolveIn cs (← e.dimension)

end Expand

end Expr

section Forms

variable [Zero κ] [One κ] [NumberText κ]

def BilinearForm.dimension (a : BilinearForm κ) : Except Fault Nat :=
  a.ldim?.elim a.integrand.dimension .ok

def BilinearForm.resolve (cs : Coefficients) (a : BilinearForm κ) :
    Except Fault (BilinearForm κ) := do
  return a.withIntegrand (← a.integrand.resolveIn cs (← a.dimension))

def LinearForm.dimension (l : LinearForm κ) : Except Fault Nat :=
  l.ldim?.elim l.integrand.dimension .ok

def LinearForm.resolve (cs : Coefficients) (l : LinearForm κ) : Except Fault (LinearForm κ) := do
  return l.withIntegrand (← l.integrand.resolveIn cs (← l.dimension))

def WeakForm.resolve (cs : Coefficients) : WeakForm κ → Except Fault (WeakForm κ)
  | .bilinear a => do return .bilinear (← a.resolve cs)
  | .linear l => do return .linear (← l.resolve cs)
  | .raw e => do return .raw (← e.resolve cs)

end Forms

end VariationalForms
