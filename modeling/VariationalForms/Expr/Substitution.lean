import VariationalForms.Expr.Basic

/-! Rebuilding an integrand: from changed operands, with subexpressions replaced, or with its test
and trial functions exchanged. Replacement goes from the outside to the inside and does not enter
what it has put in, so several replacements take place at once.
-/

set_option autoImplicit false

namespace VariationalForms

variable {κ : Type}

namespace Expr

def mapChildren (f : Expr κ → Expr κ) : Expr κ → Expr κ
  | .leaf l => .leaf l
  | .arith op l r => .arith op (f l) (f r)
  | .node h args => .node h (args.map f)

def mapChildrenM {m : Type → Type} [Monad m] (f : Expr κ → m (Expr κ)) : Expr κ → m (Expr κ)
  | .leaf l => pure (.leaf l)
  | .arith op l r => do return .arith op (← f l) (← f r)
  | .node h args => do return .node h (← args.mapM f)

section Replace

variable (f : Expr κ → Option (Expr κ))

mutual

/-- Replaces the outermost subexpressions for which `f` has a replacement. -/
def replace : Expr κ → Expr κ
  | .leaf l => (f (.leaf l)).getD (.leaf l)
  | .arith op l r => (f (.arith op l r)).getD (.arith op (replace l) (replace r))
  | .node h args => (f (.node h args)).getD (.node h (replaceArgs args))

def replaceArgs : List (Expr κ) → List (Expr κ)
  | [] => []
  | e :: es => replace e :: replaceArgs es

end

theorem replaceArgs_eq_map (es : List (Expr κ)) : replaceArgs f es = es.map (replace f) := by
  induction es with
  | nil => rfl
  | cons e es ih => simp [replaceArgs, ih]

theorem replace_eq (e : Expr κ) : replace f e = (f e).getD (e.mapChildren (replace f)) := by
  cases e with
  | leaf l => rfl
  | arith op l r => rfl
  | node h args => rw [replace, replaceArgs_eq_map, mapChildren]

end Replace

def substitute [BEq κ] (e old new : Expr κ) : Expr κ :=
  e.replace fun n => if n == old then some new else none

/-- Replaces every subexpression by its partner; of several pairs for it the first counts. -/
def substituteAll [BEq κ] (e : Expr κ) (pairs : List (Expr κ × Expr κ)) : Expr κ :=
  e.replace fun n => pairs.lookup n

end Expr

def Argument.renamed (pairs : List (Argument × Argument)) (f : Argument) : Argument :=
  (pairs.lookup f).getD f

def Leaf.mapFunction (σ : Argument → Argument) : Leaf κ → Leaf κ
  | .function f => .function (σ f)
  | .component f i => .component (σ f) i
  | l => l

namespace Expr

def mapFunctions (σ : Argument → Argument) (e : Expr κ) : Expr κ :=
  e.fold (fun l => .leaf (l.mapFunction σ)) .arith .node

/-- Exchanges test and trial functions, all at once. -/
def rename (pairs : List (Argument × Argument)) (e : Expr κ) : Expr κ :=
  e.mapFunctions (Argument.renamed pairs)

theorem mapFunctions_id (e : Expr κ) : e.mapFunctions id = e := by
  induction e with
  | leaf l => cases l <;> rfl
  | arith op l r hl hr =>
    change Expr.arith op (l.mapFunctions id) (r.mapFunctions id) = _
    rw [hl, hr]
  | node h args ih =>
    have hargs : args.map (mapFunctions id) = args := by
      rw [List.map_congr_left ih, List.map_id']
    rw [mapFunctions, fold_node]
    exact congrArg (Expr.node h) hargs

end Expr

end VariationalForms
