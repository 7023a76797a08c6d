import VariationalForms.Expr.Basic

/-! Walking through an integrand.
`preorder` visits a node before its operands and those from left to right, with a list of pending
expressions in place of recursion; `preorder_eq_nodes` says that it lists what recursion lists. The
questions about the symbols of an integrand are asked of that list.
-/

set_option autoImplicit false

namespace VariationalForms

variable {κ : Type}

namespace Leaf

/-- The test or trial function of a leaf; a component stands for its function. -/
def function? : Leaf κ → Option Argument
  | .function f => some f
  | .component f _ => some f
  | _ => none

def field? : Leaf κ → Option String
  | .field s => some s
  | _ => none

end Leaf

namespace Expr

def children : Expr κ → List (Expr κ)
  | .leaf _ => []
  | .arith _ l r => [l, r]
  | .node _ args => args

theorem size_eq (e : Expr κ) : e.size = totalSize e.children + 1 := by
  cases e <;> simp [children]

/-- Visits pending expressions; the operands of a visited node come before all that is pending. -/
def visit : List (Expr κ) → List (Expr κ)
  | [] => []
  | e :: pending => e :: visit (e.children ++ pending)
termination_by pending => totalSize pending
decreasing_by simp [size_eq e]

def preorder (e : Expr κ) : List (Expr κ) := visit [e]

mutual

def nodes : Expr κ → List (Expr κ)
  | .leaf l => [.leaf l]
  | .arith op l r => .arith op l r :: (nodes l ++ nodes r)
  | .node h args => .node h args :: nodesArgs args

def nodesArgs : List (Expr κ) → List (Expr κ)
  | [] => []
  | e :: es => nodes e ++ nodesArgs es

end

theorem nodesArgs_eq_flatMap (es : List (Expr κ)) : nodesArgs es = es.flatMap nodes := by
  induction es with
  | nil => rfl
  | cons e es ih => simp [nodesArgs, ih]

theorem nodes_eq (e : Expr κ) : e.nodes = e :: e.children.flatMap nodes := by
  cases e <;> simp [nodes, nodesArgs_eq_flatMap, children]

theorem forall_mem_nodes {P : Expr κ → Prop} {e : Expr κ} :
    (∀ n ∈ e.nodes, P n) ↔ P e ∧ ∀ c ∈ e.children, ∀ n ∈ c.nodes, P n := by
  rw [nodes_eq, List.forall_mem_cons]
  refine and_congr_right fun _ => ⟨fun h c hc n hn => h n (List.mem_flatMap.2 ⟨c, hc, hn⟩), ?_⟩
  intro h n hn
  obtain ⟨c, hc, hn⟩ := List.mem_flatMap.1 hn
  exact h c hc n hn

theorem visit_eq_flatMap (pending : List (Expr κ)) : visit pending = pending.flatMap nodes := by
  fun_induction visit pending with
  | case1 => rfl
  | case2 e pending ih => simp [ih, nodes_eq e]

theorem preorder_eq_nodes (e : Expr κ) : e.preorder = e.nodes := by
  simp [preorder, visit_eq_flatMap]

def function? : Expr κ → Option Argument
  | .leaf l => l.function?
  | _ => none

def field? : Expr κ → Option String
  | .leaf l => l.field?
  | _ => none

def generic? : Expr κ → Option Operator
  | .generic o _ => some o
  | _ => none

def isDerivative : Expr κ → Bool
  | .derivative _ _ => true
  | _ => false

/-- Holds of the nodes that exist only once the dimension is known. -/
def isDimensioned : Expr κ → Bool
  | .derivative _ _ => true
  | .concrete _ _ => true
  | .component _ _ => true
  | _ => false

def functions (e : Expr κ) : List Argument :=
  (e.preorder.filterMap function?).eraseDups

def fields (e : Expr κ) : List String :=
  (e.preorder.filterMap field?).eraseDups

def operators (e : Expr κ) : List Operator :=
  (e.preorder.filterMap generic?).eraseDups

def containsGeneric (e : Expr κ) : Bool :=
  e.preorder.any fun n => n.generic?.isSome

def containsDimensioned (e : Expr κ) : Bool :=
  e.preorder.any isDimensioned

def derivatives (e : Expr κ) : List (Expr κ) :=
  e.preorder.filter isDerivative

/-- The length of the chain of derivatives that starts here and follows the first operands. -/
def derivativeOrder : Expr κ → Nat
  | .derivative _ (e :: _) => e.derivativeOrder + 1
  | .derivative _ [] => 1
  | _ => 0

end Expr

end VariationalForms
