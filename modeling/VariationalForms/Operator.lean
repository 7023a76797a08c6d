/-! Axes, the operators of vector calculus, and the dimensions in which each operator exists. -/

set_option autoImplicit false

namespace VariationalForms

inductive Axis
  | x
  | y
  | z
  deriving DecidableEq, Repr

namespace Axis

def all : List Axis := [x, y, z]

def name : Axis → String
  | x => "x"
  | y => "y"
  | z => "z"

def rank : Axis → Nat
  | x => 0
  | y => 1
  | z => 2

theorem rank_injective {a b : Axis} (h : a.rank = b.rank) : a = b := by
  cases a <;> cases b <;> simp_all [rank]

/-- The axes of a domain of dimension `dim`; there are three at most. -/
def spanning (dim : Nat) : List Axis := all.take dim

theorem length_spanning (dim : Nat) : (spanning dim).length = min dim 3 := by
  simp [spanning, all]

theorem x_mem_spanning {dim : Nat} (h : 1 ≤ dim) : x ∈ spanning dim := by
  obtain ⟨n, rfl⟩ : ∃ n, dim = n + 1 := ⟨dim - 1, by omega⟩
  exact .head _

def sort (axes : List Axis) : List Axis :=
  axes.mergeSort fun a b => a.rank ≤ b.rank

theorem sort_eq_of_perm {axes axes' : List Axis} (h : axes.Perm axes') : sort axes = sort axes' := by
  have htrans : ∀ a b c : Axis, decide (a.rank ≤ b.rank) → decide (b.rank ≤ c.rank) →
      decide (a.rank ≤ c.rank) := by
    intro a b c hab hbc
    simp only [decide_eq_true_eq] at *
    omega
  have htotal : ∀ a b : Axis, decide (a.rank ≤ b.rank) || decide (b.rank ≤ a.rank) := by
    intro a b
    simp only [Bool.or_eq_true, decide_eq_true_eq]
    omega
  refine List.Perm.eq_of_pairwise (fun a b _ _ hab hba => rank_injective ?_)
    (List.pairwise_mergeSort htrans htotal axes) (List.pairwise_mergeSort htrans htotal axes')
    (((List.mergeSort_perm axes _).trans h).trans (List.mergeSort_perm axes' _).symm)
  simp only [decide_eq_true_eq] at hab hba
  omega

end Axis

/-- An operator whose rule depends on the dimension of the domain. -/
inductive Operator
  | grad
  | div
  | curl
  | rot
  | dot
  | cross
  | inner
  deriving DecidableEq, Repr

namespace Operator

def all : List Operator := [grad, div, curl, rot, dot, cross, inner]

theorem mem_all (o : Operator) : o ∈ all := by
  cases o <;> decide

def name : Operator → String
  | grad => "Grad"
  | div => "Div"
  | curl => "Curl"
  | rot => "Rot"
  | dot => "Dot"
  | cross => "Cross"
  | inner => "Inner"

def arity : Operator → Nat
  | grad | div | curl | rot => 1
  | dot | cross | inner => 2

/-- The rotation of a plane field is a number, the curl belongs to space, and a cross product needs
two axes at least. -/
def existsIn : Operator → Nat → Bool
  | grad, d | div, d | dot, d | inner, d => 1 ≤ d && d ≤ 3
  | cross, d => d == 2 || d == 3
  | rot, d => d == 2
  | curl, d => d == 3

theorem le_of_existsIn {o : Operator} {d : Nat} (h : o.existsIn d = true) : 1 ≤ d ∧ d ≤ 3 := by
  cases o <;> simp [existsIn] at h <;> omega

end Operator

/-- An operator in a known dimension. -/
structure OperatorAt where
  operator : Operator
  dim : Nat
  deriving DecidableEq, Repr

namespace OperatorAt

def name (o : OperatorAt) : String :=
  o.operator.name ++ "_" ++ toString o.dim ++ "d"

end OperatorAt

end VariationalForms
