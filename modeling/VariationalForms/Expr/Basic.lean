import VariationalForms.Space
import VariationalForms.Operator

/-! Integrands of variational forms.
An integrand is a leaf, an arithmetic operation, or a head applied to operands. The numbers in it
are taken from a type `κ`, so that a law about exact arithmetic and one about any rounding are
statements about the same expressions. Equality compares shapes, and numbers as `κ` compares them.
-/

set_option autoImplicit false

namespace VariationalForms

universe u

/-- A leaf is a number, a flat symbol, a given field or constant, a test or trial function, or one
component of such a function. -/
inductive Leaf (κ : Type)
  | number (c : κ)
  | symbol (name : String)
  | field (name : String)
  | constant (name : String)
  | function (f : Argument)
  | component (f : Argument) (i : Nat)
  deriving BEq, ReflBEq, LawfulBEq

inductive Arith
  | add
  | sub
  | mul
  deriving DecidableEq, Repr

def Arith.of {V : Type u} [Add V] [Sub V] [Mul V] : Arith → V → V → V
  | .add, x, y => x + y
  | .sub, x, y => x - y
  | .mul, x, y => x * y

/-- What is applied to a list of operands. A generic operator waits for its dimension, a concrete
one has it and was left unevaluated. -/
inductive Head
  | tuple
  | generic (o : Operator)
  | concrete (o : OperatorAt)
  | derivative (a : Axis)
  deriving DecidableEq, Repr

inductive Expr (κ : Type)
  | leaf (l : Leaf κ)
  | arith (op : Arith) (l r : Expr κ)
  | node (h : Head) (args : List (Expr κ))

namespace Expr

variable {κ : Type}

@[match_pattern] abbrev number (c : κ) : Expr κ := .leaf (.number c)
@[match_pattern] abbrev symbol (s : String) : Expr κ := .leaf (.symbol s)
@[match_pattern] abbrev field (s : String) : Expr κ := .leaf (.field s)
@[match_pattern] abbrev constant (s : String) : Expr κ := .leaf (.constant s)
@[match_pattern] abbrev function (f : Argument) : Expr κ := .leaf (.function f)
@[match_pattern] abbrev component (f : Argument) (i : Nat) : Expr κ := .leaf (.component f i)
@[match_pattern] abbrev add (l r : Expr κ) : Expr κ := .arith .add l r
@[match_pattern] abbrev sub (l r : Expr κ) : Expr κ := .arith .sub l r
@[match_pattern] abbrev mul (l r : Expr κ) : Expr κ := .arith .mul l r
@[match_pattern] abbrev tuple (items : List (Expr κ)) : Expr κ := .node .tuple items
@[match_pattern] abbrev generic (o : Operator) (args : List (Expr κ)) : Expr κ :=
  .node (.generic o) args
@[match_pattern] abbrev concrete (o : OperatorAt) (args : List (Expr κ)) : Expr κ :=
  .node (.concrete o) args
@[match_pattern] abbrev derivative (a : Axis) (args : List (Expr κ)) : Expr κ :=
  .node (.derivative a) args

def neg [One κ] [Neg κ] (e : Expr κ) : Expr κ := mul (number (-1)) e

mutual

theorem induct {motive : Expr κ → Prop} (leaf : ∀ l, motive (.leaf l))
    (arith : ∀ op l r, motive l → motive r → motive (.arith op l r))
    (node : ∀ h args, (∀ a ∈ args, motive a) → motive (.node h args)) : ∀ e, motive e
  | .leaf l => leaf l
  | .arith op l r => arith op l r (induct leaf arith node l) (induct leaf arith node r)
  | .node h args => node h args (induct_args leaf arith node args)

theorem induct_args {motive : Expr κ → Prop} (leaf : ∀ l, motive (.leaf l))
    (arith : ∀ op l r, motive l → motive r → motive (.arith op l r))
    (node : ∀ h args, (∀ a ∈ args, motive a) → motive (.node h args)) :
    ∀ (args : List (Expr κ)), ∀ a ∈ args, motive a
  | e :: _, _, .head _ => induct leaf arith node e
  | _ :: es, a, .tail _ ha => induct_args leaf arith node es a ha

end

attribute [elab_as_elim, induction_eliminator] induct

section Fold

variable {β : Type u} (leaf : Leaf κ → β) (arith : Arith → β → β → β) (node : Head → List β → β)

mutual

/-- Replaces every leaf and every constructor by a value and an operation on values. -/
def fold : Expr κ → β
  | .leaf l => leaf l
  | .arith op l r => arith op (fold l) (fold r)
  | .node h args => node h (foldArgs args)

def foldArgs : List (Expr κ) → List β
  | [] => []
  | e :: es => fold e :: foldArgs es

end

theorem foldArgs_eq_map (args : List (Expr κ)) :
    foldArgs leaf arith node args = args.map (fold leaf arith node) := by
  induction args with
  | nil => rfl
  | cons e es ih => simp [foldArgs, ih]

@[simp] theorem fold_leaf (l : Leaf κ) : fold leaf arith node (.leaf l) = leaf l := rfl

@[simp] theorem fold_arith (op : Arith) (l r : Expr κ) :
    fold leaf arith node (.arith op l r) =
      arith op (fold leaf arith node l) (fold leaf arith node r) := rfl

@[simp] theorem fold_node (h : Head) (args : List (Expr κ)) :
    fold leaf arith node (.node h args) = node h (args.map (fold leaf arith node)) := by
  rw [fold, foldArgs_eq_map]

end Fold

def size (e : Expr κ) : Nat :=
  e.fold (fun _ => 1) (fun _ l r => l + r + 1) (fun _ args => args.foldr (· + ·) 1)

@[simp] theorem size_leaf (l : Leaf κ) : (leaf l).size = 1 := rfl

@[simp] theorem size_arith (op : Arith) (l r : Expr κ) :
    (arith op l r).size = l.size + r.size + 1 := rfl

def totalSize (es : List (Expr κ)) : Nat := es.foldr (fun e n => e.size + n) 0

@[simp] theorem totalSize_nil : totalSize ([] : List (Expr κ)) = 0 := rfl

@[simp] theorem totalSize_cons (e : Expr κ) (es : List (Expr κ)) :
    totalSize (e :: es) = e.size + totalSize es := rfl

@[simp] theorem totalSize_append (es es' : List (Expr κ)) :
    totalSize (es ++ es') = totalSize es + totalSize es' := by
  induction es with
  | nil => simp
  | cons e es ih => simp [ih, Nat.add_assoc]

@[simp] theorem size_node (h : Head) (args : List (Expr κ)) :
    (node h args).size = totalSize args + 1 := by
  rw [size, fold_node]
  induction args with
  | nil => rfl
  | cons e es ih => simp only [List.map_cons, List.foldr_cons, totalSize_cons, ih]; rfl

section Equality

variable [BEq κ]

mutual

def beq : Expr κ → Expr κ → Bool
  | .leaf l, .leaf l' => l == l'
  | .arith op l r, .arith op' l' r' => op == op' && beq l l' && beq r r'
  | .node h args, .node h' args' => h == h' && beqArgs args args'
  | _, _ => false

def beqArgs : List (Expr κ) → List (Expr κ) → Bool
  | [], [] => true
  | e :: es, e' :: es' => beq e e' && beqArgs es es'
  | _, _ => false

end

instance : BEq (Expr κ) := ⟨beq⟩

theorem beqArgs_eq_beq : ∀ es es' : List (Expr κ), beqArgs es es' = (es == es')
  | [], [] => rfl
  | [], _ :: _ => rfl
  | _ :: _, [] => rfl
  | e :: es, e' :: es' => by
    rw [beqArgs, beqArgs_eq_beq es es', List.cons_beq_cons]; rfl

@[simp] theorem leaf_beq_leaf (l l' : Leaf κ) : (leaf l == leaf l') = (l == l') := rfl

@[simp] theorem arith_beq_arith (op op' : Arith) (l r l' r' : Expr κ) :
    (arith op l r == arith op' l' r') = (op == op' && l == l' && r == r') := rfl

@[simp] theorem node_beq_node (h h' : Head) (args args' : List (Expr κ)) :
    (node h args == node h' args') = (h == h' && args == args') := by
  rw [← beqArgs_eq_beq]; rfl

@[simp] theorem leaf_beq_arith (l : Leaf κ) (op : Arith) (a b : Expr κ) :
    (leaf l == arith op a b) = false := rfl

@[simp] theorem leaf_beq_node (l : Leaf κ) (h : Head) (args : List (Expr κ)) :
    (leaf l == node h args) = false := rfl

@[simp] theorem arith_beq_leaf (op : Arith) (a b : Expr κ) (l : Leaf κ) :
    (arith op a b == leaf l) = false := rfl

@[simp] theorem arith_beq_node (op : Arith) (a b : Expr κ) (h : Head) (args : List (Expr κ)) :
    (arith op a b == node h args) = false := rfl

@[simp] theorem node_beq_leaf (h : Head) (args : List (Expr κ)) (l : Leaf κ) :
    (node h args == leaf l) = false := rfl

@[simp] theorem node_beq_arith (h : Head) (args : List (Expr κ)) (op : Arith) (a b : Expr κ) :
    (node h args == arith op a b) = false := rfl

end Equality

section LawfulEquality

variable [BEq κ]

mutual

theorem eq_of_beq [LawfulBEq κ] : ∀ {e e' : Expr κ}, beq e e' = true → e = e'
  | .leaf l, .leaf l', h => congrArg leaf (LawfulBEq.eq_of_beq h)
  | .arith op l r, .arith op' l' r', h => by
    simp only [beq, Bool.and_eq_true, beq_iff_eq] at h
    rw [h.1.1, eq_of_beq h.1.2, eq_of_beq h.2]
  | .node k args, .node k' args', h => by
    simp only [beq, Bool.and_eq_true, beq_iff_eq] at h
    rw [h.1, eq_of_beqArgs h.2]

theorem eq_of_beqArgs [LawfulBEq κ] : ∀ {es es' : List (Expr κ)}, beqArgs es es' = true → es = es'
  | [], [], _ => rfl
  | e :: es, e' :: es', h => by
    simp only [beqArgs, Bool.and_eq_true] at h
    rw [eq_of_beq h.1, eq_of_beqArgs h.2]

end

mutual

theorem beq_self [ReflBEq κ] : ∀ e : Expr κ, beq e e = true
  | .leaf l => by simp [beq]
  | .arith op l r => by simp [beq, beq_self l, beq_self r]
  | .node h args => by simp [beq, beqArgs_self args]

theorem beqArgs_self [ReflBEq κ] : ∀ es : List (Expr κ), beqArgs es es = true
  | [] => rfl
  | e :: es => by simp [beqArgs, beq_self e, beqArgs_self es]

end

instance [ReflBEq κ] : ReflBEq (Expr κ) where
  rfl := beq_self _

instance [LawfulBEq κ] : LawfulBEq (Expr κ) where
  eq_of_beq := eq_of_beq

end LawfulEquality

end Expr

end VariationalForms
