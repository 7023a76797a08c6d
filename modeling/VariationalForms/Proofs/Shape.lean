import VariationalForms.Expr.Traversal

/-! Shapes of integrands: a number, a vector of so many components, or neither.
The shape is read off the structure of the integrand in a given dimension. A product has one vector
at most among its factors, and an operator asks for operands of the shape that it is defined for.
-/

set_option autoImplicit false

namespace VariationalForms

/-- What is put together from parts that do not fit has the shape `ill`. -/
inductive Shape
  | ill
  | scalar
  | vector (n : Nat)
  deriving DecidableEq, Repr

namespace Shape

def sum : Shape → Shape → Shape
  | scalar, scalar => scalar
  | vector m, vector n => if m = n then vector m else ill
  | _, _ => ill

def product : Shape → Shape → Shape
  | scalar, s => s
  | s, scalar => s
  | _, _ => ill

def tuple (ss : List Shape) : Shape :=
  if ∀ s ∈ ss, s = scalar then vector ss.length else ill

theorem tuple_ne_ill {ss : List Shape} : tuple ss ≠ ill ↔ ∀ s ∈ ss, s = scalar := by
  unfold tuple
  split
  case isTrue h => exact ⟨fun _ => h, fun _ => by simp⟩
  case isFalse h => exact ⟨fun hne => absurd rfl hne, fun hall => absurd hall h⟩

@[simp] theorem ill_product (s : Shape) : product ill s = ill := by cases s <;> rfl

@[simp] theorem product_ill (s : Shape) : product s ill = ill := by cases s <;> rfl

@[simp] theorem ill_sum (s : Shape) : sum ill s = ill := by cases s <;> rfl

@[simp] theorem sum_ill (s : Shape) : sum s ill = ill := by cases s <;> rfl

theorem sum_ne_ill {s t : Shape} (h : sum s t ≠ ill) : s = t ∧ s ≠ ill := by
  cases s <;> cases t <;> simp_all [sum]

theorem sum_eq_scalar {s t : Shape} : sum s t = scalar ↔ s = scalar ∧ t = scalar := by
  cases s <;> cases t <;> simp [sum]
  split <;> simp

theorem product_eq_scalar {s t : Shape} : product s t = scalar ↔ s = scalar ∧ t = scalar := by
  cases s <;> cases t <;> simp [product]

end Shape

def Leaf.shape {κ : Type} : Leaf κ → Shape
  | .function f => f.space.shape?.elim .scalar .vector
  | _ => .scalar

def Arith.shape : Arith → Shape → Shape → Shape
  | .mul => Shape.product
  | _ => Shape.sum

theorem Shape.product_of_ne_scalar {s t : Shape} (hs : s ≠ scalar) (ht : t ≠ scalar) :
    product s t = ill := by
  cases s <;> cases t <;> simp_all [product]

theorem Arith.shape_eq_scalar {op : Arith} {s t : Shape} :
    op.shape s t = .scalar ↔ s = .scalar ∧ t = .scalar := by
  cases op with
  | mul => exact Shape.product_eq_scalar
  | _ => exact Shape.sum_eq_scalar

namespace Shape

def grad (d : Nat) : Shape → Shape
  | scalar => if d = 1 then scalar else vector d
  | _ => ill

def div (d : Nat) : Shape → Shape
  | scalar => if d = 1 then scalar else ill
  | vector n => if n = d then scalar else ill
  | ill => ill

def rot : Shape → Shape
  | vector 2 => scalar
  | _ => ill

def curl : Shape → Shape
  | vector 3 => vector 3
  | _ => ill

def dot (d : Nat) : Shape → Shape → Shape
  | scalar, scalar => scalar
  | vector m, vector n => if m = d ∧ n = d then scalar else ill
  | _, _ => ill

def cross : Nat → Shape → Shape → Shape
  | 2, vector 2, vector 2 => scalar
  | 3, vector 3, vector 3 => vector 3
  | _, _, _ => ill

@[simp] theorem dot_ill (d : Nat) (s : Shape) : dot d s ill = ill := by cases s <;> rfl

@[simp] theorem ill_cross (d : Nat) (s : Shape) : cross d ill s = ill := by
  unfold cross
  split <;> simp_all

@[simp] theorem cross_ill (d : Nat) (s : Shape) : cross d s ill = ill := by
  unfold cross
  split <;> simp_all

end Shape

/-- The shape of an operator applied to operands of given shapes. -/
def Operator.shape (o : Operator) (d : Nat) (ss : List Shape) : Shape :=
  if o.existsIn d then
    match o, ss with
    | .grad, [u] => u.grad d
    | .div, [u] => u.div d
    | .rot, [u] => u.rot
    | .curl, [u] => u.curl
    | .dot, [u, v] | .inner, [u, v] => u.dot d v
    | .cross, [u, v] => .cross d u v
    | _, _ => .ill
  else .ill

namespace Operator

-- One equation for each operator, so that a law of one operator need not open the whole table.

theorem shape_grad_eq (k : Nat) (s : Shape) :
    grad.shape k [s] = if grad.existsIn k then s.grad k else .ill := rfl

theorem shape_div_eq (k : Nat) (s : Shape) :
    div.shape k [s] = if div.existsIn k then s.div k else .ill := rfl

theorem shape_rot_eq (k : Nat) (s : Shape) :
    rot.shape k [s] = if rot.existsIn k then s.rot else .ill := rfl

theorem shape_curl_eq (k : Nat) (s : Shape) :
    curl.shape k [s] = if curl.existsIn k then s.curl else .ill := rfl

theorem shape_dot_eq (k : Nat) (s t : Shape) :
    dot.shape k [s, t] = if dot.existsIn k then s.dot k t else .ill := rfl

theorem shape_cross_eq (k : Nat) (s t : Shape) :
    cross.shape k [s, t] = if cross.existsIn k then .cross k s t else .ill := rfl

end Operator

/-- A generic operator stands in dimension `d`, a concrete one in its own. -/
def Head.shape (d : Nat) : Head → List Shape → Shape
  | .tuple, ss => .tuple ss
  | .generic o, ss => o.shape d ss
  | .concrete o, ss => o.operator.shape o.dim ss
  | .derivative _, [s] => s
  | .derivative _, _ => .ill

namespace Expr

variable {κ : Type}

def shape (d : Nat) (e : Expr κ) : Shape := e.fold Leaf.shape Arith.shape (Head.shape d)

@[simp] theorem shape_leaf (d : Nat) (l : Leaf κ) : (leaf l).shape d = l.shape := rfl

@[simp] theorem shape_arith (d : Nat) (op : Arith) (l r : Expr κ) :
    (arith op l r).shape d = op.shape (l.shape d) (r.shape d) := rfl

@[simp] theorem shape_node (d : Nat) (h : Head) (args : List (Expr κ)) :
    (node h args).shape d = h.shape d (args.map (shape d)) := by
  rw [shape, fold_node]; rfl

theorem shape_tuple_ne_ill {d : Nat} {items : List (Expr κ)} :
    (tuple items).shape d ≠ .ill ↔ ∀ e ∈ items, e.shape d = .scalar := by
  rw [shape_node, Head.shape, Shape.tuple_ne_ill, List.forall_mem_map]

end Expr

theorem Shape.cross_ne_ill {k : Nat} {s t : Shape} :
    cross k s t ≠ ill ↔
      k = 2 ∧ s = vector 2 ∧ t = vector 2 ∨ k = 3 ∧ s = vector 3 ∧ t = vector 3 := by
  constructor
  · intro h
    unfold cross at h
    split at h
    · exact .inl ⟨rfl, rfl, rfl⟩
    · exact .inr ⟨rfl, rfl, rfl⟩
    · exact absurd rfl h
  · rintro (⟨rfl, rfl, rfl⟩ | ⟨rfl, rfl, rfl⟩) <;> simp [cross]

namespace Operator

theorem shape_grad_ne_ill {k : Nat} {s : Shape} :
    grad.shape k [s] ≠ .ill ↔ grad.existsIn k ∧ s = .scalar := by
  cases s with
  | scalar => by_cases h : k = 1 <;> simp [shape_grad_eq, Shape.grad, h]
  | _ => simp [shape_grad_eq, Shape.grad]

theorem shape_div_ne_ill {k : Nat} {s : Shape} :
    div.shape k [s] ≠ .ill ↔ div.existsIn k ∧ (k = 1 ∧ s = .scalar ∨ s = .vector k) := by
  cases s with
  | scalar => by_cases h : k = 1 <;> simp [shape_div_eq, Shape.div, h]
  | vector n => by_cases h : n = k <;> simp [shape_div_eq, Shape.div, h]
  | ill => simp [shape_div_eq, Shape.div]

theorem shape_rot_ne_ill {k : Nat} {s : Shape} :
    rot.shape k [s] ≠ .ill ↔ k = 2 ∧ s = .vector 2 := by
  cases s with
  | vector n => by_cases h : n = 2 <;> simp [shape_rot_eq, existsIn, Shape.rot, h]
  | _ => simp [shape_rot_eq, Shape.rot]

theorem shape_curl_ne_ill {k : Nat} {s : Shape} :
    curl.shape k [s] ≠ .ill ↔ k = 3 ∧ s = .vector 3 := by
  cases s with
  | vector n => by_cases h : n = 3 <;> simp [shape_curl_eq, existsIn, Shape.curl, h]
  | _ => simp [shape_curl_eq, Shape.curl]

theorem shape_dot_ne_ill {k : Nat} {s t : Shape} :
    dot.shape k [s, t] ≠ .ill ↔ dot.existsIn k ∧
      (s = .scalar ∧ t = .scalar ∨ s = .vector k ∧ t = .vector k) := by
  cases s <;> cases t <;> simp [shape_dot_eq, Shape.dot]

theorem shape_div_eq_scalar {k : Nat} {s : Shape} (h : div.shape k [s] ≠ .ill) :
    div.shape k [s] = .scalar := by
  obtain ⟨hk, ⟨rfl, rfl⟩ | rfl⟩ := shape_div_ne_ill.1 h
  · rfl
  · simp [shape_div_eq, hk, Shape.div]

theorem shape_dot_eq_scalar {k : Nat} {s t : Shape} (h : dot.shape k [s, t] ≠ .ill) :
    dot.shape k [s, t] = .scalar := by
  obtain ⟨hk, ⟨rfl, rfl⟩ | ⟨rfl, rfl⟩⟩ := shape_dot_ne_ill.1 h <;>
    simp [shape_dot_eq, hk, Shape.dot]

theorem shape_cross_ne_ill {k : Nat} {s t : Shape} :
    cross.shape k [s, t] ≠ .ill ↔
      k = 2 ∧ s = .vector 2 ∧ t = .vector 2 ∨ k = 3 ∧ s = .vector 3 ∧ t = .vector 3 := by
  by_cases hk : cross.existsIn k
  · simp [shape_cross_eq, hk, Shape.cross_ne_ill]
  · simp only [shape_cross_eq, hk]
    simp only [existsIn, Bool.or_eq_true, beq_iff_eq, not_or] at hk
    simp [hk]

theorem length_of_shape {o : Operator} {k : Nat} {ss : List Shape} (h : o.shape k ss ≠ .ill) :
    ss.length = o.arity := by
  unfold shape at h
  split at h
  · split at h <;> first | rfl | exact absurd rfl h
  · exact absurd rfl h

end Operator

theorem Operator.existsIn_of_shape {o : Operator} {d : Nat} {ss : List Shape}
    (h : o.shape d ss ≠ .ill) : o.existsIn d := by
  unfold Operator.shape at h
  split at h
  · assumption
  · exact absurd rfl h

theorem Operator.shape_of_ill_mem {o : Operator} {d : Nat} {ss : List Shape} (h : .ill ∈ ss) :
    o.shape d ss = .ill := by
  unfold Operator.shape
  split
  · split
    case h_8 => rfl
    all_goals
      simp only [List.mem_cons, List.not_mem_nil, or_false] at h
      rcases h with rfl | rfl
    all_goals first | rfl | simp
  · rfl

theorem Head.shape_of_ill_mem {k : Head} {d : Nat} {ss : List Shape} (h : .ill ∈ ss) :
    k.shape d ss = .ill := by
  cases k with
  | tuple =>
    refine if_neg fun hall => ?_
    cases hall _ h
  | generic o => exact Operator.shape_of_ill_mem h
  | concrete o => exact Operator.shape_of_ill_mem h
  | derivative a =>
    unfold Head.shape
    split <;> simp_all

namespace Expr

variable {κ : Type}

theorem shape_of_mem_children {d : Nat} {e c : Expr κ} (he : e.shape d ≠ .ill)
    (hc : c ∈ e.children) : c.shape d ≠ .ill := by
  intro hill
  cases e with
  | leaf l => cases hc
  | arith op l r =>
    simp only [children, List.mem_cons, List.not_mem_nil, or_false] at hc
    rw [shape_arith] at he
    rcases hc with rfl | rfl <;> cases op <;> simp [Arith.shape, hill] at he
  | node h args =>
    rw [shape_node] at he
    exact he (Head.shape_of_ill_mem (hill ▸ List.mem_map_of_mem hc))

theorem shape_of_mem_nodes {d : Nat} {e n : Expr κ} (he : e.shape d ≠ .ill) (hn : n ∈ e.nodes) :
    n.shape d ≠ .ill := by
  have hall : ∀ n ∈ e.nodes, n.shape d ≠ .ill := by
    clear hn
    induction e with
    | leaf l => exact forall_mem_nodes.2 ⟨he, by simp [children]⟩
    | arith op l r hl hr =>
      refine forall_mem_nodes.2 ⟨he, fun c hc => ?_⟩
      have hcs := shape_of_mem_children he hc
      simp only [children, List.mem_cons, List.not_mem_nil, or_false] at hc
      rcases hc with rfl | rfl
      · exact hl hcs
      · exact hr hcs
    | node h args ih =>
      exact forall_mem_nodes.2 ⟨he, fun c hc => ih c hc (shape_of_mem_children he hc)⟩
  exact hall n hn

end Expr

end VariationalForms
