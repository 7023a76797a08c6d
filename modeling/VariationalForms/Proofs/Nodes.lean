import VariationalForms.Expr.Product
import VariationalForms.Expr.Traversal

/-! What holds of every node of an integrand.
A property that products have holds of all nodes of an integrand when it does for its factors,
however they are grouped.
-/

set_option autoImplicit false

namespace VariationalForms

namespace Expr

variable {κ : Type} {P : Expr κ → Prop}

theorem self_mem_nodes (e : Expr κ) : e ∈ e.nodes := by
  rw [nodes_eq]; exact .head _

theorem mem_nodes_of_mem_children {e c n : Expr κ} (hc : c ∈ e.children) (hn : n ∈ c.nodes) :
    n ∈ e.nodes := by
  rw [nodes_eq]
  exact .tail _ (List.mem_flatMap.2 ⟨c, hc, hn⟩)

theorem nodes_subset {e n : Expr κ} (hn : n ∈ e.nodes) : n.nodes ⊆ e.nodes := by
  have hall : ∀ n ∈ e.nodes, ∀ m ∈ n.nodes, m ∈ e.nodes := by
    clear hn
    induction e with
    | leaf l =>
      intro n hn
      cases List.mem_singleton.1 hn
      exact fun m hm => hm
    | arith op l r hl hr =>
      refine forall_mem_nodes.2 ⟨fun m hm => hm, fun c hc n hn m hm => ?_⟩
      refine mem_nodes_of_mem_children hc ?_
      simp only [children, List.mem_cons, List.not_mem_nil, or_false] at hc
      rcases hc with rfl | rfl
      · exact hl n hn m hm
      · exact hr n hn m hm
    | node h args ih =>
      refine forall_mem_nodes.2 ⟨fun m hm => hm, fun c hc n hn m hm => ?_⟩
      exact mem_nodes_of_mem_children hc (ih c hc n hn m hm)
  exact fun m hm => hall n hn m hm

theorem forall_nodes_arith {op : Arith} {l r : Expr κ} (hP : P (arith op l r)) :
    (∀ n ∈ (arith op l r).nodes, P n) ↔ (∀ n ∈ l.nodes, P n) ∧ ∀ n ∈ r.nodes, P n := by
  rw [forall_mem_nodes]
  simp [children, hP]

theorem forall_nodes_node {h : Head} {args : List (Expr κ)} :
    (∀ n ∈ (node h args).nodes, P n) ↔
      P (node h args) ∧ ∀ e ∈ args, ∀ n ∈ e.nodes, P n :=
  forall_mem_nodes

theorem forall_nodes_foldl_mul (hP : ∀ l r, P (mul l r)) (es : List (Expr κ)) (e : Expr κ) :
    (∀ n ∈ (es.foldl mul e).nodes, P n) ↔
      (∀ n ∈ e.nodes, P n) ∧ ∀ f ∈ es, ∀ n ∈ f.nodes, P n := by
  induction es generalizing e with
  | nil => simp
  | cons e' es ih =>
    rw [List.foldl_cons, ih, forall_nodes_arith (hP e e'), List.forall_mem_cons, and_assoc]

theorem forall_nodes_factors (hP : ∀ l r, P (mul l r)) (e : Expr κ) :
    (∀ n ∈ e.nodes, P n) ↔ ∀ f ∈ e.factors, ∀ n ∈ f.nodes, P n := by
  fun_induction factors e with
  | case1 l r hl hr => rw [forall_nodes_arith (hP l r), hl, hr, List.forall_mem_append]
  | case2 e h => simp

theorem forall_nodes_product? (hP : ∀ l r, P (mul l r)) {es : List (Expr κ)} {p : Expr κ}
    (h : product? es = some p) :
    (∀ n ∈ p.nodes, P n) ↔ ∀ f ∈ es, ∀ n ∈ f.nodes, P n := by
  cases es with
  | nil => cases h
  | cons e es =>
    cases h
    rw [List.forall_mem_cons]
    exact forall_nodes_foldl_mul hP es e

end Expr

end VariationalForms
