import Mathlib.Data.List.Induction
import VariationalForms.Proofs.Order

/-! The walk through an integrand.
The walk keeps a stack of pending expressions. With each step a node moves from the stack to what was
visited and its operands take its place, so the walk ends after as many steps as there are nodes
(`Walk.after_totalSize`). Every node has an address, the numbers of the operands that lead to it from
the outside in. The walk visits the nodes at all addresses in ascending order, and whatever is asked of
the nodes is answered in the order of the first answers (`Expr.walk_in_preorder`).
-/

set_option autoImplicit false

namespace VariationalForms

variable {κ : Type}

/-- What was visited, and what is pending; the last pending expression is the top of the stack. -/
structure Walk (κ : Type) where
  visited : List (Expr κ)
  stack : List (Expr κ)

theorem Expr.totalSize_reverse (es : List (Expr κ)) : totalSize es.reverse = totalSize es := by
  induction es with
  | nil => rfl
  | cons e es ih => simp [ih, Nat.add_comm]

namespace Walk

variable {w w' : Walk κ}

def start (e : Expr κ) : Walk κ := ⟨[], [e]⟩

/-- Visits the top of the stack and puts its operands in its place, the first one on top. There is no
step when nothing is pending. -/
def step (w : Walk κ) : Option (Walk κ) :=
  w.stack.getLast?.map fun e => ⟨w.visited ++ [e], w.stack.dropLast ++ e.children.reverse⟩

def after : Nat → Walk κ → Option (Walk κ)
  | 0, w => some w
  | n + 1, w => w.step.bind (after n)

def outcome (w : Walk κ) : List (Expr κ) := w.visited ++ w.stack.reverse.flatMap Expr.nodes

theorem step_eq_none_iff : w.step = none ↔ w.stack = [] := by
  rw [step, Option.map_eq_none_iff, List.getLast?_eq_none_iff]

theorem exists_of_step (h : w.step = some w') :
    ∃ e below, w.stack = below ++ [e] ∧ w' = ⟨w.visited ++ [e], below ++ e.children.reverse⟩ := by
  obtain ⟨e, he, rfl⟩ := Option.map_eq_some_iff.1 h
  obtain ⟨below, hstack⟩ := List.getLast?_eq_some_iff.1 he
  exact ⟨e, below, hstack, by rw [hstack, List.dropLast_concat]⟩

theorem outcome_step (h : w.step = some w') : w'.outcome = w.outcome := by
  obtain ⟨e, below, hstack, rfl⟩ := exists_of_step h
  simp [outcome, hstack, Expr.nodes_eq e]

theorem totalSize_step (h : w.step = some w') :
    Expr.totalSize w.stack = Expr.totalSize w'.stack + 1 := by
  obtain ⟨e, below, hstack, rfl⟩ := exists_of_step h
  simp [hstack, Expr.totalSize_reverse, Expr.size_eq e, Nat.add_assoc]

/-- The walk goes on until nothing is pending, with one step for each node. -/
theorem after_totalSize (w : Walk κ) :
    w.after (Expr.totalSize w.stack) = some ⟨w.outcome, []⟩ := by
  generalize hn : Expr.totalSize w.stack = n
  induction n generalizing w with
  | zero =>
    cases hstep : w.step with
    | none =>
      obtain ⟨visited, stack⟩ := w
      obtain rfl : stack = [] := step_eq_none_iff.1 hstep
      simp [after, outcome]
    | some w' =>
      have hsize := totalSize_step hstep
      omega
  | succ n ih =>
    cases hstep : w.step with
    | none =>
      rw [step_eq_none_iff.1 hstep] at hn
      cases hn
    | some w' =>
      have hsize := totalSize_step hstep
      rw [after, hstep, Option.bind_some, ih w' (by omega), outcome_step hstep]

end Walk

/-- The list has the answers to a question that is asked of several things, each answer once, and of
two answers the one that is given sooner comes first. -/
structure FirstAnswers {α β : Type} [BEq β] (f : α → Option β) (xs : List α) (ys : List β) : Prop where
  mem_iff : ∀ b, b ∈ ys ↔ ∃ a ∈ xs, f a = some b
  nodup : ys.Nodup
  ascending : ys.Pairwise fun b c => xs.findIdx (f · == some b) < xs.findIdx (f · == some c)

section FirstAnswers

variable {α β : Type} [BEq β] [LawfulBEq β] {f : α → Option β} {xs : List α}

theorem findIdx_append_of_mem {b : β} (h : b ∈ xs.filterMap f) (ys : List α) :
    (xs ++ ys).findIdx (f · == some b) = xs.findIdx (f · == some b) := by
  obtain ⟨a, ha, hfa⟩ := List.mem_filterMap.1 h
  rw [List.findIdx_append, if_pos (List.findIdx_lt_length.2 ⟨a, ha, by simp [hfa]⟩)]

theorem findIdx_lt_of_mem_of_not_mem {b c : β} (hb : b ∈ xs.filterMap f) (hc : c ∉ xs.filterMap f)
    (ys : List α) :
    (xs ++ ys).findIdx (f · == some b) < (xs ++ ys).findIdx (f · == some c) := by
  obtain ⟨a, ha, hfa⟩ := List.mem_filterMap.1 hb
  have hlt : xs.findIdx (f · == some b) < xs.length :=
    List.findIdx_lt_length.2 ⟨a, ha, by simp [hfa]⟩
  have hge : ¬ xs.findIdx (f · == some c) < xs.length := fun h => by
    obtain ⟨a, ha, hfa⟩ := List.findIdx_lt_length.1 h
    exact hc (List.mem_filterMap.2 ⟨a, ha, by simpa using hfa⟩)
  rw [findIdx_append_of_mem hb, List.findIdx_append, if_neg hge]
  omega

theorem pairwise_eraseDups (f : α → Option β) (xs : List α) :
    (xs.filterMap f).eraseDups.Pairwise fun b c =>
      xs.findIdx (f · == some b) < xs.findIdx (f · == some c) := by
  induction xs using List.reverseRecOn with
  | nil => exact .nil
  | append_singleton xs x ih =>
    have hold : (xs.filterMap f).eraseDups.Pairwise fun b c =>
        (xs ++ [x]).findIdx (f · == some b) < (xs ++ [x]).findIdx (f · == some c) := by
      refine ih.imp_of_mem fun hb hc h => ?_
      rwa [findIdx_append_of_mem (List.mem_eraseDups.1 hb),
        findIdx_append_of_mem (List.mem_eraseDups.1 hc)]
    rw [List.filterMap_append, List.eraseDups_append, List.pairwise_append]
    cases hx : f x with
    | none => simpa [hx, List.removeAll] using hold
    | some c =>
      by_cases hc : c ∈ xs.filterMap f
      · have hnone : (List.filterMap f [x]).removeAll (xs.filterMap f) = [] := by
          simpa [hx, List.removeAll] using hc
        simpa [hnone] using hold
      · have hnew : (List.filterMap f [x]).removeAll (xs.filterMap f) = [c] := by
          simpa [hx, List.removeAll] using hc
        have hone : [c].eraseDups = [c] := by rw [List.eraseDups_cons]; rfl
        rw [hnew, hone]
        refine ⟨hold, List.pairwise_singleton _ _, fun b hb d hd => ?_⟩
        obtain rfl := List.mem_singleton.1 hd
        exact findIdx_lt_of_mem_of_not_mem (List.mem_eraseDups.1 hb) hc [x]

theorem firstAnswers_eraseDups (f : α → Option β) (xs : List α) :
    FirstAnswers f xs (xs.filterMap f).eraseDups :=
  ⟨fun _ => by rw [List.mem_eraseDups, List.mem_filterMap], nodup_eraseDups _,
    pairwise_eraseDups f xs⟩

end FirstAnswers

namespace Expr

theorem induct_children {motive : Expr κ → Prop}
    (step : ∀ e, (∀ c ∈ e.children, motive c) → motive e) (e : Expr κ) : motive e := by
  induction e with
  | leaf l => exact step _ nofun
  | arith op l r hl hr => exact step _ (by simp [children, hl, hr])
  | node h args ih => exact step _ ih

/-- The node at an address: the numbers of the operands to go into, from the outside in. -/
def nodeAt? : Expr κ → List Nat → Option (Expr κ)
  | e, [] => some e
  | e, i :: p => e.children[i]?.bind fun c => c.nodeAt? p

def numbered (pss : List (List (List Nat))) : List (List Nat) :=
  pss.zipIdx.flatMap fun ps => ps.1.map (ps.2 :: ·)

def addresses (e : Expr κ) : List (List Nat) :=
  e.fold (fun _ => [[]]) (fun _ l r => [] :: numbered [l, r]) fun _ args => [] :: numbered args

theorem addresses_eq (e : Expr κ) :
    e.addresses = [] :: e.children.zipIdx.flatMap fun c => c.1.addresses.map (c.2 :: ·) := by
  have hnumbered : e.addresses = [] :: numbered (e.children.map addresses) := by
    cases e with
    | leaf l => rfl
    | arith op l r => rfl
    | node h args => rw [addresses, fold_node]; rfl
  rw [hnumbered, numbered, List.zipIdx_map, List.flatMap_map]
  rfl

theorem mem_addresses {e : Expr κ} {p : List Nat} : p ∈ e.addresses ↔ (e.nodeAt? p).isSome := by
  induction p generalizing e with
  | nil => simp [addresses_eq e, nodeAt?]
  | cons i p ih =>
    rw [addresses_eq, nodeAt?]
    cases hc : e.children[i]? with
    | none => simp [List.mem_zipIdx_iff_getElem?, hc]
    | some c => simp [List.mem_zipIdx_iff_getElem?, hc, ih]

/-- A node comes before its operands, and what is in an operand before what is in a later one. -/
theorem pairwise_addresses (e : Expr κ) : e.addresses.Pairwise (· < ·) := by
  induction e using induct_children with
  | step e ih =>
    have hnumbers : e.children.zipIdx.Pairwise fun c d => c.2 < d.2 := by
      rw [← List.pairwise_map (f := Prod.snd) (R := (· < ·)), List.zipIdx_map_snd]
      exact List.pairwise_lt_range' _ (by omega)
    rw [addresses_eq, List.pairwise_cons, List.pairwise_flatMap]
    refine ⟨fun p hp => ?_, fun c hc => ?_, hnumbers.imp fun {c d} hcd p hp q hq => ?_⟩
    · obtain ⟨c, -, hp⟩ := List.mem_flatMap.1 hp
      obtain ⟨p, -, rfl⟩ := List.mem_map.1 hp
      exact List.nil_lt_cons _ _
    · have hchild := List.mem_of_getElem? (List.mem_zipIdx_iff_getElem?.1 hc)
      refine List.pairwise_map.2 ((ih c.1 hchild).imp fun h => ?_)
      exact List.cons_lt_cons_iff.2 (.inr ⟨rfl, h⟩)
    · obtain ⟨p, -, rfl⟩ := List.mem_map.1 hp
      obtain ⟨q, -, rfl⟩ := List.mem_map.1 hq
      exact List.cons_lt_cons_iff.2 (.inl hcd)

theorem map_nodeAt?_addresses (e : Expr κ) : e.addresses.map e.nodeAt? = e.nodes.map some := by
  induction e using induct_children with
  | step e ih =>
    have hchild : ∀ c ∈ e.children.zipIdx,
        (c.1.addresses.map (c.2 :: ·)).map e.nodeAt? = c.1.nodes.map some := by
      intro c hc
      have hget := List.mem_zipIdx_iff_getElem?.1 hc
      rw [← ih c.1 (List.mem_of_getElem? hget), List.map_map]
      refine List.map_congr_left fun p _ => ?_
      rw [Function.comp_apply, nodeAt?, hget, Option.bind_some]
    have hfirst : e.children.zipIdx.flatMap (fun c => c.1.nodes.map some) =
        e.children.flatMap fun c => c.nodes.map some := by
      conv_rhs => rw [← List.zipIdx_map_fst 0 e.children, List.flatMap_map]
    rw [addresses_eq, nodes_eq, List.map_cons, List.map_cons, List.map_flatMap, List.map_flatMap,
      List.flatMap_congr hchild, hfirst, nodeAt?]

/-- The walk ends with as many steps as there are nodes. It visits an integrand before its operands
and those from left to right, the node at every address once. Operators, functions and fields are
listed without repetition in the order in which the walk first meets them. -/
theorem walk_in_preorder (e : Expr κ) :
    (Walk.start e).after e.size = some ⟨e.preorder, []⟩ ∧
      e.preorder = e :: e.children.flatMap preorder ∧
      (∃ ps : List (List Nat), ps.Pairwise (· < ·) ∧ (∀ p, p ∈ ps ↔ (e.nodeAt? p).isSome) ∧
        ps.map e.nodeAt? = e.preorder.map some) ∧
      FirstAnswers generic? e.preorder e.operators ∧
      FirstAnswers function? e.preorder e.functions ∧
      FirstAnswers field? e.preorder e.fields := by
  have hnodes : (preorder : Expr κ → _) = nodes := funext preorder_eq_nodes
  refine ⟨?_, ?_, ⟨e.addresses, e.pairwise_addresses, fun _ => mem_addresses, ?_⟩,
    firstAnswers_eraseDups _ _, firstAnswers_eraseDups _ _, firstAnswers_eraseDups _ _⟩
  · have hend := Walk.after_totalSize (Walk.start e)
    simpa [Walk.start, Walk.outcome, hnodes] using hend
  · rw [hnodes]
    exact nodes_eq e
  · rw [hnodes]
    exact e.map_nodeAt?_addresses

end Expr

end VariationalForms
