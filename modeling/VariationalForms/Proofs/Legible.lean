import Mathlib.Data.List.Basic
import VariationalForms.Proofs.Nodes
import VariationalForms.Proofs.Shape

/-! Integrands whose vector operands are seen as vectors.
The rules of the dot and the inner product, and on a line that of the divergence, take an operand
without visible parts for a number. An integrand is legible when this never happens to a vector.
-/

set_option autoImplicit false

namespace VariationalForms

namespace Operator

/-- Whether the outcome of a rule has visible parts, given which operands have them. -/
def showsParts : Operator → Nat → List Bool → Bool
  | .grad, d, [_] => d != 1
  | .curl, _, [p] => p
  | .cross, d, [p, q] => d == 3 && p && q
  | _, _, _ => false

/-- Whether the rule takes vectors for numbers, given the shapes of the operands and which of them
have visible parts. -/
def misreads : Operator → Nat → List (Shape × Bool) → Bool
  | .div, d, [(s, p)] => d == 1 && s != .scalar && !p
  | .dot, _, [(s, p), (_, q)] | .inner, _, [(s, p), (_, q)] => s != .scalar && !p && !q
  | _, _, _ => false

theorem of_showsParts {o : Operator} {d : Nat} {ps : List Bool} (h : o.showsParts d ps = true) :
    o = .grad ∧ d ≠ 1 ∨ o = .curl ∨ o = .cross ∧ d = 3 := by
  unfold showsParts at h
  split at h <;> simp_all

theorem showsParts_of_scalar {o : Operator} {d : Nat} {ss : List Shape} (h : o.shape d ss = .scalar)
    (ps : List Bool) : o.showsParts d ps = false := by
  refine Bool.eq_false_iff.2 fun hps => ?_
  have hill : o.shape d ss ≠ .ill := by simp [h]
  have hlen := length_of_shape hill
  rcases of_showsParts hps with ⟨rfl, hd⟩ | rfl | ⟨rfl, rfl⟩
  · obtain ⟨s, rfl⟩ := List.length_eq_one_iff.1 hlen
    obtain ⟨hexists, rfl⟩ := shape_grad_ne_ill.1 hill
    simp [shape, hexists, Shape.grad, hd] at h
  · obtain ⟨s, rfl⟩ := List.length_eq_one_iff.1 hlen
    obtain ⟨rfl, rfl⟩ := shape_curl_ne_ill.1 hill
    cases h
  · obtain ⟨s, t, rfl⟩ := List.length_eq_two.1 hlen
    rcases shape_cross_ne_ill.1 hill with ⟨hd, -, -⟩ | ⟨-, rfl, rfl⟩
    · cases hd
    · cases h

theorem showsParts_of_vector {o : Operator} {d n : Nat} {sps : List (Shape × Bool)}
    (h : o.shape d (sps.map Prod.fst) = .vector n)
    (hsps : ∀ q ∈ sps, q.1 ≠ .scalar → q.2 = true) : o.showsParts d (sps.map Prod.snd) = true := by
  have hill : o.shape d (sps.map Prod.fst) ≠ .ill := by simp [h]
  have hlen := length_of_shape hill
  rw [List.length_map] at hlen
  match o, sps, hlen with
  | grad, [(s, p)], _ =>
    obtain ⟨-, rfl⟩ := shape_grad_ne_ill.1 hill
    have hd : d ≠ 1 := by
      rintro rfl
      cases h
    simp [showsParts, hd]
  | curl, [(s, p)], _ =>
    obtain ⟨-, rfl⟩ := shape_curl_ne_ill.1 hill
    exact hsps (.vector 3, p) (.head _) (by simp)
  | cross, [(s, p), (t, q)], _ =>
    rcases shape_cross_ne_ill.1 hill with ⟨rfl, rfl, rfl⟩ | ⟨rfl, rfl, rfl⟩
    · cases h
    · have hp : p = true := hsps (.vector 3, p) (.head _) (by simp)
      have hq : q = true := hsps (.vector 3, q) (.tail _ (.head _)) (by simp)
      simp [showsParts, hp, hq]
  | div, [(s, p)], _ => cases h.symm.trans (shape_div_eq_scalar hill)
  | rot, [(s, p)], _ =>
    obtain ⟨rfl, rfl⟩ := shape_rot_ne_ill.1 hill
    cases h
  | dot, [(s, p), (t, q)], _ => cases h.symm.trans (shape_dot_eq_scalar hill)
  | inner, [(s, p), (t, q)], _ => cases h.symm.trans (shape_dot_eq_scalar hill)

theorem misreads_of_showsParts {o : Operator} {d : Nat} {sps : List (Shape × Bool)}
    (hsps : ∀ q ∈ sps, q.1 ≠ .scalar → q.2 = true) : o.misreads d sps = false := by
  unfold misreads
  split
  all_goals try rfl
  all_goals
    have h := hsps _ (.head _)
    simp_all

end Operator

namespace Expr

variable {κ : Type}

mutual

/-- Whether an integrand has visible parts once it is resolved. A derivative goes through to the
parts only when the operand is resolved before. -/
def showsParts (d : Nat) : Expr κ → Bool
  | .function f => f.space.shape?.isSome
  | .tuple _ => true
  | .generic o args => o.showsParts d (showsPartsArgs d args)
  | .derivative _ [u] => u.containsGeneric && u.showsParts d
  | _ => false

def showsPartsArgs (d : Nat) : List (Expr κ) → List Bool
  | [] => []
  | e :: es => showsParts d e :: showsPartsArgs d es

end

theorem showsPartsArgs_eq_map (d : Nat) (es : List (Expr κ)) :
    showsPartsArgs d es = es.map (showsParts d) := by
  induction es with
  | nil => rfl
  | cons e es ih => rw [showsPartsArgs, ih, List.map_cons]

theorem showsParts_generic (d : Nat) (o : Operator) (args : List (Expr κ)) :
    (generic o args).showsParts d = o.showsParts d (args.map (showsParts d)) := by
  rw [← showsPartsArgs_eq_map]; rfl

def misreads (d : Nat) : Expr κ → Bool
  | .generic o args => o.misreads d (args.map fun u => (u.shape d, u.showsParts d))
  | _ => false

/-- No operator of the integrand takes a vector for a number. -/
def Legible (d : Nat) (e : Expr κ) : Prop := ∀ n ∈ e.nodes, n.misreads d = false

instance (d : Nat) (e : Expr κ) : Decidable (e.Legible d) := by
  unfold Legible; infer_instance

theorem legible_leaf (d : Nat) (l : Leaf κ) : (leaf l).Legible d := by
  simp [Legible, nodes, misreads]

theorem legible_arith {d : Nat} {op : Arith} {l r : Expr κ} :
    (arith op l r).Legible d ↔ l.Legible d ∧ r.Legible d := by
  rw [Legible, forall_mem_nodes]
  simp [misreads, children, Legible]

theorem legible_node {d : Nat} {h : Head} {args : List (Expr κ)} :
    (node h args).Legible d ↔ (node h args).misreads d = false ∧ ∀ e ∈ args, e.Legible d :=
  forall_mem_nodes

/-- What is written out as a vector: a tuple, a function or an operator. -/
def isWrittenOut : Expr κ → Bool
  | .tuple _ => true
  | .function _ => true
  | .generic _ _ => true
  | _ => false

/-- The vectors under the operators of an integrand are written out. -/
def WrittenOut (d : Nat) (e : Expr κ) : Prop :=
  ∀ o args, .generic o args ∈ e.nodes → ∀ u ∈ args, u.shape d = .scalar ∨ u.isWrittenOut

theorem WrittenOut.of_mem_nodes {d : Nat} {e n : Expr κ} (h : e.WrittenOut d) (hn : n ∈ e.nodes) :
    n.WrittenOut d :=
  fun o args hm => h o args (nodes_subset hn hm)

theorem WrittenOut.of_mem_children {d : Nat} {e u : Expr κ} (h : e.WrittenOut d)
    (hu : u ∈ e.children) : u.WrittenOut d :=
  h.of_mem_nodes (mem_nodes_of_mem_children hu (self_mem_nodes u))

theorem showsParts_of_writtenOut {d n : Nat} {e : Expr κ} (hs : e.shape d = .vector n)
    (h : e.WrittenOut d) (hw : e.isWrittenOut) : e.showsParts d = true := by
  induction e generalizing n with
  | arith op l r => cases hw
  | leaf l =>
    cases l with
    | function f =>
      rw [shape_leaf] at hs
      cases hf : f.space.shape? <;> simp_all [Leaf.shape, showsParts]
    | _ => cases hw
  | node k args ih =>
    cases k with
    | tuple => rfl
    | concrete o => cases hw
    | derivative a => cases hw
    | generic o =>
      have hargs : ∀ u ∈ args, u.shape d ≠ .scalar → u.showsParts d = true := by
        intro u hu hne
        have hwhole : (generic o args).shape d ≠ .ill := by rw [hs]; simp
        have hill := shape_of_mem_children hwhole hu
        cases hshape : u.shape d with
        | ill => exact absurd hshape hill
        | scalar => exact absurd hshape hne
        | vector m =>
          exact ih u hu hshape (h.of_mem_children hu)
            ((h o args (self_mem_nodes _) u hu).resolve_left hne)
      rw [shape_node] at hs
      rw [showsParts_generic]
      let sps := args.map fun u => (u.shape d, u.showsParts d)
      have hs' : o.shape d (sps.map Prod.fst) = .vector n := by rw [List.map_map]; exact hs
      have hvec := Operator.showsParts_of_vector hs' (by simpa [sps] using hargs)
      rwa [List.map_map] at hvec

theorem legible_of_writtenOut {d : Nat} {e : Expr κ} (hs : e.shape d ≠ .ill)
    (h : e.WrittenOut d) : e.Legible d := by
  intro n hn
  unfold misreads
  split
  case h_2 => rfl
  case h_1 o args =>
    refine Operator.misreads_of_showsParts fun q hq hne => ?_
    obtain ⟨u, hu, rfl⟩ := List.mem_map.1 hq
    have hill := shape_of_mem_children (shape_of_mem_nodes hs hn) hu
    cases hshape : u.shape d with
    | ill => exact absurd hshape hill
    | scalar => exact absurd hshape hne
    | vector m =>
      exact showsParts_of_writtenOut hshape ((h.of_mem_nodes hn).of_mem_children hu)
        ((h o args hn u hu).resolve_left hne)

end Expr

end VariationalForms
