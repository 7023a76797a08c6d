import VariationalForms.Proofs.Conservation
import VariationalForms.Proofs.OnePass

/-! Derivatives stay chains.
Flattening names chains of derivatives only, so a derivative must never be left standing over a sum,
a product or a tuple. Taking derivatives never leaves one there, and neither does resolving, also
where an operator under a derivative becomes a sum. A chain can then only break where it ends on an
operator that was left unevaluated (`Expr.settled_resolveIn`).
-/

set_option autoImplicit false

namespace VariationalForms

variable {κ : Type}

namespace Expr

/-- A derivative is settled when it has one operand and could not be taken any further. -/
def isSettled : Expr κ → Bool
  | .derivative _ [u] => u.isAtomic
  | .derivative _ _ => false
  | _ => true

/-- All derivatives in an integrand are settled. -/
def Settled (e : Expr κ) : Prop := ∀ n ∈ e.nodes, n.isSettled

instance (e : Expr κ) : Decidable e.Settled :=
  inferInstanceAs (Decidable (∀ n ∈ e.nodes, n.isSettled))

theorem settled_leaf (l : Leaf κ) : (leaf l).Settled := by
  simp [Settled, nodes, isSettled]

theorem settled_arith {op : Arith} {l r : Expr κ} :
    (arith op l r).Settled ↔ l.Settled ∧ r.Settled :=
  forall_nodes_arith rfl

theorem settled_node {h : Head} {args : List (Expr κ)} :
    (node h args).Settled ↔ (node h args).isSettled ∧ ∀ e ∈ args, e.Settled :=
  forall_nodes_node

theorem exists_of_isSettled {a : Axis} {args : List (Expr κ)}
    (h : (derivative a args).isSettled) : ∃ u, args = [u] ∧ u.isAtomic := by
  match args with
  | [u] => exact ⟨u, rfl, h⟩
  | [] | _ :: _ :: _ => cases h

section Resolve

variable [Zero κ] {d : Nat} {e x : Expr κ}

theorem ruleClosed_settled : RuleClosed (Settled (κ := κ)) where
  zero := settled_leaf _
  component _ _ _ _ := settled_leaf _
  arith_iff := settled_arith
  tuple_iff := by simp [settled_node, isSettled]
  concrete hargs := settled_node.2 ⟨rfl, hargs⟩
  derivative ha he := settled_node.2 ⟨ha, List.forall_mem_singleton.2 he⟩

theorem settled_args {h : Head} {args rs : List (Expr κ)}
    (hrs : List.Forall₂ (fun e r => expand d e = .ok r ∧ (e.Settled → r.Settled)) args rs)
    (he : (node h args).Settled) : ∀ r ∈ rs, r.Settled :=
  forall_mem_of_forall₂ (hrs.imp fun _ _ h => h.2) (settled_node.1 he).2

theorem isSettled_of_expandArgs {h : Head} {args rs : List (Expr κ)} (he : (node h args).isSettled)
    (hd : ∀ a u, h = .derivative a → args = [u] → u.containsGeneric = false)
    (hrs : List.Forall₂ (fun e r => expand d e = .ok r) args rs) : (node h rs).isSettled := by
  cases h with
  | derivative a =>
    obtain ⟨u, rfl, hu⟩ := exists_of_isSettled he
    obtain ⟨v, rs, hv, hnil, rfl⟩ := List.forall₂_cons_left_iff.1 hrs
    cases hnil
    have hsame : expand d u = .ok u := expand_of_not_containsGeneric (hd a u rfl rfl)
    cases hsame.symm.trans hv
    exact hu
  | _ => rfl

theorem settled_expand (h : expand d e = .ok x) (he : e.Settled) : x.Settled := by
  refine expand_induct (P := fun e x => e.Settled → x.Settled) ?leaf ?arith ?derived ?generic ?node
    h he
  case leaf => exact fun l _ => settled_leaf l
  case arith =>
    intro op l r l' r' _ _ ihl ihr he
    obtain ⟨hl, hr⟩ := settled_arith.1 he
    exact settled_arith.2 ⟨ihl hl, ihr hr⟩
  case derived =>
    intro a u v _ _ ih he
    exact ruleClosed_settled.derive (ih ((settled_node.1 he).2 u (.head _))) a
  case generic =>
    intro o args rs x hrs hx he
    exact ruleClosed_settled.apply hx (settled_args hrs he)
  case node =>
    intro k args rs _ hd hrs he
    have hexpand := hrs.imp fun _ _ h => h.1
    exact settled_node.2 ⟨isSettled_of_expandArgs (settled_node.1 he).1 hd hexpand,
      settled_args hrs he⟩

theorem settled_of_resolveIn [One κ] {cs : Coefficients} (h : e.resolveIn cs d = .ok x)
    (he : e.Settled) : x.Settled :=
  Coefficients.closed_distribute settled_arith (fun _ _ _ hl hr => settled_arith.2 ⟨hl, hr⟩)
    (fun _ _ hl => hl) (fun _ _ ht => settled_expand (resolveTerm_eq_ok_iff.1 ht).2) h he

end Resolve

theorem isAtomic_of_isDerivative {e : Expr κ} (h : e.isDerivative) : e.isAtomic := by
  unfold isDerivative at h
  split at h
  · rfl
  · cases h

section Chain

variable [NumberText κ]

/-- Follows a chain to an operator that was left unevaluated. -/
def EndsUnevaluated (e : Expr κ) : Prop := ∃ axes o args, e.chain = .ok (axes, .concrete o args)

theorem endsUnevaluated_derivative {a : Axis} {u : Expr κ} :
    (derivative a [u]).EndsUnevaluated ↔ u.EndsUnevaluated := by
  unfold EndsUnevaluated
  rw [chain]
  constructor
  · rintro ⟨axes, o, args, h⟩
    obtain ⟨⟨axes', atom⟩, hu, hpure⟩ := bind_eq_ok_iff.1 h
    cases hpure
    exact ⟨axes', o, args, hu⟩
  · rintro ⟨axes, o, args, hu⟩
    exact ⟨a :: axes, o, args, by rw [hu]; rfl⟩

theorem chainBroken_iff_of_settled {p : Leaf κ → Prop} {e : Expr κ} (he : e.Settled)
    (hg : e.MadeOf p Head.Resolved) (ha : e.isAtomic) : e.chainBroken ↔ e.EndsUnevaluated := by
  induction e with
  | leaf l =>
    refine iff_of_false ?_ ?_
    · cases l with
      | number c | constant s => cases ha
      | _ => exact Bool.false_ne_true
    · rintro ⟨axes, o, args, h⟩
      cases h
  | arith op l r => cases ha
  | node k args ih =>
    obtain ⟨hk, hargs⟩ := madeOf_node.1 hg
    cases k with
    | tuple => cases ha
    | generic o => exact absurd rfl (hk o)
    | concrete o => exact iff_of_true rfl ⟨[], o, args, rfl⟩
    | derivative a =>
      obtain ⟨hself, hsettled⟩ := settled_node.1 he
      obtain ⟨u, rfl, hu⟩ := exists_of_isSettled hself
      rw [endsUnevaluated_derivative, chainBroken]
      exact ih u (.head _) (hsettled u (.head _)) (hargs u (.head _)) hu

end Chain

end Expr

theorem exists_error_iff {α : Type} {x : Except Fault α} :
    (∃ fault, x = .error fault) ↔ ¬∃ a, x = .ok a := by
  cases x <;> simp

namespace Normalization

variable [Zero κ] [One κ] [Neg κ] [Add κ] [Sub κ] [Mul κ] [BEq κ] [NumberText κ]

theorem exists_flatten_iff {n : Normalization} {e : Expr κ} :
    (∃ x, n.flatten e = .ok x) ↔ ∀ m ∈ e.nodes, m.isDerivative → m.chainBroken = false := by
  simp only [flatten_eq_ok_iff, Expr.exists_flatSymbol_iff]
  exact ⟨fun ⟨_, h, _⟩ => h, fun h => ⟨_, h, rfl⟩⟩

/-- With settled derivatives only, flattening fails on chains that end on an operator and on nothing
else. -/
theorem flatten_of_settled (n : Normalization) {e : Expr κ} (he : e.Settled)
    (hg : e.containsGeneric = false) :
    ((∃ fault, n.flatten e = .error fault) ↔
        ∃ m ∈ e.nodes, m.isDerivative ∧ m.EndsUnevaluated) ∧
      ((∃ x, n.flatten e = .ok x) ↔
        ∀ m ∈ e.nodes, m.isDerivative → ¬m.EndsUnevaluated) := by
  have hresolved := Expr.containsGeneric_eq_false_iff.1 hg
  have hchain : ∀ m ∈ e.nodes, m.isDerivative → (m.chainBroken = false ↔ ¬m.EndsUnevaluated) := by
    intro m hm hder
    rw [← Expr.chainBroken_iff_of_settled (fun k hk => he k (Expr.nodes_subset hm hk))
      (fun k hk => hresolved k (Expr.nodes_subset hm hk)) (Expr.isAtomic_of_isDerivative hder),
      Bool.not_eq_true]
  have hok : (∃ x, n.flatten e = .ok x) ↔
      ∀ m ∈ e.nodes, m.isDerivative → ¬m.EndsUnevaluated :=
    exists_flatten_iff.trans (forall₃_congr hchain)
  refine ⟨?_, hok⟩
  rw [exists_error_iff, hok]
  simp only [not_forall, not_not, exists_prop]

end Normalization

namespace Expr

variable [Zero κ] [One κ] [Neg κ] [Add κ] [Sub κ] [Mul κ] [BEq κ] [NumberText κ]

/-- Settled derivatives stay settled when a derivative is taken and when operators are resolved.
What comes out can be flattened unless a chain ends on an operator that was left unevaluated. -/
theorem settled_resolveIn {e : Expr κ} (he : e.Settled) :
    (∀ a, (e.derive a).Settled) ∧
      ∀ cs d r, e.resolveIn cs d = .ok r →
        r.Settled ∧ ∀ n : Normalization,
          ((∃ fault, n.flatten r = .error fault) ↔
              ∃ m ∈ r.nodes, m.isDerivative ∧ m.EndsUnevaluated) ∧
            ((∃ x, n.flatten r = .ok x) ↔
              ∀ m ∈ r.nodes, m.isDerivative → ¬m.EndsUnevaluated) := by
  refine ⟨ruleClosed_settled.derive he, fun cs d r hr => ?_⟩
  have hsettled := settled_of_resolveIn hr he
  exact ⟨hsettled, fun n => n.flatten_of_settled hsettled (containsGeneric_resolveIn hr)⟩

def flowSpace : Space := ⟨"V", 0, 2, .vector 2⟩

def sheared : Expr Float :=
  .sub (.derivative .x [.generic .div [.function ⟨"v", .test, flowSpace⟩]])
    (.mul (.field "nu") (.derivative .y [.generic .rot [.field "w"]]))

def shearedResolved : Expr Float :=
  .sub
    (.add
      (.derivative .x [.derivative .x [.component ⟨"v", .test, flowSpace⟩ 0]])
      (.derivative .x [.derivative .y [.component ⟨"v", .test, flowSpace⟩ 1]]))
    (.mul (.field "nu") (.derivative .y [.concrete ⟨.rot, 2⟩ [.field "w"]]))

theorem settled_resolveIn_sheared :
    sheared.Settled ∧ sheared.resolveIn .standard 2 = .ok shearedResolved ∧
      (∀ a, (sheared.derive a).Settled) ∧ shearedResolved.Settled ∧
        ∃ fault, Normalization.flatten ⟨.standard, .empty, false⟩ shearedResolved =
          .error fault := by
  have hsettled : sheared.Settled := by decide
  have hresolved : sheared.resolveIn .standard 2 = .ok shearedResolved := by with_unfolding_all rfl
  obtain ⟨hderive, hrun⟩ := settled_resolveIn hsettled
  obtain ⟨hkept, hflatten⟩ := hrun .standard 2 shearedResolved hresolved
  refine ⟨hsettled, hresolved, hderive, hkept, (hflatten _).1.2 ?_⟩
  refine ⟨.derivative .y [.concrete ⟨.rot, 2⟩ [.field "w"]], ?_, rfl, [.y], ⟨.rot, 2⟩, _, rfl⟩
  simp [shearedResolved, nodes_eq, children]

end Expr

end VariationalForms
