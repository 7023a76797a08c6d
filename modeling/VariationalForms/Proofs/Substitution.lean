import Mathlib.Data.List.Nodup
import Mathlib.Logic.Equiv.Basic
import VariationalForms.Proofs.Flattening
import VariationalForms.Proofs.Reading

/-! Several leaves replaced at once.
What is put in is not looked at again, so the value of the outcome is that of the integrand when every
replaced leaf takes the value of what is put in its place. Read in the integrands themselves this
says that an exchange of leaves is undone by the inverse exchange
(`Expr.substituteAll_simultaneous`).
-/

set_option autoImplicit false

namespace VariationalForms

universe u

variable {κ : Type}

namespace Expr

theorem fold_constructors (e : Expr κ) : e.fold leaf arith node = e := by
  induction e with
  | leaf l => rfl
  | arith op l r hl hr => rw [fold_arith, hl, hr]
  | node h args ih => rw [fold_node, List.map_congr_left ih, List.map_id']

def leafPairs (pairs : List (Leaf κ × Expr κ)) : List (Expr κ × Expr κ) :=
  pairs.map fun p => (leaf p.1, p.2)

/-- The leaves on the left sides take the values of the right sides, and all others keep theirs. -/
structure Reassigns {β : Type u} (pairs : List (Leaf κ × Expr κ)) (value : Expr κ → β)
    (v v' : Leaf κ → β) : Prop where
  replaced : ∀ p ∈ pairs, v' p.1 = value p.2
  kept : ∀ l, l ∉ pairs.map Prod.fst → v' l = v l

section Reassignment

variable {pairs : List (Leaf κ × Expr κ)} {β : Type u} {v v' : Leaf κ → β}

theorem Reassigns.unique {value : Expr κ → β} {w : Leaf κ → β} (h : Reassigns pairs value v v')
    (hw : Reassigns pairs value v w) : w = v' := by
  funext l
  by_cases hl : l ∈ pairs.map Prod.fst
  · obtain ⟨p, hp, rfl⟩ := List.mem_map.1 hl
    rw [h.replaced p hp, hw.replaced p hp]
  · rw [h.kept l hl, hw.kept l hl]

def exchange (σ : Leaf κ → Leaf κ) (ls : List (Leaf κ)) : List (Leaf κ × Expr κ) :=
  ls.map fun l => (l, leaf (σ l))

theorem reassigns_exchange {σ : Leaf κ → Leaf κ} {ls : List (Leaf κ)} {onArith : Arith → β → β → β}
    {onNode : Head → List β → β} (hσ : ∀ l, l ∉ ls → σ l = l) :
    Reassigns (exchange σ ls) (fold v onArith onNode) v (v ∘ σ) := by
  refine ⟨fun p hp => ?_, fun l hl => ?_⟩
  · obtain ⟨l, -, rfl⟩ := List.mem_map.1 hp
    rfl
  · rw [Function.comp_apply, hσ l]
    simpa [exchange] using hl

theorem fst_exchange_ne {σ : Leaf κ → Leaf κ} {ls : List (Leaf κ)}
    (hls : ∀ l ∈ ls, ∀ c, l ≠ .number c) : ∀ p ∈ exchange σ ls, ∀ c, p.1 ≠ .number c := by
  intro p hp
  obtain ⟨l, hl, rfl⟩ := List.mem_map.1 hp
  exact hls l hl

end Reassignment

section Substitution

variable [BEq κ] {pairs : List (Leaf κ × Expr κ)}

theorem lookup_leafPairs_leaf (hpairs : ∀ p ∈ pairs, ∀ c, p.1 ≠ .number c) (l : Leaf κ) :
    (∃ p ∈ pairs, p.1 = l ∧ (leafPairs pairs).lookup (leaf l) = some p.2) ∨
      l ∉ pairs.map Prod.fst ∧ (leafPairs pairs).lookup (leaf l) = none := by
  induction pairs with
  | nil => exact .inr ⟨nofun, rfl⟩
  | cons p pairs ih =>
    have hlookup : (leafPairs (p :: pairs)).lookup (leaf l) =
        if l == p.1 then some p.2 else (leafPairs pairs).lookup (leaf l) := by
      rw [leafPairs, List.map_cons, List.lookup_cons, leaf_beq_leaf]
      cases l == p.1 <;> rfl
    rw [hlookup]
    by_cases h : l = p.1
    · exact .inl ⟨p, .head _, h.symm, if_pos ((leaf_beq_iff (hpairs p (.head _))).2 h)⟩
    · rw [if_neg fun hbeq => h ((leaf_beq_iff (hpairs p (.head _))).1 hbeq)]
      refine (ih fun q hq => hpairs q (.tail _ hq)).imp ?_ ?_
      · exact fun ⟨q, hq, hql, hsome⟩ => ⟨q, .tail _ hq, hql, hsome⟩
      · exact fun ⟨hl, hnone⟩ => ⟨by simpa [h] using hl, hnone⟩

theorem lookup_leafPairs_of_ne {n : Expr κ} (hn : ∀ l, (n == leaf l) = false) :
    (leafPairs pairs).lookup n = none :=
  lookup_eq_none fun p hp => by
    obtain ⟨q, -, rfl⟩ := List.mem_map.1 hp
    exact hn q.1

theorem substituteAll_leafPairs_arith (op : Arith) (l r : Expr κ) :
    (Expr.arith op l r).substituteAll (leafPairs pairs) =
      .arith op (l.substituteAll (leafPairs pairs)) (r.substituteAll (leafPairs pairs)) := by
  rw [substituteAll, replace_eq, lookup_leafPairs_of_ne fun _ => rfl]
  rfl

theorem substituteAll_leafPairs_node (h : Head) (args : List (Expr κ)) :
    (Expr.node h args).substituteAll (leafPairs pairs) =
      .node h (args.map (substituteAll · (leafPairs pairs))) := by
  rw [substituteAll, replace_eq, lookup_leafPairs_of_ne fun _ => rfl]
  rfl

variable {β : Type u} {v v' : Leaf κ → β} {onArith : Arith → β → β → β}
  {onNode : Head → List β → β}

/-- An outcome has the value that the integrand has when the replaced leaves are reassigned. -/
theorem fold_substituteAll (hpairs : ∀ p ∈ pairs, ∀ c, p.1 ≠ .number c)
    (h : Reassigns pairs (fold v onArith onNode) v v') (e : Expr κ) :
    (e.substituteAll (leafPairs pairs)).fold v onArith onNode = e.fold v' onArith onNode := by
  induction e with
  | leaf l =>
    rw [substituteAll, replace_eq, fold_leaf]
    rcases lookup_leafPairs_leaf hpairs l with ⟨p, hp, rfl, hsome⟩ | ⟨hl, hnone⟩
    · rw [hsome, Option.getD_some, h.replaced p hp]
    · rw [hnone, Option.getD_none, h.kept l hl]
      rfl
  | arith op l r hl hr =>
    rw [substituteAll_leafPairs_arith, fold_arith, fold_arith, hl, hr]
  | node k args ih =>
    rw [substituteAll_leafPairs_node, fold_node, fold_node, List.map_map]
    exact congrArg (onNode k) (List.map_congr_left ih)

theorem exists_reassigns (hpairs : ∀ p ∈ pairs, ∀ c, p.1 ≠ .number c)
    (hnodup : (pairs.map Prod.fst).Nodup) (value : Expr κ → β) (v : Leaf κ → β) :
    ∃ v', Reassigns pairs value v v' := by
  refine ⟨fun l => ((leafPairs pairs).lookup (leaf l)).elim (v l) value, fun p hp => ?_,
    fun l hl => ?_⟩
  · rcases lookup_leafPairs_leaf hpairs p.1 with ⟨q, hq, hqp, hsome⟩ | ⟨hp', -⟩
    · obtain rfl : q = p := List.inj_on_of_nodup_map hnodup hq hp hqp
      rw [hsome, Option.elim_some]
    · exact absurd (List.mem_map_of_mem hp) hp'
  · rcases lookup_leafPairs_leaf hpairs l with ⟨q, hq, rfl, -⟩ | ⟨-, hnone⟩
    · exact absurd (List.mem_map_of_mem hq) hl
    · rw [hnone, Option.elim_none]

/-- Replacing leaves other than numbers, each by one integrand and all at once, gives an integrand
with the value of the first one under the only assignment that gives the replaced leaves the values of
what replaces them. If leaves are exchanged, the inverse exchange leads back. -/
theorem substituteAll_simultaneous :
    (∀ pairs : List (Leaf κ × Expr κ), (∀ p ∈ pairs, ∀ c, p.1 ≠ .number c) →
      (pairs.map Prod.fst).Nodup →
      ∀ {β : Type u} (v : Leaf κ → β) (onArith : Arith → β → β → β) (onNode : Head → List β → β),
        ∃ v', Reassigns pairs (fold v onArith onNode) v v' ∧
          (∀ w, Reassigns pairs (fold v onArith onNode) v w → w = v') ∧
          ∀ e : Expr κ, (e.substituteAll (leafPairs pairs)).fold v onArith onNode =
            e.fold v' onArith onNode) ∧
    ∀ (σ : Equiv.Perm (Leaf κ)) (ls : List (Leaf κ)), (∀ l ∈ ls, ∀ c, l ≠ .number c) →
      (∀ l, l ∉ ls → σ l = l) →
      ∀ e : Expr κ, (e.substituteAll (leafPairs (exchange σ ls))).substituteAll
        (leafPairs (exchange σ.symm ls)) = e := by
  refine ⟨fun pairs hpairs hnodup β v onArith onNode => ?_, fun σ ls hls hσ e => ?_⟩
  · obtain ⟨v', h⟩ := exists_reassigns hpairs hnodup (fold v onArith onNode) v
    exact ⟨v', h, fun _ => h.unique, fold_substituteAll hpairs h⟩
  · have hσ' : ∀ l, l ∉ ls → σ.symm l = l := fun l hl => by rw [Equiv.symm_apply_eq, hσ l hl]
    -- Read with the constructors an integrand is its own value, so values are all that matters.
    rw [← fold_constructors (substituteAll _ _),
      fold_substituteAll (fst_exchange_ne hls) (reassigns_exchange hσ'),
      fold_substituteAll (fst_exchange_ne hls) (reassigns_exchange hσ), Function.comp_assoc,
      Equiv.symm_comp_self, Function.comp_id, fold_constructors]

end Substitution

section Crossed

def crossedPairs : List (Leaf Int × Expr Int) :=
  [(.symbol "x", .add (.symbol "y") (.number 1)), (.symbol "y", .symbol "x")]

def crossed : Expr Int := .add (.mul (.symbol "x") (.symbol "y")) (.tuple [.symbol "y"])

def crossedLeaf : Leaf Int → Int
  | .number c => c
  | .symbol s => if s = "x" then 2 else 3
  | _ => 0

def swapped : Leaf Int → Leaf Int
  | .symbol s => .symbol (Equiv.swap "x" "y" s)
  | l => l

theorem swapped_swapped (l : Leaf Int) : swapped (swapped l) = l := by
  cases l <;> simp [swapped]

theorem substituteAll_simultaneous_crossed :
    (∀ p ∈ crossedPairs, ∀ c, p.1 ≠ .number c) ∧ (crossedPairs.map Prod.fst).Nodup ∧
      (crossed.substituteAll (leafPairs crossedPairs)).fold crossedLeaf Arith.of
        (fun _ values => values.headD 0) = (3 + 1) * 2 + 2 ∧
      (∀ l, l ∉ [.symbol "x", .symbol "y"] → swapped l = l) ∧
      (crossed.substituteAll (leafPairs (exchange swapped [.symbol "x", .symbol "y"]))).substituteAll
        (leafPairs (exchange swapped [.symbol "x", .symbol "y"])) = crossed := by
  have hpairs : ∀ p ∈ crossedPairs, ∀ c, p.1 ≠ .number c := by simp [crossedPairs]
  have hnodup : (crossedPairs.map Prod.fst).Nodup := by simp [crossedPairs]
  have hσ : ∀ l, l ∉ [.symbol "x", .symbol "y"] → swapped l = l := by
    intro l hl
    cases l with
    | symbol s =>
      have hs : s ≠ "x" ∧ s ≠ "y" := by simpa using hl
      rw [swapped, Equiv.swap_apply_of_ne_of_ne hs.1 hs.2]
    | _ => rfl
  obtain ⟨hvalue, hinverse⟩ := substituteAll_simultaneous (κ := Int)
  obtain ⟨v', hv', -, hfold⟩ :=
    hvalue crossedPairs hpairs hnodup crossedLeaf Arith.of fun _ values => values.headD 0
  refine ⟨hpairs, hnodup, ?_, hσ, ?_⟩
  · have hx : v' (.symbol "x") = 3 + 1 := hv'.replaced _ (.head _)
    have hy : v' (.symbol "y") = 2 := hv'.replaced _ (.tail _ (.head _))
    rw [hfold, ← hx, ← hy]
    simp [crossed, Arith.of]
  · exact hinverse ⟨swapped, swapped, swapped_swapped, swapped_swapped⟩ _ (by simp) hσ crossed

end Crossed

end Expr

end VariationalForms
