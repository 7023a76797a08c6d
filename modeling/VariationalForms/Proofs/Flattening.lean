import VariationalForms.Normalization
import VariationalForms.Proofs.Expand
import VariationalForms.Proofs.Nodes

/-! What flattening does, node by node.
The lists of symbols that are collected before each substitution give every derivative, function and
component the symbol that it has on its own (`Expr.flatten_eq_ok_iff`). The keys of these lists hold
no numbers, so that nothing is asked of how numbers are compared.
-/

set_option autoImplicit false

namespace VariationalForms

variable {κ : Type}

/-- What a name says about a leaf that varies and about the axes along which it is derived. -/
def Leaf.flatName (names : BasisNames) (axes : List Axis) : Leaf κ → String
  | .function f => names.baseName f ++ ("_" ++ String.join ((Axis.sort axes).map Axis.name))
  | .component f i =>
    indexed (names.baseName f ++ ("_" ++ String.join ((Axis.sort axes).map Axis.name))) i
  | .field s => s ++ ("_" ++ String.join ((Axis.sort axes).map Axis.name))
  | .symbol s => s ++ ("_" ++ String.join ((Axis.sort axes).map Axis.name))
  | _ => ""

theorem Leaf.flatName_perm (names : BasisNames) (l : Leaf κ) {axes axes' : List Axis}
    (h : axes.Perm axes') : l.flatName names axes = l.flatName names axes' := by
  unfold Leaf.flatName
  rw [Axis.sort_eq_of_perm h]

namespace Expr

/-- The chain of derivatives of a leaf along several axes, the first of them outermost. -/
def derivedLeaf (axes : List Axis) (l : Leaf κ) : Expr κ :=
  axes.foldr (fun a e => .derivative a [e]) (.leaf l)

theorem derivedLeaf_cons (a : Axis) (axes : List Axis) (l : Leaf κ) :
    derivedLeaf (a :: axes) l = .derivative a [derivedLeaf axes l] := rfl

theorem mem_nodes_derivedLeaf {axes : List Axis} {l : Leaf κ} {n : Expr κ}
    (hn : n ∈ (derivedLeaf axes l).nodes) : ∃ axes', n = derivedLeaf axes' l := by
  induction axes with
  | nil =>
    cases List.mem_singleton.1 hn
    exact ⟨[], rfl⟩
  | cons a axes ih =>
    rw [derivedLeaf_cons, nodes_eq, List.mem_cons] at hn
    rcases hn with rfl | hn
    · exact ⟨a :: axes, rfl⟩
    · exact ih (by simpa [children] using hn)

section Names

variable [NumberText κ] {names : BasisNames}

theorem chain_derivedLeaf (axes : List Axis) (l : Leaf κ) :
    (derivedLeaf axes l).chain = .ok (axes, .leaf l) := by
  induction axes with
  | nil => rfl
  | cons a axes ih => rw [derivedLeaf_cons, chain, ih]; rfl

theorem chain_eq_ok {e atom : Expr κ} {axes : List Axis} (h : e.chain = .ok (axes, atom)) :
    e = axes.foldr (fun a e => .derivative a [e]) atom := by
  induction e generalizing axes with
  | leaf l => cases h; rfl
  | arith op l r => cases h; rfl
  | node k args ih =>
    cases k with
    | derivative a =>
      match args with
      | [] | _ :: _ :: _ => cases h
      | [u] =>
        rw [chain, bind_eq_ok_iff] at h
        obtain ⟨⟨axes', atom'⟩, hu, hpure⟩ := h
        cases hpure
        rw [ih u (.head _) hu]
        rfl
    | _ => cases h; rfl

theorem flatSymbol_derivedLeaf {l : Leaf κ} (hl : (leaf l).isConstant = false) (axes : List Axis) :
    (derivedLeaf axes l).flatSymbol names = .ok (l.flatName names axes) := by
  rw [flatSymbol, chain_derivedLeaf]
  cases l <;> first | rfl | cases hl

theorem flatSymbol_eq_ok {e : Expr κ} {s : String} (h : e.flatSymbol names = .ok s) :
    ∃ axes l, e = derivedLeaf axes l ∧ (leaf l).isConstant = false := by
  rw [flatSymbol, bind_eq_ok_iff] at h
  obtain ⟨⟨axes, atom⟩, hchain, h⟩ := h
  rw [chain_eq_ok hchain]
  cases atom with
  | leaf l => cases l <;> first | exact ⟨axes, _, rfl, rfl⟩ | cases h
  | arith op l r => cases h
  | node k args => cases h

end Names

section Keys

variable [BEq κ]

/-- Whatever numbers are equal, other leaves are equal only to themselves. -/
theorem leaf_beq_iff {l m : Leaf κ} (hl : ∀ c, l ≠ .number c) : (m == l) = true ↔ m = l := by
  cases l with
  | number c => exact absurd rfl (hl c)
  | constant s => cases m <;> simp [BEq.beq, instBEqLeaf.beq]
  | symbol s => cases m <;> simp [BEq.beq, instBEqLeaf.beq]
  | field s => cases m <;> simp [BEq.beq, instBEqLeaf.beq]
  | function f => cases m <;> simp [BEq.beq, instBEqLeaf.beq]
  | component f i => cases m <;> simp [BEq.beq, instBEqLeaf.beq]

theorem beq_leaf_iff {l : Leaf κ} (hl : ∀ c, l ≠ .number c) {n : Expr κ} :
    (n == leaf l) = true ↔ n = leaf l := by
  cases n <;> simp [leaf_beq_iff hl]

theorem beq_derivedLeaf_iff {l : Leaf κ} (hl : (leaf l).isConstant = false) {axes : List Axis}
    {n : Expr κ} : (n == derivedLeaf axes l) = true ↔ n = derivedLeaf axes l := by
  induction axes generalizing n with
  | nil =>
    refine beq_leaf_iff ?_
    rintro c rfl
    cases hl
  | cons a axes ih =>
    rw [derivedLeaf_cons]
    cases n with
    | node h args =>
      match args with
      | [] | _ :: _ :: _ => simp
      | [u] => simp [ih]
    | _ => simp
end Keys

end Expr

section Lists

variable {α β : Type} [BEq α]

theorem exists_mem_eraseDups {a : α} : ∀ {l : List α}, a ∈ l →
    ∃ b ∈ l.eraseDups, a = b ∨ (a == b) = true
  | b :: l, h => by
    rw [List.eraseDups_cons]
    by_cases hab : a = b ∨ (a == b) = true
    · exact ⟨b, .head _, hab⟩
    · have hmem : a ∈ l.filter fun c => !c == b := by
        rcases List.mem_cons.1 h with rfl | h
        · exact absurd (.inl rfl) hab
        · exact List.mem_filter.2 ⟨h, by simpa using fun h => hab (.inr h)⟩
      have hlen : (l.filter fun c => !c == b).length < l.length + 1 :=
        Nat.lt_succ_of_le (List.length_filter_le ..)
      obtain ⟨c, hc, hac⟩ := exists_mem_eraseDups hmem
      exact ⟨c, .tail _ hc, hac⟩
termination_by l => l.length

theorem mem_of_mem_eraseDups {a : α} : ∀ {l : List α}, a ∈ l.eraseDups → a ∈ l
  | [], h => by simp at h
  | b :: l, h => by
    rw [List.eraseDups_cons] at h
    have hlen : (l.filter fun c => !c == b).length < l.length + 1 :=
      Nat.lt_succ_of_le (List.length_filter_le ..)
    rcases List.mem_cons.1 h with rfl | h
    · exact .head _
    · exact .tail _ (List.mem_filter.1 (mem_of_mem_eraseDups h)).1
termination_by l => l.length

theorem lookup_eq_none {l : List (α × β)} {a : α} (h : ∀ p ∈ l, (a == p.1) = false) :
    l.lookup a = none := by
  induction l with
  | nil => rfl
  | cons p l ih => rw [List.lookup_cons, h p (.head _), ih fun q hq => h q (.tail _ hq)]

theorem lookup_eq_some {l : List (α × β)} {a : α} {b : β} (hex : ∃ p ∈ l, (a == p.1) = true)
    (h : ∀ p ∈ l, (a == p.1) = true → p.2 = b) : l.lookup a = some b := by
  induction l with
  | nil =>
    obtain ⟨p, hp, -⟩ := hex
    cases hp
  | cons p l ih =>
    rw [List.lookup_cons]
    cases hap : a == p.1 with
    | true => rw [h p (.head _) hap]
    | false =>
      refine ih ?_ fun q hq => h q (.tail _ hq)
      obtain ⟨q, hq, haq⟩ := hex
      cases hq with
      | head => rw [hap] at haq; cases haq
      | tail _ hq => exact ⟨q, hq, haq⟩

end Lists

namespace Expr

variable [NumberText κ] [BEq κ] {names : BasisNames}

def derivativeSymbol? (names : BasisNames) (n : Expr κ) : Option (Expr κ) :=
  if n.isDerivative then (n.flatSymbol names).toOption.map symbol else none

/-- The symbol that a function or a component has on its own. -/
def basisSymbol? (names : BasisNames) : Expr κ → Option (Expr κ)
  | .function f => (names.find? f.space).map symbol
  | .component f i =>
    if i < f.space.shape?.getD 0 then
      (names.find? f.space).map fun name => symbol (indexed name i)
    else none
  | _ => none

theorem beq_iff_of_flatSymbol {n d : Expr κ} {s : String} (h : d.flatSymbol names = .ok s) :
    (n == d) = true ↔ n = d := by
  obtain ⟨axes, l, rfl, hl⟩ := flatSymbol_eq_ok h
  exact beq_derivedLeaf_iff hl

omit [NumberText κ] [BEq κ] in
theorem mem_derivatives {e d : Expr κ} : d ∈ e.derivatives ↔ d ∈ e.nodes ∧ d.isDerivative := by
  rw [derivatives, List.mem_filter, preorder_eq_nodes]

omit [BEq κ] in
theorem derivativeSymbol?_of_ok {n : Expr κ} {s : String} (hd : n.isDerivative)
    (h : n.flatSymbol names = .ok s) : n.derivativeSymbol? names = some (symbol s) := by
  rw [derivativeSymbol?, if_pos hd, h]; rfl

theorem flatSymbols_eq_ok_iff {e : Expr κ} {pairs : List (Expr κ × Expr κ)} :
    e.flatSymbols names = .ok pairs ↔
      List.Forall₂ (fun d p => ∃ s, d.flatSymbol names = .ok s ∧ (d, symbol s) = p)
        (e.derivatives.mergeSort longestFirst).eraseDups pairs := by
  rw [flatSymbols, mapM_eq_ok_iff]
  simp only [bind_eq_ok_iff, pure_eq_ok_iff]

theorem lookup_flatSymbols {e n : Expr κ} {pairs : List (Expr κ × Expr κ)}
    (h : e.flatSymbols names = .ok pairs) (hn : n ∈ e.nodes) :
    pairs.lookup n = n.derivativeSymbol? names ∧
      (n.isDerivative → ∃ s, n.flatSymbol names = .ok s) := by
  have hpairs := flatSymbols_eq_ok_iff.1 h
  have hkey : ∀ p ∈ pairs, (n == p.1) = true →
      n.isDerivative ∧ ∃ s, n.flatSymbol names = .ok s ∧ p.2 = symbol s := by
    intro p hp hnp
    obtain ⟨d, hd, s, hs, rfl⟩ := exists_of_mem_right hpairs hp
    -- A key has a symbol, so it equals `n` only if it is `n`.
    obtain rfl := (beq_iff_of_flatSymbol hs).1 hnp
    have hmem := mem_derivatives.1 (List.mem_mergeSort.1 (mem_of_mem_eraseDups hd))
    exact ⟨hmem.2, s, hs, rfl⟩
  by_cases hd : n.isDerivative
  · obtain ⟨b, hb, hnb⟩ :=
      exists_mem_eraseDups (List.mem_mergeSort.2 (mem_derivatives.2 ⟨hn, hd⟩))
    obtain ⟨p, hp, s, hs, rfl⟩ := exists_of_mem_left hpairs hb
    obtain rfl : n = b := hnb.elim id (beq_iff_of_flatSymbol hs).1
    rw [derivativeSymbol?_of_ok hd hs]
    refine ⟨lookup_eq_some ⟨_, hp, (beq_iff_of_flatSymbol hs).2 rfl⟩ fun q hq hnq => ?_,
      fun _ => ⟨s, hs⟩⟩
    obtain ⟨-, s', hs', hq⟩ := hkey q hq hnq
    cases hs.symm.trans hs'
    exact hq
  · refine ⟨?_, fun h => absurd h hd⟩
    rw [derivativeSymbol?, if_neg hd]
    exact lookup_eq_none fun p hp => Bool.eq_false_iff.2 fun hnp => hd (hkey p hp hnp).1

theorem exists_flatSymbols {e : Expr κ}
    (h : ∀ n ∈ e.nodes, n.isDerivative → ∃ s, n.flatSymbol names = .ok s) :
    ∃ pairs, e.flatSymbols names = .ok pairs := by
  simp only [flatSymbols_eq_ok_iff]
  refine exists_forall₂ fun d hd => ?_
  obtain ⟨hmem, hder⟩ := mem_derivatives.1 (List.mem_mergeSort.1 (mem_of_mem_eraseDups hd))
  obtain ⟨s, hs⟩ := h d hmem hder
  exact ⟨_, s, hs, rfl⟩

omit [NumberText κ] [BEq κ] in
theorem mem_basisSymbols {e : Expr κ} {p : Expr κ × Expr κ} :
    p ∈ e.basisSymbols names ↔ ∃ f ∈ e.functions, ∃ name, names.find? f.space = some name ∧
      ((∃ i < f.space.shape?.getD 0, (component f i, symbol (indexed name i)) = p) ∨
        (function f, symbol name) = p) := by
  rw [basisSymbols, List.mem_flatMap]
  refine exists_congr fun f => and_congr_right fun _ => ?_
  cases names.find? f.space with
  | none => simp
  | some name => simp [eq_comm]

omit [NumberText κ] [BEq κ] in
theorem mem_functions {e : Expr κ} {f : Argument} :
    f ∈ e.functions ↔ ∃ n ∈ e.nodes, n.function? = some f := by
  rw [functions, List.mem_eraseDups, List.mem_filterMap, preorder_eq_nodes]

omit [NumberText κ] [BEq κ] in
theorem mem_basisSymbols_of_some {e n v : Expr κ} (hn : n ∈ e.nodes)
    (hv : n.basisSymbol? names = some v) : (n, v) ∈ e.basisSymbols names := by
  rw [mem_basisSymbols]
  unfold basisSymbol? at hv
  split at hv
  case h_1 f =>
    obtain ⟨name, hname, rfl⟩ := Option.map_eq_some_iff.1 hv
    exact ⟨f, mem_functions.2 ⟨_, hn, rfl⟩, name, hname, .inr rfl⟩
  case h_2 f i =>
    split at hv
    case isTrue hi =>
      obtain ⟨name, hname, rfl⟩ := Option.map_eq_some_iff.1 hv
      exact ⟨f, mem_functions.2 ⟨_, hn, rfl⟩, name, hname, .inl ⟨i, hi, rfl⟩⟩
    case isFalse => cases hv
  case h_3 => cases hv

omit [NumberText κ] in
theorem lookup_basisSymbols {e n : Expr κ} (hn : n ∈ e.nodes) :
    (e.basisSymbols names).lookup n = n.basisSymbol? names := by
  have hkey : ∀ p ∈ e.basisSymbols names, (n == p.1) = true →
      n = p.1 ∧ n.basisSymbol? names = some p.2 := by
    intro p hp hnp
    obtain ⟨f, -, name, hname, ⟨i, hi, rfl⟩ | rfl⟩ := mem_basisSymbols.1 hp
    · obtain rfl := (beq_leaf_iff (l := .component f i) nofun).1 hnp
      exact ⟨rfl, by simp [basisSymbol?, hi, hname]⟩
    · obtain rfl := (beq_leaf_iff (l := .function f) nofun).1 hnp
      exact ⟨rfl, by simp [basisSymbol?, hname]⟩
  cases hv : n.basisSymbol? names with
  | none =>
    refine lookup_eq_none fun p hp => Bool.eq_false_iff.2 fun hnp => ?_
    cases hv.symm.trans (hkey p hp hnp).2
  | some v =>
    have hself : (n == n) = true := by
      obtain ⟨f, -, name, hname, ⟨i, hi, h⟩ | h⟩ :=
        mem_basisSymbols.1 (mem_basisSymbols_of_some hn hv) <;> cases h
      · exact (beq_leaf_iff (l := .component f i) nofun).2 rfl
      · exact (beq_leaf_iff (l := .function f) nofun).2 rfl
    refine lookup_eq_some ⟨(n, v), mem_basisSymbols_of_some hn hv, hself⟩ fun p hp hnp => ?_
    cases hv.symm.trans (hkey p hp hnp).2
    rfl

omit [NumberText κ] [BEq κ] in
theorem replace_congr {f g : Expr κ → Option (Expr κ)} {e : Expr κ}
    (h : ∀ n ∈ e.nodes, f n = g n) : e.replace f = e.replace g := by
  induction e with
  | leaf l => rw [replace_eq, replace_eq, h _ (self_mem_nodes _)]; rfl
  | arith op l r hl hr =>
    have hnodes := forall_mem_nodes.1 h
    rw [replace_eq, replace_eq, hnodes.1, mapChildren, mapChildren,
      hl (hnodes.2 l (by simp [children])), hr (hnodes.2 r (by simp [children]))]
  | node k args ih =>
    have hnodes := forall_mem_nodes.1 h
    rw [replace_eq, replace_eq, hnodes.1, mapChildren, mapChildren,
      List.map_congr_left fun e he => ih e he (hnodes.2 e he)]

/-- Every derivative replaced by its symbol, then every function and component that is left. -/
def flattened (names : BasisNames) (e : Expr κ) : Expr κ :=
  (e.replace (derivativeSymbol? names)).replace (basisSymbol? names)

theorem flatten_eq_ok_iff {e x : Expr κ} :
    e.flatten names = .ok x ↔
      (∀ n ∈ e.nodes, n.isDerivative → ∃ s, n.flatSymbol names = .ok s) ∧
        e.flattened names = x := by
  have hflat : ∀ pairs, e.flatSymbols names = .ok pairs →
      (let flat := e.substituteAll pairs
       flat.substituteAll (flat.basisSymbols names)) = e.flattened names := by
    intro pairs hpairs
    have hfirst : e.substituteAll pairs = e.replace (derivativeSymbol? names) :=
      replace_congr fun n hn => (lookup_flatSymbols hpairs hn).1
    rw [flattened, ← hfirst]
    exact replace_congr fun n hn => lookup_basisSymbols hn
  rw [flatten, bind_eq_ok_iff]
  simp only [pure_eq_ok_iff]
  constructor
  · rintro ⟨pairs, hpairs, rfl⟩
    exact ⟨fun n hn => (lookup_flatSymbols hpairs hn).2, (hflat pairs hpairs).symm⟩
  · rintro ⟨hok, rfl⟩
    obtain ⟨pairs, hpairs⟩ := exists_flatSymbols hok
    exact ⟨pairs, hpairs, hflat pairs hpairs⟩

section Flattened

omit [BEq κ]

theorem flattened_leaf (l : Leaf κ) :
    (leaf l).flattened names = ((leaf l).basisSymbol? names).getD (leaf l) := rfl

theorem flattened_arith (op : Arith) (l r : Expr κ) :
    (arith op l r).flattened names = arith op (l.flattened names) (r.flattened names) := rfl

theorem flattened_node {h : Head} (hd : ∀ a, h ≠ .derivative a) (args : List (Expr κ)) :
    (node h args).flattened names = node h (args.map (flattened names)) := by
  have hfirst : (node h args).derivativeSymbol? names = none := by
    cases h with
    | derivative a => exact absurd rfl (hd a)
    | _ => rfl
  rw [flattened, replace_eq (derivativeSymbol? names), hfirst]
  change (node h (args.map (replace (derivativeSymbol? names)))).replace (basisSymbol? names) = _
  rw [replace_eq]
  change node h ((args.map _).map _) = _
  rw [List.map_map]
  rfl

theorem flattened_derivative {n : Expr κ} {s : String} (hd : n.isDerivative)
    (hs : n.flatSymbol names = .ok s) : n.flattened names = symbol s := by
  rw [flattened, replace_eq (derivativeSymbol? names), derivativeSymbol?_of_ok hd hs]
  rfl

theorem flattened_derivedLeaf {a : Axis} {axes : List Axis} {l : Leaf κ}
    (hl : (leaf l).isConstant = false) :
    (derivedLeaf (a :: axes) l).flattened names = symbol (l.flatName names (a :: axes)) :=
  flattened_derivative rfl (flatSymbol_derivedLeaf hl _)

theorem flattened_derivedLeaf_perm {axes axes' : List Axis} {l : Leaf κ}
    (hl : (leaf l).isConstant = false) (h : axes.Perm axes') :
    (derivedLeaf axes l).flattened names = (derivedLeaf axes' l).flattened names := by
  match axes, axes' with
  | [], _ => rw [List.nil_perm.1 h]
  | _ :: _, [] => cases List.perm_nil.1 h
  | _ :: _, _ :: _ =>
    rw [flattened_derivedLeaf hl, flattened_derivedLeaf hl, Leaf.flatName_perm names l h]

end Flattened

end Expr

end VariationalForms
