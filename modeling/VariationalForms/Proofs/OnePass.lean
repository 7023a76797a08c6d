import VariationalForms.Proofs.Completeness

/-! Flattening in one pass.
Instead of collecting symbols, sorting and substituting them, one recursion over the integrand names
each outermost chain of derivatives and each function where it stands. Flattening is that recursion
wherever no chain is broken, and fails wherever one is (`Normalization.flatten_localized`), so the
name of a term does not depend on what stands beside it.
-/

set_option autoImplicit false

namespace VariationalForms

variable {κ : Type}

def Leaf.localized (names : BasisNames) : Leaf κ → Leaf κ
  | .function f => (names.find? f.space).elim (.function f) .symbol
  | .component f i =>
    if i < f.space.shape?.getD 0 then
      (names.find? f.space).elim (.component f i) fun name => .symbol (indexed name i)
    else .component f i
  | l => l

namespace Expr

/-- Follows the only operand of each derivative. A chain is broken where a derivative has any other
number of operands, and where it ends on anything but a function, a component, a field or a flat
symbol. -/
def chainBroken : Expr κ → Bool
  | .derivative _ [e] => e.chainBroken
  | .derivative _ _ => true
  | .function _ | .component _ _ | .field _ | .symbol _ => false
  | _ => true

section Localized

variable [NumberText κ] (names : BasisNames)

mutual

/-- Names the outermost derivatives and the functions, each on its own. A derivative without a flat
symbol stays. -/
def localized : Expr κ → Expr κ
  | .leaf l => .leaf (l.localized names)
  | .arith op l r => .arith op (localized l) (localized r)
  | .derivative a args =>
    ((derivative a args).flatSymbol names).toOption.elim (.derivative a args) symbol
  | .node h args => .node h (localizedArgs args)

def localizedArgs : List (Expr κ) → List (Expr κ)
  | [] => []
  | e :: es => localized e :: localizedArgs es

end

theorem localizedArgs_eq_map (es : List (Expr κ)) :
    localizedArgs names es = es.map (localized names) := by
  induction es with
  | nil => rfl
  | cons e es ih => rw [localizedArgs, ih, List.map_cons]

end Localized

theorem chainBroken_derivedLeaf (axes : List Axis) (l : Leaf κ) :
    (derivedLeaf axes l).chainBroken = (leaf l).isConstant := by
  induction axes with
  | nil => cases l <;> rfl
  | cons a axes ih => rw [derivedLeaf_cons, chainBroken, ih]

theorem exists_derivedLeaf_of_unbroken {e : Expr κ} (h : e.chainBroken = false) :
    ∃ axes l, e = derivedLeaf axes l := by
  induction e with
  | leaf l => exact ⟨[], l, rfl⟩
  | arith op l r => cases h
  | node k args ih =>
    cases k with
    | derivative a =>
      match args with
      | [] | _ :: _ :: _ => cases h
      | [u] =>
        obtain ⟨axes, l, rfl⟩ := ih u (.head _) h
        exact ⟨a :: axes, l, rfl⟩
    | _ => cases h

variable [NumberText κ] {names : BasisNames}

theorem exists_flatSymbol_iff {e : Expr κ} :
    (∃ s, e.flatSymbol names = .ok s) ↔ e.chainBroken = false := by
  constructor
  · rintro ⟨s, hs⟩
    obtain ⟨axes, l, rfl, hl⟩ := flatSymbol_eq_ok hs
    rw [chainBroken_derivedLeaf, hl]
  · intro h
    obtain ⟨axes, l, rfl⟩ := exists_derivedLeaf_of_unbroken h
    rw [chainBroken_derivedLeaf] at h
    exact ⟨_, flatSymbol_derivedLeaf h axes⟩

theorem flattened_leaf_eq_localized (l : Leaf κ) :
    (leaf l).flattened names = .leaf (l.localized names) := by
  rw [flattened_leaf]
  cases l with
  | function f =>
    cases h : names.find? f.space <;> simp [basisSymbol?, Leaf.localized, h]
  | component f i =>
    by_cases hi : i < f.space.shape?.getD 0
    · cases h : names.find? f.space <;> simp [basisSymbol?, Leaf.localized, hi, h]
    · simp [basisSymbol?, Leaf.localized, hi]
  | _ => rfl

theorem flattened_eq_localized {e : Expr κ}
    (hok : ∀ n ∈ e.nodes, n.isDerivative → n.chainBroken = false) :
    e.flattened names = e.localized names := by
  induction e with
  | leaf l => rw [flattened_leaf_eq_localized, localized]
  | arith op l r hl hr =>
    have hnodes := (forall_mem_nodes.1 hok).2
    rw [flattened_arith, localized, hl (hnodes l (by simp [children])),
      hr (hnodes r (by simp [children]))]
  | node h args ih =>
    obtain ⟨hself, hnodes⟩ := forall_mem_nodes.1 hok
    by_cases hd : ∃ a, h = .derivative a
    · obtain ⟨a, rfl⟩ := hd
      obtain ⟨s, hs⟩ : ∃ s, (derivative a args).flatSymbol names = .ok s :=
        exists_flatSymbol_iff.2 (hself rfl)
      rw [flattened_derivative rfl hs, localized, hs]
      rfl
    · have hd : ∀ a, h ≠ .derivative a := fun a ha => hd ⟨a, ha⟩
      have hlocalized : (node h args).localized names = .node h (args.map (localized names)) := by
        rw [← localizedArgs_eq_map]
        cases h with
        | derivative a => exact absurd rfl (hd a)
        | _ => rfl
      rw [flattened_node hd, hlocalized, List.map_congr_left fun e he => ih e he (hnodes e he)]

end Expr

namespace Normalization

variable [Zero κ] [One κ] [Neg κ] [Add κ] [Sub κ] [Mul κ] [BEq κ] [NumberText κ]

theorem flatten_eq_ok_iff_localized {cs : Coefficients} {names : BasisNames} {e x : Expr κ} :
    flatten ⟨cs, names, false⟩ e = .ok x ↔
      (∀ d ∈ e.nodes, d.isDerivative → d.chainBroken = false) ∧ e.localized names = x := by
  rw [flatten_eq_ok_iff]
  simp only [Expr.exists_flatSymbol_iff]
  refine and_congr_right fun hunbroken => ?_
  rw [← Expr.flattened_eq_localized hunbroken]
  rfl

theorem flatten_of_unbroken {cs : Coefficients} {names : BasisNames} {e x : Expr κ}
    (hchains : e.nodes.all fun d => !d.isDerivative || !d.chainBroken)
    (hx : e.localized names = x) : flatten ⟨cs, names, false⟩ e = .ok x := by
  refine flatten_eq_ok_iff_localized.2 ⟨fun d hd hder => ?_, hx⟩
  simpa [hder] using List.all_eq_true.1 hchains d hd

/-- Without simplification, flattening fails exactly when some chain is broken, and is otherwise the
one pass. -/
theorem flatten_localized (cs : Coefficients) (names : BasisNames) (e : Expr κ) :
    ((∃ fault, flatten ⟨cs, names, false⟩ e = .error fault) ↔
        ∃ d ∈ e.nodes, d.isDerivative ∧ d.chainBroken) ∧
      ((∃ fault, flatten ⟨cs, names, false⟩ e = .error fault) ∨
        flatten ⟨cs, names, false⟩ e = .ok (e.localized names)) := by
  by_cases hbroken : ∃ d ∈ e.nodes, d.isDerivative ∧ d.chainBroken
  · obtain ⟨d, hd, hder, hchain⟩ := hbroken
    cases hres : flatten ⟨cs, names, false⟩ e with
    | ok x =>
      have hunbroken := (flatten_eq_ok_iff_localized.1 hres).1 d hd hder
      rw [hchain] at hunbroken
      cases hunbroken
    | error fault => exact ⟨iff_of_true ⟨fault, rfl⟩ ⟨d, hd, hder, hchain⟩, .inl ⟨fault, rfl⟩⟩
  · have hunbroken : ∀ d ∈ e.nodes, d.isDerivative → d.chainBroken = false :=
      fun d hd hder => Bool.eq_false_iff.2 fun hchain => hbroken ⟨d, hd, hder, hchain⟩
    have hok : flatten ⟨cs, names, false⟩ e = .ok (e.localized names) :=
      flatten_eq_ok_iff_localized.2 ⟨hunbroken, rfl⟩
    refine ⟨iff_of_false ?_ hbroken, .inr hok⟩
    rintro ⟨fault, hfault⟩
    rw [hok] at hfault
    cases hfault

end Normalization

end VariationalForms
