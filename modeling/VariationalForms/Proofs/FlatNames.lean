import VariationalForms.Expr.Numerals
import VariationalForms.Proofs.Flattening

/-! What a flat symbol says.
Names of spaces and of fields are free text and may look like flat symbols themselves. The parts of
a flat symbol can still be told apart from its end: no axis, digit or bracket is an underscore, so
the last underscore closes the base name, and no axis is a bracket, so the first bracket after it
opens the index (`Expr.flatSymbol_eq_iff`).
-/

set_option autoImplicit false

namespace VariationalForms

variable {κ : Type}

theorem append_cons_inj_of_last {xs ys us vs : List Char} {a : Char} (hu : a ∉ us) (hv : a ∉ vs)
    (h : xs ++ a :: us = ys ++ a :: vs) : xs = ys ∧ us = vs := by
  rcases List.append_eq_append_iff.1 h with ⟨cs, rfl, hcs⟩ | ⟨cs, rfl, hcs⟩
  · cases cs with
    | nil => exact ⟨(List.append_nil xs).symm, (List.cons.inj hcs).2⟩
    | cons c cs =>
      obtain ⟨-, rfl⟩ := List.cons.inj hcs
      exact absurd (List.mem_append_right cs (.head vs)) hu
  · cases cs with
    | nil => exact ⟨List.append_nil ys, (List.cons.inj hcs).2.symm⟩
    | cons c cs =>
      obtain ⟨-, rfl⟩ := List.cons.inj hcs
      exact absurd (List.mem_append_right cs (.head us)) hv

namespace Axis

def letter : Axis → Char
  | x => 'x'
  | y => 'y'
  | z => 'z'

theorem letter_injective : Function.Injective letter := by
  intro a b h
  cases a <;> cases b <;> first | rfl | simp [letter] at h

theorem toList_join_name (axes : List Axis) :
    (String.join (axes.map name)).toList = axes.map letter := by
  rw [String.toList_join, List.flatMap_map]
  induction axes with
  | nil => rfl
  | cons a axes ih => rw [List.flatMap_cons, ih]; cases a <;> rfl

theorem perm_iff_sort_eq {axes axes' : List Axis} : axes.Perm axes' ↔ sort axes = sort axes' := by
  refine ⟨sort_eq_of_perm, fun h => ?_⟩
  have hsorted : axes.Perm (sort axes') := h ▸ (List.mergeSort_perm axes _).symm
  exact hsorted.trans (List.mergeSort_perm axes' _)

end Axis

namespace Leaf

/-- The name that a flat symbol begins with: the basis name of the space if it has one, the name of
the leaf itself otherwise. -/
def baseName (names : BasisNames) : Leaf κ → String
  | .function f | .component f _ => names.baseName f
  | .field s | .symbol s => s
  | .number _ | .constant _ => ""

def index? : Leaf κ → Option Nat
  | .component _ i => some i
  | _ => none

end Leaf

def bracketed (i? : Option Nat) : List Char := i?.elim [] fun i => '[' :: (i.repr.toList ++ [']'])

theorem bracketed_injective : Function.Injective bracketed := by
  intro i? j? h
  cases i? with
  | none =>
    cases j? with
    | none => rfl
    | some j => cases h
  | some i =>
    cases j? with
    | none => cases h
    | some j =>
      have hrepr : i.repr.toList = j.repr.toList := List.append_cancel_right (List.cons.inj h).2
      rw [Nat.toList_repr, Nat.toList_repr] at hrepr
      rw [← Nat.ofDigitChars_ten_toDigits (n := i), hrepr, Nat.ofDigitChars_ten_toDigits]

theorem takeWhile_letters_append (axes : List Axis) (i? : Option Nat) :
    (axes.map Axis.letter ++ bracketed i?).takeWhile (· != '[') = axes.map Axis.letter := by
  have hletters : ∀ c ∈ axes.map Axis.letter, (c != '[') = true := by
    intro c hc
    obtain ⟨a, -, rfl⟩ := List.mem_map.1 hc
    cases a <;> rfl
  rw [List.takeWhile_append_of_pos hletters]
  cases i? <;> simp [bracketed]

theorem letters_append_bracketed_inj {axes axes' : List Axis} {i? j? : Option Nat}
    (h : axes.map Axis.letter ++ bracketed i? = axes'.map Axis.letter ++ bracketed j?) :
    axes = axes' ∧ i? = j? := by
  have hletters : axes.map Axis.letter = axes'.map Axis.letter := by
    rw [← takeWhile_letters_append axes i?, h, takeWhile_letters_append]
  rw [hletters] at h
  exact ⟨List.map_injective_iff.2 Axis.letter_injective hletters,
    bracketed_injective (List.append_cancel_left h)⟩

theorem underscore_notMem_letters_append (axes : List Axis) (i? : Option Nat) :
    '_' ∉ axes.map Axis.letter ++ bracketed i? := by
  rw [List.mem_append, not_or]
  constructor
  · intro hmem
    obtain ⟨a, -, ha⟩ := List.mem_map.1 hmem
    cases a <;> simp [Axis.letter] at ha
  · cases i? <;> simp [bracketed]

namespace Leaf

theorem toList_flatName {l : Leaf κ} (hl : (Expr.leaf l).isConstant = false) (names : BasisNames)
    (axes : List Axis) :
    (l.flatName names axes).toList =
      (l.baseName names).toList ++
        '_' :: ((Axis.sort axes).map Axis.letter ++ bracketed l.index?) := by
  have hmark : ("_" ++ String.join ((Axis.sort axes).map Axis.name)).toList =
      '_' :: (Axis.sort axes).map Axis.letter := by
    rw [String.toList_append, Axis.toList_join_name]
    rfl
  cases l with
  | number c | constant s => cases hl
  | component f i =>
    simp only [flatName, indexed, baseName, index?, bracketed, Option.elim_some,
      String.toList_append, hmark]
    simp
  | _ =>
    simp only [flatName, baseName, index?, bracketed, Option.elim_none, String.toList_append, hmark,
      List.append_nil]

theorem flatName_eq_iff {l m : Leaf κ} (hl : (Expr.leaf l).isConstant = false)
    (hm : (Expr.leaf m).isConstant = false) (names : BasisNames) (axes axes' : List Axis) :
    l.flatName names axes = m.flatName names axes' ↔
      l.baseName names = m.baseName names ∧ axes.Perm axes' ∧ l.index? = m.index? := by
  rw [← String.toList_inj, toList_flatName hl, toList_flatName hm, Axis.perm_iff_sort_eq]
  constructor
  · intro h
    obtain ⟨hbase, htail⟩ := append_cons_inj_of_last (underscore_notMem_letters_append _ _)
      (underscore_notMem_letters_append _ _) h
    exact ⟨String.toList_inj.1 hbase, letters_append_bracketed_inj htail⟩
  · rintro ⟨hbase, haxes, hindex⟩
    rw [hbase, haxes, hindex]

end Leaf

namespace Expr

variable [NumberText κ]

/-- Two chains of derivatives have the same flat symbol exactly when they agree on the base name, on
how often each axis occurs, and on the index of a component. -/
theorem flatSymbol_eq_iff {names : BasisNames} {e e' : Expr κ} {s s' : String}
    (h : e.flatSymbol names = .ok s) (h' : e'.flatSymbol names = .ok s') :
    ∃ axes l axes' l', e.chain = .ok (axes, .leaf l) ∧ e'.chain = .ok (axes', .leaf l') ∧
      (s = s' ↔
        l.baseName names = l'.baseName names ∧ axes.Perm axes' ∧ l.index? = l'.index?) := by
  obtain ⟨axes, l, rfl, hl⟩ := flatSymbol_eq_ok h
  obtain ⟨axes', l', rfl, hl'⟩ := flatSymbol_eq_ok h'
  rw [flatSymbol_derivedLeaf hl] at h
  rw [flatSymbol_derivedLeaf hl'] at h'
  cases h
  cases h'
  exact ⟨axes, l, axes', l', chain_derivedLeaf axes l, chain_derivedLeaf axes' l',
    Leaf.flatName_eq_iff hl hl' names axes axes'⟩

def lookalike : BasisNames := .ofList [(⟨"V", 0, 2, .scalar⟩, "u_x")]

def shearOfSymbol : Expr Float := .derivative .y [.derivative .x [.symbol "u_x"]]

def shearOfFunction : Expr Float :=
  .derivative .x [.derivative .y [.function ⟨"v", .test, ⟨"V", 0, 2, .scalar⟩⟩]]

theorem flatSymbol_eq_iff_lookalike :
    shearOfSymbol.flatSymbol lookalike = .ok "u_x_xy" ∧
      shearOfFunction.flatSymbol lookalike = .ok "u_x_xy" ∧
      ∃ axes l axes' l', shearOfSymbol.chain = .ok (axes, .leaf l) ∧
        shearOfFunction.chain = .ok (axes', .leaf l') ∧
        ("u_x_xy" = "u_x_xy" ↔
          l.baseName lookalike = l'.baseName lookalike ∧ axes.Perm axes' ∧
            l.index? = l'.index?) := by
  have hsort : Axis.sort [.x, .y] = [.x, .y] := List.mergeSort_of_pairwise (by decide)
  have hswap : Axis.sort [.y, .x] = [.x, .y] := (Axis.sort_eq_of_perm (.swap _ _ _)).trans hsort
  have hsymbol : shearOfSymbol.flatSymbol lookalike = .ok "u_x_xy" := by
    refine (flatSymbol_derivedLeaf rfl [.y, .x]).trans ?_
    rw [Leaf.flatName, hswap]
    rfl
  have hfunction : shearOfFunction.flatSymbol lookalike = .ok "u_x_xy" := by
    refine (flatSymbol_derivedLeaf rfl [.x, .y]).trans ?_
    rw [Leaf.flatName, hsort]
    rfl
  exact ⟨hsymbol, hfunction, flatSymbol_eq_iff hsymbol hfunction⟩

end Expr

end VariationalForms
