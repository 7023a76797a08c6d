import Mathlib.Data.List.Basic
import VariationalForms.Text.Blank

/-! Lines, and the blanks around them.
Lines with line breaks between them are taken apart again (`lines_joined`), trimming drops no more
than the blanks around a text that neither starts nor ends with one (`Firm.trim_append`), and a reader
that goes over no line break stops at the end of a line (`stops_follow`).
-/

set_option autoImplicit false

namespace VariationalForms.Text

section Separators

theorem intercalate_cons {α : Type} (sep xs : List α) (xss : List (List α)) :
    sep.intercalate (xs :: xss) = xs ++ xss.flatMap (sep ++ ·) := by
  induction xss generalizing xs with
  | nil => simp
  | cons ys yss ih =>
    rw [List.intercalate_cons_cons, ih, List.flatMap_cons, List.append_assoc, List.append_assoc]

theorem mem_intercalate {α : Type} {sep : List α} {xss : List (List α)} {a : α}
    (h : a ∈ sep.intercalate xss) : a ∈ sep ∨ ∃ xs ∈ xss, a ∈ xs := by
  cases xss with
  | nil => cases h
  | cons xs xss =>
    rw [intercalate_cons, List.mem_append, List.mem_flatMap] at h
    rcases h with h | ⟨ys, hys, h⟩
    · exact .inr ⟨xs, .head _, h⟩
    · exact (List.mem_append.1 h).imp_right fun h => ⟨ys, .tail _ hys, h⟩

end Separators

section Trimming

variable {l pad : List Char}

theorem trim_blanks_append (h : ∀ c ∈ pad, isBlank c) (l : List Char) :
    trim (pad ++ l) = trim l := by
  rw [trim, trim, trimLeft, trimLeft, List.dropWhile_append_of_pos h]

theorem trim_append_blanks (h : ∀ c ∈ pad, isBlank c) (l : List Char) :
    trim (l ++ pad) = trim l := by
  rw [trim, trim, trimLeft, trimLeft, List.dropWhile_append]
  split
  case isTrue hl =>
    have hpad : pad.dropWhile isBlank = [] := by
      rw [← List.append_nil pad, List.dropWhile_append_of_pos h]
      rfl
    rw [hpad, List.isEmpty_iff.1 hl]
  case isFalse =>
    have hreverse : ∀ c ∈ pad.reverse, isBlank c := fun c hc => h c (List.mem_reverse.1 hc)
    rw [trimRight, trimRight, List.reverse_append, List.dropWhile_append_of_pos hreverse]

/-- A text that neither starts nor ends with a blank. -/
structure Firm (l : List Char) : Prop where
  head : ∃ c ∈ l.head?, isBlank c = false
  last : ∃ c ∈ l.getLast?, isBlank c = false

theorem Firm.trim_append (h : Firm l) (l' : List Char) : trim (l ++ l') = l ++ trimRight l' := by
  obtain ⟨⟨c, hc, hhead⟩, d, hd, hlast⟩ := h
  have hleft : trimLeft (l ++ l') = l ++ l' := by
    obtain ⟨rest, rfl⟩ := List.head?_eq_some_iff.1 hc
    rw [trimLeft, List.cons_append, List.dropWhile_cons_of_neg (by simp [hhead])]
  have hright : l.reverse.dropWhile isBlank = l.reverse := by
    obtain ⟨init, rfl⟩ := List.getLast?_eq_some_iff.1 hd
    rw [List.reverse_append, List.reverse_singleton, List.singleton_append,
      List.dropWhile_cons_of_neg (by simp [hlast])]
  rw [trim, hleft, trimRight, trimRight, List.reverse_append, List.dropWhile_append]
  split
  case isTrue hnil => rw [hright, List.isEmpty_iff.1 hnil]; simp
  case isFalse => simp

theorem Firm.trim_eq (h : Firm l) : trim l = l := by
  have htrim := h.trim_append []
  rwa [List.append_nil, trimRight, List.reverse_nil, List.dropWhile_nil, List.reverse_nil,
    List.append_nil] at htrim

theorem Firm.of_forall (hne : l ≠ []) (h : ∀ c ∈ l, isBlank c = false) : Firm l := by
  refine ⟨⟨l.head hne, List.head?_eq_some_head hne, h _ (List.head_mem hne)⟩,
    l.getLast hne, List.getLast?_eq_some_getLast hne, h _ (List.getLast_mem hne)⟩

theorem Firm.append {l' : List Char} (h : Firm l) (h' : Firm l') (mid : List Char) :
    Firm (l ++ mid ++ l') := by
  obtain ⟨c, hc, hhead⟩ := h.head
  obtain ⟨d, hd, hlast⟩ := h'.last
  refine ⟨⟨c, ?_, hhead⟩, d, ?_, hlast⟩
  · rw [List.append_assoc, List.head?_append, hc]
    rfl
  · rw [List.getLast?_append, hd]
    rfl

end Trimming

section Stops

variable {p : Char → Bool} {xs rest : List Char}

/-- The text does not go on with a character of a kind. -/
def Stops (p : Char → Bool) (rest : List Char) : Prop := ∀ c ∈ rest.head?, p c = false

theorem stops_nil : Stops p [] := nofun

theorem stops_cons {c : Char} (h : p c = false) : Stops p (c :: rest) := by
  intro d hd
  cases Option.mem_some.1 hd
  exact h

theorem Stops.dropWhile_eq (h : Stops p rest) : rest.dropWhile p = rest := by
  cases rest with
  | nil => rfl
  | cons c cs => rw [List.dropWhile_cons_of_neg (by simp [h c rfl])]

theorem Stops.takeWhile_eq (h : Stops p rest) : rest.takeWhile p = [] := by
  cases rest with
  | nil => rfl
  | cons c cs => rw [List.takeWhile_cons_of_neg (by simp [h c rfl])]

theorem Stops.dropWhile_append (h : Stops p rest) (hxs : ∀ c ∈ xs, p c) :
    (xs ++ rest).dropWhile p = rest := by
  rw [List.dropWhile_append_of_pos hxs, h.dropWhile_eq]

theorem Stops.takeWhile_append (h : Stops p rest) (hxs : ∀ c ∈ xs, p c) :
    (xs ++ rest).takeWhile p = xs := by
  rw [List.takeWhile_append_of_pos hxs, h.takeWhile_eq, List.append_nil]

theorem dropWhile_append_eq_self (hne : xs ≠ []) (hxs : ∀ c ∈ xs, p c = false) :
    (xs ++ rest).dropWhile p = xs ++ rest := by
  obtain ⟨c, cs, rfl⟩ := List.exists_cons_of_ne_nil hne
  exact (stops_cons (hxs c (.head _))).dropWhile_eq

end Stops

section Lines

theorem lines_eq_splitOn (cs : List Char) : lines cs = cs.splitOn '\n' := by
  induction cs with
  | nil => rfl
  | cons c cs ih =>
    rw [lines, ih, List.splitOn_cons_eq_if_modifyHead]
    by_cases hc : c = '\n'
    · rw [if_pos hc, if_pos (beq_iff_eq.2 hc)]
    · rw [if_neg hc, if_neg (by simpa using hc)]
      cases hs : cs.splitOn '\n' with
      | nil => exact absurd hs (List.splitOnP_ne_nil _ _)
      | cons l ls => rfl

def joined (ls : List (List Char)) : List Char := ['\n'].intercalate ls

/-- The text of the lines that follow a line. -/
def follow (ls : List (List Char)) : List Char := ls.flatMap ('\n' :: ·)

theorem joined_cons (l : List Char) (ls : List (List Char)) :
    joined (l :: ls) = l ++ follow ls := intercalate_cons _ _ _

theorem lines_joined {ls : List (List Char)} (hne : ls ≠ []) (h : ∀ l ∈ ls, '\n' ∉ l) :
    lines (joined ls) = ls := by
  rw [lines_eq_splitOn, joined, List.splitOn_intercalate _ h hne]

theorem Firm.append_follow {l : List Char} {ls : List (List Char)} (h : Firm l)
    (hls : ∀ l ∈ ls, Firm l) : Firm (l ++ follow ls) := by
  induction ls generalizing l with
  | nil => simpa [follow] using h
  | cons l' ls ih =>
    have hrest := ih (hls l' (.head _)) fun l hl => hls l (.tail _ hl)
    simpa [follow] using h.append hrest ['\n']

theorem trim_follow {ls : List (List Char)} (h : ∀ l ∈ ls, Firm l) :
    trim (follow ls) = joined ls := by
  cases ls with
  | nil => rfl
  | cons l ls =>
    have hfirm := (h l (.head _)).append_follow fun l hl => h l (.tail _ hl)
    have hblank : ∀ c ∈ ['\n'], isBlank c := List.all_eq_true.1 rfl
    rw [joined_cons, ← hfirm.trim_eq, ← trim_blanks_append hblank]
    rfl

theorem stops_follow {p : Char → Bool} (hp : p '\n' = false) (ls : List (List Char)) :
    Stops p (follow ls) := by
  cases ls with
  | nil => exact stops_nil
  | cons l ls => exact stops_cons hp

end Lines

end VariationalForms.Text
