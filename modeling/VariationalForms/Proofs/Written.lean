import VariationalForms.Proofs.Order
import VariationalForms.Settings.Reader

/-! Documents as they are written, and documents as maps.
A written document is a list of titles, keys and tokens that have the right letters by construction.
Seen as a map, a document gives every title the entries of the last section with that title, and
every key in it the values that come with it last (`Document.contents_eq`).
-/

set_option autoImplicit false

namespace VariationalForms.Settings

open Text Settings.Reading

section Characters

variable {c : Char}

theorem toNat_of_isBlank (h : isBlank c) : c.toNat ≤ 32 ∨ 133 ≤ c.toNat := by
  simp only [isBlank, blanks, List.contains_eq_mem, decide_eq_true_eq, List.mem_cons,
    List.not_mem_nil, or_false] at h
  omega

theorem toNat_of_isAlpha (h : c.isAlpha) : 65 ≤ c.toNat ∧ c.toNat ≤ 122 := by
  unfold Char.isAlpha Char.isUpper Char.isLower at h
  simp only [Bool.or_eq_true, Bool.and_eq_true, decide_eq_true_eq, ge_iff_le,
    UInt32.le_iff_toNat_le] at h
  change (65 ≤ c.toNat ∧ c.toNat ≤ 90) ∨ 97 ≤ c.toNat ∧ c.toNat ≤ 122 at h
  omega

theorem toNat_of_inIdentifier (h : inIdentifier c) : 48 ≤ c.toNat ∧ c.toNat ≤ 122 := by
  simp only [inIdentifier, Char.isAlphanum, Bool.or_eq_true, beq_iff_eq] at h
  rcases h with (h | h) | rfl
  · have hc := toNat_of_isAlpha h
    omega
  · rw [Char.isDigit_iff_toNat] at h
    change 48 ≤ c.toNat ∧ c.toNat ≤ 57 at h
    omega
  · decide

theorem isBlank_of_inIdentifier (h : inIdentifier c) : isBlank c = false := by
  rw [Bool.eq_false_iff]
  intro hb
  have h₁ := toNat_of_isBlank hb
  have h₂ := toNat_of_inIdentifier h
  omega

theorem inIdentifier_of_startsIdentifier (h : startsIdentifier c) : inIdentifier c := by
  simp only [startsIdentifier, inIdentifier, Char.isAlphanum, Bool.or_eq_true] at *
  tauto

theorem isBlank_of_isInline (h : isInline c) : isBlank c := by
  simp only [isInline, Bool.or_eq_true, beq_iff_eq] at h
  rcases h with rfl | rfl <;> decide

theorem isInline_of_not_isBlank (h : isBlank c = false) : isInline c = false := by
  rw [Bool.eq_false_iff] at *
  exact fun hc => h (isBlank_of_isInline hc)

theorem isInline_of_inToken (h : inToken c) : isInline c = false := by
  simp only [inToken, isInline, Bool.not_eq_true', Bool.or_eq_false_iff] at *
  tauto

end Characters

/-- A name: a letter or an underscore, then letters, digits and underscores. -/
structure Identifier where
  first : Char
  others : List Char
  starts : startsIdentifier first
  continues : ∀ c ∈ others, inIdentifier c

/-- A value as it is written, up to a comma, a semicolon, a space, a tab or a line break. -/
structure Token where
  chars : List Char
  ne_nil : chars ≠ []
  continues : ∀ c ∈ chars, inToken c

structure WrittenEntry where
  key : Identifier
  tokens : List Token

structure WrittenSection where
  title : Identifier
  first : WrittenEntry
  more : List WrittenEntry

namespace Identifier

def chars (i : Identifier) : List Char := i.first :: i.others

def text (i : Identifier) : String := String.ofList i.chars

theorem isBlank_chars (i : Identifier) : ∀ c ∈ i.chars, isBlank c = false := by
  intro c hc
  rcases List.mem_cons.1 hc with rfl | hc
  · exact isBlank_of_inIdentifier (inIdentifier_of_startsIdentifier i.starts)
  · exact isBlank_of_inIdentifier (i.continues c hc)

end Identifier

namespace WrittenEntry

def toEntry (e : WrittenEntry) : Entry := ⟨e.key.text, e.tokens.map fun t => Value.ofToken t.chars⟩

end WrittenEntry

namespace WrittenSection

def entries (s : WrittenSection) : List WrittenEntry := s.first :: s.more

def toSection (s : WrittenSection) : Section := ⟨s.title.text, s.entries.map WrittenEntry.toEntry⟩

end WrittenSection

section Last

variable {α β : Type} {key : String}

/-- What a list of pairs gives a key last. -/
def lastOf (pairs : List (String × α)) (key : String) : Option α := pairs.reverse.lookup key

theorem lookup_map_eq_find? (name : β → String) (value : β → α) (bs : List β) :
    (bs.map fun b => (name b, value b)).lookup key =
      (bs.find? fun b => name b = key).map value := by
  induction bs with
  | nil => rfl
  | cons b bs ih =>
    rw [List.map_cons, List.lookup_cons, List.find?_cons]
    by_cases h : name b = key
    · simp [h]
    · rw [beq_false_of_ne (Ne.symm h), decide_eq_false h]
      exact ih

theorem lastOf_map (name : β → String) (value : β → α) (bs : List β) :
    lastOf (bs.map fun b => (name b, value b)) key =
      (bs.reverse.find? fun b => name b = key).map value := by
  rw [lastOf, ← List.map_reverse]
  exact lookup_map_eq_find? name value _

theorem lookup_graph_eq_none (value : String → α) {keys : List String} (h : key ∉ keys) :
    (keys.map fun k => (k, value k)).lookup key = none := by
  rw [List.lookup_eq_none_iff]
  intro p hp
  obtain ⟨k, hk, rfl⟩ := List.mem_map.1 hp
  exact bne_iff_ne.2 fun hkey : key = k => h (hkey ▸ hk)

theorem lookup_names {name : β → String} (value : String → α) (bs : List β) :
    ((bs.map name).eraseDups.eraseDups.map fun k => (k, value k)).lookup key =
      (bs.reverse.find? fun b => name b = key).map fun _ => value key := by
  have hmem : key ∈ (bs.map name).eraseDups.eraseDups ↔
      ∃ b, (bs.reverse.find? fun b => name b = key) = some b := by
    rw [List.mem_eraseDups, List.mem_eraseDups, List.mem_map, ← Option.isSome_iff_exists,
      List.find?_isSome]
    simp only [List.mem_reverse, decide_eq_true_eq]
  cases hb : bs.reverse.find? fun b => name b = key with
  | none =>
    have hkey : key ∉ (bs.map name).eraseDups.eraseDups := fun h => by
      obtain ⟨b, h⟩ := hmem.1 h
      cases hb.symm.trans h
    exact lookup_graph_eq_none value hkey
  | some b => exact List.lookup_graph value (hmem.2 ⟨b, hb⟩)

theorem nodup_table (value : String → α) (keys : List String) :
    ((keys.eraseDups.map fun k => (k, value k)).map Prod.fst).Nodup := by
  rw [List.map_map]
  exact (List.map_id _).symm ▸ nodup_eraseDups keys

end Last

namespace Document

/-- The document as a map from titles to maps from keys to values, when nothing is expected. -/
def contents (d : Document) (title : String) : Option (String → Option (Option (List Value))) :=
  ((d.complete []).lookup title).map fun keys key => keys.lookup key

theorem nodup_complete (d : Document) (t : Template) :
    ((d.complete t).map Prod.fst).Nodup ∧ ∀ s ∈ d.complete t, (s.2.map Prod.fst).Nodup := by
  refine ⟨nodup_table _ _, fun s hs => ?_⟩
  obtain ⟨title, -, rfl⟩ := List.mem_map.1 hs
  exact nodup_table _ _

/-- As a map, a document is what its sections give last, each of them what its entries give last. -/
theorem contents_eq (d : Document) :
    d.contents = lastOf (d.sections.map fun s =>
      (s.title, lastOf (s.entries.map fun e => (e.key, some e.values)))) := by
  funext title
  rw [lastOf_map Section.title fun s => lastOf (s.entries.map fun e => (e.key, some e.values)),
    contents, complete, List.map_nil, List.append_nil, titles, lookup_names, Option.map_map]
  change (d.last? title).map _ = (d.last? title).map _
  cases hs : d.last? title with
  | none => rfl
  | some s =>
    rw [Option.map_some, Option.map_some]
    congr 1
    funext key
    simp only [Function.comp_apply, keys, values?, hs, Option.map_some, Option.getD_some,
      List.lookup_nil, Option.getD_none, List.append_nil, Option.bind_some, Section.keys]
    rw [lookup_names, lastOf_map Entry.key fun e => some e.values, Section.values?]
    cases s.entries.reverse.find? fun e => e.key = key with
    | none => rfl
    | some e => rfl

end Document

/-- What a written document says: for every title the last section with that title, and in it for
every key the values that come with it last. -/
def writtenContents (ws : List WrittenSection) :
    String → Option (String → Option (Option (List Value))) :=
  lastOf (ws.map fun s => (s.title.text, lastOf (s.entries.map fun e =>
    (e.key.text, some (e.tokens.map fun t => Value.ofToken t.chars)))))

/-- The document lists every title once and under it every key once, and says what was written. -/
structure Document.Means (d : Document) (ws : List WrittenSection) : Prop where
  nodup_titles : ((d.complete []).map Prod.fst).Nodup
  nodup_keys : ∀ s ∈ d.complete [], (s.2.map Prod.fst).Nodup
  contents_eq : d.contents = writtenContents ws

theorem Document.means_of_sections_eq {d : Document} {ws : List WrittenSection}
    (h : d.sections = ws.map WrittenSection.toSection) : d.Means ws := by
  refine ⟨(nodup_complete d []).1, (nodup_complete d []).2, ?_⟩
  rw [contents_eq, h, writtenContents, List.map_map]
  congr 1
  refine List.map_congr_left fun s _ => ?_
  rw [Function.comp_apply, WrittenSection.toSection, List.map_map]
  rfl

end VariationalForms.Settings
