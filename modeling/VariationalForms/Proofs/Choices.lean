import Mathlib.Data.List.TakeDrop
import VariationalForms.Proofs.Expand
import VariationalForms.Proofs.Layout
import VariationalForms.Settings

/-! Settings as they are written in a document.
A document chooses basis names, a level of logging and whether to simplify, each in a section of its
own, or it says nothing about them. Whatever else stands in the document and however it is laid out,
reading gives back the choices, and the defaults of what was not chosen
(`Settings.ofText_of_writtenIn`).
-/

set_option autoImplicit false

namespace VariationalForms.Settings

open Text Settings.Reading

section Pairs

theorem filter_eq_singleton {α β : Type} [DecidableEq β] {f : α → β} {xs : List α}
    (h : (xs.map f).Nodup) {x : α} (hx : x ∈ xs) : (xs.filter fun y => f y = f x) = [x] := by
  induction xs with
  | nil => cases hx
  | cons y ys ih =>
    obtain ⟨hy, hys⟩ := List.nodup_cons.1 h
    rcases List.mem_cons.1 hx with rfl | hx
    · have hnone : (ys.filter fun z => f z = f x) = [] := by
        rw [List.filter_eq_nil_iff]
        intro z hz
        simpa using fun hzx : f z = f x => hy (hzx ▸ List.mem_map_of_mem hz)
      rw [List.filter_cons_of_pos (by simp), hnone]
    · have hne : f y ≠ f x := fun hyx => hy (hyx ▸ List.mem_map_of_mem hx)
      rw [List.filter_cons_of_neg (by simpa using hne), ih hys hx]

theorem lookup_of_perm {α β : Type} [BEq α] [LawfulBEq α] {ps qs : List (α × β)} (h : ps.Perm qs)
    (hnodup : (ps.map Prod.fst).Nodup) (a : α) : ps.lookup a = qs.lookup a := by
  induction h with
  | nil => rfl
  | cons p _ ih => rw [List.lookup_cons, List.lookup_cons, ih (List.nodup_cons.1 hnodup).2]
  | swap p q ps =>
    have hne : q.1 ≠ p.1 := fun h => (List.nodup_cons.1 hnodup).1 (h ▸ .head _)
    by_cases hp : a = p.1
    · have hq : (a == q.1) = false := beq_false_of_ne fun hq => hne (hq.symm.trans hp)
      rw [List.lookup_cons, List.lookup_cons, List.lookup_cons, List.lookup_cons, hq]
    · rw [List.lookup_cons, List.lookup_cons, List.lookup_cons, List.lookup_cons,
        beq_false_of_ne hp]
  | trans h _ ih ih' => rw [ih hnodup, ih' ((h.map Prod.fst).nodup_iff.1 hnodup)]

end Pairs

section Words

variable {c : Char} {cs : List Char}

theorem isDigit_of_isAlpha (h : c.isAlpha) : c.isDigit = false := by
  have hc := toNat_of_isAlpha h
  rw [Bool.eq_false_iff]
  intro hd
  rw [Char.isDigit_iff_toNat] at hd
  change 48 ≤ c.toNat ∧ c.toNat ≤ 57 at hd
  omega

open Decimal

theorem readSign_of_isAlpha (hc : c.isAlpha) : readSign (c :: cs) = (false, c :: cs) := by
  unfold readSign
  split
  case h_1 h => cases h; cases hc
  case h_2 h => cases h; cases hc
  case h_3 => rfl

theorem readInteger?_of_isAlpha (hc : c.isAlpha) : readInteger? (c :: cs) = none := by
  simp [readInteger?, readSign_of_isAlpha hc, isDigit_of_isAlpha hc]

theorem readNumber?_of_isAlpha (hc : c.isAlpha) : readNumber? false (c :: cs) = none := by
  have hdigit := isDigit_of_isAlpha hc
  have hpoint : c ≠ '.' := by rintro rfl; cases hc
  simp [readNumber?, List.span_eq_takeWhile_dropWhile, hdigit, hpoint]

theorem readFloat?_of_isAlpha (hc : c.isAlpha)
    (hword : String.ofList ((c :: cs).map Char.toLower) ∉ ["inf", "infinity", "nan"]) :
    readFloat? (c :: cs) = none := by
  simp only [List.mem_cons, List.not_mem_nil, or_false, not_or] at hword
  simp only [readFloat?, readSign_of_isAlpha hc, readNumber?_of_isAlpha hc, readWord?, hword]
  rfl

end Words

/-- A text that is no whole number, no float and no truth value. -/
structure IsName (s : String) : Prop where
  notInteger : Decimal.readInteger? s.toList = none
  notFloat : Decimal.readFloat? s.toList = none
  notBoolean : s ≠ "true" ∧ s ≠ "false"

namespace Token

def text (t : Token) : String := String.ofList t.chars

variable {t : Token}

theorem toList_text (t : Token) : t.text.toList = t.chars := String.toList_ofList

theorem Unbroken.trim_eq (ht : t.Unbroken) : trim t.chars = t.chars :=
  (Firm.of_forall t.ne_nil ht).trim_eq

theorem Unbroken.ofToken_eq (ht : t.Unbroken) (h : IsName t.text) :
    Value.ofToken t.chars = .text t.text := by
  obtain ⟨hinteger, hfloat, htrue, hfalse⟩ := h
  rw [toList_text] at hinteger hfloat
  simp only [Value.ofToken, ht.trim_eq, hinteger, hfloat]
  split
  case h_1 h => exact absurd h htrue
  case h_2 h => exact absurd h hfalse
  case h_3 => rfl

end Token

namespace LogLevel

variable {l : LogLevel}

/-- The names by which a level can be written. -/
def names : LogLevel → List String
  | off => ["off", "none"]
  | error => ["error"]
  | warn => ["warn"]
  | info => ["info"]
  | debug => ["debug"]
  | trace => ["trace"]

/-- A level is written as one of its names, each letter of it small or capital. -/
def Spells (l : LogLevel) (s : String) : Prop :=
  ∃ name ∈ l.names, List.Forall₂ (fun c d => c = d ∨ c = d.toUpper) s.toList name.toList

theorem letters_names (l : LogLevel) : ∀ name ∈ l.names, ∀ d ∈ name.toList,
    (d.isAlpha ∧ d.toLower = d) ∧ d.toUpper.isAlpha ∧ d.toUpper.toLower = d := by
  cases l <;> simp [names]

theorem lower_of_forall₂ {cs ds : List Char}
    (h : List.Forall₂ (fun c d => c = d ∨ c = d.toUpper) cs ds)
    (hds : ∀ d ∈ ds, (d.isAlpha ∧ d.toLower = d) ∧ d.toUpper.isAlpha ∧ d.toUpper.toLower = d) :
    (∀ c ∈ cs, c.isAlpha) ∧ cs.map Char.toLower = ds := by
  induction h with
  | nil => exact ⟨List.forall_mem_nil _, rfl⟩
  | cons hcd _ ih =>
    obtain ⟨hsmall, hcapital⟩ := hds _ (.head _)
    obtain ⟨hrest, hlower⟩ := ih fun d hd => hds d (.tail _ hd)
    rw [List.forall_mem_cons, List.map_cons, hlower]
    rcases hcd with rfl | rfl
    · exact ⟨⟨hsmall.1, hrest⟩, by rw [hsmall.2]⟩
    · exact ⟨⟨hcapital.1, hrest⟩, by rw [hcapital.2]⟩

theorem Spells.exists_lower {s : String} (h : l.Spells s) : ∃ name ∈ l.names,
    (∀ c ∈ s.toList, c.isAlpha) ∧ s.toList.map Char.toLower = name.toList := by
  obtain ⟨name, hname, h⟩ := h
  exact ⟨name, hname, lower_of_forall₂ h (l.letters_names name hname)⟩

theorem Spells.isName {t : Token} (h : l.Spells t.text) : IsName t.text := by
  obtain ⟨name, hname, halpha, hlower⟩ := h.exists_lower
  obtain ⟨c, cs, hcs⟩ := List.exists_cons_of_ne_nil t.ne_nil
  rw [Token.toList_text, hcs] at halpha hlower
  have hc := halpha c (.head _)
  have hwords : name ∉ ["inf", "infinity", "nan", "true", "false"] := by
    revert name
    cases l <;> simp [names]
  have hnumber : String.ofList ((c :: cs).map Char.toLower) ∉ ["inf", "infinity", "nan"] := by
    rw [hlower, String.ofList_toList]
    simp_all
  have hboolean : ∀ s : String, s.toList.map Char.toLower = s.toList → t.text = s → name = s := by
    rintro s hs rfl
    rw [Token.toList_text, hcs, hlower, ← hcs, ← Token.toList_text] at hs
    exact String.toList_injective hs
  refine ⟨?_, ?_, fun htrue => ?_, fun hfalse => ?_⟩
  · rw [Token.toList_text, hcs, readInteger?_of_isAlpha hc]
  · rw [Token.toList_text, hcs, readFloat?_of_isAlpha hc hnumber]
  · simp [hboolean "true" (by decide) htrue] at hwords
  · simp [hboolean "false" (by decide) hfalse] at hwords

theorem Spells.ofText?_eq {t : Token} (ht : t.Unbroken) (h : l.Spells t.text) :
    ofText? t.text = some l := by
  obtain ⟨name, hname, -, hlower⟩ := h.exists_lower
  rw [Token.toList_text] at hlower
  rw [ofText?, Token.toList_text, ht.trim_eq, hlower, String.ofList_toList]
  revert name
  cases l <;> simp [names]

end LogLevel

/-- The entries under a title. -/
def entriesUnder (ws : List WrittenSection) (title : String) : List WrittenEntry :=
  (ws.filter fun s => s.title.text = title).flatMap WrittenSection.entries

section Lookup

variable {ws : List WrittenSection} {d : Document} {title key : String} {e : WrittenEntry}

theorem exists_last? (hd : d.sections = ws.map WrittenSection.toSection)
    (honce : (ws.filter fun s => s.title.text = title).length ≤ 1) :
    (d.last? title = none ∧ entriesUnder ws title = []) ∨
      ∃ s : WrittenSection, d.last? title = some s.toSection ∧
        entriesUnder ws title = s.entries := by
  have hlast : d.last? title =
      (ws.filter fun s => s.title.text = title).getLast?.map WrittenSection.toSection := by
    rw [Document.last?, hd, ← List.getLast?_filter, List.filter_map, List.getLast?_map]
    rfl
  rw [hlast, entriesUnder]
  generalize (ws.filter fun s => s.title.text = title) = ss at honce
  match ss with
  | [] => exact .inl ⟨rfl, rfl⟩
  | [s] => exact .inr ⟨s, rfl, List.flatMap_singleton _ _⟩
  | _ :: _ :: _ => simp at honce

theorem values?_toSection (s : WrittenSection) (key : String) :
    s.toSection.values? key =
      (s.entries.filter fun e => e.key.text = key).getLast?.map fun e => e.toEntry.values := by
  rw [Section.values?, WrittenSection.toSection, ← List.getLast?_filter, List.filter_map,
    List.getLast?_map, Option.map_map]
  rfl

theorem values?_eq (hd : d.sections = ws.map WrittenSection.toSection)
    (honce : (ws.filter fun s => s.title.text = title).length ≤ 1) (key : String) :
    d.values? title key = ((entriesUnder ws title).filter fun e => e.key.text = key).getLast?.map
      fun e => e.toEntry.values := by
  rcases exists_last? hd honce with ⟨hlast, hentries⟩ | ⟨s, hlast, hentries⟩
  · rw [Document.values?, hlast, hentries]
    rfl
  · rw [Document.values?, hlast, hentries, Option.bind_some, values?_toSection]

theorem keys_eq (hd : d.sections = ws.map WrittenSection.toSection)
    (honce : (ws.filter fun s => s.title.text = title).length ≤ 1) :
    d.keys title = ((entriesUnder ws title).map fun e => e.key.text).eraseDups := by
  rcases exists_last? hd honce with ⟨hlast, hentries⟩ | ⟨s, hlast, hentries⟩
  · rw [Document.keys, hlast, hentries]
    rfl
  · rw [Document.keys, hlast, hentries, Option.map_some, Option.getD_some, Section.keys,
      WrittenSection.toSection, List.map_map]
    rfl

theorem single?_eq_none (hd : d.sections = ws.map WrittenSection.toSection)
    (honce : (ws.filter fun s => s.title.text = title).length ≤ 1)
    (h : ∀ e ∈ entriesUnder ws title, e.key.text ≠ key) : single? d title key = .ok none := by
  have hnil : ((entriesUnder ws title).filter fun e => e.key.text = key) = [] := by simpa using h
  rw [single?, values?_eq hd honce, hnil]
  rfl

theorem single?_eq_some (hd : d.sections = ws.map WrittenSection.toSection)
    (honce : (ws.filter fun s => s.title.text = title).length ≤ 1)
    (h : ((entriesUnder ws title).filter fun e => e.key.text = key) = [e]) {t : Token}
    (ht : e.tokens = [t]) : single? d title key = .ok (some (.ofToken t.chars)) := by
  rw [single?, values?_eq hd honce, h, List.getLast?_singleton, Option.map_some,
    WrittenEntry.toEntry, ht]
  rfl

theorem unbroken_of_mem_entriesUnder (hws : ∀ s ∈ ws, s.Unbroken) (he : e ∈ entriesUnder ws title) :
    e.Unbroken := by
  obtain ⟨s, hs, he⟩ := List.mem_flatMap.1 he
  exact hws s (List.mem_filter.1 hs).1 e he

end Lookup

def WrittenEntry.texts (e : WrittenEntry) : String × List String :=
  (e.key.text, e.tokens.map Token.text)

def WrittenEntry.naming (e : WrittenEntry) : String × String :=
  (e.key.text, (e.tokens.map Token.text).headD "")

/-- A key has one entry, with one token that spells what is chosen, or it has no entry. -/
def Gives {α : Type} (es : List WrittenEntry) (key : String) (spells : α → String → Prop) :
    Option α → Prop
  | none => ∀ e ∈ es, e.key.text ≠ key
  | some a => ∃ e t, (es.filter fun e => e.key.text = key) = [e] ∧ e.tokens = [t] ∧ spells a t.text

/-- What can be chosen in a document: names for spaces, one for each space, a level of logging, and
whether to simplify. -/
structure Choices where
  basis : List (String × String)
  nodup : (basis.map Prod.fst).Nodup
  names : ∀ p ∈ basis, IsName p.2
  logLevel : Option LogLevel
  simplify : Option Bool

/-- The sections of a document hold the choices, each in the section that is meant for it. -/
structure Choices.WrittenIn (c : Choices) (ws : List WrittenSection) : Prop where
  once : ∀ title ∈ ["basis", "logging", "normalization"],
    (ws.filter fun s => s.title.text = title).length ≤ 1
  basis : ((entriesUnder ws "basis").map WrittenEntry.texts).Perm (c.basis.map fun p => (p.1, [p.2]))
  logLevel : Gives (entriesUnder ws "logging") "loglevel" LogLevel.Spells c.logLevel
  simplify : Gives (entriesUnder ws "normalization") "simplify" (fun b s => s = toString b) c.simplify

section Choices

variable {ws : List WrittenSection} {d : Document} {c : Choices}

theorem readLogLevel_eq (hd : d.sections = ws.map WrittenSection.toSection)
    (hws : ∀ s ∈ ws, s.Unbroken) (h : c.WrittenIn ws) :
    readLogLevel d = .ok (c.logLevel.getD .info) := by
  have honce := h.once "logging" (by simp)
  have hgives := h.logLevel
  cases hlevel : c.logLevel with
  | none =>
    rw [hlevel] at hgives
    rw [readLogLevel, single?_eq_none hd honce hgives]
    rfl
  | some l =>
    rw [hlevel] at hgives
    obtain ⟨e, t, he, ht, hspells⟩ := hgives
    have hmem : e ∈ entriesUnder ws "logging" :=
      (List.mem_filter.1 (he ▸ List.mem_singleton_self e)).1
    have hunbroken : t.Unbroken := unbroken_of_mem_entriesUnder hws hmem t (by simp [ht])
    rw [readLogLevel, single?_eq_some hd honce he ht, hunbroken.ofToken_eq hspells.isName]
    simp only [bind, Except.bind, Value.toText, hspells.ofText?_eq hunbroken]
    rfl

theorem readSimplify_eq (hd : d.sections = ws.map WrittenSection.toSection)
    (h : c.WrittenIn ws) : readSimplify d = .ok (c.simplify.getD false) := by
  have honce := h.once "normalization" (by simp)
  have hgives := h.simplify
  cases hflag : c.simplify with
  | none =>
    rw [hflag] at hgives
    rw [readSimplify, single?_eq_none hd honce hgives]
    rfl
  | some b =>
    rw [hflag] at hgives
    obtain ⟨e, t, he, ht, hspells⟩ := hgives
    have hvalue : Value.ofToken t.chars = .boolean b := by
      rw [← t.toList_text, hspells]
      cases b <;> rfl
    rw [readSimplify, single?_eq_some hd honce he ht, hvalue]
    rfl

theorem Choices.WrittenIn.nodup_keys (h : c.WrittenIn ws) :
    ((entriesUnder ws "basis").map fun e => e.key.text).Nodup := by
  have hperm := h.basis.map Prod.fst
  rw [List.map_map, List.map_map] at hperm
  exact hperm.nodup_iff.2 c.nodup

theorem Choices.WrittenIn.perm_naming (h : c.WrittenIn ws) :
    ((entriesUnder ws "basis").map WrittenEntry.naming).Perm c.basis := by
  have hperm := h.basis.map fun p : String × List String => (p.1, p.2.headD "")
  rw [List.map_map, List.map_map] at hperm
  have hid : c.basis.map ((fun p : String × List String => (p.1, p.2.headD "")) ∘
      fun p : String × String => (p.1, [p.2])) = c.basis := List.map_id' _
  rwa [hid] at hperm

theorem basisEntry_eq (hd : d.sections = ws.map WrittenSection.toSection)
    (hws : ∀ s ∈ ws, s.Unbroken) (h : c.WrittenIn ws) {e : WrittenEntry}
    (he : e ∈ entriesUnder ws "basis") : basisEntry d e.key.text = .ok e.naming := by
  obtain ⟨p, hp, hpe⟩ := List.mem_map.1 (h.basis.subset (List.mem_map_of_mem he))
  obtain ⟨t, ht, htp⟩ := List.map_eq_singleton_iff.1 (congrArg Prod.snd hpe).symm
  have hunbroken : t.Unbroken := unbroken_of_mem_entriesUnder hws he t (by simp [ht])
  have hname : IsName t.text := htp ▸ c.names p hp
  rw [basisEntry, single?_eq_some hd (h.once "basis" (by simp)) (filter_eq_singleton h.nodup_keys he)
    ht, hunbroken.ofToken_eq hname, WrittenEntry.naming, ht]
  rfl

theorem mapM_basisEntry (hd : d.sections = ws.map WrittenSection.toSection)
    (hws : ∀ s ∈ ws, s.Unbroken) (h : c.WrittenIn ws) :
    (d.keys "basis").mapM (basisEntry d) =
      .ok ((entriesUnder ws "basis").map WrittenEntry.naming) := by
  rw [keys_eq hd (h.once "basis" (by simp)), eraseDups_eq_self h.nodup_keys, mapM_eq_ok_iff,
    List.forall₂_map_left_iff, List.forall₂_map_right_iff, List.forall₂_same]
  exact fun e he => basisEntry_eq hd hws h he

end Choices

theorem ofText_joined {ws : List WrittenSection} {ls : List (List Char)} (hne : ws ≠ [])
    (hws : ∀ s ∈ ws, s.Unbroken) (h : LaidOut (ws.flatMap WrittenSection.lines) ls) :
    Document.ofText (joined ls) = .ok ⟨ws.map WrittenSection.toSection⟩ := by
  obtain ⟨s, ws', rfl⟩ := List.exists_cons_of_ne_nil hne
  rw [Document.ofText, withoutComments_laidOut hne hws h, document_cores hws]
  rfl

/-- A document that holds some choices is read as the settings with these choices, and with the
defaults for what is not chosen. It may have other sections and other keys, it may have its sections
and its lines for spaces in any order, and comments and blank lines anywhere. -/
theorem ofText_of_writtenIn (c : Choices) {ws : List WrittenSection} {ls : List (List Char)}
    (hne : ws ≠ []) (hws : ∀ s ∈ ws, s.Unbroken) (hc : c.WrittenIn ws)
    (hls : LaidOut (ws.flatMap WrittenSection.lines) ls) :
    ∃ s, ofText (String.ofList (['\n'].intercalate ls)) = .ok s ∧
      s.logLevel = c.logLevel.getD .info ∧ s.simplify = c.simplify.getD false ∧
      s.basis.Perm c.basis ∧ ∀ space, s.basis.lookup space = c.basis.lookup space := by
  have hread : ofText (String.ofList (['\n'].intercalate ls)) = .ok ⟨c.logLevel.getD .info,
      (entriesUnder ws "basis").map WrittenEntry.naming, c.simplify.getD false⟩ := by
    rw [ofText, String.toList_ofList, ← joined, ofText_joined hne hws hls]
    simp only [ofDocument, mapM_basisEntry rfl hws hc, readLogLevel_eq rfl hws hc,
      readSimplify_eq rfl hc]
    rfl
  have hperm := hc.perm_naming
  exact ⟨_, hread, rfl, rfl, hperm, lookup_of_perm hperm ((hperm.map Prod.fst).nodup_iff.2 c.nodup)⟩

def runSections : List WrittenSection := [
  { title := ⟨'l', "ogging".toList, rfl, List.all_eq_true.1 rfl⟩
    first := ⟨⟨'l', "oglevel".toList, rfl, List.all_eq_true.1 rfl⟩,
      [⟨"DeBug".toList, List.cons_ne_nil _ _, List.all_eq_true.1 rfl⟩]⟩
    more := [⟨⟨'f', "ile".toList, rfl, List.all_eq_true.1 rfl⟩,
      [⟨"run.log".toList, List.cons_ne_nil _ _, List.all_eq_true.1 rfl⟩]⟩] },
  { title := ⟨'m', "esh".toList, rfl, List.all_eq_true.1 rfl⟩
    first := ⟨⟨'c', "ells".toList, rfl, List.all_eq_true.1 rfl⟩, []⟩
    more := [] },
  { title := basisSection.title
    first := ⟨⟨'W', "h".toList, rfl, List.all_eq_true.1 rfl⟩,
      [⟨"Ni".toList, List.cons_ne_nil _ _, List.all_eq_true.1 rfl⟩]⟩
    more := [basisSection.first] }]

def runChoices : Choices where
  basis := [("V", "Nj"), ("Wh", "Ni")]
  nodup := by decide
  names := by
    intro p hp
    rcases List.mem_pair.1 hp with rfl | rfl <;> exact ⟨rfl, rfl, by decide, by decide⟩
  logLevel := some .debug
  simplify := none

theorem ofText_of_writtenIn_runSections :
    runSections ≠ [] ∧ (∀ s ∈ runSections, s.Unbroken) ∧ runChoices.WrittenIn runSections ∧
      LaidOut (runSections.flatMap WrittenSection.lines)
        ["// run".toList, "logging".toList, "  loglevel: DeBug".toList, "  file: run.log".toList, [],
          "mesh".toList, "cells: ".toList, "basis".toList, "\tWh: Ni  ".toList, "\tV: Nj".toList] ∧
      ∃ s, ofText ("// run\nlogging\n  loglevel: DeBug\n  file: run.log\n\nmesh\ncells: \nbasis\n" ++
          "\tWh: Ni  \n\tV: Nj") = .ok s ∧
        s.logLevel = .debug ∧ s.simplify = false ∧ s.basis.lookup "V" = some "Nj" := by
  have hne : runSections ≠ [] := List.cons_ne_nil _ _
  have hunbroken : ∀ s ∈ runSections, s.Unbroken := by decide
  have hwritten : runChoices.WrittenIn runSections := by
    have hsimplify : ∀ e ∈ entriesUnder runSections "normalization", e.key.text ≠ "simplify" := by
      decide
    exact ⟨by decide, .swap _ _ _, ⟨_, _, rfl, rfl, "debug", by decide, by decide⟩, hsimplify⟩
  have hnone : ∀ c ∈ ([] : List Char), isPadding c := List.forall_mem_nil _
  have hspaces : ∀ c ∈ [' ', ' '], isPadding c := List.all_eq_true.1 rfl
  have htab : ∀ c ∈ ['\t'], isPadding c := List.all_eq_true.1 rfl
  have hlaidOut : LaidOut (runSections.flatMap WrittenSection.lines)
      ["// run".toList, "logging".toList, "  loglevel: DeBug".toList, "  file: run.log".toList, [],
        "mesh".toList, "cells: ".toList, "basis".toList, "\tWh: Ni  ".toList, "\tV: Nj".toList] :=
    .comment [] ['/', '/'] " run".toList hnone (by decide) (by decide) <|
      .line [] [] hnone hnone <|
      .line [' ', ' '] [] hspaces hnone <|
      .line [' ', ' '] [] hspaces hnone <|
      .blank [] hnone <|
      .line [] [] hnone hnone <|
      .line [] [] hnone hnone <|
      .line [] [] hnone hnone <|
      .line ['\t'] [' ', ' '] htab hspaces <|
      .line ['\t'] [] htab hnone .nil
  obtain ⟨s, hs, hlevel, hsimplify, -, hbasis⟩ :=
    ofText_of_writtenIn runChoices hne hunbroken hwritten hlaidOut
  exact ⟨hne, hunbroken, hwritten, hlaidOut, s, hs, hlevel, hsimplify, hbasis "V"⟩

end VariationalForms.Settings
