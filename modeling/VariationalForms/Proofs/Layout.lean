import VariationalForms.Proofs.Lines
import VariationalForms.Proofs.Written

/-! Reading what was laid out.
A written document takes a line for each title and each entry. However its lines are indented, and
whatever blank lines and comments stand between them, reading gives back what was written
(`ofText_laidOut`). A line ends where no reader of the line can go on, so each reader is followed
through one line with the text of the following lines behind it.
-/

set_option autoImplicit false

namespace VariationalForms.Settings

open Text Settings.Reading

namespace Reading

/-- Steps that take one item after another off a text read them all, and stop where no step
succeeds. -/
theorem repeatedly_eq {α β : Type} {step : List Char → Attempt (α × List Char)}
    {shortens : ∀ {cs a r}, step cs = .ok (a, r) → r.length < cs.length}
    {value : β → α} {P : β → Prop} {stop : List Char} (text : List β → List Char)
    (hstep : ∀ b bs, P b → (∀ b' ∈ bs, P b') → step (text (b :: bs)) = .ok (value b, text bs))
    (hstop : step (text []) = .error stop) {bs : List β} (hbs : ∀ b ∈ bs, P b) :
    repeatedly step shortens (text bs) = (bs.map value, text []) := by
  induction bs with
  | nil =>
    unfold repeatedly
    split
    case h_1 => rfl
    case h_2 h => cases hstop.symm.trans h
  | cons b bs ih =>
    have hb := hstep b bs (hbs b (.head _)) fun b' hb' => hbs b' (.tail _ hb')
    unfold repeatedly
    split
    case h_1 h => cases hb.symm.trans h
    case h_2 h =>
      cases hb.symm.trans h
      rw [ih fun b' hb' => hbs b' (.tail _ hb'), List.map_cons]

variable {rest : List Char} {ls : List (List Char)}

theorem identifier_chars (i : Identifier) (h : Stops inIdentifier rest) :
    identifier (i.chars ++ rest) = .ok (i.text, rest) := by
  rw [Identifier.chars, List.cons_append, identifier, if_pos i.starts,
    h.takeWhile_append i.continues, h.dropWhile_append i.continues]
  rfl

theorem dropWhile_isInline_title (i : Identifier) :
    (i.chars ++ rest).dropWhile isInline = i.chars ++ rest :=
  dropWhile_append_eq_self nofun fun c hc => isInline_of_not_isBlank (i.isBlank_chars c hc)

theorem dropWhile_isInline_token (t : Token) :
    (t.chars ++ rest).dropWhile isInline = t.chars ++ rest :=
  dropWhile_append_eq_self t.ne_nil fun c hc => isInline_of_inToken (t.continues c hc)

theorem nextToken_token (t : Token) (h : Stops inToken rest) :
    nextToken (',' :: ' ' :: (t.chars ++ rest)) = .ok (t.chars, rest) := by
  have hempty : ¬ t.chars.isEmpty := by simpa using t.ne_nil
  have hinline : (' ' :: (t.chars ++ rest)).dropWhile isInline = t.chars ++ rest :=
    dropWhile_isInline_token t
  unfold nextToken
  rw [List.dropWhile_cons_of_neg (by decide)]
  simp only [hinline, h.takeWhile_append t.continues, h.dropWhile_append t.continues, hempty]
  rfl

theorem nextToken_follow : nextToken (follow ls) = .error (follow ls) := by
  unfold nextToken
  rw [(stops_follow (by decide) ls).dropWhile_eq]
  cases ls with
  | nil => rfl
  | cons l ls => rfl

def moreTokens (ts : List Token) : List Char := ts.flatMap fun t => [',', ' '] ++ t.chars

def tokensText : List Token → List Char
  | [] => []
  | t :: ts => t.chars ++ moreTokens ts

theorem intercalate_chars (ts : List Token) :
    [',', ' '].intercalate (ts.map Token.chars) = tokensText ts := by
  cases ts with
  | nil => rfl
  | cons t ts =>
    rw [List.map_cons, intercalate_cons, List.flatMap_map]
    rfl

theorem stops_moreTokens (ts : List Token) : Stops inToken (moreTokens ts ++ follow ls) := by
  cases ts with
  | nil => exact stops_follow (by decide) ls
  | cons t ts => exact stops_cons (by decide)

theorem nextToken_moreTokens (t : Token) (ts : List Token) :
    nextToken (moreTokens (t :: ts) ++ follow ls) = .ok (t.chars, moreTokens ts ++ follow ls) := by
  rw [moreTokens, List.flatMap_cons, List.append_assoc, List.append_assoc]
  exact nextToken_token t (stops_moreTokens ts)

theorem tokens_tokensText (ts : List Token) :
    tokens (tokensText ts ++ follow ls) = (ts.map Token.chars, follow ls) := by
  cases ts with
  | nil =>
    rw [tokensText, List.nil_append, tokens, (stops_follow (by decide) ls).takeWhile_eq]
    rfl
  | cons t ts =>
    have hmore : repeatedly nextToken length_nextToken (moreTokens ts ++ follow ls) =
        (ts.map Token.chars, follow ls) :=
      repeatedly_eq (fun ts => moreTokens ts ++ follow ls)
        (fun t ts (_ : True) _ => nextToken_moreTokens t ts) nextToken_follow fun _ _ => trivial
    rw [tokensText, tokens, List.append_assoc, (stops_moreTokens ts).takeWhile_append t.continues,
      (stops_moreTokens ts).dropWhile_append t.continues, if_neg (by simpa using t.ne_nil), hmore]
    rfl

end Reading

/-- No character of the token is blank. -/
def Token.Unbroken (t : Token) : Prop := ∀ c ∈ t.chars, isBlank c = false

theorem Identifier.firm (i : Identifier) : Firm i.chars := .of_forall nofun i.isBlank_chars

theorem firm_tokensText {t : Token} {ts : List Token} (h : ∀ t' ∈ t :: ts, t'.Unbroken) :
    Firm (tokensText (t :: ts)) := by
  have ht : Firm t.chars := .of_forall t.ne_nil (h t (.head _))
  induction ts generalizing t with
  | nil => simpa [tokensText, moreTokens] using ht
  | cons t' ts ih =>
    have ht' : Firm t'.chars := .of_forall t'.ne_nil (h t' (.tail _ (.head _)))
    have hmore := ih (fun u hu => h u (.tail _ hu)) ht'
    simpa [tokensText, moreTokens] using ht.append hmore [',', ' ']

namespace WrittenEntry

def Unbroken (e : WrittenEntry) : Prop := ∀ t ∈ e.tokens, t.Unbroken

def tail (e : WrittenEntry) : List Char :=
  match e.tokens with
  | [] => []
  | t :: ts => ' ' :: tokensText (t :: ts)

def core (e : WrittenEntry) : List Char := e.key.chars ++ ':' :: e.tail

theorem firm_core {e : WrittenEntry} (h : e.Unbroken) : Firm e.core := by
  unfold core tail
  split
  case h_1 =>
    have hcolon : Firm [':'] := ⟨⟨':', rfl, rfl⟩, ':', rfl, rfl⟩
    simpa using e.key.firm.append hcolon []
  case h_2 t ts hts =>
    simpa using e.key.firm.append (firm_tokensText (hts ▸ h)) [':', ' ']

theorem dropWhile_isInline_tail (e : WrittenEntry) (ls : List (List Char)) :
    (e.tail ++ follow ls).dropWhile isInline = tokensText e.tokens ++ follow ls := by
  unfold tail
  split
  case h_1 hts =>
    rw [hts]
    exact (stops_follow (by decide) ls).dropWhile_eq
  case h_2 t ts hts =>
    rw [hts, tokensText, List.cons_append, List.dropWhile_cons_of_pos (by decide),
      List.append_assoc, dropWhile_isInline_token t]

theorem entry_core (e : WrittenEntry) {ls : List (List Char)} (h : ∀ l ∈ ls, Firm l) :
    entry (e.core ++ follow ls) = .ok (e.toEntry, joined ls) := by
  have hkey : Stops inIdentifier (':' :: (e.tail ++ follow ls)) := stops_cons (by decide)
  have hcolon : (':' :: (e.tail ++ follow ls)).dropWhile isInline = ':' :: (e.tail ++ follow ls) :=
    List.dropWhile_cons_of_neg (by decide)
  rw [entry, core, List.append_assoc, List.cons_append, identifier_chars _ hkey]
  simp only [bind, Except.bind, hcolon, dropWhile_isInline_tail, tokens_tokensText, trim_follow h,
    List.map_map]
  rfl

/-- The line of an entry: its key, a colon, and its tokens with commas between them. -/
def line (e : WrittenEntry) : List Char :=
  e.key.chars ++ [':', ' '] ++ [',', ' '].intercalate (e.tokens.map Token.chars)

theorem trim_line {e : WrittenEntry} (h : e.Unbroken) : trim e.line = e.core := by
  have hcore := (firm_core h).trim_eq
  rw [line, intercalate_chars]
  unfold core tail at *
  split at hcore
  case h_1 hts =>
    have hblank : ∀ c ∈ [' '], isBlank c := List.all_eq_true.1 rfl
    have htrim := trim_append_blanks hblank (e.key.chars ++ [':'])
    simpa [hts, tokensText] using htrim.trans hcore
  case h_2 t ts hts =>
    rw [hts, ← hcore, List.append_assoc]
    rfl

end WrittenEntry

namespace WrittenSection

def Unbroken (s : WrittenSection) : Prop := ∀ e ∈ s.entries, e.Unbroken

instance (s : WrittenSection) : Decidable s.Unbroken :=
  decidable_of_iff (s.entries.all fun e => e.tokens.all fun t => t.chars.all (! isBlank ·))
    (by simp [Unbroken, WrittenEntry.Unbroken, Token.Unbroken])

def lines (s : WrittenSection) : List (List Char) :=
  s.title.chars :: s.entries.map WrittenEntry.line

def cores (s : WrittenSection) : List (List Char) :=
  s.title.chars :: s.entries.map WrittenEntry.core

theorem trim_lines {s : WrittenSection} (h : s.Unbroken) : s.lines.map trim = s.cores := by
  rw [lines, cores, List.map_cons, s.title.firm.trim_eq, List.map_map]
  congr 1
  exact List.map_congr_left fun e he => WrittenEntry.trim_line (h e he)

theorem firm_cores {s : WrittenSection} (h : s.Unbroken) : ∀ l ∈ s.cores, Firm l := by
  intro l hl
  rcases List.mem_cons.1 hl with rfl | hl
  · exact s.title.firm
  · obtain ⟨e, he, rfl⟩ := List.mem_map.1 hl
    exact WrittenEntry.firm_core (h e he)

theorem firm_flatMap_cores {ws : List WrittenSection} (h : ∀ s ∈ ws, s.Unbroken) :
    ∀ l ∈ ws.flatMap cores, Firm l := by
  intro l hl
  obtain ⟨s, hs, hl⟩ := List.mem_flatMap.1 hl
  exact firm_cores (h s hs) l hl

/-- A title is the key of no entry: its line ends before any colon. -/
theorem entry_sections (ws : List WrittenSection) :
    ∃ stop, entry (joined (ws.flatMap cores)) = .error stop := by
  cases ws with
  | nil => exact ⟨[], rfl⟩
  | cons s ws =>
    refine ⟨follow (s.entries.map WrittenEntry.core ++ ws.flatMap cores), ?_⟩
    rw [List.flatMap_cons, cores, List.cons_append, joined_cons, entry,
      identifier_chars _ (stops_follow (by decide) _)]
    simp only [bind, Except.bind]
    rw [(stops_follow (by decide) _).dropWhile_eq]
    rfl

theorem titled_cores {s : WrittenSection} {ws : List WrittenSection} (hs : s.Unbroken)
    (hws : ∀ s' ∈ ws, s'.Unbroken) :
    titled (joined ((s :: ws).flatMap cores)) = .ok (s.toSection, joined (ws.flatMap cores)) := by
  have hrest := firm_flatMap_cores hws
  have hfirm : ∀ es : List WrittenEntry, (∀ e ∈ es, e.Unbroken) →
      ∀ l ∈ es.map WrittenEntry.core ++ ws.flatMap cores, Firm l := by
    intro es hes l hl
    rcases List.mem_append.1 hl with hl | hl
    · obtain ⟨e, he, rfl⟩ := List.mem_map.1 hl
      exact WrittenEntry.firm_core (hes e he)
    · exact hrest l hl
  have hstep : ∀ e es, e.Unbroken → (∀ e' ∈ es, e'.Unbroken) →
      entry (joined ((e :: es).map WrittenEntry.core ++ ws.flatMap cores)) =
        .ok (e.toEntry, joined (es.map WrittenEntry.core ++ ws.flatMap cores)) := by
    intro e es _ hes
    rw [List.map_cons, List.cons_append, joined_cons]
    exact e.entry_core (hfirm es hes)
  obtain ⟨stop, hstop⟩ := entry_sections ws
  have hmore : repeatedly entry length_entry
      (joined (s.more.map WrittenEntry.core ++ ws.flatMap cores)) =
        (s.more.map WrittenEntry.toEntry, joined (ws.flatMap cores)) :=
    repeatedly_eq (fun es => joined (es.map WrittenEntry.core ++ ws.flatMap cores)) hstep hstop
      fun e he => hs e (.tail _ he)
  rw [List.flatMap_cons, cores, List.cons_append, joined_cons, titled,
    dropWhile_isInline_title, identifier_chars _ (stops_follow (by decide) _)]
  simp only [bind, Except.bind]
  rw [trim_follow (hfirm _ hs), entries, hstep _ _ (hs _ (.head _)) fun e he => hs e (.tail _ he)]
  simp only [hmore]
  rfl

end WrittenSection

open WrittenSection

theorem document_cores {s : WrittenSection} {ws : List WrittenSection}
    (h : ∀ s' ∈ s :: ws, s'.Unbroken) :
    document (joined ((s :: ws).flatMap cores)) = .ok (⟨(s :: ws).map toSection⟩, []) := by
  have hstop : titled (joined (List.flatMap cores [])) = .error [] := rfl
  have hmore : repeatedly titled length_titled (joined (ws.flatMap cores)) =
      (ws.map toSection, []) :=
    repeatedly_eq (fun ws => joined (ws.flatMap cores)) (fun _ _ => titled_cores) hstop
      fun s' hs' => h s' (.tail _ hs')
  rw [document, titled_cores (h s (.head _)) fun s' hs' => h s' (.tail _ hs')]
  simp only [bind, Except.bind, hmore]
  rfl

def isPadding (c : Char) : Bool := isBlank c && c != '\n'

def commentMarks : List (List Char) := [['/', '/'], ['#'], ['%'], [';']]

/-- The second list of lines is the first one with padding around its lines, with blank lines, and
with comments. -/
inductive LaidOut : List (List Char) → List (List Char) → Prop
  | nil : LaidOut [] []
  | line {l : List Char} {ls ls' : List (List Char)} (pad pad' : List Char)
      (h : ∀ c ∈ pad, isPadding c) (h' : ∀ c ∈ pad', isPadding c) (hls : LaidOut ls ls') :
      LaidOut (l :: ls) ((pad ++ l ++ pad') :: ls')
  | blank {ls ls' : List (List Char)} (pad : List Char) (h : ∀ c ∈ pad, isPadding c)
      (hls : LaidOut ls ls') : LaidOut ls (pad :: ls')
  | comment {ls ls' : List (List Char)} (pad mark text : List Char) (h : ∀ c ∈ pad, isPadding c)
      (hmark : mark ∈ commentMarks) (htext : '\n' ∉ text)
      (hls : LaidOut ls ls') : LaidOut ls ((pad ++ mark ++ text) :: ls')

namespace LaidOut

variable {ls ls' : List (List Char)}

theorem isBlank_of_isPadding {pad : List Char} (h : ∀ c ∈ pad, isPadding c) :
    ∀ c ∈ pad, isBlank c := fun c hc => (Bool.and_eq_true_iff.1 (h c hc)).1

theorem not_mem_padding {pad : List Char} (h : ∀ c ∈ pad, isPadding c) : '\n' ∉ pad :=
  fun hc => by cases h _ hc

theorem not_mem (h : LaidOut ls ls') (hls : ∀ l ∈ ls, '\n' ∉ l) : ∀ l ∈ ls', '\n' ∉ l := by
  induction h with
  | nil => nofun
  | line pad pad' hpad hpad' _ ih =>
    intro l hl
    rcases List.mem_cons.1 hl with rfl | hl
    · simp [not_mem_padding hpad, not_mem_padding hpad', hls _ (.head _)]
    · exact ih (fun l hl => hls l (.tail _ hl)) l hl
  | blank pad hpad _ ih =>
    intro l hl
    rcases List.mem_cons.1 hl with rfl | hl
    · exact not_mem_padding hpad
    · exact ih hls l hl
  | comment pad mark text hpad hmark htext _ ih =>
    intro l hl
    rcases List.mem_cons.1 hl with rfl | hl
    · have hbreak : ∀ mark ∈ commentMarks, '\n' ∉ mark := by decide
      simp [not_mem_padding hpad, hbreak mark hmark, htext]
    · exact ih hls l hl

theorem isComment_trim_mark {mark : List Char} (hmark : mark ∈ commentMarks) (text : List Char) :
    Document.isComment (trim (mark ++ text)) := by
  simp only [commentMarks, List.mem_cons, List.not_mem_nil, or_false] at hmark
  have hfirm : Firm mark := by
    rcases hmark with rfl | rfl | rfl | rfl <;> exact ⟨⟨_, rfl, rfl⟩, _, rfl, rfl⟩
  rw [hfirm.trim_append]
  rcases hmark with rfl | rfl | rfl | rfl <;> rfl

/-- Only what was written is left of the lines. -/
theorem filter_trim (h : LaidOut ls ls') (hls : ∀ l ∈ ls, ¬ Document.isComment (trim l)) :
    (ls'.map trim).filter (! Document.isComment ·) = ls.map trim := by
  induction h with
  | nil => rfl
  | line pad pad' hpad hpad' _ ih =>
    rw [List.map_cons, List.map_cons, trim_append_blanks (isBlank_of_isPadding hpad'),
      trim_blanks_append (isBlank_of_isPadding hpad),
      List.filter_cons_of_pos (by simpa using hls _ (.head _)), ih fun l hl => hls l (.tail _ hl)]
  | blank pad hpad _ ih =>
    have hnil : trim pad = [] := trim_append_blanks (isBlank_of_isPadding hpad) []
    rw [List.map_cons, hnil, List.filter_cons_of_neg (by decide), ih hls]
  | comment pad mark text hpad hmark htext _ ih =>
    rw [List.map_cons, List.append_assoc, trim_blanks_append (isBlank_of_isPadding hpad),
      List.filter_cons_of_neg (by simpa using isComment_trim_mark hmark text), ih hls]

end LaidOut

theorem isComment_identifier (i : Identifier) (rest : List Char) :
    ¬ Document.isComment (i.chars ++ rest) := by
  obtain ⟨c, cs, hstarts, -⟩ := i
  change ¬ Document.isComment (c :: (cs ++ rest))
  generalize cs ++ rest = r
  unfold Document.isComment
  split
  case h_1 h => cases h
  case h_6 => exact Bool.false_ne_true
  all_goals
    rename_i h
    cases h
    cases hstarts

theorem isComment_trim_lines {s : WrittenSection} (hs : s.Unbroken) :
    ∀ l ∈ s.lines, ¬ Document.isComment (trim l) := by
  intro l hl
  have htrim : trim l ∈ s.cores := trim_lines hs ▸ List.mem_map_of_mem hl
  rcases List.mem_cons.1 htrim with h | h
  · rw [h, ← List.append_nil s.title.chars]
    exact isComment_identifier _ _
  · obtain ⟨e, -, he⟩ := List.mem_map.1 h
    rw [← he]
    exact isComment_identifier _ _

theorem not_mem_lines {s : WrittenSection} (hs : s.Unbroken) : ∀ l ∈ s.lines, '\n' ∉ l := by
  have hidentifier : ∀ i : Identifier, '\n' ∉ i.chars := fun i h => by
    cases i.isBlank_chars _ h
  intro l hl
  rcases List.mem_cons.1 hl with rfl | hl
  · exact hidentifier _
  · obtain ⟨e, he, rfl⟩ := List.mem_map.1 hl
    intro h
    rcases List.mem_append.1 h with h | h
    · exact hidentifier e.key (by simpa using h)
    · rcases mem_intercalate h with h | ⟨xs, hxs, h⟩
      · exact absurd h (by decide)
      · obtain ⟨t, ht, rfl⟩ := List.mem_map.1 hxs
        cases hs e he t ht _ h

theorem withoutComments_laidOut {ws : List WrittenSection} {ls : List (List Char)} (hne : ws ≠ [])
    (hws : ∀ s ∈ ws, s.Unbroken) (h : LaidOut (ws.flatMap WrittenSection.lines) ls) :
    Document.withoutComments (joined ls) = joined (ws.flatMap cores) := by
  have hlines : ls ≠ [] := by
    rintro rfl
    obtain ⟨s, ws', rfl⟩ := List.exists_cons_of_ne_nil hne
    cases h
  have hbreaks : ∀ l ∈ ws.flatMap WrittenSection.lines, '\n' ∉ l := by
    intro l hl
    obtain ⟨s, hs, hl⟩ := List.mem_flatMap.1 hl
    exact not_mem_lines (hws s hs) l hl
  have hcomments : ∀ l ∈ ws.flatMap WrittenSection.lines, ¬ Document.isComment (trim l) := by
    intro l hl
    obtain ⟨s, hs, hl⟩ := List.mem_flatMap.1 hl
    exact isComment_trim_lines (hws s hs) l hl
  rw [Document.withoutComments, lines_joined hlines (h.not_mem hbreaks), h.filter_trim hcomments,
    List.map_flatMap, joined]
  congr 1
  exact List.flatMap_congr fun s hs => trim_lines (hws s hs)

/-- However a written document is laid out, reading gives back what was written. -/
theorem ofText_laidOut {ws : List WrittenSection} {ls : List (List Char)} (hne : ws ≠ [])
    (hws : ∀ s ∈ ws, s.Unbroken) (h : LaidOut (ws.flatMap WrittenSection.lines) ls) :
    ∃ d, Document.ofText (['\n'].intercalate ls) = .ok d ∧ d.sections = ws.map toSection ∧
      d.Means ws := by
  obtain ⟨s, ws', rfl⟩ := List.exists_cons_of_ne_nil hne
  refine ⟨⟨(s :: ws').map toSection⟩, ?_, rfl, Document.means_of_sections_eq rfl⟩
  change Document.ofText (joined ls) = _
  rw [Document.ofText, withoutComments_laidOut hne hws h, document_cores hws]
  rfl

def basisSection : WrittenSection where
  title := ⟨'b', ['a', 's', 'i', 's'], rfl, List.all_eq_true.1 rfl⟩
  first := ⟨⟨'V', [], rfl, nofun⟩, [⟨['N', 'j'], nofun, List.all_eq_true.1 rfl⟩]⟩
  more := []

def laterBasisSection : WrittenSection where
  title := basisSection.title
  first := ⟨⟨'P', [], rfl, nofun⟩, [⟨['N', 'j'], nofun, List.all_eq_true.1 rfl⟩]⟩
  more := [⟨⟨'U', [], rfl, nofun⟩, []⟩,
    ⟨⟨'P', [], rfl, nofun⟩, [⟨['N', 'k'], nofun, List.all_eq_true.1 rfl⟩,
      ⟨['2'], nofun, List.all_eq_true.1 rfl⟩]⟩]

theorem ofText_laidOut_basisSections :
    [basisSection, laterBasisSection] ≠ [] ∧
      (∀ s ∈ [basisSection, laterBasisSection], s.Unbroken) ∧
      LaidOut ([basisSection, laterBasisSection].flatMap WrittenSection.lines)
        ["# names".toList, "  basis".toList, [], "\tV: Nj".toList, "basis ".toList, "P: Nj".toList,
          " U: ".toList, "; again".toList, "P: Nk, 2".toList] ∧
      ∃ d, Document.ofText
          "# names\n  basis\n\n\tV: Nj\nbasis \nP: Nj\n U: \n; again\nP: Nk, 2".toList = .ok d ∧
        ∃ m, d.contents "basis" = some m ∧ m "V" = none ∧ m "U" = some (some []) ∧
          m "P" = some (some [.text "Nk", .integer 2]) := by
  have hne : [basisSection, laterBasisSection] ≠ [] := nofun
  have hunbroken : ∀ s ∈ [basisSection, laterBasisSection], s.Unbroken := by decide
  have hnone : ∀ c ∈ ([] : List Char), isPadding c := List.forall_mem_nil _
  have hspace : ∀ c ∈ [' '], isPadding c := List.all_eq_true.1 rfl
  have hspaces : ∀ c ∈ [' ', ' '], isPadding c := List.all_eq_true.1 rfl
  have htab : ∀ c ∈ ['\t'], isPadding c := List.all_eq_true.1 rfl
  have hlaidOut : LaidOut ([basisSection, laterBasisSection].flatMap WrittenSection.lines)
      ["# names".toList, "  basis".toList, [], "\tV: Nj".toList, "basis ".toList, "P: Nj".toList,
        " U: ".toList, "; again".toList, "P: Nk, 2".toList] :=
    .comment [] ['#'] " names".toList hnone (by decide) (by decide) <|
      .line [' ', ' '] [] hspaces hnone <|
      .blank [] hnone <|
      .line ['\t'] [] htab hnone <|
      .line [] [' '] hnone hspace <|
      .line [] [] hnone hnone <|
      .line [' '] [] hspace hnone <|
      .comment [] [';'] " again".toList hnone (by decide) (by decide) <|
      .line [] [] hnone hnone .nil
  obtain ⟨d, hd, -, hmeans⟩ := ofText_laidOut hne hunbroken hlaidOut
  refine ⟨hne, hunbroken, hlaidOut, d, hd, ?_⟩
  have htext : Value.ofToken ['N', 'k'] = .text "Nk" := rfl
  have hinteger : Value.ofToken ['2'] = .integer 2 := rfl
  rw [hmeans.contents_eq, ← htext, ← hinteger]
  exact ⟨_, rfl, rfl, rfl, rfl⟩

end VariationalForms.Settings
