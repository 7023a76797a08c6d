import Mathlib.Data.List.TakeWhile
import VariationalForms.Proofs.Lines
import VariationalForms.Proofs.Written

/-! What is read from an accepted text is all that stands in it.
Every reader takes from the text what it returns, next to blanks, colons and commas, and nothing
else; so does a reader that is repeated (`Reading.squeeze_repeatedly`). A text that is accepted is
then, up to blanks and comments, the text of a written document with the same contents
(`exists_written_of_ofText`).
-/

set_option autoImplicit false

namespace VariationalForms

namespace Text

/-- The text without any blanks. -/
def squeeze (cs : List Char) : List Char := cs.filter (! isBlank ·)

theorem squeeze_append (cs ds : List Char) : squeeze (cs ++ ds) = squeeze cs ++ squeeze ds :=
  List.filter_append ..

theorem squeeze_eq_self {cs : List Char} (h : ∀ c ∈ cs, isBlank c = false) : squeeze cs = cs :=
  List.filter_eq_self.2 fun c hc => by simp [h c hc]

theorem squeeze_eq_nil {cs : List Char} (h : ∀ c ∈ cs, isBlank c) : squeeze cs = [] :=
  List.filter_eq_nil_iff.2 fun c hc => by simp [h c hc]

theorem squeeze_dropWhile {p : Char → Bool} (hp : ∀ c, p c → isBlank c) (cs : List Char) :
    squeeze (cs.dropWhile p) = squeeze cs := by
  have hskipped : squeeze (cs.takeWhile p) = [] :=
    squeeze_eq_nil fun c hc => hp c (List.mem_takeWhile_imp hc)
  rw [← List.takeWhile_append_dropWhile (p := p) (l := cs), squeeze_append, hskipped]
  simp

theorem squeeze_trim (cs : List Char) : squeeze (trim cs) = squeeze cs := by
  have hright : ∀ ds, squeeze (trimRight ds) = squeeze ds := by
    intro ds
    have hdrop := squeeze_dropWhile (fun _ h => h) ds.reverse
    rw [trimRight, squeeze, List.filter_reverse]
    change (squeeze (ds.reverse.dropWhile isBlank)).reverse = _
    rw [hdrop, squeeze, List.filter_reverse, List.reverse_reverse, squeeze]
  rw [trim, hright, trimLeft, squeeze_dropWhile fun _ h => h]

end Text

namespace Settings

open Text Settings.Reading

namespace WrittenEntry

def squeezed (e : WrittenEntry) : List Char :=
  e.key.chars ++ ':' :: [','].intercalate (e.tokens.map fun t => squeeze t.chars)

end WrittenEntry

namespace WrittenSection

def squeezed (s : WrittenSection) : List Char :=
  s.title.chars ++ s.entries.flatMap WrittenEntry.squeezed

end WrittenSection

namespace Reading

variable {cs r : List Char}

/-- What a repeated step returns is what it takes from the text, if that is so for each step. -/
theorem squeeze_repeatedly {α β : Type} {step : List Char → Attempt (α × List Char)}
    (shortens : ∀ {cs a r}, step cs = .ok (a, r) → r.length < cs.length)
    {value : β → α} {text : β → List Char}
    (hstep : ∀ {cs a r}, step cs = .ok (a, r) →
      ∃ b, value b = a ∧ squeeze cs = text b ++ squeeze r) (cs : List Char) :
    ∃ bs : List β, bs.map value = (repeatedly step shortens cs).1 ∧
      squeeze cs = bs.flatMap text ++ squeeze (repeatedly step shortens cs).2 := by
  fun_induction repeatedly step shortens cs with
  | case1 cs s h => exact ⟨[], rfl, rfl⟩
  | case2 cs a r h as rest hr ih =>
    obtain ⟨b, rfl, hb⟩ := hstep h
    obtain ⟨bs, hbs, htext⟩ := ih
    rw [hr] at hbs htext
    refine ⟨b :: bs, ?_, ?_⟩
    · rw [List.map_cons, hbs]
    · rw [hb, htext, List.flatMap_cons, List.append_assoc]

theorem exists_identifier {name : String} (h : identifier cs = .ok (name, r)) :
    ∃ i : Identifier, i.text = name ∧ cs = i.chars ++ r := by
  cases cs with
  | nil => cases h
  | cons c cs =>
    rw [identifier] at h
    split at h
    case isFalse => cases h
    case isTrue hstarts =>
      cases h
      have hcontinues : ∀ d ∈ cs.takeWhile inIdentifier, inIdentifier d :=
        fun d hd => List.mem_takeWhile_imp hd
      refine ⟨⟨c, cs.takeWhile inIdentifier, hstarts, hcontinues⟩, rfl, ?_⟩
      rw [Identifier.chars, List.cons_append, List.takeWhile_append_dropWhile]

theorem squeeze_identifier {name : String} (h : identifier cs = .ok (name, r)) :
    ∃ i : Identifier, i.text = name ∧ squeeze cs = i.chars ++ squeeze r := by
  obtain ⟨i, hi, rfl⟩ := exists_identifier h
  exact ⟨i, hi, by rw [squeeze_append, squeeze_eq_self i.isBlank_chars]⟩

theorem exists_token (h : ¬ (cs.takeWhile inToken).isEmpty) :
    ∃ t : Token, t.chars = cs.takeWhile inToken ∧
      squeeze cs = squeeze t.chars ++ squeeze (cs.dropWhile inToken) := by
  refine ⟨⟨cs.takeWhile inToken, by simpa using h, fun c hc => List.mem_takeWhile_imp hc⟩, rfl, ?_⟩
  rw [← squeeze_append, List.takeWhile_append_dropWhile]

theorem squeeze_isInline (cs : List Char) : squeeze (cs.dropWhile isInline) = squeeze cs :=
  squeeze_dropWhile (fun _ => isBlank_of_isInline) cs

theorem squeeze_nextToken {chars : List Char} (h : nextToken cs = .ok (chars, r)) :
    ∃ t : Token, t.chars = chars ∧ squeeze cs = ',' :: squeeze t.chars ++ squeeze r := by
  unfold nextToken at h
  split at h
  case h_2 => cases h
  case h_1 r' hr =>
    dsimp only at h
    split at h
    case isTrue => cases h
    case isFalse hne =>
      obtain ⟨t, ht, htext⟩ := exists_token hne
      cases h
      refine ⟨t, ht, ?_⟩
      rw [← squeeze_isInline cs, hr, List.cons_append, ← htext, squeeze_isInline]
      rfl

theorem squeeze_tokens (cs : List Char) :
    ∃ ts : List Token, ts.map Token.chars = (tokens cs).1 ∧
      squeeze cs =
        [','].intercalate (ts.map fun t => squeeze t.chars) ++ squeeze (tokens cs).2 := by
  unfold tokens
  split
  case isTrue => exact ⟨[], rfl, rfl⟩
  case isFalse hne =>
    obtain ⟨t, ht, htext⟩ := exists_token hne
    obtain ⟨ts, hts, hmore⟩ := squeeze_repeatedly length_nextToken
      squeeze_nextToken (cs.dropWhile inToken)
    refine ⟨t :: ts, ?_, ?_⟩
    · rw [List.map_cons, hts, ht]
    · rw [htext, hmore, List.map_cons, intercalate_cons, List.flatMap_map, List.append_assoc]
      rfl

theorem squeeze_entry {e : Entry} (h : entry cs = .ok (e, r)) :
    ∃ w : WrittenEntry, w.toEntry = e ∧ squeeze cs = w.squeezed ++ squeeze r := by
  obtain ⟨⟨key, r₁⟩, hkey, h⟩ := bind_eq_ok_iff.1 h
  obtain ⟨i, rfl, hi⟩ := squeeze_identifier hkey
  dsimp only at h
  split at h
  case h_2 => cases h
  case h_1 r₂ hr =>
    obtain ⟨ts, hts, htext⟩ := squeeze_tokens (r₂.dropWhile isInline)
    cases h
    refine ⟨⟨i, ts⟩, ?_, ?_⟩
    · rw [WrittenEntry.toEntry, ← hts, List.map_map]
      rfl
    · have hcolon : squeeze (':' :: r₂) = ':' :: squeeze r₂ := rfl
      rw [hi, ← squeeze_isInline r₁, hr, hcolon, ← squeeze_isInline r₂, htext, squeeze_trim,
        WrittenEntry.squeezed, List.append_assoc]
      rfl

theorem squeeze_titled {s : Section} (h : titled cs = .ok (s, r)) :
    ∃ w : WrittenSection, w.toSection = s ∧ squeeze cs = w.squeezed ++ squeeze r := by
  obtain ⟨⟨title, r₁⟩, htitle, h⟩ := bind_eq_ok_iff.1 h
  obtain ⟨⟨first, r₂⟩, hfirst, h⟩ := bind_eq_ok_iff.1 h
  obtain ⟨i, rfl, hi⟩ := squeeze_identifier htitle
  obtain ⟨e, rfl, he⟩ := squeeze_entry hfirst
  obtain ⟨es, hes, hmore⟩ := squeeze_repeatedly length_entry squeeze_entry r₂
  cases h
  refine ⟨⟨i, e, es⟩, ?_, ?_⟩
  · rw [WrittenSection.toSection, WrittenSection.entries, List.map_cons, ← hes]
  · rw [← squeeze_isInline cs, hi, ← squeeze_trim r₁, he, hmore, WrittenSection.squeezed,
      WrittenSection.entries, List.flatMap_cons, List.append_assoc, List.append_assoc]

theorem squeeze_document {d : Document} (h : document cs = .ok (d, r)) :
    ∃ ws : List WrittenSection, ws ≠ [] ∧ d.sections = ws.map WrittenSection.toSection ∧
      squeeze cs = ws.flatMap WrittenSection.squeezed ++ squeeze r := by
  obtain ⟨⟨first, r₁⟩, hfirst, h⟩ := bind_eq_ok_iff.1 h
  obtain ⟨s, rfl, hs⟩ := squeeze_titled hfirst
  obtain ⟨ws, hws, hmore⟩ := squeeze_repeatedly length_titled squeeze_titled r₁
  cases h
  refine ⟨s :: ws, nofun, ?_, ?_⟩
  · rw [List.map_cons, ← hws]
  · rw [hs, hmore, List.flatMap_cons, List.append_assoc]

end Reading

/-- How a text without blanks at its ends is read as a value: as a whole number, else as a float,
else as a truth value, and else as it is. -/
inductive Value.Reads (cs : List Char) : Value → Prop
  | integer {n : Int} (hn : Decimal.readInteger? cs = some n) : Reads cs (.integer n)
  | float {x : Float} (hn : Decimal.readInteger? cs = none)
      (hx : Decimal.readFloat? cs = some x) : Reads cs (.float x)
  | boolean (b : Bool) (hn : Decimal.readInteger? cs = none) (hx : Decimal.readFloat? cs = none)
      (hb : String.ofList cs = toString b) : Reads cs (.boolean b)
  | text (hn : Decimal.readInteger? cs = none) (hx : Decimal.readFloat? cs = none)
      (hb : ∀ b : Bool, String.ofList cs ≠ toString b) : Reads cs (.text (String.ofList cs))

theorem Value.reads_trim_iff {token : List Char} {v : Value} :
    Reads (trim token) v ↔ ofToken token = v := by
  unfold ofToken
  constructor
  · rintro (hn | ⟨hn, hx⟩ | ⟨b, hn, hx, hb⟩ | ⟨hn, hx, hb⟩)
    · simp only [hn]
    · simp only [hn, hx]
    · cases b <;> simp only [hn, hx, hb] <;> rfl
    · have htrue := hb true
      have hfalse := hb false
      simp only [hn, hx]
      split
      case h_1 h => exact absurd h htrue
      case h_2 h => exact absurd h hfalse
      case h_3 => rfl
  · rintro rfl
    dsimp only
    split
    case h_1 n hn => exact .integer hn
    case h_2 hn =>
      split
      case h_1 x hx => exact .float hn hx
      case h_2 hx =>
        split
        case h_1 h => exact .boolean true hn hx h
        case h_2 h => exact .boolean false hn hx h
        case h_3 htrue hfalse => exact .text hn hx fun b => b.casesOn hfalse htrue

/-- An accepted text is the text of a written document, up to blanks and comments: the titles, keys
and values that are read are all that stands in it, next to the colons and commas between them. -/
theorem exists_written_of_ofText {text : List Char} {d : Document}
    (h : Document.ofText text = .ok d) :
    ∃ ws : List WrittenSection, ws ≠ [] ∧
      squeeze (Document.withoutComments text) = ws.flatMap WrittenSection.squeezed ∧
      d.sections = ws.map WrittenSection.toSection ∧ d.Means ws ∧
      ∀ s ∈ ws, ∀ e ∈ s.entries, ∀ t ∈ e.tokens, (Value.ofToken t.chars).Reads (trim t.chars) := by
  unfold Document.ofText at h
  split at h
  case h_1 => cases h
  case h_2 d' rest hd =>
    split at h
    case isFalse => cases h
    case isTrue hrest =>
      cases h
      obtain ⟨ws, hne, hsections, htext⟩ := squeeze_document hd
      rw [squeeze_eq_nil (List.all_eq_true.1 hrest), List.append_nil] at htext
      exact ⟨ws, hne, htext, hsections, Document.means_of_sections_eq hsections,
        fun _ _ _ _ _ _ => Value.reads_trim_iff.2 rfl⟩

theorem exists_written_oneLine :
    Document.ofText "basis V : Nj ,x\nW:".toList =
        .ok ⟨[⟨"basis", [⟨"V", [.text "Nj", .text "x"]⟩, ⟨"W", []⟩]⟩]⟩ ∧
      ∃ ws : List WrittenSection,
        ws.flatMap WrittenSection.squeezed = "basisV:Nj,xW:".toList ∧ ws.length = 1 := by
  have hread : Document.ofText "basis V : Nj ,x\nW:".toList =
      .ok ⟨[⟨"basis", [⟨"V", [.text "Nj", .text "x"]⟩, ⟨"W", []⟩]⟩]⟩ := by with_unfolding_all rfl
  obtain ⟨ws, -, htext, hsections, -⟩ := exists_written_of_ofText hread
  refine ⟨hread, ws, ?_, ?_⟩
  · rw [← htext]
    rfl
  · rw [← List.length_map WrittenSection.toSection, ← hsections]
    rfl

end Settings

end VariationalForms
