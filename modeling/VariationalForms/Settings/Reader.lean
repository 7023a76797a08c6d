import VariationalForms.Settings.Document

/-! Reading settings documents.
A reader returns what it found together with the text behind it, or else the text at which it
stopped. Sections and entries are read as long as they can be; the text behind the last one is left.
-/

set_option autoImplicit false

namespace VariationalForms.Settings

open Text

/-- The outcome of reading, or the text at which reading stopped. -/
abbrev Attempt := Except (List Char)

namespace Reading

def startsIdentifier (c : Char) : Bool := c.isAlpha || c == '_'

def inIdentifier (c : Char) : Bool := c.isAlphanum || c == '_'

def isInline (c : Char) : Bool := c == ' ' || c == '\t'

def inToken (c : Char) : Bool :=
  !(c == ',' || c == ' ' || c == '\t' || c == '\n' || c == '\r' || c == ';')

/-- Reads as often as it can. Every step must shorten the text. -/
def repeatedly {α : Type} (step : List Char → Attempt (α × List Char))
    (shortens : ∀ {cs a r}, step cs = .ok (a, r) → r.length < cs.length) (cs : List Char) :
    List α × List Char :=
  match _ : step cs with
  | .error _ => ([], cs)
  | .ok (a, r) =>
    let (as, rest) := repeatedly step shortens r
    (a :: as, rest)
termination_by cs.length
decreasing_by exact shortens ‹_›

def identifier : List Char → Attempt (String × List Char)
  | [] => .error []
  | c :: cs =>
    if startsIdentifier c then
      .ok (String.ofList (c :: cs.takeWhile inIdentifier), cs.dropWhile inIdentifier)
    else .error (c :: cs)

theorem length_identifier {cs r : List Char} {s : String} (h : identifier cs = .ok (s, r)) :
    r.length < cs.length := by
  cases cs with
  | nil => cases h
  | cons c cs =>
    have hd := length_dropWhile_le inIdentifier cs
    simp only [identifier] at h
    split at h
    · cases h
      simp only [List.length_cons]
      omega
    · cases h

def nextToken (cs : List Char) : Attempt (List Char × List Char) :=
  match cs.dropWhile isInline with
  | ',' :: r =>
    let r := r.dropWhile isInline
    if (r.takeWhile inToken).isEmpty then .error cs
    else .ok (r.takeWhile inToken, r.dropWhile inToken)
  | _ => .error cs

theorem length_nextToken {cs r token : List Char} (h : nextToken cs = .ok (token, r)) :
    r.length < cs.length := by
  have hc := length_dropWhile_le isInline cs
  unfold nextToken at h
  split at h
  · rename_i r' hr
    have hi := length_dropWhile_le isInline r'
    have ht := length_dropWhile_le inToken (r'.dropWhile isInline)
    simp only [hr, List.length_cons] at hc
    simp only at h
    split at h
    · cases h
    · cases h
      omega
  · cases h

/-- Values with commas between them, or none. A comma without a value behind it is left. -/
def tokens (cs : List Char) : List (List Char) × List Char :=
  if (cs.takeWhile inToken).isEmpty then ([], cs)
  else
    let (more, r) := repeatedly nextToken length_nextToken (cs.dropWhile inToken)
    (cs.takeWhile inToken :: more, r)

theorem length_repeatedly_le {α : Type} {step : List Char → Attempt (α × List Char)}
    {shortens : ∀ {cs a r}, step cs = .ok (a, r) → r.length < cs.length} (cs : List Char) :
    (repeatedly step shortens cs).2.length ≤ cs.length := by
  fun_induction repeatedly step shortens cs with
  | case1 cs r h => exact Nat.le_refl _
  | case2 cs a r h as rest hr ih =>
    have hs := shortens h
    rw [hr] at ih
    exact Nat.le_trans ih (Nat.le_of_lt hs)

theorem length_tokens_le (cs : List Char) : (tokens cs).2.length ≤ cs.length := by
  unfold tokens
  split
  · exact Nat.le_refl _
  · exact Nat.le_trans (length_repeatedly_le _) (length_dropWhile_le inToken cs)

/-- A key, a colon and values. The blanks at both ends of the text behind them are dropped. -/
def entry (cs : List Char) : Attempt (Entry × List Char) := do
  let (key, r) ← identifier cs
  match r.dropWhile isInline with
  | ':' :: r =>
    let (ts, r) := tokens (r.dropWhile isInline)
    .ok (⟨key, ts.map Value.ofToken⟩, trim r)
  | r => .error r

theorem length_entry {cs r : List Char} {e : Entry} (h : entry cs = .ok (e, r)) :
    r.length < cs.length := by
  unfold entry at h
  cases hi : identifier cs with
  | error s => rw [hi] at h; cases h
  | ok p =>
    obtain ⟨key, r₁⟩ := p
    have h₁ := length_identifier hi
    have h₂ := length_dropWhile_le isInline r₁
    rw [hi] at h
    simp only [bind, Except.bind] at h
    split at h
    · rename_i r₃ hr
      have h₃ := length_dropWhile_le isInline r₃
      have h₄ := length_tokens_le (r₃.dropWhile isInline)
      have h₅ := length_trim_le (tokens (r₃.dropWhile isInline)).2
      simp only [hr, List.length_cons] at h₂
      cases h
      omega
    · cases h

def titled (cs : List Char) : Attempt (Section × List Char) := do
  let (title, r) ← identifier (cs.dropWhile isInline)
  let (first, r) ← entry (trim r)
  let (more, r) := repeatedly entry length_entry r
  return (⟨title, first :: more⟩, r)

theorem length_titled {cs r : List Char} {s : Section} (h : titled cs = .ok (s, r)) :
    r.length < cs.length := by
  unfold titled at h
  cases hi : identifier (cs.dropWhile isInline) with
  | error t => rw [hi] at h; cases h
  | ok p =>
    obtain ⟨title, r₁⟩ := p
    have h₀ := length_dropWhile_le isInline cs
    have h₁ := length_identifier hi
    have h₂ := length_trim_le r₁
    rw [hi] at h
    simp only [bind, Except.bind] at h
    cases he : entry (trim r₁) with
    | error t => rw [he] at h; cases h
    | ok q =>
      obtain ⟨first, r₂⟩ := q
      have h₃ := length_entry he
      have h₄ := @length_repeatedly_le Entry entry length_entry r₂
      rw [he] at h
      cases h
      simp only
      omega

def document (cs : List Char) : Attempt (Document × List Char) := do
  let (first, r) ← titled cs
  let (more, r) := repeatedly titled length_titled r
  return (⟨first :: more⟩, r)

end Reading

/-- Why a text is no settings document: reading stopped at its start or in its first entries, or it
left a part of the text. -/
inductive DocumentFault
  | stopped (rest : List Char)
  | unread (rest : List Char)
  deriving DecidableEq, Repr

namespace DocumentFault

def stopText (rest : List Char) : String :=
  "Error(Error \x7b input: " ++ quoted rest ++ ", code: Tag \x7d)"

def message : DocumentFault → String
  | .stopped rest => "Parsing error: " ++ stopText rest
  | .unread rest =>
    "Failed to parse entire document. Remaining: '" ++ String.ofList rest ++ "'"

end DocumentFault

namespace Document

def isComment : List Char → Bool
  | [] => true
  | '/' :: '/' :: _ => true
  | '#' :: _ => true
  | '%' :: _ => true
  | ';' :: _ => true
  | _ => false

def withoutComments (cs : List Char) : List Char :=
  ['\n'].intercalate (((lines cs).map trim).filter (! isComment ·))

def ofText (cs : List Char) : Except DocumentFault Document :=
  match Reading.document (withoutComments cs) with
  | .error rest => .error (.stopped rest)
  | .ok (d, rest) => if rest.all isBlank then .ok d else .error (.unread rest)

end Document

end VariationalForms.Settings
