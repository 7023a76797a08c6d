import VariationalForms.Normalization
import VariationalForms.Settings.LogLevel
import VariationalForms.Settings.Reader

/-! The settings of a run: basis names by the names of spaces, the level of logging, and whether
normalized integrands are simplified. What a document does not say has its default.
-/

set_option autoImplicit false

namespace VariationalForms

structure Settings where
  logLevel : Settings.LogLevel
  basis : List (String × String)
  simplify : Bool
  deriving DecidableEq, Repr

namespace Settings

inductive ReadFault
  | unreadable (path : String)
  | document (f : DocumentFault)
  | valueCount (title key : String) (found : Nat)
  | basisName (space : String) (found : Option Value)
  | logLevel (text : String)
  | simplify (text : String)

namespace ReadFault

def reason : ReadFault → String
  | unreadable path => "cannot read " ++ path ++ ": No such file or directory (os error 2)"
  | document f => f.message
  | valueCount title key found =>
    title ++ "." ++ key ++ " expects exactly one value, got " ++ toString found
  | basisName space found =>
    "basis name for space `" ++ space ++ "` must be a symbol, got " ++
      found.elim "None" fun v => "Some(" ++ v.shown ++ ")"
  | logLevel text =>
    "loglevel must be off, error, warn, info, debug or trace, got `" ++ text ++ "`"
  | simplify text => "simplify must be true or false, got `" ++ text ++ "`"

def message (f : ReadFault) : String := "configuration error: " ++ f.reason

end ReadFault

def standard : Settings := ⟨.info, [], false⟩

/-- The value of a key that may have one value only. -/
def single? (d : Document) (title key : String) : Except ReadFault (Option Value) :=
  match d.values? title key with
  | none => .ok none
  | some [v] => .ok (some v)
  | some vs => .error (.valueCount title key vs.length)

def basisEntry (d : Document) (space : String) : Except ReadFault (String × String) := do
  match ← single? d "basis" space with
  | some (.text name) => return (space, name)
  | found => throw (.basisName space found)

def readLogLevel (d : Document) : Except ReadFault LogLevel := do
  match ← single? d "logging" "loglevel" with
  | none => return standard.logLevel
  | some v =>
    match LogLevel.ofText? v.toText with
    | some level => return level
    | none => throw (.logLevel v.toText)

def readSimplify (d : Document) : Except ReadFault Bool := do
  match ← single? d "normalization" "simplify" with
  | none => return standard.simplify
  | some v =>
    match v.asBoolean? with
    | some b => return b
    | none => throw (.simplify v.toText)

def ofDocument (d : Document) : Except ReadFault Settings := do
  let basis ← (d.keys "basis").mapM (basisEntry d)
  let logLevel ← readLogLevel d
  let simplify ← readSimplify d
  return ⟨logLevel, basis, simplify⟩

def ofText (s : String) : Except ReadFault Settings :=
  match Document.ofText s.toList with
  | .error f => .error (.document f)
  | .ok d => ofDocument d

/-- The settings in a file, given what the file holds if it exists. -/
def ofFile (path : String) : Option String → Except ReadFault Settings
  | none => .error (.unreadable path)
  | some content => ofText content

/-- The basis names for those of the spaces whose names the settings know. -/
def basisNames (s : Settings) (spaces : List Space) : BasisNames :=
  .ofList (spaces.filterMap fun v => (s.basis.lookup v.name).map fun name => (v, name))

def normalization (s : Settings) (spaces : List Space) : Normalization where
  coefficients := .standard
  names := s.basisNames spaces
  simplify := s.simplify

end Settings

end VariationalForms
