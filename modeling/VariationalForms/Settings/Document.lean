import VariationalForms.Settings.Value

/-! Settings documents: titled sections of keys with lists of values.
A document keeps all that was written. Of several sections with one title the last counts, and so
does the last of several entries of a section with one key.
-/

set_option autoImplicit false

namespace VariationalForms.Settings

structure Entry where
  key : String
  values : List Value

structure Section where
  title : String
  entries : List Entry

structure Document where
  sections : List Section

abbrev Template := List (String × List String)

namespace Section

def keys (s : Section) : List String := (s.entries.map Entry.key).eraseDups

def values? (s : Section) (key : String) : Option (List Value) :=
  (s.entries.reverse.find? fun e => e.key = key).map Entry.values

end Section

namespace Document

def titles (d : Document) : List String := (d.sections.map Section.title).eraseDups

def last? (d : Document) (title : String) : Option Section :=
  d.sections.reverse.find? fun s => s.title = title

def values? (d : Document) (title key : String) : Option (List Value) :=
  (d.last? title).bind fun s => s.values? key

def keys (d : Document) (title : String) : List String :=
  ((d.last? title).map Section.keys).getD []

/-- All that the document says together with all that the template expects; what is expected and not
said has no values. -/
def complete (d : Document) (t : Template) :
    List (String × List (String × Option (List Value))) :=
  (d.titles ++ t.map Prod.fst).eraseDups.map fun title =>
    let expected := (t.lookup title).getD []
    (title, (d.keys title ++ expected).eraseDups.map fun key => (key, d.values? title key))

end Document

end VariationalForms.Settings
