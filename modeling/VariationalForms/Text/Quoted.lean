import VariationalForms.Text.Blank
import VariationalForms.Text.Extender
import VariationalForms.Text.Invisible

/-! Text in quotation marks, as it is shown in messages.
What cannot be seen is escaped, and so is what would be drawn onto the character before it.
-/

set_option autoImplicit false

namespace VariationalForms.Text

def isShown (c : Char) : Bool := !extenders.covers c.toNat && !invisibles.covers c.toNat

def codePoint (c : Char) : List Char :=
  "\\u\x7b".toList ++ Nat.toDigits 16 c.toNat ++ "\x7d".toList

def escape (c : Char) : List Char :=
  if c = '"' then ['\\', '"']
  else if c = '\\' then ['\\', '\\']
  else if c = '\n' then ['\\', 'n']
  else if c = '\r' then ['\\', 'r']
  else if c = '\t' then ['\\', 't']
  else if c = '\x00' then ['\\', '0']
  else if isShown c then [c]
  else codePoint c

def quoted (cs : List Char) : String := String.ofList ('"' :: cs.flatMap escape ++ ['"'])

end VariationalForms.Text
