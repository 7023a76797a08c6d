import VariationalForms.Decimal.Layout
import VariationalForms.Decimal.Reader
import VariationalForms.Text.Quoted

/-! The values of a settings document. A token is a whole number if it can be read as one, else a
float, else a truth value, and else text.
-/

set_option autoImplicit false

namespace VariationalForms.Settings

inductive Value
  | text (s : String)
  | float (x : Float)
  | integer (n : Int)
  | boolean (b : Bool)

namespace Value

def ofToken (token : List Char) : Value :=
  let cs := Text.trim token
  match Decimal.readInteger? cs with
  | some n => .integer n
  | none =>
    match Decimal.readFloat? cs with
    | some x => .float x
    | none =>
      match String.ofList cs with
      | "true" => .boolean true
      | "false" => .boolean false
      | s => .text s

def kind : Value → String
  | .text _ => "String"
  | .float _ => "Float"
  | .integer _ => "Integer"
  | .boolean _ => "Boolean"

def asText? : Value → Option String
  | .text s => some s
  | _ => none

/-- A whole number counts as the float nearest to it. -/
def asFloat? : Value → Option Float
  | .float x => some x
  | .integer n => some (Binary64.nearest (n < 0) n.natAbs 1)
  | _ => none

def asBoolean? : Value → Option Bool
  | .boolean b => some b
  | _ => none

def toText : Value → String
  | .text s => s
  | .float x => Decimal.Layout.plain.text (.ofFloat x)
  | .integer n => toString n
  | .boolean b => toString b

def shown : Value → String
  | .text s => "String(" ++ Text.quoted s.toList ++ ")"
  | .float x => "Float(" ++ Decimal.Layout.marked.text (.ofFloat x) ++ ")"
  | .integer n => "Integer(" ++ toString n ++ ")"
  | .boolean b => "Boolean(" ++ toString b ++ ")"

end Value

end VariationalForms.Settings
