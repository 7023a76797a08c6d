import VariationalForms.Text.Blank

/-! Levels of logging and their names. -/

set_option autoImplicit false

namespace VariationalForms.Settings

inductive LogLevel
  | off
  | error
  | warn
  | info
  | debug
  | trace
  deriving DecidableEq, Repr

namespace LogLevel

def name : LogLevel → String
  | off => "OFF"
  | error => "ERROR"
  | warn => "WARN"
  | info => "INFO"
  | debug => "DEBUG"
  | trace => "TRACE"

/-- Reads a level by any of its names, in any letter case and with blanks around it. Only letters of
ASCII have one of their lower case letters, so no other letter needs a case. -/
def ofText? (s : String) : Option LogLevel :=
  match String.ofList ((Text.trim s.toList).map Char.toLower) with
  | "off" => some off
  | "none" => some off
  | "error" => some error
  | "warn" => some warn
  | "info" => some info
  | "debug" => some debug
  | "trace" => some trace
  | _ => none

end LogLevel

end VariationalForms.Settings
