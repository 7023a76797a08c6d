import VariationalForms.Decimal.Shortest

/-! Reading a float from its decimal text: an optional sign, then digits with at most one point and at
least one digit, then an optional exponent; or a word for an infinite or undefined value.
-/

set_option autoImplicit false

namespace VariationalForms.Decimal

def digitsValue (digits : List Char) : Nat :=
  digits.foldl (fun n c => 10 * n + (c.toNat - '0'.toNat)) 0

def readSign : List Char → Bool × List Char
  | '+' :: r => (false, r)
  | '-' :: r => (true, r)
  | r => (false, r)

def readExponent? : List Char → Option Int
  | [] => some 0
  | c :: r =>
    let (negative, digits) := readSign r
    if (c == 'e' || c == 'E') && digits != [] && digits.all Char.isDigit then
      some (if negative then -digitsValue digits else digitsValue digits)
    else none

/-- The float nearest to the digits times ten to the power `exponent`. Beyond four hundred places of
the point the answer is known without the powers of ten. -/
def toFloat (negative : Bool) (digits : List Char) (exponent : Int) : Float :=
  let mantissa := digitsValue digits
  let leading := exponent + digits.length
  if mantissa = 0 || leading < -400 then Binary64.nearest negative 0 1
  else if 400 < exponent then Binary64.nearest negative (Nat.pow 10 400) 1
  else Binary64.nearest negative (mantissa * Nat.pow 10 exponent.toNat) (Nat.pow 10 (-exponent).toNat)

def readNumber? (negative : Bool) (cs : List Char) : Option Float :=
  let (whole, r) := cs.span Char.isDigit
  let (places, r) := match r with
    | '.' :: r => r.span Char.isDigit
    | r => ([], r)
  if whole = [] && places = [] then none
  else (readExponent? r).map fun e => toFloat negative (whole ++ places) (e - places.length)

def readWord? (negative : Bool) (cs : List Char) : Option Float :=
  let word := String.ofList (cs.map Char.toLower)
  if word = "inf" || word = "infinity" then
    some (if negative then -(1 / 0) else 1 / 0)
  else if word = "nan" then some (0 / 0)
  else none

def readFloat? (cs : List Char) : Option Float :=
  let (negative, r) := readSign cs
  (readNumber? negative r).orElse fun _ => readWord? negative r

/-- A whole number of at most sixty-four bits: an optional sign and digits. -/
def readInteger? (cs : List Char) : Option Int :=
  let (negative, digits) := readSign cs
  if digits != [] && digits.all Char.isDigit then
    let n : Int := if negative then -digitsValue digits else digitsValue digits
    if Int.negOfNat (1 <<< 63) ≤ n && n < Int.ofNat (1 <<< 63) then some n else none
  else none

end VariationalForms.Decimal
