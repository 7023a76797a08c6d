import VariationalForms.Decimal.Shortest

/-! How a float is written: the digits of its shortest decimal, laid out with a point or with an
exponent.
-/

set_option autoImplicit false

namespace VariationalForms.Decimal

/-- The choices of a layout: which exponents of the leading digit are written with a point alone, and
whether whole numbers show one. -/
structure Layout where
  positional : Int → Bool
  pointZero : Bool

namespace Layout

def plain : Layout where
  positional _ := true
  pointZero := false

def marked : Layout where
  positional e := -4 ≤ e && e < 16
  pointZero := true

def zeros (n : Nat) : String := "".pushn '0' n

def positionalText (pointZero : Bool) (digits : String) (exponent : Int) : String :=
  let point := digits.length + exponent
  if 0 ≤ exponent then
    digits ++ zeros exponent.toNat ++ if pointZero then ".0" else ""
  else if 0 < point then
    String.ofList (digits.toList.take point.toNat) ++ "." ++
      String.ofList (digits.toList.drop point.toNat)
  else "0." ++ zeros (-point).toNat ++ digits

def scientificText (digits : String) (leading : Int) : String :=
  let point := if 1 < digits.length then "." else ""
  String.ofList (digits.toList.take 1) ++ point ++ String.ofList (digits.toList.drop 1) ++ "e" ++
    toString leading

def decimalText (l : Layout) (d : Decimal) : String :=
  let padded := Nat.toDigits 10 d.mantissa
  let digits := (padded.reverse.dropWhile (· == '0')).reverse
  if digits = [] then positionalText l.pointZero "0" 0
  else
    let exponent := d.exponent + (padded.length - digits.length : Nat)
    let leading := exponent + digits.length - 1
    if l.positional leading then positionalText l.pointZero (String.ofList digits) exponent
    else scientificText (String.ofList digits) leading

def signText (negative : Bool) : String := if negative then "-" else ""

def text (l : Layout) : Binary64 → String
  | .nan => "NaN"
  | .infinite negative => signText negative ++ "inf"
  | .finite negative 0 _ => signText negative ++ l.decimalText ⟨0, 0⟩
  | .finite negative m e =>
    signText negative ++ l.decimalText (RoundingInterval.ofFinite m e).shortest

example : marked.text (.ofBits 0x3FB999999999999A) = "0.1" := by decide +kernel

example : marked.text (.ofBits 0x4341C37937E08000) = "1e16" := by decide +kernel

example : plain.text (.ofBits 0x4341C37937E08000) = "10000000000000000" := by decide +kernel

example : marked.text (.finite true 0 0) = "-0.0" := by decide +kernel

example : plain.text (.finite true 0 0) = "-0" := by decide +kernel

end Layout

end VariationalForms.Decimal
