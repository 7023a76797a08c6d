/-! Floats of 64 bits by their meaning: which number a pattern of bits stands for, and which float is
nearest to a quotient of natural numbers.
-/

set_option autoImplicit false

namespace VariationalForms

/-- A finite float is `mantissa` times two to the power `exponent`, with a sign of its own. -/
inductive Binary64
  | nan
  | infinite (negative : Bool)
  | finite (negative : Bool) (mantissa : Nat) (exponent : Int)
  deriving DecidableEq, Repr

namespace Binary64

def ofBits (bits : Nat) : Binary64 :=
  let negative := (bits >>> 63) % 2 == 1
  let biased := (bits >>> 52) % 2048
  let fraction := bits % (1 <<< 52)
  if biased = 2047 then
    if fraction = 0 then .infinite negative else .nan
  else if biased = 0 then .finite negative fraction (-1074)
  else .finite negative ((1 <<< 52) + fraction) (Int.subNatNat biased 1075)

def ofFloat (x : Float) : Binary64 := ofBits x.toBits.toNat

/-- The natural number nearest to `num / den`; from the middle to the even one. -/
def roundQuotient (num den : Nat) : Nat :=
  let q := num / den
  let r := num % den
  if 2 * r < den then q
  else if den < 2 * r then q + 1
  else q + q % 2

theorem roundQuotient_near (num : Nat) {den : Nat} (h : 0 < den) :
    2 * (roundQuotient num den * den) ≤ 2 * num + den ∧
      2 * num ≤ 2 * (roundQuotient num den * den) + den := by
  have hd := Nat.div_add_mod num den
  have hm := Nat.mod_lt num h
  have he : num / den % 2 = 0 ∨ num / den % 2 = 1 := by omega
  have hq : den * (num / den) = num / den * den := Nat.mul_comm ..
  unfold roundQuotient
  simp only
  split
  · omega
  · split
    · rw [Nat.add_mul]; omega
    · rcases he with he | he <;> rw [he, Nat.add_mul] <;> omega

/-- The power of two that does not exceed `num / den` while its double does. -/
def leadingExponent (num den : Nat) : Int :=
  let e := Int.subNatNat num.log2 den.log2
  if den <<< e.toNat ≤ num <<< (-e).toNat then e else e - 1

/-- The bits of the float nearest to `num / den`. The mantissa is counted in units of the last place;
when it is rounded up to the next power of two, the sum below carries into the exponent. What lies
beyond the largest float becomes infinite. -/
def nearestBits (num den : Nat) : Nat :=
  if num = 0 then 0
  else
    let unit := leadingExponent num den - 52
    let unit := if unit < -1074 then -1074 else unit
    let mantissa := roundQuotient (num <<< (-unit).toNat) (den <<< unit.toNat)
    Nat.min (((unit + 1074).toNat <<< 52) + mantissa) (2047 <<< 52)

def nearest (negative : Bool) (num den : Nat) : Float :=
  Float.ofBits (UInt64.ofNat (nearestBits num den + if negative then 1 <<< 63 else 0))

end Binary64

end VariationalForms
