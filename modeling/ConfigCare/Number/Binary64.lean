/-!
Binary floating-point numbers of 64 bits, and the nearest one to a fraction or a decimal. A tie
goes to the even mantissa. All arithmetic is exact, on naturals.
-/

namespace ConfigCare

/-- A finite number is `± mantissa · 2 ^ exponent`, its mantissa below `2 ^ 53`. -/
inductive Binary64 where
  | finite (negative : Bool) (mantissa : Nat) (exponent : Int)
  | infinite (negative : Bool)
  | notANumber
deriving DecidableEq

namespace Binary64

/-- The quotient rounded to the nearest natural, a half to the even one. -/
def roundDiv (num den : Nat) : Nat :=
  let q := num / den
  let r := num % den
  if 2 * r < den then q else if 2 * r > den then q + 1 else q + q % 2

def zero (negative : Bool) : Binary64 := .finite negative 0 (-1074)

/-- `num · 2 ^ e` and `den` as a fraction of naturals. -/
def scaled (num den : Nat) (e : Int) : Nat × Nat :=
  if 0 ≤ e then (num * Nat.pow 2 e.toNat, den) else (num, den * Nat.pow 2 (-e).toNat)

/-- The nearest number to `± num / den`. -/
def ofFraction (negative : Bool) (num den : Nat) : Binary64 :=
  if num = 0 then zero negative
  else
    let guess : Int := (num.log2 : Int) - den.log2
    let (n, d) := scaled num den (-guess)
    let top := if n < d then guess - 1 else guess
    let e := max (top - 52) (-1074)
    let (n, d) := scaled num den (-e)
    let m := roundDiv n d
    let (m, e) := if m = Nat.pow 2 53 then (Nat.pow 2 52, e + 1) else (m, e)
    if e > 971 then .infinite negative else .finite negative m e

/-- The nearest number to `± digits · 10 ^ exponent`. Exponents far outside the range are settled
without the power. -/
def ofDecimal (negative : Bool) (digits : Nat) (exponent : Int) : Binary64 :=
  if digits = 0 then zero negative
  else if exponent > 400 then .infinite negative
  else if exponent < -(400 + (digits.log2 : Int)) then zero negative
  else if 0 ≤ exponent then ofFraction negative (digits * Nat.pow 10 exponent.toNat) 1
  else ofFraction negative digits (Nat.pow 10 (-exponent).toNat)

/-- The integer that a number is, if it is one. -/
def toInt? : Binary64 → Option Int
  | .finite negative m e =>
    let (n, d) := scaled m 1 e
    if n % d = 0 then some (if negative then -((n / d : Nat) : Int) else (n / d : Nat)) else none
  | _ => none

def isFinite : Binary64 → Bool
  | .finite .. => true
  | _ => false

/-- The nearest natural to the magnitude of a finite number, a half to the even one. -/
def roundMagnitude (m : Nat) (e : Int) : Nat :=
  let (n, d) := scaled m 1 e
  roundDiv n d

end Binary64

end ConfigCare
