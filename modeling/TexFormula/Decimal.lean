/-! Decimal numerals with a fixed number of places. A quotient is rounded to the nearest numeral,
and a quotient halfway between two numerals goes to the one with the even last digit. -/
namespace TexFormula.Decimal

/-- The integer nearest to `num / den`; a tie goes to the even one. -/
def roundHalfEven (num den : Nat) : Nat :=
  let whole := num / den
  let twice := 2 * (num % den)
  if twice < den then whole
  else if den < twice then whole + 1
  else if whole % 2 = 0 then whole
  else whole + 1

/-- A number in decimal digits, with zeros in front up to the given length. -/
def paddedDigits (length n : Nat) : List Char :=
  let digits := Nat.toDigits 10 n
  List.replicate (length - digits.length) '0' ++ digits

/-- `num / den` with `places` decimals. -/
def fixed (places num den : Nat) : List Char :=
  let unit := Nat.pow 10 places
  let scaled := roundHalfEven (num * unit) den
  Nat.toDigits 10 (scaled / unit) ++ '.' :: paddedDigits places (scaled % unit)

/-- The number that decimal digits spell. -/
def ofDigits (digits : List Char) : Nat :=
  digits.foldl (fun n c => 10 * n + (c.toNat - '0'.toNat)) 0

end TexFormula.Decimal

/-! ### Binary numbers

Rounding of quotients to the binary format with 53 significant bits and exponents from -1074 to
971. Of two neighbours at the same distance the one with the even significand is taken. -/

namespace TexFormula.Decimal.Binary64

/-- `num / den * 2 ^ -e` as a pair of numerator and denominator. -/
def scaleDown (num den : Nat) (e : Int) : Nat × Nat :=
  if 0 ≤ e then (num, den <<< e.toNat) else (num <<< (-e).toNat, den)

/-- The exponent at which `num / den` is rounded: its significand there has 53 bits, or fewer where
the smallest exponent does not allow that many. -/
def exponent (num den : Nat) : Int :=
  let guess : Int := (num.log2 : Int) - (den.log2 : Int) - 53
  let scaled := scaleDown num den guess
  let e := if scaled.2 <<< 53 ≤ scaled.1 then guess + 1 else guess
  max e (-1074)

/-- The number of the format nearest to `num / den`, as numerator and denominator, or `none` where
it lies beyond the largest one. -/
def nearest (num den : Nat) : Option (Nat × Nat) :=
  if num = 0 then some (0, 1)
  else
    let e := exponent num den
    let scaled := scaleDown num den e
    let significand := Decimal.roundHalfEven scaled.1 scaled.2
    if 0 ≤ e then
      let whole := significand <<< e.toNat
      if 1 <<< 1024 ≤ whole then none else some (whole, 1)
    else some (significand, 1 <<< (-e).toNat)

end TexFormula.Decimal.Binary64

/-! ### Counts

As they are written in a source: decimal digits, which a plus sign may precede. -/

namespace TexFormula.Decimal

/-- The largest count that is understood, the largest number of 64 bits. -/
def largestCount : Nat := UInt64.size - 1

/-- The digits of a written count. -/
def countDigits : List Char → List Char
  | '+' :: digits => digits
  | digits => digits

/-- The count that a text spells. -/
def readCount? (text : String) : Option Nat :=
  let digits := countDigits text.toList
  if digits ≠ [] ∧ digits.all Char.isDigit ∧ ofDigits digits ≤ largestCount then
    some (ofDigits digits)
  else none

end TexFormula.Decimal
