/-
# Signed decimals

A decimal is a sign, a coefficient and a power of ten. This module rounds decimals to a fixed
number of places and writes them out positionally.
-/

namespace Formula

/-! ## Powers -/

/-- Powers are those of the core library, whatever library is imported beside it. -/
@[default_instance 20000]
instance (priority := 20000) corePower {α : Type} [NatPow α] : Pow α Nat := instPowNat

/-! ## Decimals -/

/-- A signed decimal: `coefficient * 10 ^ exponent`, with a sign that zero keeps too. -/
structure Decimal where
  negative : Bool
  coefficient : Nat
  exponent : Int
  deriving DecidableEq, Repr

/-- How a decimal is cut to fewer places. -/
inductive Rounding where
  /-- To the nearest value, a half going away from zero. -/
  | halfAway
  /-- To the nearest value not above. -/
  | floor
  deriving DecidableEq, Repr

/-! ## Digits -/

/-- The decimal digits of a number. -/
def digits (n : Nat) : List Char := Nat.toDigits 10 n

/-- The decimal digits of `n`, padded with zeros on the left to at least `width`. -/
def paddedDigits (width n : Nat) : List Char :=
  List.replicate (width - (digits n).length) '0' ++ digits n

/-- `n / 10 ^ places` written with exactly `places` decimals, and no point for none. -/
def fixedPoint (places n : Nat) : List Char :=
  let whole := digits (n / 10 ^ places)
  if places = 0 then whole else whole ++ '.' :: paddedDigits places (n % 10 ^ places)

/-- The text of an integer. -/
def intText (n : Int) : String :=
  if n < 0 then "-" ++ String.ofList (digits n.natAbs) else String.ofList (digits n.natAbs)

/-- The text of a rational: `p/q`, or `p` alone when the denominator is one. -/
def ratText (q : Rat) : String :=
  if q.den = 1 then intText q.num else intText q.num ++ "/" ++ String.ofList (digits q.den)

namespace Decimal

/-! ## Values -/

/-- The exact magnitude as a quotient of whole numbers. -/
def ratio (d : Decimal) : Nat × Nat :=
  if 0 ≤ d.exponent then (d.coefficient * 10 ^ d.exponent.toNat, 1)
  else (d.coefficient, 10 ^ (-d.exponent).toNat)

/-- **The exact value** of a decimal. -/
def toRat (d : Decimal) : Rat :=
  mkRat (if d.negative then -(d.ratio.1 : Int) else d.ratio.1) d.ratio.2

/-! ## Fixed places -/

/-- The magnitude in units of `10 ^ -places`, rounded. -/
def scaled (mode : Rounding) (places : Nat) (d : Decimal) : Nat :=
  let n := d.ratio.1 * 10 ^ places
  let m := d.ratio.2
  match mode with
  | .halfAway => (2 * n + m) / (2 * m)
  | .floor => if d.negative then (n + m - 1) / m else n / m

/-- The longest coefficient that a rounded decimal may have. -/
def precision : Nat := 28

/-- Rounds to a fixed number of places; there is no result when the coefficient would have more
than `precision` digits. -/
def round? (mode : Rounding) (places : Nat) (d : Decimal) : Option Decimal :=
  let c := d.scaled mode places
  if c < 10 ^ precision then some ⟨d.negative, c, -(places : Int)⟩ else none

/-- The positional text of a decimal that has exactly `places` decimals. -/
def fixedText (places : Nat) (d : Decimal) : String :=
  String.ofList ((if d.negative then ['-'] else []) ++ fixedPoint places d.coefficient)

/-! ## Trailing zeros -/

/-- Moves trailing zeros of a coefficient into the exponent. -/
def stripZeros (c : Nat) (e : Int) : Nat × Int :=
  if h : c ≠ 0 ∧ c % 10 = 0 then stripZeros (c / 10) (e + 1) else (c, e)
  termination_by c
  decreasing_by omega

end Decimal

end Formula
