/-
# Values as rationals

Integers, rationals and their texts stand for rationals; doubles do not, but they have rational
approximations.
-/
import Formula.Rational.Approximation
import Formula.Rational.Reading
import Formula.Value

namespace Formula

namespace Value

/-- **The rational that a value stands for.** -/
def asRational : Value → Except Error Rat
  | boolean _ => .error (.invalid .notRational)
  | number (.integer n) => .ok n
  | number (.rational q) => .ok q
  | text s => Rational.read s
  | v => .error (.invalid (.notRationalValue v.shown))

/-- The number that a value stands for where a text may have a decimal comma. -/
def decimal : Value → Except Error Number
  | text s => Number.float <$> (text (String.ofList
      ((trimBoth isBlank s.toList).map fun c => if c == ',' then '.' else c))).toDouble
  | v => v.toNumber

/-- The tolerance around a number for a relative tolerance; no text is one. -/
def marginOf (tolerance : Value) (x : Number) : Except Error Number :=
  match tolerance, x with
  | text s, .integer n => if mayRepeat s n then .error .typeMismatch else .error .overflow
  | t, x => do x.mul (← t.toNumber)

/-- **The rational approximation** of a decimal within a relative tolerance. -/
def approximation (v tolerance : Value) : Except Error Rat := do
  Rational.approximate (← v.decimal) tolerance.marginOf

end Value

end Formula
