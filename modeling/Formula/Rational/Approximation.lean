/-
# Rational approximations of numbers

A number is approximated by the convergents of its continued fraction. The first convergent within
a relative tolerance wins, so that 0.7 gives 7/10 and 3.14159265 gives 355/113. The terms are
computed in the place of the tower where the number stands: exactly for integers and rationals.
-/
import Formula.Double.Shortest
import Formula.Double.Text
import Formula.Number

namespace Formula

namespace Rational

/-- Two neighbouring convergents `p/q` and `p'/q'` of a continued fraction. -/
structure Convergents where
  p : Int
  q : Int
  p' : Int
  q' : Int

/-- The convergents before the first term. -/
def Convergents.start : Convergents := ⟨1, 0, 0, 1⟩

/-- The convergents after one more term. -/
def Convergents.next (c : Convergents) (term : Int) : Convergents :=
  ⟨term * c.p + c.p', term * c.q + c.q', c.p, c.q⟩

/-- The largest number of terms that are used. -/
def termLimit : Nat := 64

/-- The convergent within `margin` of the positive number `x`, or the last one before the terms end;
`remainder` is what the terms so far leave of `x`. -/
def converge (x margin : Number) (c : Convergents) (remainder : Number) : Nat → Except Error Rat
  | 0 => .ok (Rat.divInt c.p c.q)
  | n + 1 => do
    let term ← remainder.floor
    let c := c.next term
    let value ← (Double.ofQuotient? c.p c.q).elim (.error .overflow) .ok
    let gap ← x.sub (.float value)
    let rest ← remainder.sub (.integer term)
    if gap.abs.le margin || rest.isZero then return Rat.divInt c.p c.q
    converge x margin c (← (Number.integer 1).div rest) n

/-- **The rational approximation** of a number; `margin` gives the tolerance around a magnitude. -/
def approximate (x : Number) (margin : Number → Except Error Number) : Except Error Rat := do
  let nearest ← x.toDouble
  if !nearest.isFinite then throw (.invalid (.noFraction nearest.text))
  if x.isZero then return 0
  let q ← converge x.abs (← margin x.abs) .start x.abs termLimit
  return if x.lt (.integer 0) then -q else q

/-- The relative tolerance that is used where none is given. -/
def standardTolerance : Number := .float (Double.ofScientific false 1 (-7))

/-- The rational approximation within the standard tolerance. -/
def approximateClosely (x : Number) : Except Error Rat := approximate x (·.mul standardTolerance)

end Rational

end Formula
