/-
# Reading rationals

A rational is written as an integer or as a quotient `p/q`, with blanks allowed around the numerals.
Decimals are no rationals here: they would hide a rounding.
-/
import Formula.Error
import Formula.Text.Blank
import Formula.Text.Digit

namespace Formula

namespace Rational

/-- A natural number written in digits alone. -/
def readNatural? (cs : List Char) : Option Nat :=
  if cs.isEmpty || !cs.all isDecimalDigit then none else some (digitsValue cs)

/-- An integer written in digits behind an optional minus sign. -/
def readInteger? : List Char → Option Int
  | '-' :: cs => (readNatural? cs).map fun n => -(n : Int)
  | cs => (readNatural? cs).map fun n => (n : Int)

/-- The numerator and the denominator that a text without outer blanks shows. -/
def readQuotient? (cs : List Char) : Option (Int × Nat) :=
  let numerator := cs.takeWhile (· != '/')
  match cs.dropWhile (· != '/') with
  | [] => (readInteger? numerator).map fun n => (n, 1)
  | _ :: denominator => do
    let n ← readInteger? (trimBoth isBlank numerator)
    let d ← readNatural? (trimBoth isBlank denominator)
    return (n, d)

/-- **Reads a rational.** -/
def read (s : String) : Except Error Rat :=
  match readQuotient? (trimBoth isBlank s.toList) with
  | none => .error (.invalid (.notRationalValue (quoted s)))
  | some (_, 0) => .error (.divisionByZero s)
  | some (n, d) => .ok (mkRat n d)

end Rational

end Formula
