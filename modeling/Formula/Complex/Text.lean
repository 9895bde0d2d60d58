/-
# Written complex numbers

Complex numbers are read from texts such as `1+2i`, `-i` and `3/4`. They are written with small
fractions where these are close enough, and with six decimals otherwise.
-/
import Formula.Complex
import Formula.Double.Reading
import Formula.Double.Text
import Formula.Rational.Approximation
import Formula.Rational.Reading

namespace Formula

namespace Complex

/-! ## Reading -/

/-- Whether a character may stand inside the numeral of a part. -/
def isPartChar (c : Char) : Bool := isAsciiDigit c || c == '/' || c == ',' || c == '.'

/-- Whether a character is a sign. -/
def isSign (c : Char) : Bool := c == '+' || c == '-'

/-- A text with a decimal comma in place of a decimal point, made readable as a double. -/
def withPoint (cs : List Char) : String :=
  String.ofList (cs.map fun c => if c == ',' then '.' else c)

/-- Whether a text is an integer or a decimal with a point or a comma. -/
def isPlainDecimal (cs : List Char) : Bool :=
  let cs := match cs with
    | '-' :: rest => rest
    | cs => cs
  let whole := cs.takeWhile isDecimalDigit
  !whole.isEmpty &&
    match cs.dropWhile isDecimalDigit with
    | [] => true
    | c :: decimals => (c == ',' || c == '.') && !decimals.isEmpty && decimals.all isDecimalDigit

/-- Reads one part: nothing or a lone sign is zero; otherwise a rational or a decimal. -/
def readPart (cs : List Char) : Except Error Double :=
  if cs = [] ∨ cs = ['+'] ∨ cs = ['-'] then .ok .zero
  else
    match Rational.read (String.ofList cs) with
    | .ok q => (Double.ofRat? q).elim (.error .overflow) .ok
    | .error (.invalid _) =>
      match if isPlainDecimal cs then Double.read? (withPoint cs) else none with
      | some x => .ok x
      | none => .error (.invalid (.notComplexValue (quoted (String.ofList cs))))
    | .error e => .error e

/-- A complex numeral cut into its parts: each is a sign and a numeral. -/
structure Parts where
  negativeRe : Bool
  re : List Char
  negativeIm : Bool
  im : List Char

/-- Cuts a text that ends in `i`: behind an optional sign, two numerals with a sign between them, or
the numeral of the imaginary part alone, which then has the first sign. -/
def Parts.ofText? (cs : List Char) : Option Parts :=
  let first := cs.head?.filter isSign
  let body := if first.isSome then cs.drop 1 else cs
  if body.getLast? ≠ some 'i' then none
  else
    let body := body.dropLast
    let re := body.takeWhile isPartChar
    let alone (im : List Char) : Parts := ⟨false, ['0'], first == some '-', im⟩
    match body.dropWhile isPartChar with
    | [] => some (alone re)
    | sign :: im =>
      if !isSign sign || !im.all isPartChar then none
      else if re.isEmpty then some (alone im)
      else some ⟨first == some '-', re, sign == '-', im⟩

/-- **Reads a complex number.** -/
def read (s : String) : Except Error Complex :=
  let cs := (trimBoth isBlank s.toList).filter (· != ' ')
  match Parts.ofText? cs with
  | none => (readPart cs).map ofReal
  | some p => do
    let x ← readPart p.re
    let y ← readPart (if p.im.isEmpty then ['1'] else p.im)
    return ⟨if p.negativeRe then -x else x, if p.negativeIm then -y else y⟩

/-! ## Writing -/

/-- The largest denominator with which a part is written as a fraction. -/
def largestDenominator : Nat := 100

/-- The text of one part, with a plus sign on request; only doubles have decimals. -/
def partText (plus : Bool) (x : Number) : Except Error String := do
  if (← x.toDouble).isFinite then
    let q ← Rational.approximateClosely x
    if q.den ≤ largestDenominator then
      return if plus && 0 ≤ q then "+" ++ ratText q else ratText q
  match x with
  | .float x => return x.fixedText 6 plus
  | _ => throw .typeMismatch

/-- **The text of a complex number.** -/
def text (z : Complex) : Except Error String := do
  let re ← partText false (.float z.re)
  if z.im.isZero then return re
  let shown := if z.re.isZero then "" else re
  if z.im.eqv .one then return shown ++ (if z.re.isZero then "i" else "+i")
  if z.im.eqv (-.one) then return shown ++ "-i"
  let im ← partText (!z.re.isZero) (.float z.im)
  return shown ++ im ++ "i"

end Complex

end Formula
