/-
# Values as complex numbers

Numbers, complex numbers and their texts stand for complex numbers. A number has a real part and an
imaginary part too, and it is its own conjugate.
-/
import Formula.Complex.Text
import Formula.Value

namespace Formula

/-- **The complex number that a value stands for.** -/
def Value.asComplex : Value → Except Error Complex
  | .boolean _ => .error (.invalid .notComplex)
  | .complex z => .ok z
  | .number n => n.toDouble.map .ofReal
  | .text s => Complex.read s
  | .null => .error (.invalid (.notComplexValue Value.null.shown))

namespace Value

/-! ## Parts -/

/-- The real part. -/
def realPart : Value → Except Error Complex
  | complex z => .ok (.ofReal z.re)
  | text _ | null => .error .missingPart
  | v => v.toComplex

/-- The imaginary part. -/
def imaginaryPart : Value → Except Error Complex
  | complex z => .ok (.ofReal z.im)
  | text _ | null => .error .missingPart
  | _ => .ok .zero

/-- The conjugate. -/
def conjugate : Value → Except Error Value
  | complex z => .ok (complex z.conj)
  | v => (v.number?).elim (.error .missingPart) (.ok ∘ number)

/-! ## Writing -/

/-- **The text of a value as a complex number.** -/
def complexText : Value → Except Error String
  | complex z => z.text
  | v => (v.number?).elim (.error .missingPart) (Complex.partText false)

end Value

end Formula
