/-
# Complex numbers

A complex number is a pair of doubles. Products and quotients are computed part by part, so that
infinities and NaN spread as they do on doubles; a quotient scales by the larger part of the
divisor.
-/
import Formula.Double.Elementary
import Formula.Error

namespace Formula

/-- A complex number with doubles as its parts. -/
structure Complex where
  re : Double
  im : Double
  deriving DecidableEq

namespace Complex

/-! ## Constants and tests -/

/-- A real number as a complex number. -/
def ofReal (x : Double) : Complex := ⟨x, .zero⟩

/-- Zero. -/
def zero : Complex := ofReal .zero

/-- One. -/
def one : Complex := ofReal .one

/-- The imaginary unit. -/
def i : Complex := ⟨.zero, .one⟩

/-- Whether both parts are zeros. -/
def isZero (z : Complex) : Bool := z.re.isZero && z.im.isZero

/-- Whether both parts are finite. -/
def isFinite (z : Complex) : Bool := z.re.isFinite && z.im.isFinite

/-- Whether a part is an infinity. -/
def hasInfinity (z : Complex) : Bool := z.re.isInfinite || z.im.isInfinite

/-! ## Arithmetic -/

/-- The sum. -/
def add (z w : Complex) : Complex := ⟨z.re + w.re, z.im + w.im⟩

/-- The difference. -/
def sub (z w : Complex) : Complex := ⟨z.re - w.re, z.im - w.im⟩

/-- The negation. -/
def neg (z : Complex) : Complex := ⟨-z.re, -z.im⟩

/-- The conjugate. -/
def conj (z : Complex) : Complex := ⟨z.re, -z.im⟩

/-- The product. -/
def mul (z w : Complex) : Complex :=
  ⟨z.re * w.re - z.im * w.im, z.re * w.im + z.im * w.re⟩

/-- The quotient by a divisor that is not zero. -/
def div (z w : Complex) : Complex :=
  if w.im.abs.le w.re.abs then
    let ratio := w.im / w.re
    let d := w.re + w.im * ratio
    ⟨(z.re + z.im * ratio) / d, (z.im - z.re * ratio) / d⟩
  else if w.re.abs.le w.im.abs then
    let ratio := w.re / w.im
    let d := w.re * ratio + w.im
    ⟨(z.re * ratio + z.im) / d, (z.im * ratio - z.re) / d⟩
  else ⟨.nan, .nan⟩

instance : Add Complex := ⟨add⟩
instance : Sub Complex := ⟨sub⟩
instance : Mul Complex := ⟨mul⟩
instance : Neg Complex := ⟨neg⟩

/-- The modulus; it overflows when it leaves the range. -/
def modulus (z : Complex) : Except Error Double :=
  let h := Double.hypot z.re z.im
  if z.isFinite && !h.isFinite then .error .overflow else .ok h

/-- The angle of the number in the plane. -/
def angle (z : Complex) : Double := Double.atan2 z.im z.re

/-! ## Powers -/

/-- A power whose division by zero names the operator. -/
def namedDivision {α : Type} : Except Error α → Except Error α
  | .error .uncheckedZero => .error (.divisionByZero "^")
  | r => r

/-- `acc * square ^ n`, by squaring. -/
def powerLoop (acc square : Complex) (n : Nat) : Complex :=
  if h : n = 0 then acc
  else powerLoop (if n % 2 = 1 then acc * square else acc) (square * square) (n / 2)
  termination_by n
  decreasing_by omega

/-- A power with a natural exponent. -/
def natPower (z : Complex) (n : Nat) : Complex := powerLoop one z n

/-- A result that overflows when a part is infinite. -/
def checkRange (z : Complex) : Except Error Complex :=
  if z.hasInfinity then .error .overflow else .ok z

/-- The number with a length and an angle; an infinite angle points nowhere. -/
def ofPolar (length phase : Double) : Except Error Complex :=
  if phase.isInfinite then .error .uncheckedZero
  else checkRange ⟨length * phase.cos, length * phase.sin⟩

/-- The power of a number other than zero by modulus and angle. -/
def polarPower (z w : Complex) : Except Error Complex :=
  let r := Double.hypot z.re z.im
  let length := Double.power r w.re
  let phase := z.angle * w.re
  if w.im.isZero then ofPolar length phase
  else ofPolar (length / Double.exp (z.angle * w.im)) (phase + w.im * r.log)

/-- The whole number that an exponent is, when it is real and at most one hundred in magnitude. -/
def smallExponent? (w : Complex) : Option Int :=
  if w.im.isZero && w.re.isInteger && w.re.abs.le (Double.ofNat 100) then w.re.floor? else none

/-- **The principal power.** Small whole exponents multiply, others go by modulus and angle; zero
has no negative or complex power. -/
def pow (z w : Complex) : Except Error Complex :=
  match smallExponent? w with
  | some n =>
    if 0 < n then checkRange (z.natPower n.toNat)
    else
      let p := z.natPower n.natAbs
      if p.isZero then .error .uncheckedZero else checkRange (one.div p)
  | none =>
    if z.isZero then
      if w.im.isZero && !w.re.lt .zero then .ok zero else .error .uncheckedZero
    else polarPower z w

/-- The principal power as expressions have it: `0^0` is undefined, and a zero without a power is a
division by zero. -/
def power (z w : Complex) : Except Error Complex :=
  if z.isZero && w.isZero then .error .undefinedPower else namedDivision (z.pow w)

end Complex

end Formula
