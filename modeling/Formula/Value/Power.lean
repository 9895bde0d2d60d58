/-
# Powers and roots of values

A power is taken in the place of the tower where base and exponent meet: exactly while both are
exact and the exponent is whole, over doubles otherwise, and over the complex numbers where the
doubles have none.
-/
import Formula.Rational.Power
import Formula.Value

namespace Formula

namespace Value

/-! ## Powers -/

/-- The power of two doubles; a power that is not real is complex. -/
def powDouble (x y : Double) : Except Error Value :=
  match Double.power? x y with
  | .ok r => .ok (float r)
  | .error .overflow => .error .overflow
  | .error .zeroToNegative => .error .uncheckedZero
  | .error .notReal => complex <$> (Complex.ofReal x).pow (.ofReal y)

/-- The power of a rational with a whole exponent. -/
def powRational (q : Rat) (n : Int) : Except Error Value :=
  if q = 0 ∧ n < 0 then .error .uncheckedZero else .ok (rational (Rational.wholePower q n))

/-- The power of two numbers of the tower. -/
def powNumber (m n : Number) : Except Error Value :=
  let overDoubles : Except Error Value := do powDouble (← m.toDouble) (← n.toDouble)
  match m, n with
  | .integer a, .integer b => if 0 ≤ b then .ok (integer (intPower a b.toNat)) else overDoubles
  | .integer a, .rational q =>
    if q.den = 1 then
      if 0 ≤ q.num then .ok (integer (intPower a q.num.toNat)) else powRational a q.num
    else overDoubles
  | .rational p, .integer b => powRational p b
  | .rational p, .rational q => if q.den = 1 then powRational p q.num else overDoubles
  | _, _ => overDoubles

/-- The error of a power with an operand that is no number; a rational operand beside it is made a
double first, and may overflow. -/
def powRefused (a b : Value) : Error :=
  let unlessOverflow (q : Rat) : Error :=
    if (Double.ofRat? q).isSome then .typeMismatch else .overflow
  match a, b with
  | number (.rational p), _ => unlessOverflow p
  | _, number (.rational q) => if q.den = 1 then .typeMismatch else unlessOverflow q
  | _, _ => .typeMismatch

/-- **The power** of two numbers or complex numbers. -/
def pow (a b : Value) : Except Error Value :=
  match a, b, a.number?, b.number? with
  | complex z, complex w, _, _ => complex <$> z.pow w
  | complex z, b, _, some _ => do complex <$> z.pow (← b.toComplex)
  | a, complex w, some _, _ => do complex <$> (← a.toComplex).pow w
  | _, _, some m, some n => powNumber m n
  | a, b, _, _ => .error (powRefused a b)

/-- The power as complex expressions have it: `0^0` is undefined, and a zero without a power is a
division by zero. -/
def complexPower (a b : Value) : Except Error Value :=
  if a.isZero && b.isZero then .error .undefinedPower else Complex.namedDivision (a.pow b)

/-- **The power as exact expressions have it**: a fractional exponent needs a base with an exact
root. -/
def exactValuePower (base exponent : Value) : Except Error Value :=
  if base.isZero then
    if exponent.isZero then .error .undefinedPower
    else do
      if ← exponent.relate .lt (integer 0) then throw (.divisionByZero "^")
      return rational 0
  else do
    let q ← exponent.toFraction
    if q.den = 1 then base.pow (integer q.num)
    else
      if (← base.relate .lt (integer 0)) && q.den % 2 == 0 then
        throw (.invalid (.powerNotReal base.shown q))
      rational <$> Rational.power (← base.toFraction) q

/-! ## Roots -/

/-- The whole quotient of two positive doubles. -/
def wholeQuotient (x y : Double) : Except Error Double :=
  match x.units?, y.units? with
  | some m, some n =>
    if n = 0 then .error .uncheckedZero
    else
      let remainder := Double.ofSignedUnits false (m % n)
      let q := (x - remainder) / y
      let whole := Double.ofInt (q.floor?.getD 0)
      .ok (if Double.half.lt (q - whole) then whole + .one else whole)
  | _, _ => .ok .nan

/-- Newton's step over doubles towards the `k`-th root of `n`. -/
def doubleRootStep (n k less guess : Double) : Except Error Double := do
  let power ← (Double.power? guess less).toOption.elim (.error .overflow) .ok
  wholeQuotient (less * guess + (← wholeQuotient n power)) k

/-- Newton's iteration over doubles from above; the number of steps is bounded. -/
def descendDoubleRoot (n k less guess : Double) : Nat → Except Error Double
  | 0 => .ok guess
  | fuel + 1 => do
    let next ← doubleRootStep n k less guess
    if guess.le next then return guess
    descendDoubleRoot n k less next fuel

/-- The root of an integer above one with a fractional degree above one, over doubles. -/
def fractionalRoot (n : Nat) (k : Rat) : Except Error Value := do
  let first : Int := 2 ^ (-Int.fdiv (-((Nat.log2 n + 1) * k.den : Nat)) k.num).toNat
  let start ← (Number.integer first).toDouble
  let x ← (Number.integer n).toDouble
  let degree ← (Number.rational k).toDouble
  let less ← (Number.rational (k - 1)).toDouble
  let root ← descendDoubleRoot x degree less start 4096
  let power ← (Double.power? root degree).toOption.elim (.error .overflow) .ok
  if !(Number.float power).eqv (.integer n) then return null
  return if root.eqv start then integer first else float root

/-- **The exact root** of a value, and null where there is none: a value below two and the first
root of any number are the value itself. -/
def exactValueRoot (n k : Value) : Except Error Value := do
  if ← n.relate .lt (integer 0) then return null
  if ← k.relate .lt (integer 1) then return null
  if (← n.relate .lt (integer 2)) || k.eqv (integer 1) then return n
  match n, k.number? with
  | number (.integer n), some (.integer k) =>
    return (exactRoot? n k).elim null fun r => integer r
  | number (.integer n), some (.rational k) =>
    if k.den = 1 then return (exactRoot? n k.num).elim null fun r => integer r
    fractionalRoot n.toNat k
  | number (.integer _), _ => throw .typeMismatch
  | _, _ => throw .missingPart

end Value

end Formula
