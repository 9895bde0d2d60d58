/-
# Values

Variables are bound to values, and expressions over the reals, over truth values and over prices
have values. Truth values count as the integers 0 and 1 in arithmetic; texts support joining,
repetition and comparison with texts.
-/
import Formula.Comparison
import Formula.Complex
import Formula.Double.Reading
import Formula.Double.Text
import Formula.Number

namespace Formula

/-- A value of an expression or a variable. -/
inductive Value where
  /-- No value. -/
  | null
  | boolean (b : Bool)
  | number (n : Number)
  | complex (z : Complex)
  | text (s : String)
  deriving DecidableEq

namespace Value

/-- The value of an integer. -/
abbrev integer (n : Int) : Value := number (.integer n)

/-- The value of a rational. -/
abbrev rational (q : Rat) : Value := number (.rational q)

/-- The value of a double. -/
abbrev float (x : Double) : Value := number (.float x)

/-! ## Conversions -/

/-- The number that a value is in arithmetic. -/
def number? : Value → Option Number
  | boolean b => some (.integer b.toNat)
  | number n => some n
  | _ => none

/-- The number that a value is in arithmetic; other values are no operands. -/
def toNumber (v : Value) : Except Error Number := v.number?.elim (.error .typeMismatch) .ok

/-- The double nearest to a number; texts are not read. -/
def toReal (v : Value) : Except Error Double := do (← v.toNumber).toDouble

/-- The fraction that an integer, a rational or a truth value is; other values have no numerator. -/
def toFraction (v : Value) : Except Error Rat :=
  match v.number? with
  | some (.integer n) => .ok n
  | some (.rational q) => .ok q
  | _ => .error .missingPart

/-- **The double that a value stands for**: numbers convert, and texts are read. -/
def toDouble : Value → Except Error Double
  | boolean b => .ok (Double.ofInt b.toNat)
  | number n => n.toDouble
  | text s => (Double.read? s).elim (.error (.invalid (.notNumeral s))) .ok
  | null | complex _ => .error .typeMismatch

/-- The whole number that a value stands for, without its decimals; texts are read. -/
def toInteger : Value → Except Error Int
  | text s => (readWhole? s).elim (.error (.invalid (.notInteger s 10))) .ok
  | v => do return (← v.toNumber).toRat?.elim 0 fun q => Int.tdiv q.num q.den

/-- **Truth**: zero, the empty text and null are false, all else is true. -/
def isTrue : Value → Bool
  | null => false
  | boolean b => b
  | number n => !n.isZero
  | complex z => !z.isZero
  | text s => s != ""

/-- Whether a value equals zero. -/
def isZero : Value → Bool
  | complex z => z.isZero
  | v => v.number?.any Number.isZero

/-! ## Comparison -/

/-- Equality; values of different kinds differ, apart from truth values and numbers. -/
def eqv : Value → Value → Bool
  | null, null => true
  | complex z, complex w => z.re.eqv w.re && z.im.eqv w.im
  | text s, text t => s == t
  | a, b =>
    match a.number?, b.number? with
    | some m, some n => m.eqv n
    | _, _ => false

/-- The order of two values, for numbers and for texts. -/
def order : Value → Value → Except Error (Option Ordering)
  | text s, text t => .ok (some (compareText s t))
  | a, b =>
    match a.number?, b.number? with
    | some m, some n => .ok (m.compare? n)
    | _, _ => .error .typeMismatch

/-- **A relation between two values**: equality holds or fails for all values, an order only for two
numbers or two texts. -/
def relate (op : Operator) (a b : Value) : Except Error Bool :=
  match op with
  | .eq => .ok (a.eqv b)
  | .ne => .ok (!a.eqv b)
  | op => (a.order b).map op.holds

/-! ## Arithmetic -/

/-- The complex number that a value is beside a complex operand. -/
def toComplex : Value → Except Error Complex
  | complex z => .ok z
  | text _ | null => .error .typeMismatch
  | v => v.toDouble.map Complex.ofReal

/-- Combines two numbers in the tower, or as complex numbers as soon as one of them is complex. -/
def combine (onNumbers : Number → Number → Except Error Number)
    (onComplex : Complex → Complex → Complex) : Value → Value → Except Error Value
  | complex z, b => b.toComplex.map fun w => complex (onComplex z w)
  | a, complex w => a.toComplex.map fun z => complex (onComplex z w)
  | a, b => do number <$> onNumbers (← a.toNumber) (← b.toNumber)

/-- Whether a text may be repeated: the number of repetitions and the length are bounded by
`2 ^ 63`. -/
def mayRepeat (s : String) (n : Int) : Bool :=
  decide (-2 ^ 63 ≤ n ∧ n < 2 ^ 63 ∧ n * s.length < 2 ^ 63)

/-- A text repeated. -/
def repeated (s : String) (n : Int) : Except Error Value :=
  if mayRepeat s n then .ok (text (String.join (List.replicate n.toNat s))) else .error .overflow

/-- The sum; two texts are joined. -/
def add (a b : Value) : Except Error Value :=
  match a, b with
  | text s, text t => .ok (text (s ++ t))
  | a, b => combine Number.add Complex.add a b

/-- The difference of two numbers. -/
def sub : Value → Value → Except Error Value := combine Number.sub Complex.sub

/-- The product; a text times an integer is repeated. -/
def mul (a b : Value) : Except Error Value :=
  match a, b.number?, a.number?, b with
  | text s, some (.integer n), _, _ => repeated s n
  | _, _, some (.integer n), text s => repeated s n
  | a, _, _, b => combine Number.mul Complex.mul a b

/-- The quotient by a divisor that is not zero. -/
def quotient : Value → Value → Except Error Value := combine Number.div Complex.div

/-- **The quotient**: a zero divisor is found before the kinds are checked. -/
def div (a b : Value) : Except Error Value :=
  if b.isZero then .error (.divisionByZero "/") else a.quotient b

/-- The negation of a number. -/
def neg : Value → Except Error Value
  | complex z => .ok (complex (-z))
  | v => v.toNumber.map fun n => number n.neg

/-- The magnitude of a number. -/
def abs : Value → Except Error Value
  | complex z => z.modulus.map float
  | v => v.toNumber.map fun n => number n.abs

/-! ## Powers -/

/-- The number of bits up to which integer powers are computed exactly. -/
def exactPowerBits : Nat := 4096

/-- The exact power of two integers, when it is small enough. -/
def exactPower? (a b : Value) : Option Int :=
  match a.number?, b.number? with
  | some (.integer m), some (.integer n) =>
    if 0 ≤ n ∧ (Nat.log2 (max m.natAbs 1) + 1) * n.toNat ≤ exactPowerBits then some (m ^ n.toNat)
    else none
  | _, _ => none

/-- The power of two doubles: infinite when it overflows, NaN when it is not real. -/
def doublePower (x y : Double) : Except Error Double :=
  match Double.power? x y with
  | .ok r => .ok r
  | .error .overflow => .ok (.infinity false)
  | .error .notReal => .ok .nan
  | .error .zeroToNegative => .error .uncheckedZero

/-- The power over doubles; an operand past the largest double counts as an overflow. -/
def floatPower (a b : Value) : Except Error Double :=
  match a.toDouble with
  | .error .overflow => .ok (.infinity false)
  | .error e => .error e
  | .ok x =>
    match b.toDouble with
    | .error .overflow => .ok (.infinity false)
    | .error e => .error e
    | .ok y => doublePower x y

/-- **The power**: exact for small integers, over doubles otherwise; `0^0` and negative powers of
zero are errors. -/
def power (a b : Value) : Except Error Value :=
  if a.isZero && b.isZero then .error .undefinedPower
  else do
    if a.isZero then
      if ← b.relate .lt (integer 0) then throw (.divisionByZero "^")
    match exactPower? a b with
    | some n => return integer n
    | none => float <$> floatPower a b

/-! ## Texts -/

/-- The text of a double without a trailing `.0`. -/
def bareText (x : Double) : List Char :=
  let cs := x.text.toList
  if x.isInteger && cs.drop (cs.length - 2) = ['.', '0'] then cs.take (cs.length - 2) else cs

/-- A complex number as messages show it. -/
def shownComplex (z : Complex) : String :=
  let im := bareText z.im ++ ['j']
  if z.re.isZero && !z.re.signBit then String.ofList im
  else
    let plus := if z.im.signBit then [] else ['+']
    String.ofList (['('] ++ bareText z.re ++ plus ++ im ++ [')'])

/-- A number as messages and results show it. -/
def numberText : Number → String
  | .integer n => intText n
  | .rational q => ratText q
  | .float x => x.text

/-- A value as messages show it. -/
def shown : Value → String
  | null => "None"
  | boolean b => if b then "True" else "False"
  | number n => numberText n
  | complex z => shownComplex z
  | text s => quoted s

end Value

end Formula
