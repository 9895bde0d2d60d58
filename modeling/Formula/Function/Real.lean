/-
# Functions of real numbers

Outside its real domain a function gives NaN; only the logarithm of zero, infinite angles, negative
factorials and results past the largest double are errors.
-/
import Formula.Factorial
import Formula.Function

namespace Formula

namespace Function

/-! ## Functions of the platform -/

/-- A function of doubles whose result is checked: a NaN that does not come from the argument lies
outside the domain, and an infinity at a finite argument has the error `atPole`. -/
def checkedWith (atPole : Error) (f : Double → Double) (x : Double) : Except Error Double :=
  if (f x).isNan && !x.isNan then .error (.invalid .outsideDomain)
  else if (f x).isInfinite && x.isFinite then .error atPole
  else .ok (f x)

/-- A checked function whose poles lie outside its domain. -/
def checked : (Double → Double) → Double → Except Error Double :=
  checkedWith (.invalid .outsideDomain)

/-- A checked function that grows past the largest double. -/
def growing : (Double → Double) → Double → Except Error Double := checkedWith .overflow

/-- A function of doubles as a function of numbers. -/
def onDouble (f : Double → Except Error Double) (n : Number) : Except Error Number := do
  Number.float <$> f (← n.toDouble)

/-- The number NaN. -/
def undefined : Number := .float .nan

/-- NaN as a value. -/
def undefinedValue : Value := .number undefined

/-- Positive infinity. -/
def infinity : Double := .infinity false

/-! ## Trigonometric functions -/

/-- The cotangent; at a zero of the sine it is infinite with the sign of the cosine. -/
def cotangent (x : Double) : Except Error Double := do
  let sine ← checked .sin x
  let cosine ← checked .cos x
  return if sine.isZero then infinity.copySign cosine else cosine / sine

/-- A function of an angle in degrees. -/
def ofDegrees (f : Double → Except Error Double) (x : Double) : Except Error Double := f x.radians

/-- Whether a number lies between minus one and one. -/
def withinUnit (n : Number) : Bool := (Number.integer (-1)).le n && n.le (.integer 1)

/-- The inverse sine. -/
def arcsine (n : Number) : Except Error Number :=
  if withinUnit n then onDouble (checked .asin) n else .ok undefined

/-- The inverse cosine. -/
def arccosine (n : Number) : Except Error Number :=
  if withinUnit n then onDouble (checked .acos) n else .ok undefined

/-- The inverse cotangent. -/
def arccotangent (x : Double) : Except Error Double := .ok (Double.pi / Double.two - x.atan)

/-! ## Hyperbolic functions -/

/-- The hyperbolic cotangent; NaN at zero. -/
def hyperbolicCotangent (v : Value) : Except Error Value :=
  if v.isZero then .ok undefinedValue
  else do
    let t ← checked .tanh (← v.toReal)
    if t.isZero then throw .uncheckedZero
    return .float (Double.one / t)

/-- The inverse hyperbolic cosine. -/
def areaCosine (n : Number) : Except Error Number :=
  if (Number.integer 1).le n then onDouble (checked .acosh) n else .ok undefined

/-- The inverse hyperbolic tangent: NaN where the magnitude is above one, infinite at one and minus
one. -/
def areaTangent (v : Value) : Except Error Value := do
  let magnitude ← v.abs
  if ← magnitude.relate .gt (.integer 1) then return undefinedValue
  let x ← v.toReal
  if x.isNan then return undefinedValue
  if magnitude.eqv (.integer 1) then return .float (infinity.copySign x)
  .float <$> checked .atanh x

/-- The inverse hyperbolic cotangent, the inverse hyperbolic tangent of the reciprocal; NaN at
zero. -/
def areaCotangent (v : Value) : Except Error Value :=
  if v.isZero then .ok undefinedValue else do areaTangent (← (Value.integer 1).quotient v)

/-! ## Exponential functions -/

/-- The exponential; everything too large is infinite. -/
def exponential (n : Number) : Number :=
  match n.toDouble with
  | .ok x => .float x.exp
  | .error _ => .float infinity

/-- A logarithm under a name; `rescale` takes the natural logarithm to its base. -/
def logarithm (name : String) (rescale : Double → Double) (v : Value) : Except Error Value :=
  if v.isZero then .error (.logarithmOfZero name)
  else do
    if ← v.relate .lt (.integer 0) then return undefinedValue
    (.float ∘ rescale) <$> checked .log (← v.toReal)

/-- The natural logarithm taken to base ten. -/
def toBaseTen (x : Double) : Double := x / (Double.ofNat 10).log

/-- The square root. -/
def squareRoot (n : Number) : Except Error Number :=
  if (Number.integer 0).le n then onDouble (fun x => .ok x.sqrt) n else .ok undefined

/-- The sign; all but negative numbers have the sign one. -/
def sign (n : Number) : Number := .integer (if n.lt (.integer 0) then -1 else 1)

/-! ## Rounding -/

/-- Applies a rounding to finite numbers and keeps the others; the result is a double. -/
def rounding (onRat : Rat → Int) (n : Number) : Except Error Number := do
  let x ← n.toDouble
  match n.toRat? with
  | some q => (Double.ofInt? (onRat q)).elim (.error .overflow) (.ok ∘ .float)
  | none => return .float x

/-- The double that a rounded decimal is. -/
def ofRounded (d : Option Decimal) : Except Error Value :=
  d.elim (.error .decimalPrecision) fun d => .ok (.float (Double.ofDecimal d))

/-- An integer as a decimal. -/
def decimalOfInt (n : Int) : Decimal := ⟨decide (n < 0), n.natAbs, 0⟩

/-- **Rounding to the nearest integer**, halves going away from zero, by the shortest decimal text
of the number. -/
def roundHalfAway : Value → Except Error Value
  | .number (.integer n) => do
    let _ ← (Number.integer n).toDouble
    ofRounded ((decimalOfInt n).round? .halfAway 0)
  | .number (.float x) =>
    match x.toDecimal? with
    | some d => ofRounded (d.round? .halfAway 0)
    | none => .ok (.float x)
  | .number (.rational q) => do
    let _ ← (Number.rational q).toDouble
    .error .decimalPrecision
  | .boolean _ => .error .decimalPrecision
  | .null | .complex _ | .text _ => .error .typeMismatch

/-! ## Factorials -/

/-- The factorial of a natural number that fits a machine word. -/
def boundedFactorial (n : Nat) : Except Error Nat :=
  if n < 2 ^ 63 then .ok (factorial n) else .error .overflow

/-- **The factorial**: exact for whole numbers, `gamma (x + 1)` for others. -/
def factorialOf (v : Value) : Except Error Value := do
  let x ← v.toDouble
  let n ← v.toNumber
  if x.isInteger then
    if n.lt (.integer 0) then throw (.invalid .negativeFactorial)
    return .integer (← boundedFactorial (← v.toInteger).toNat)
  let y ← (← n.add (.integer 1)).toDouble
  if y.gamma.isNan && !y.isNan then throw (.invalid .outsideDomain)
  return .float y.gamma

/-- The semi-factorial of a natural number. -/
def semiFactorialOfInt (n : Int) : Except Error Nat :=
  if n < 0 then .error (.invalid .semiFactorialDomain) else .ok (semiFactorial n.toNat)

/-- The semi-factorial, for whole numbers and their texts alone. -/
def semiFactorialOf (v : Value) : Except Error Value := do
  let x ← v.toDouble
  if !x.isInteger then throw (.invalid .semiFactorialDomain)
  return .integer (← semiFactorialOfInt (← v.toInteger))

/-- `acc * n * (n - 2) * (n - 4) * …`, as long as the factors are at least two; at most `fuel`
factors are taken. -/
def everySecond (acc n : Number) : Nat → Except Error Number
  | 0 => .ok acc
  | fuel + 1 =>
    if (Number.integer 2).le n then do
      everySecond (← acc.mul n) (← n.sub (.integer 2)) fuel
    else .ok acc

/-- **The semi-factorial of any number** that is not negative, over the factors at least two. -/
def semiProduct (v : Value) : Except Error Value := do
  if ← v.relate .lt (.integer 0) then throw (.invalid .semiFactorialDomain)
  match ← v.toNumber with
  | .integer n => return .integer (semiFactorial n.toNat)
  | n => .number <$> everySecond (.integer 1) n (n.toRat?.elim 0 fun q => q.floor.toNat)

/-! ## The table -/

/-- An entry of the table. -/
def real (name description : String) (category : Category) (implementation : Implementation) :
    FunctionEntry :=
  .unary .real name description category implementation (name ++ "(x)")

/-- An entry for a function of doubles. -/
def ofDouble (name description : String) (category : Category)
    (f : Double → Except Error Double) : FunctionEntry :=
  real name description category (.numeric (onDouble f))

/-- **The functions of real numbers.** -/
def realTable : List FunctionEntry :=
  [ofDouble "sin" "Sine (radians)" .trigonometric (checked .sin),
   ofDouble "cos" "Cosine (radians)" .trigonometric (checked .cos),
   ofDouble "tan" "Tangent (radians)" .trigonometric (checked .tan),
   ofDouble "cot" "Cotangent (radians)" .trigonometric cotangent,
   ofDouble "sind" "Sine (degrees)" .trigonometric (ofDegrees (checked .sin)),
   ofDouble "cosd" "Cosine (degrees)" .trigonometric (ofDegrees (checked .cos)),
   ofDouble "tand" "Tangent (degrees)" .trigonometric (ofDegrees (checked .tan)),
   ofDouble "cotd" "Cotangent (degrees)" .trigonometric (ofDegrees cotangent),
   real "arcsin" "Inverse sine" .trigonometric (.numeric arcsine),
   real "arccos" "Inverse cosine" .trigonometric (.numeric arccosine),
   ofDouble "arctan" "Inverse tangent" .trigonometric (checked .atan),
   ofDouble "arccot" "Inverse cotangent" .trigonometric arccotangent,
   ofDouble "sinh" "Hyperbolic sine" .hyperbolic (growing .sinh),
   ofDouble "cosh" "Hyperbolic cosine" .hyperbolic (growing .cosh),
   ofDouble "tanh" "Hyperbolic tangent" .hyperbolic (checked .tanh),
   real "coth" "Hyperbolic cotangent" .hyperbolic (.general hyperbolicCotangent),
   ofDouble "arsinh" "Inverse hyperbolic sine" .hyperbolic (checked .asinh),
   real "arcosh" "Inverse hyperbolic cosine" .hyperbolic (.numeric areaCosine),
   real "artanh" "Inverse hyperbolic tangent" .hyperbolic (.general areaTangent),
   real "arcoth" "Inverse hyperbolic cotangent" .hyperbolic (.general areaCotangent),
   real "exp" "Exponential function" .exponential (.numeric (.ok ∘ exponential)),
   real "log" "Natural logarithm" .exponential (.general (logarithm "log" id)),
   real "ln" "Natural logarithm" .exponential (.general (logarithm "ln" id)),
   real "lg" "Base-10 logarithm" .exponential (.general (logarithm "lg" toBaseTen)),
   real "sqrt" "Square root" .exponential (.numeric squareRoot),
   real "abs" "Absolute value" .arithmetic (.general Value.abs),
   real "sgn" "Sign: -1 for negative, 1 otherwise" .arithmetic (.numeric (.ok ∘ sign)),
   real "round" "Round to nearest integer, halves up" .rounding (.general roundHalfAway),
   real "ceil" "Round up" .rounding (.numeric (rounding Rat.ceil)),
   real "floor" "Round down" .rounding (.numeric (rounding Rat.floor)),
   real "!" "Factorial; gamma(x+1) for non-integers" .arithmetic (.general factorialOf),
   real "!!" "Semi-factorial" .arithmetic (.general semiFactorialOf)]

end Function

end Formula
