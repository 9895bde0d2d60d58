/-
# Functions of complex numbers

The principal branches of the elementary functions, and the parts of a complex number.
-/
import Formula.Complex.Elementary
import Formula.Function.Real
import Formula.Value.Complex

namespace Formula

namespace Function

/-- The reciprocal of a function under a name. -/
def reciprocal (name : String) (f : Complex → Except Error Complex) (z : Complex) :
    Except Error Complex := do
  let value ← f z
  if value.isZero then throw (.divisionByZero name)
  return Complex.one.div value

/-- The inverse cotangent. -/
def complexArccotangent (z : Complex) : Except Error Complex := do
  return Complex.ofReal (Double.pi / Double.two) - (← z.atan)

/-- The inverse hyperbolic cotangent, the inverse hyperbolic tangent of the reciprocal. -/
def complexAreaCotangent (v : Value) : Except Error Value :=
  if v.isZero then .error (.divisionByZero "arcoth")
  else do .complex <$> (← (← (Value.integer 1).quotient v).toComplex).atanh

/-- A principal logarithm under a name; `rescale` takes the natural logarithm to its base. -/
def complexLogarithm (name : String) (rescale : Complex → Complex) (v : Value) :
    Except Error Value :=
  if v.isZero then .error (.logarithmOfZero name)
  else do
    let z ← v.toComplex
    if z.isZero then throw (.invalid .outsideDomain)
    return .complex (rescale z.log)

/-- The natural logarithm taken to base ten. -/
def complexToBaseTen (z : Complex) : Complex := z.div (Complex.ofReal (Double.ofNat 10).log)

/-- The natural logarithm of a positive integer of any size: past the doubles, the logarithm of a
fraction between one half and one is added to that of a power of two. -/
def logarithmOfInt (n : Int) : Double :=
  match Double.ofInt? n with
  | some x => x.log
  | none =>
    let bits := Nat.log2 n.toNat + 1
    (Double.ofRat (mkRat n (2 ^ bits))).log + Double.two.log * Double.ofNat bits

/-- The natural logarithm of a number that is positive. -/
def logarithmOfPositive : Number → Except Error Double
  | .integer n => .ok (logarithmOfInt n)
  | n => do checked .log (← n.toDouble)

/-- The natural logarithm, for positive reals alone. -/
def positiveLogarithm (v : Value) : Except Error Value :=
  if v.isZero then .error (.logarithmOfZero "ln")
  else do
    let (n, isReal) ← match v with
      | .complex z => pure (Number.float z.re, z.im.isZero)
      | v => (v.number?).elim (.error .missingPart) fun n => .ok (n, true)
    if !isReal || n.lt (.integer 0) then throw (.invalid .logarithmDomain)
    (.complex ∘ Complex.ofReal) <$> logarithmOfPositive n

/-- The modulus. -/
def modulus (v : Value) : Except Error Value := do return .complex (← (← v.abs).toComplex)

/-- The angle; one too small for a double is out of range. -/
def argument (z : Complex) : Except Error Complex :=
  if z.angle.isZero && !z.im.isZero && z.re.isFinite then .error .overflow
  else .ok (Complex.ofReal z.angle)

/-- An entry of the table for a function of any value. -/
def analyticValue (name description : String) (category : Category)
    (f : Value → Except Error Value) : FunctionEntry :=
  .unary .complex name description category (.general f) (name ++ "(x)")

/-- An entry of the table. -/
def analytic (name description : String) (category : Category)
    (f : Complex → Except Error Complex) : FunctionEntry :=
  .unary .complex name description category (.analytic f) (name ++ "(x)")

/-- **The functions of complex numbers.** -/
def analyticTable : List FunctionEntry :=
  [analytic "sin" "Complex sine" .trigonometric Complex.sin,
   analytic "cos" "Complex cosine" .trigonometric Complex.cos,
   analytic "tan" "Complex tangent" .trigonometric Complex.tan,
   analytic "cot" "Complex cotangent" .trigonometric (reciprocal "tan" Complex.tan),
   analytic "arcsin" "Complex inverse sine" .trigonometric (.ok ∘ Complex.asin),
   analytic "arccos" "Complex inverse cosine" .trigonometric (.ok ∘ Complex.acos),
   analytic "arctan" "Complex inverse tangent" .trigonometric Complex.atan,
   analytic "arccot" "Complex inverse cotangent" .trigonometric complexArccotangent,
   analytic "sinh" "Complex hyperbolic sine" .hyperbolic Complex.sinh,
   analytic "cosh" "Complex hyperbolic cosine" .hyperbolic Complex.cosh,
   analytic "tanh" "Complex hyperbolic tangent" .hyperbolic Complex.tanh,
   analytic "coth" "Complex hyperbolic cotangent" .hyperbolic (reciprocal "tanh" Complex.tanh),
   analytic "arsinh" "Complex inverse hyperbolic sine" .hyperbolic (.ok ∘ Complex.asinh),
   analytic "arcosh" "Complex inverse hyperbolic cosine" .hyperbolic (.ok ∘ Complex.acosh),
   analytic "artanh" "Complex inverse hyperbolic tangent" .hyperbolic Complex.atanh,
   analyticValue "arcoth" "Complex inverse hyperbolic cotangent" .hyperbolic
     complexAreaCotangent,
   analytic "exp" "Complex exponential" .exponential Complex.exp,
   analyticValue "log" "Principal complex logarithm" .exponential (complexLogarithm "log" id),
   analyticValue "ln" "Natural logarithm of a positive real" .exponential positiveLogarithm,
   analyticValue "lg" "Principal base-10 logarithm" .exponential
     (complexLogarithm "lg" complexToBaseTen),
   analytic "sqrt" "Principal square root" .exponential (.ok ∘ Complex.sqrt),
   analyticValue "abs" "Modulus" .complex modulus,
   analytic "arg" "Argument (phase)" .complex argument,
   analyticValue "re" "Real part" .complex fun v => .complex <$> v.realPart,
   analyticValue "im" "Imaginary part" .complex fun v => .complex <$> v.imaginaryPart,
   analyticValue "conj" "Complex conjugate" .complex Value.conjugate]

end Function

end Formula
