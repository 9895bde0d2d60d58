/-
# Elementary functions on doubles

The transcendental functions are those of the platform; they give NaN outside their real domain.
Powers take only their digits from the platform: the sign and the side of one follow from the
operands. The gamma function is the Lanczos approximation with `g = 6.024680040776729583740234375`.
-/
import Formula.Double.Arithmetic
import Formula.Double.Shortest

namespace Formula

namespace Double

/-! ## Constants -/

/-- The double nearest to a small natural number. -/
def ofNat (n : Nat) : Double := ofInt n

/-- The circle constant. -/
def pi : Double := ofScientific false 3141592653589793 (-15)

/-- The base of the natural logarithm. -/
def e : Double := ofScientific false 2718281828459045 (-15)

/-- One half. -/
def half : Double := ofScientific false 5 (-1)

/-- Two. -/
def two : Double := ofNat 2

/-! ## Functions of the platform -/

/-- A function of the platform's floating values, on doubles. -/
def lift (f : Float → Float) (x : Double) : Double := ofFloat (f x.toFloat)

/-- The sine. -/
def sin : Double → Double := lift Float.sin
/-- The cosine. -/
def cos : Double → Double := lift Float.cos
/-- The tangent. -/
def tan : Double → Double := lift Float.tan
/-- The inverse sine. -/
def asin : Double → Double := lift Float.asin
/-- The inverse cosine. -/
def acos : Double → Double := lift Float.acos
/-- The inverse tangent. -/
def atan : Double → Double := lift Float.atan
/-- The hyperbolic sine. -/
def sinh : Double → Double := lift Float.sinh
/-- The hyperbolic cosine. -/
def cosh : Double → Double := lift Float.cosh
/-- The hyperbolic tangent. -/
def tanh : Double → Double := lift Float.tanh
/-- The inverse hyperbolic sine. -/
def asinh : Double → Double := lift Float.asinh
/-- The inverse hyperbolic cosine. -/
def acosh : Double → Double := lift Float.acosh
/-- The inverse hyperbolic tangent. -/
def atanh : Double → Double := lift Float.atanh
/-- The exponential. -/
def exp : Double → Double := lift Float.exp
/-- The natural logarithm. -/
def log : Double → Double := lift Float.log

/-- The angle of the point `(x, y)`. -/
def atan2 (y x : Double) : Double := ofFloat (Float.atan2 y.toFloat x.toFloat)

/-- The logarithm of `1 + x`, accurate for small `x`. -/
def log1p (x : Double) : Double :=
  let u := one + x
  if u.eqv one || !u.isFinite then (if u.eqv one then x else log u)
  else log u * x / (u - one)

/-- The radians of an angle in degrees. -/
def radians (x : Double) : Double := x * (pi / ofNat 180)

/-- `x * 2 ^ k`, rounded once. -/
def scale (x : Double) (k : Int) : Double :=
  match x with
  | finite s r _ =>
    if 0 ≤ k then ofUnits s (unitsOfRank r * 2 ^ k.toNat) 1
    else ofUnits s (unitsOfRank r) (2 ^ (-k).toNat)
  | x => x

/-! ## Powers -/

/-- The platform's power of a magnitude, held to the side of one on which the exact power lies. -/
def powerMagnitude (x y : Double) : Double :=
  let r := (ofFloat (Float.pow x.abs.toFloat y.toFloat)).abs
  if one.le x.abs = zero.le y then (if one.le r then r else one)
  else (if r.le one then r else one)

/-- The power `x ^ y` on all doubles; NaN for a negative base with a fractional exponent. -/
def power : Double → Double → Double
  | finite s r h, finite t q h' =>
    let x := finite s r h
    let y := finite t q h'
    if q = 0 then one
    else if r = 0 then
      let sign := s && y.isOddInteger
      if t then infinity sign else finite sign 0 rankLimit_pos
    else if s && !y.isInteger then nan
    else if s && y.isOddInteger then (powerMagnitude x y).neg
    else powerMagnitude x y
  | x, y => ofFloat (Float.pow x.toFloat y.toFloat)

/-- Why a power of two doubles has no real value. -/
inductive PowerFault where
  /-- A finite power beyond the largest double. -/
  | overflow
  /-- Zero to a negative power. -/
  | zeroToNegative
  /-- A negative base with a fractional exponent. -/
  | notReal
  deriving DecidableEq, Repr

/-- **The checked power**: the value, or the reason why there is none. A negative base with a
fractional exponent overflows when its modulus does. -/
def power? (x y : Double) : Except PowerFault Double :=
  if x.isFinite && y.isFinite then
    if x.isZero && y.lt zero then .error .zeroToNegative
    else if x.lt zero && !y.isInteger then
      if (power x.abs y).isFinite then .error .notReal else .error .overflow
    else if (power x y).isFinite then .ok (power x y)
    else .error .overflow
  else .ok (power x y)

/-! ## The gamma function -/

/-- Numerator coefficients of the Lanczos sum, from the constant term up. -/
def lanczosNumerator : List Double :=
  [ofScientific false 23531376880410759688572007674451636754734846804940 (-39),
   ofScientific false 42919803642649098768957899047001988850926355848959 (-39),
   ofScientific false 35711959237355668049440185451547166705960488635843 (-39),
   ofScientific false 17921034426037209699919755754458931112671403265390 (-39),
   ofScientific false 6039542586352028005064291644307297921069938842070 (-39),
   ofScientific false 14397204073117216736632230727949123939715485786372 (-40),
   ofScientific false 24887455786205415651146038641322942321632125127801 (-41),
   ofScientific false 31426415585400194380614231628318205362874684987640 (-42),
   ofScientific false 28763706289353724412254090516208496135991145378768 (-43),
   ofScientific false 18605626539522349504029498971604569928220784236328 (-44),
   ofScientific false 80716720023658162106380029022722506138218516325024 (-46),
   ofScientific false 21082427775157934587250973392071336271166969580291 (-47),
   ofScientific false 25066282746310002701649081771338373386264310793408 (-49)]

/-- Denominator coefficients of the Lanczos sum, from the constant term up. -/
def lanczosDenominator : List Double :=
  [0, 39916800, 120543840, 150917976, 105258076, 45995730, 13339535, 2637558, 357423, 32670,
   1925, 66, 1].map ofNat

/-- The Lanczos sum: a quotient of two polynomials of degree twelve, evaluated from the end that
keeps the terms small. -/
def lanczosSum (x : Double) : Double :=
  if x.lt (ofNat 5) then
    lanczosNumerator.foldr (fun c acc => acc * x + c) zero
      / lanczosDenominator.foldr (fun c acc => acc * x + c) zero
  else
    lanczosNumerator.foldl (fun acc c => acc / x + c) zero
      / lanczosDenominator.foldl (fun acc c => acc / x + c) zero

/-- The parameter `g` of the Lanczos sum. -/
def lanczosG : Double := ofScientific false 6024680040776729583740234375 (-27)

/-- The parameter `g` less one half. -/
def lanczosGHalf : Double := ofScientific false 5524680040776729583740234375 (-27)

/-- `x` less the greatest multiple of two that its magnitude holds. -/
def modTwo (x : Double) : Double :=
  match x.abs.units? with
  | some u => ofSignedUnits false (u % 2 ^ 1075)
  | none => nan

/-- The sine of `pi * x`, accurate near the whole numbers. -/
def sinPi (x : Double) : Double :=
  let y := modTwo x
  let r :=
    if y.lt (ofScientific false 25 (-2)) then sin (pi * y)
    else if y.le (ofScientific false 75 (-2)) then cos (pi * (y - half))
    else if y.lt (ofScientific false 125 (-2)) then sin (pi * (one - y))
    else if y.le (ofScientific false 175 (-2)) then
      (cos (pi * (y - ofScientific false 15 (-1)))).neg
    else sin (pi * (y - two))
  if x.signBit then r.neg else r

/-- The factorials `0!` to `22!`, the values of gamma at `1` to `23`. -/
def smallFactorials : List Nat :=
  (List.range 23).map fun n => (List.range n).foldl (fun acc k => acc * (k + 1)) 1

/-- `r * b ^ p` for a positive exponent, in two halves once the power alone would overflow. -/
def timesPower (large : Bool) (r b p : Double) : Double :=
  if large then
    let half := power b (p / two)
    r * half * half
  else r * power b p

/-- `r / b ^ p` for a positive exponent, in two halves once the power alone would overflow. -/
def overPower (large : Bool) (r b p : Double) : Double :=
  if large then
    let half := power b (p / two)
    r / half / half
  else r / power b p

/-- **The gamma function**; NaN at its poles and at negative infinity. -/
def gamma (x : Double) : Double :=
  let a := x.abs
  if !x.isFinite then (if x.lt zero then nan else x)
  else if x.isZero then nan
  else if x.isInteger && x.lt zero then nan
  else if x.isInteger && x.le (ofNat 23) then
    match x.floor? with
    | some n => ofNat (smallFactorials.getD (n.toNat - 1) 0)
    | none => nan
  else if a.lt (ofScientific false 1 (-20)) then one / x
  else if (ofNat 200).lt a then
    if x.lt zero then zero / sinPi x else infinity false
  else
    let y := a + lanczosGHalf
    let z :=
      (if lanczosGHalf.lt a then (y - a) - lanczosGHalf else (y - lanczosGHalf) - a)
        * lanczosG / y
    let large := (ofNat 140).le a
    if x.lt zero then
      let r := pi.neg / sinPi a / a * exp y / lanczosSum a
      overPower large (r - z * r) y (a - half)
    else
      let r := lanczosSum a / exp y
      timesPower large (r + z * r) y (a - half)

end Double

end Formula
