/-
# Elementary functions of complex numbers

The principal branches, with the signs of zeros deciding the side of a branch cut. Where a part is
infinite or NaN, the value is the limit along that direction; a function fails outside its domain,
and overflows when a finite argument has an infinite value.
-/
import Formula.Complex

namespace Formula

namespace Complex

open Double (half two pi)

/-! ## Thresholds and parts -/

/-- A quarter of the largest double. -/
def largePart : Double := .finite false (2044 * 2 ^ 52 + (2 ^ 52 - 1)) (by decide)

/-- The least normal double. -/
def leastNormal : Double := .finite false (2 ^ 52) (by decide)

/-- The natural logarithm of two. -/
def ln2 : Double := Double.ofScientific false 6931471805599453 (-16)

/-- Whether a part is too large for squares and sums. -/
def isLarge (z : Complex) : Bool := largePart.lt z.re.abs || largePart.lt z.im.abs

/-- Whether a part is so large that its exponential may overflow. -/
def isLargeExponent (x : Double) : Bool := (Double.log largePart).lt x

/-- Positive infinity. -/
def infinity : Double := .infinity false

/-- The product with the imaginary unit. -/
def timesI (z : Complex) : Complex := ⟨-z.im, z.re⟩

/-- The quotient by the imaginary unit. -/
def overI (z : Complex) : Complex := ⟨z.im, -z.re⟩

/-- The logarithm of the modulus of a number with a large part, given up to the factor four that
is taken out. -/
def logOfLarge (z : Complex) : Double :=
  Double.log (Double.hypot (z.re / two) (z.im / two)) + ln2 * two

/-- Infinity when a part is infinite, NaN otherwise. -/
def infinityOrNan (z : Complex) : Double := if z.hasInfinity then infinity else .nan

/-- A value, or the failure outside the domain of the function. -/
def within (outside : Bool) (z : Complex) : Except Error Complex :=
  if outside then .error (.invalid .outsideDomain) else .ok z

/-! ## Square root -/

/-- The square root. -/
def sqrt (z : Complex) : Complex :=
  let x := z.re
  let y := z.im
  if y.isInfinite then ⟨infinity, y⟩
  else if x.isInfinite then
    if x.lt .zero then (if y.isNan then ⟨.nan, infinity⟩ else ⟨.zero, infinity.copySign y⟩)
    else (if y.isNan then ⟨infinity, .nan⟩ else ⟨infinity, Double.zero.copySign y⟩)
  else if x.isNan || y.isNan then ⟨.nan, .nan⟩
  else if z.isZero then ⟨.zero, y⟩
  else
    let ax := x.abs
    let ay := y.abs
    let s :=
      if ax.lt leastNormal && ay.lt leastNormal then
        let ax' := ax.scale 53
        (Double.sqrt (ax' + Double.hypot ax' (ay.scale 53))).scale (-27)
      else
        let ax' := ax / Double.ofNat 8
        two * Double.sqrt (ax' + Double.hypot ax' (ay / Double.ofNat 8))
    let d := ay / (two * s)
    if Double.zero.le x then ⟨s, d.copySign y⟩ else ⟨d, s.copySign y⟩

/-! ## Logarithm and exponential -/

/-- The logarithm of a number other than zero. -/
def log (z : Complex) : Complex :=
  let ax := z.re.abs
  let ay := z.im.abs
  let re :=
    if !z.isFinite then infinityOrNan z
    else if z.isLarge then Double.log (Double.hypot (ax / two) (ay / two)) + ln2
    else if ax.lt leastNormal && ay.lt leastNormal then
      Double.log (Double.hypot (ax.scale 53) (ay.scale 53)) - Double.ofNat 53 * ln2
    else
      let h := Double.hypot ax ay
      if (Double.ofScientific false 71 (-2)).le h && h.le (Double.ofScientific false 173 (-2)) then
        let most := if ay.lt ax then ax else ay
        let least := if ay.lt ax then ay else ax
        Double.log1p ((most - .one) * (most + .one) + least * least) / two
      else Double.log h
  ⟨re, z.angle⟩

/-- The exponential. -/
def exp (z : Complex) : Except Error Complex :=
  let x := z.re
  let y := z.im
  if !z.isFinite then
    let value : Complex :=
      if x.isInfinite then
        let size := if x.lt .zero then Double.zero else infinity
        if !y.isFinite then (if x.lt .zero then ⟨.zero, .zero⟩ else ⟨infinity, .nan⟩)
        else if y.isZero then ⟨size, y⟩
        else ⟨size.copySign y.cos, size.copySign y.sin⟩
      else if x.isNan && y.isZero then ⟨.nan, y⟩
      else ⟨.nan, .nan⟩
    within (y.isInfinite && (x.isFinite || x.eqv infinity)) value
  else if isLargeExponent x then
    let l := Double.exp (x - .one)
    checkRange ⟨l * y.cos * Double.e, l * y.sin * Double.e⟩
  else
    let l := Double.exp x
    checkRange ⟨l * y.cos, l * y.sin⟩

/-! ## Hyperbolic functions -/

/-- The hyperbolic cosine. -/
def cosh (z : Complex) : Except Error Complex :=
  let x := z.re
  let y := z.im
  if !z.isFinite then
    let value : Complex :=
      if x.isInfinite then
        if !y.isFinite then ⟨infinity, .nan⟩
        else if y.isZero then ⟨infinity, if x.signBit then -y else y⟩
        else
          let s := infinity.copySign y.sin
          ⟨infinity.copySign y.cos, if x.signBit then -s else s⟩
      else if x.isZero || (x.isNan && y.isZero) then ⟨.nan, .zero⟩
      else ⟨.nan, .nan⟩
    within (y.isInfinite && !x.isNan) value
  else if isLargeExponent x.abs then
    let x' := x - Double.one.copySign x
    checkRange ⟨y.cos * x'.cosh * Double.e, y.sin * x'.sinh * Double.e⟩
  else checkRange ⟨y.cos * x.cosh, y.sin * x.sinh⟩

/-- The hyperbolic sine. -/
def sinh (z : Complex) : Except Error Complex :=
  let x := z.re
  let y := z.im
  if !z.isFinite then
    let value : Complex :=
      if x.isInfinite then
        if !y.isFinite then ⟨infinity, .nan⟩
        else if y.isZero then ⟨x, y⟩
        else
          let c := infinity.copySign y.cos
          ⟨if x.signBit then -c else c, infinity.copySign y.sin⟩
      else if x.isZero then ⟨.zero, .nan⟩
      else if x.isNan && y.isZero then ⟨.nan, y⟩
      else ⟨.nan, .nan⟩
    within (y.isInfinite && !x.isNan) value
  else if isLargeExponent x.abs then
    let x' := x - Double.one.copySign x
    checkRange ⟨y.cos * x'.sinh * Double.e, y.sin * x'.cosh * Double.e⟩
  else checkRange ⟨y.cos * x.sinh, y.sin * x.cosh⟩

/-- The hyperbolic tangent. -/
def tanh (z : Complex) : Except Error Complex :=
  let x := z.re
  let y := z.im
  if !z.isFinite then
    let value : Complex :=
      if x.isInfinite then
        let one := Double.one.copySign x
        if !y.isFinite then ⟨one, .zero⟩
        else if y.isZero then ⟨one, y⟩
        else ⟨one, Double.zero.copySign (two * y.sin * y.cos)⟩
      else if x.isNan && y.isZero then ⟨.nan, y⟩
      else ⟨.nan, .nan⟩
    within (y.isInfinite && x.isFinite) value
  else if isLargeExponent x.abs then
    .ok ⟨Double.one.copySign x,
      Double.ofNat 4 * y.sin * y.cos * Double.exp (-two * x.abs)⟩
  else
    let tx := x.tanh
    let ty := y.tan
    let cx := Double.one / x.cosh
    let txty := tx * ty
    let d := Double.one + txty * txty
    .ok ⟨tx * (Double.one + ty * ty) / d, ty / d * cx * cx⟩

/-! ## Inverse hyperbolic functions -/

/-- The inverse hyperbolic cosine. -/
def acosh (z : Complex) : Complex :=
  if !z.isFinite then ⟨infinityOrNan z, z.angle⟩
  else if z.isLarge then ⟨logOfLarge z, z.angle⟩
  else
    let s := sqrt ⟨z.re - .one, z.im⟩
    let t := sqrt ⟨z.re + .one, z.im⟩
    ⟨Double.asinh (s.re * t.re + s.im * t.im), two * Double.atan2 s.im t.re⟩

/-- The inverse hyperbolic sine. -/
def asinh (z : Complex) : Complex :=
  if !z.isFinite then
    ⟨(infinityOrNan z).copySign z.re,
      if z.re.isNan && z.im.isZero then z.im else Double.atan2 z.im z.re.abs⟩
  else if z.isLarge then
    ⟨(logOfLarge z).copySign z.re, Double.atan2 z.im z.re.abs⟩
  else
    let s := sqrt ⟨Double.one + z.im, -z.re⟩
    let t := sqrt ⟨Double.one - z.im, z.re⟩
    ⟨Double.asinh (s.re * t.im - t.re * s.im),
      Double.atan2 z.im (s.re * t.re - s.im * t.im)⟩

/-- The inverse hyperbolic tangent of a number whose real part has no minus sign. -/
def atanhRight (z : Complex) : Except Error Complex :=
  let x := z.re
  let y := z.im
  let ay := y.abs
  let quarter := (pi / two).copySign y
  let rootLarge := Double.sqrt largePart
  if !z.isFinite then
    if z.hasInfinity then .ok ⟨.zero, if y.isNan then .nan else quarter⟩
    else if x.isZero then .ok ⟨x, .nan⟩
    else .ok ⟨.nan, .nan⟩
  else if rootLarge.lt x || rootLarge.lt ay then
    let h := Double.hypot (x / two) (y / two)
    .ok ⟨x / Double.ofNat 4 / h / h, quarter⟩
  else if x.eqv .one && ay.lt (Double.sqrt leastNormal) then
    if ay.isZero then .error (.invalid .outsideDomain)
    else
      .ok ⟨-Double.log (Double.sqrt ay / Double.sqrt (Double.hypot ay two)),
        (Double.atan2 two (-ay) / two).copySign y⟩
  else
    let u := Double.one - x
    .ok ⟨Double.log1p (Double.ofNat 4 * x / (u * u + ay * ay)) / Double.ofNat 4,
      -(Double.atan2 (-two * y) (u * (Double.one + x) - ay * ay)) / two⟩

/-- The inverse hyperbolic tangent. -/
def atanh (z : Complex) : Except Error Complex :=
  if z.re.signBit then (atanhRight z.neg).map neg else atanhRight z

/-! ## Circular functions -/

/-- The cosine. -/
def cos (z : Complex) : Except Error Complex := cosh z.timesI

/-- The sine. -/
def sin (z : Complex) : Except Error Complex := (sinh z.timesI).map overI

/-- The tangent. -/
def tan (z : Complex) : Except Error Complex := (tanh z.timesI).map overI

/-- The inverse sine. -/
def asin (z : Complex) : Complex := (asinh z.timesI).overI

/-- The inverse tangent. -/
def atan (z : Complex) : Except Error Complex := (atanh z.timesI).map overI

/-- The inverse cosine. -/
def acos (z : Complex) : Complex :=
  if !z.isFinite then
    let w := acosh z
    ⟨if z.re.isZero && z.im.isNan then pi / two else w.im.abs,
      if z.im.isNan || z.im.signBit then w.re else -w.re⟩
  else if z.isLarge then
    ⟨Double.atan2 z.im.abs z.re, (logOfLarge z).copySign (-z.im)⟩
  else
    let s := sqrt ⟨Double.one - z.re, -z.im⟩
    let t := sqrt ⟨Double.one + z.re, z.im⟩
    ⟨two * Double.atan2 s.re t.re, Double.asinh (t.re * s.im - t.im * s.re)⟩

end Complex

end Formula
