/-
# Correctly rounded arithmetic on doubles

Each operation computes the exact result in units of `2 ^ -1074` and rounds it once, to the nearest
double with a half going to the even rank. Only the rules for zeros, infinities and NaN are stated
case by case.
-/
import Formula.Double.Basic

namespace Formula

/-! ## Integer roots -/

/-- Newton's step towards the `k`-th root of `n`. -/
def rootStep (k n guess : Nat) : Nat :=
  ((k - 1) * guess + n / guess ^ (k - 1)) / k

/-- Newton's iteration from above: it stops at the first guess that the step does not lower. -/
def descendRoot (k n guess : Nat) : Nat :=
  if rootStep k n guess < guess then descendRoot k n (rootStep k n guess) else guess
  termination_by guess

/-- The whole part of the `k`-th root of `n`, for `1 ≤ k`; the iteration starts from a power of two
above the root, unless `2 ^ k` is above `n` already. -/
def floorRoot (k n : Nat) : Nat :=
  if n < 2 ∨ k ≤ 1 then n
  else if Nat.log2 n < k then 1
  else descendRoot k n (2 ^ ((Nat.log2 n + k) / k))

namespace Double

/-! ## Sums -/

/-- The double nearest to a signed whole number of units; an exact zero takes the sign
`zeroSign`. -/
def ofSignedUnits (zeroSign : Bool) (u : Int) : Double :=
  ofUnits (if u = 0 then zeroSign else decide (u < 0)) u.natAbs 1

/-- Addition. -/
def add : Double → Double → Double
  | nan, _ => nan
  | _, nan => nan
  | infinity s, infinity t => if s = t then infinity s else nan
  | infinity s, finite .. => infinity s
  | finite .., infinity t => infinity t
  | finite s r _, finite t q _ =>
    ofSignedUnits (s && t)
      ((if s then -(unitsOfRank r : Int) else unitsOfRank r)
        + (if t then -(unitsOfRank q : Int) else unitsOfRank q))

/-- Subtraction. -/
def sub (x y : Double) : Double := x.add y.neg

/-! ## Products and quotients -/

/-- Multiplication. -/
def mul : Double → Double → Double
  | nan, _ => nan
  | _, nan => nan
  | infinity s, infinity t => infinity (s != t)
  | infinity s, finite t q _ => if q = 0 then nan else infinity (s != t)
  | finite s r _, infinity t => if r = 0 then nan else infinity (s != t)
  | finite s r _, finite t q _ => ofUnits (s != t) (unitsOfRank r * unitsOfRank q) (2 ^ 1074)

/-- Division; a finite nonzero number over zero is infinite. -/
def div : Double → Double → Double
  | nan, _ => nan
  | _, nan => nan
  | infinity _, infinity _ => nan
  | infinity s, finite t _ _ => infinity (s != t)
  | finite s _ _, infinity t => finite (s != t) 0 rankLimit_pos
  | finite s r _, finite t q _ =>
    if q = 0 then (if r = 0 then nan else infinity (s != t))
    else ofUnits (s != t) (unitsOfRank r * 2 ^ 1074) (unitsOfRank q)

/-- The double nearest to the quotient of two integers, with the sign of the quotient also on zero;
none past the largest double. -/
def ofQuotient? (p q : Int) : Option Double :=
  let x := ofUnits (decide (p < 0) != decide (q < 0)) (p.natAbs * 2 ^ 1074) q.natAbs
  if x.isFinite then some x else none

instance : Add Double := ⟨add⟩
instance : Sub Double := ⟨sub⟩
instance : Mul Double := ⟨mul⟩
instance : Div Double := ⟨div⟩
instance : Neg Double := ⟨neg⟩

/-! ## Square roots -/

/-- The double nearest to the square root of `n` square units. The whole part of the root is taken
at `2 ^ -64` units, and one more half place records whether a remainder was left. -/
def ofRoot (n : Nat) : Double :=
  let scaled := n * 4 ^ 64
  let root := floorRoot 2 scaled
  let sticky := if root * root = scaled then 0 else 1
  ofUnits false (2 * root + sticky) (2 * 2 ^ 64)

/-- The square root; NaN for negative numbers. -/
def sqrt : Double → Double
  | nan => nan
  | infinity s => if s then nan else infinity false
  | finite s r h =>
    if r = 0 then finite s r h
    else if s then nan
    else ofRoot (unitsOfRank r * 2 ^ 1074)

/-- The length of the vector `(x, y)`; infinite as soon as one side is. -/
def hypot : Double → Double → Double
  | infinity _, _ => infinity false
  | _, infinity _ => infinity false
  | nan, _ => nan
  | _, nan => nan
  | finite _ r _, finite _ q _ =>
    if r = 0 then finite false q ‹_›
    else ofRoot (unitsOfRank r * unitsOfRank r + unitsOfRank q * unitsOfRank q)

/-! ## Whole numbers -/

/-- The greatest integer not above a finite double. -/
def floor? (x : Double) : Option Int :=
  x.units?.map fun u => Int.fdiv u (2 ^ 1074)

/-- The least integer not below a finite double. -/
def ceil? (x : Double) : Option Int :=
  x.units?.map fun u => -Int.fdiv (-u) (2 ^ 1074)

/-- Whether a double is a whole number. -/
def isInteger (x : Double) : Bool :=
  match x.units? with
  | some u => u % 2 ^ 1074 == 0
  | none => false

/-- Whether a double is an odd whole number. -/
def isOddInteger (x : Double) : Bool :=
  match x.units? with
  | some u => u % 2 ^ 1074 == 0 && u / 2 ^ 1074 % 2 == 1
  | none => false

end Double

end Formula
