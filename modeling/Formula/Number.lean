/-
# The numeric tower

A number is an integer, a rational or a double. Two numbers combine in the least general of the
three that covers both, and compare by their exact values.
-/
import Formula.Double.Arithmetic
import Formula.Error

namespace Formula

/-- A number of the tower of integers, rationals and doubles. -/
inductive Number where
  | integer (n : Int)
  | rational (q : Rat)
  | float (x : Double)
  deriving DecidableEq

namespace Number

/-- **The place in the tower**: integers, then rationals, then doubles. -/
def rank : Number → Nat
  | integer _ => 0
  | rational _ => 1
  | float _ => 2

/-! ## Conversions -/

/-- The double nearest to a number; a number past the largest double overflows. -/
def toDouble : Number → Except Error Double
  | integer n => (Double.ofInt? n).elim (.error .overflow) .ok
  | rational q => (Double.ofRat? q).elim (.error .overflow) .ok
  | float x => .ok x

/-- The double nearest to a number, infinite past the largest one. -/
def projection : Number → Double
  | integer n => Double.ofInt n
  | rational q => Double.ofRat q
  | float x => x

/-- The exact value of a number that is no infinity and no NaN. -/
def toRat? : Number → Option Rat
  | integer n => some n
  | rational q => some q
  | float x => x.toRat?

/-- The greatest integer not above a number. -/
def floor : Number → Except Error Int
  | integer n => .ok n
  | rational q => .ok q.floor
  | float x => x.floor?.elim (.error .overflow) .ok

/-- A number that may be kept in a tree: a rational has to lie within the range of doubles. -/
def checked : Number → Except Error Number
  | rational q => if (Double.ofRat q).isFinite then .ok (rational q) else .error .overflow
  | n => .ok n

/-! ## Comparison -/

/-- The order of two rationals. -/
def compareRat (a b : Rat) : Ordering := if a < b then .lt else if a = b then .eq else .gt

/-- The order of a double and a rational, by exact value; none for NaN. -/
def compareExact? (x : Double) (q : Rat) : Option Ordering :=
  match x with
  | .nan => none
  | .infinity s => some (if s then .lt else .gt)
  | x => x.toRat?.map (compareRat · q)

/-- **The order of two numbers** by exact value; none when one is NaN. -/
def compare? : Number → Number → Option Ordering
  | float x, float y =>
    match x.place?, y.place? with
    | some a, some b => some (compare a b)
    | _, _ => none
  | float x, integer n => compareExact? x n
  | float x, rational q => compareExact? x q
  | integer n, float y => (compareExact? y n).map Ordering.swap
  | rational q, float y => (compareExact? y q).map Ordering.swap
  | integer m, integer n => some (compare m n)
  | integer m, rational q => some (compareRat m q)
  | rational q, integer n => some (compareRat q n)
  | rational p, rational q => some (compareRat p q)

/-- Equality by exact value; NaN equals nothing. -/
def eqv (a b : Number) : Bool := a.compare? b == some .eq

/-- Strict order by exact value; NaN is below nothing. -/
def lt (a b : Number) : Bool := a.compare? b == some .lt

/-- Order by exact value; NaN is below nothing. -/
def le (a b : Number) : Bool := a.lt b || a.eqv b

/-- Whether a number is zero. -/
def isZero (a : Number) : Bool := a.eqv (integer 0)

/-- Whether a number is one. -/
def isOne (a : Number) : Bool := a.eqv (integer 1)

/-- Whether a number is shown with a minus sign in need of brackets: the double nearest to it is
negative. -/
def isNegative : Number → Bool
  | integer n => decide (n < 0)
  | rational q => (Double.ofRat q).lt .zero
  | float x => x.lt .zero

/-- Whether the double nearest to a number is zero. -/
def projectsToZero : Number → Bool
  | integer n => n == 0
  | rational q => (Double.ofRat q).isZero
  | float x => x.isZero

/-- Equality within one place of the tower. -/
def same : Number → Number → Bool
  | integer m, integer n => m == n
  | rational p, rational q => p == q
  | float x, float y => x.eqv y
  | _, _ => false

/-! ## Arithmetic -/

/-- Combines two numbers in the least general place of the tower that covers both. -/
def combine (onInt : Int → Int → Int) (onRat : Rat → Rat → Rat)
    (onDouble : Double → Double → Double) : Number → Number → Except Error Number
  | integer m, integer n => .ok (integer (onInt m n))
  | integer m, rational q => .ok (rational (onRat m q))
  | rational p, integer n => .ok (rational (onRat p n))
  | rational p, rational q => .ok (rational (onRat p q))
  | a, b => do
    let x ← a.toDouble
    let y ← b.toDouble
    return float (onDouble x y)

/-- The sum. -/
def add : Number → Number → Except Error Number := combine (· + ·) (· + ·) Double.add

/-- The difference. -/
def sub : Number → Number → Except Error Number := combine (· - ·) (· - ·) Double.sub

/-- The product. -/
def mul : Number → Number → Except Error Number := combine (· * ·) (· * ·) Double.mul

/-- The quotient by a divisor that is not zero; two integers give the nearest double. -/
def div : Number → Number → Except Error Number
  | integer m, integer n => (Double.ofQuotient? m n).elim (.error .overflow) (.ok ∘ float)
  | integer m, rational q => .ok (rational (m / q))
  | rational p, integer n => .ok (rational (p / n))
  | rational p, rational q => .ok (rational (p / q))
  | a, b => do
    let x ← a.toDouble
    let y ← b.toDouble
    return float (x / y)

/-- The negation. -/
def neg : Number → Number
  | integer n => integer (-n)
  | rational q => rational (-q)
  | float x => float x.neg

/-- The magnitude. -/
def abs : Number → Number
  | integer n => integer n.natAbs
  | rational q => rational q.abs
  | float x => float x.abs

end Number

end Formula
