/-
# Simplifying constructors

Each constructor takes finished operands and returns one reduced expression, or the plain operation
when nothing folds. Numbers combine along the tower, and only the errors of an operator itself
arise: a division by zero, the form `0^0` and a number that leaves the range.
-/
import Formula.Comparison
import Formula.Double.Elementary
import Formula.Expr

namespace Formula

namespace Expr

/-! ## Recognising numbers -/

/-- Whether an expression is a number equal to zero. -/
def isZero : Expr → Bool
  | number n => n.isZero
  | _ => false

/-- Whether an expression is a number equal to one. -/
def isOne : Expr → Bool
  | number n => n.isOne
  | _ => false

/-- The order of two literals of one class: two integers, two rationals, two doubles, two truth
values or two texts. -/
def literalOrder? : Expr → Expr → Option (Option Ordering)
  | number a, number b => if a.rank = b.rank then some (a.compare? b) else none
  | boolean a, boolean b => some (some (compareBool a b))
  | literal a, literal b => some (some (compareText a b))
  | _, _ => none

end Expr

namespace Simplify

open Formula.Expr

/-! ## Sums -/

/-- A number as an expression, when it may be kept in a tree. -/
def keep (r : Except Error Number) : Except Error Expr :=
  match r with
  | .ok n =>
    match n.checked with
    | .ok m => .ok (number m)
    | .error e => .error e
  | .error e => .error e

/-- **The sum**: numbers add, and zero leaves the other operand. -/
def sum (l r : Expr) : Except Error Expr :=
  match l, r with
  | number a, number b => keep (a.add b)
  | l, r =>
    if l.isZero then .ok r
    else if r.isZero then .ok l
    else .ok (operation .add l r)

/-- **The negation**: numbers negate in place and two one-sided minus signs cancel. -/
def opposite : Expr → Expr
  | operation .sub e hole => e
  | number n => number n.neg
  | e => negated e

/-- **The difference**: numbers subtract, and equal operands cancel. -/
def difference (l r : Expr) : Except Error Expr :=
  match l, r with
  | number a, number b => keep (a.sub b)
  | l, r =>
    if r.isZero then .ok l
    else if l.isZero then .ok (opposite r)
    else if l.same r then .ok (integer 0)
    else .ok (operation .sub l r)

/-! ## Products and quotients -/

/-- **The product**: numbers multiply, zero absorbs and one leaves the other operand. -/
def product (l r : Expr) : Except Error Expr :=
  match l, r with
  | number a, number b => keep (a.mul b)
  | l, r =>
    if l.isZero || r.isZero then .ok (integer 0)
    else if l.isOne then .ok r
    else if r.isOne then .ok l
    else .ok (operation .mul l r)

/-- The quotient of two numbers, the second of which is not zero: a rational unless a double takes
part. -/
def numberQuotient (a b : Number) : Except Error Expr :=
  match a, b with
  | .integer m, .integer n => keep (.ok (.rational ((m : Rat) / n)))
  | .integer m, .rational q => keep (.ok (.rational ((m : Rat) / q)))
  | .rational p, .integer n => keep (.ok (.rational (p / n)))
  | .rational p, .rational q => keep (.ok (.rational (p / q)))
  | a, b => do
    let x ← a.toDouble
    let y ← b.toDouble
    if y.isZero then .error .uncheckedZero else return float (x.div y)

/-- **The quotient**: a zero divisor is refused before anything else, numbers divide, and equal
operands give one. -/
def quotient (l r : Expr) : Except Error Expr :=
  if r.isZero then .error (.divisionByZero "/")
  else
    match l, r with
    | number a, number b => numberQuotient a b
    | l, r =>
      if l.isZero then .ok (integer 0)
      else if r.isOne then .ok l
      else if l.same r then .ok (integer 1)
      else .ok (operation .div l r)

/-! ## Powers -/

/-- Exact powers are folded only while they have at most this many bits. -/
def maxPowerBits : Nat := 1024

/-- The number of binary digits. -/
def bitLength (n : Nat) : Nat := if n = 0 then 0 else Nat.log2 n + 1

/-- The power of a rational to an integer, kept as an operation when the exponent is negative or the
result is long. `wrap` puts the result into the place of the base. -/
def exactPower (b : Number) (q : Rat) (n : Int) (wrap : Rat → Number) : Except Error Expr :=
  let plain := operation .pow (number b) (integer n)
  if n < 0 then
    if q = 0 then .error (.divisionByZero "^") else .ok plain
  else if bitLength (max q.num.natAbs q.den) * n.natAbs ≤ maxPowerBits then
    keep (.ok (wrap (q ^ n.natAbs)))
  else .ok plain

/-- The power of two numbers, one of which is a double, kept as an operation when it has no finite
real value. -/
def floatPower (b n : Number) : Expr :=
  let plain := operation .pow (number b) (number n)
  match b.toDouble, n.toDouble with
  | .ok x, .ok y =>
    match Double.power? x y with
    | .ok z => if z.isFinite then float z else plain
    | .error _ => plain
  | _, _ => plain

/-- The power of two numbers, where the exponent is neither zero nor one. -/
def numberPower (b n : Number) : Except Error Expr :=
  match b, n with
  | .integer m, .integer k => exactPower b m k fun q => .integer q.num
  | .rational q, .integer k => exactPower b q k .rational
  | .integer _, .rational _ => .ok (operation .pow (number b) (number n))
  | .rational _, .rational _ => .ok (operation .pow (number b) (number n))
  | b, n => .ok (floatPower b n)

/-- **The power**: exponents zero and one reduce, numbers fold where the result is exact or a finite
real, and a power of a power multiplies integer exponents. -/
def power (l r : Expr) : Except Error Expr :=
  match r with
  | number n =>
    if n.isZero then (if l.isZero then .error .undefinedPower else .ok (integer 1))
    else if n.isOne then .ok l
    else
      match l, n with
      | number b, n => numberPower b n
      | operation .pow e (number (.integer a)), .integer m => power e (integer (a * m))
      | l, n => .ok (operation .pow l (number n))
  | r => .ok (operation .pow l r)

/-! ## Truth values -/

/-- **The relation**: two literals of one class compare at once. -/
def relation (op : Operator) (l r : Expr) : Expr :=
  match l.literalOrder? r with
  | some order => boolean (op.holds order)
  | none => operation op l r

/-- **The conjunction** of two truth values, or the plain operation. -/
def conjunction (l r : Expr) : Expr :=
  match l, r with
  | boolean a, boolean b => boolean (a && b)
  | l, r => operation .and l r

/-- **The disjunction** of two truth values, or the plain operation. -/
def disjunction (l r : Expr) : Expr :=
  match l, r with
  | boolean a, boolean b => boolean (a || b)
  | l, r => operation .or l r

/-- **The logical negation** of a truth value, or the plain operation. -/
def denial : Expr → Expr
  | boolean b => boolean (!b)
  | e => denied e

/-! ## Dispatch -/

/-- **The simplified operation** of an operator; a missing right operand makes a minus
one-sided. -/
def build (op : Operator) (l r : Expr) : Except Error Expr :=
  match op with
  | .add => sum l r
  | .sub => if r.isHole then .ok (opposite l) else difference l r
  | .mul => product l r
  | .div => quotient l r
  | .pow => power l r
  | .and => .ok (conjunction l r)
  | .or => .ok (disjunction l r)
  | .not => .ok (denial l)
  | op => .ok (relation op l r)

/-- The simplified operation of a symbol. -/
def buildSymbol (symbol : String) (l r : Expr) : Except Error Expr :=
  match Operator.ofSymbol? symbol with
  | some op => build op l r
  | none => .error (.unknownOperator symbol)

/-- The simplified relation of a symbol. -/
def relationSymbol (symbol : String) (l r : Expr) : Except Error Expr :=
  match Operator.ofSymbol? symbol with
  | some op => if op.isRelation then .ok (relation op l r) else .error (.unknownOperator symbol)
  | none => .error (.unknownOperator symbol)

/-! ## Conditionals -/

/-- **The truth of a condition that is known without values**: a truth value, a number, or a
relation of two literals of one class. -/
def staticTruth? : Expr → Option Bool
  | boolean b => some b
  | number n => some (!n.isZero)
  | operation op l r => if op.isRelation then (l.literalOrder? r).map op.holds else none
  | _ => none

/-- **The conditional**, which is one of its branches when the truth of its condition is known. -/
def choice (c t e : Expr) : Expr :=
  match staticTruth? c with
  | some true => t
  | some false => e
  | none => conditional c t e

end Simplify

end Formula
