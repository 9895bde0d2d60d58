/-
# Expressions

An expression is a tree of operands, operations, conditionals and calls. A missing operand is a
**hole**: the right operand of a one-sided operation is one. Marks and closers are structural
pieces of unfinished expressions; printers show them and evaluators refuse them.
-/
import Formula.Bracket
import Formula.Number
import Formula.Operator
import Formula.Rational.LowestTerms

namespace Formula

/-- An expression tree. -/
inductive Expr where
  /-- A missing operand. -/
  | hole
  | number (value : Number)
  | boolean (value : Bool)
  | constant (name : String)
  | identifier (name : String)
  /-- A text kept as it is written, such as the decimal tail `.99`. -/
  | literal (text : String)
  | operation (op : Operator) (left right : Expr)
  | conditional (condition yes no : Expr)
  /-- A function of one argument. -/
  | call (name : String) (argument : Expr)
  /-- The only function of two arguments: a price with its last digits overwritten. -/
  | ending (price tail : Expr)
  /-- A symbol after its operand that is not applied yet. -/
  | mark (symbol : String) (operand : Expr)
  /-- A closing bracket without its partner. -/
  | closer (bracket : Bracket)
  deriving DecidableEq, Inhabited

namespace Expr

/-! ## Constructors -/

/-- The expression of an integer. -/
abbrev integer (n : Int) : Expr := number (.integer n)

/-- The expression of a rational. -/
abbrev rational (q : Rat) : Expr := number (.rational q)

/-- The expression of a double. -/
abbrev float (x : Double) : Expr := number (.float x)

/-- The negation of an expression, as a one-sided operation. -/
abbrev negated (e : Expr) : Expr := operation .sub e hole

/-- The logical negation of an expression, as a one-sided operation. -/
abbrev denied (e : Expr) : Expr := operation .not e hole

/-- The name of the function of two arguments. -/
def endingName : String := "ending"

/-- The number of arguments that a function takes. -/
def arity (name : String) : Nat := if name = endingName then 2 else 1

/-- **The quotient of two integers as an expression**, in lowest terms and with a positive
denominator; a zero denominator is refused, and so is a quotient out of the range of doubles. -/
def ofFraction (numerator denominator : Int) : Except Error Expr :=
  if h : denominator = 0 then .error (.divisionByZero (intText numerator ++ "/0"))
  else do
    let q ← (Number.rational (Rational.ofQuotient numerator denominator h)).checked
    return number q

/-- The expression of a rational, by its numerator and denominator. -/
def ofRational (q : Rat) : Except Error Expr := ofFraction q.num q.den

/-- The numerator and the denominator that a fraction stores. -/
def fraction? : Expr → Option (Int × Nat)
  | number (.rational q) => some (q.num, q.den)
  | _ => none

/-- The rational that a fraction is. -/
def toRational? (e : Expr) : Option Rat := e.fraction?.map fun (n, d) => mkRat n d

/-- The operation with a symbol. -/
def ofSymbol (symbol : String) (left right : Expr) : Except Error Expr :=
  match Operator.ofSymbol? symbol with
  | some op => .ok (operation op left right)
  | none => .error (.unknownOperator symbol)

/-- The application of a function to arguments, when their number is its arity. -/
def ofCall (name : String) (arguments : List Expr) : Except Error Expr :=
  let wrong := Error.malformed name (.wrongArity name (arity name) arguments.length)
  if name = endingName then
    match arguments with
    | [price, tail] => .ok (ending price tail)
    | _ => .error wrong
  else
    match arguments with
    | [a] => .ok (call name a)
    | _ => .error wrong

/-! ## Shapes -/

/-- Whether an operand is missing. -/
def isHole : Expr → Bool
  | hole => true
  | _ => false

/-- Whether an expression is a number. -/
def isNumber : Expr → Bool
  | number _ => true
  | _ => false

/-- Whether an expression is a one-sided minus. -/
def isNegation : Expr → Bool
  | operation .sub _ hole => true
  | _ => false

/-- Whether an expression is a number with a minus sign. -/
def isNegativeNumber : Expr → Bool
  | number n => n.isNegative
  | _ => false

/-- The symbol of a structural piece. -/
def markSymbol? : Expr → Option String
  | mark symbol _ => some symbol
  | closer bracket => some bracket.closing
  | _ => none

/-- Applies a pending mark to its operand. -/
def applyMark (symbol : String) (operand : Expr) : Except Error Expr :=
  if operand.isHole then .error (.malformed symbol .mark) else ofCall symbol [operand]

/-! ## Equality -/

/-- **Structural equality**, with doubles compared as numbers: zeros of either sign are equal, and
NaN equals nothing. -/
def same : Expr → Expr → Bool
  | hole, hole => true
  | number a, number b => a.same b
  | boolean a, boolean b => a == b
  | constant a, constant b => a == b
  | identifier a, identifier b => a == b
  | literal a, literal b => a == b
  | operation op l r, operation op' l' r' => op == op' && l.same l' && r.same r'
  | conditional c t e, conditional c' t' e' => c.same c' && t.same t' && e.same e'
  | call f a, call f' a' => f == f' && a.same a'
  | ending p t, ending p' t' => p.same p' && t.same t'
  | mark s a, mark s' a' => s == s' && a.same a'
  | closer b, closer b' => b == b'
  | _, _ => false

end Expr

namespace Operator

/-! ## Grouping -/

/-- Whether an operation of `op` needs brackets where one of `other` binds at least as tightly:
levels decide first, and within one level the grouping side. -/
def yieldsTo (op other : Operator) : Bool :=
  if op.level = other.level then !op.isRightAssociative else decide (op.level < other.level)

end Operator

end Formula
