/-
# Expressions that evaluation and differentiation refuse

Operations without an operand, truth values and literal texts in arithmetic, and conditionals.
-/
import Formula.Expr

namespace Formula

namespace Expr

/-- Whether an operation with these operands lacks one: only a one-sided minus and a denial do
without a right operand. -/
def lacksOperand (op : Operator) (l r : Expr) : Bool :=
  l.isHole || (r.isHole && !op.mayStandBefore)

/-- The names of the constants. -/
def constantNames : List String := ["pi", "e", "i", "NAN", "INF"]

/-- Whether an expression is the base of the natural exponential. -/
def isEuler : Expr → Bool
  | constant name => name == "e"
  | _ => false

/-- The text of a truth value in expressions. -/
def booleanText (b : Bool) : String := if b then "true" else "false"

/-- The refusal of a truth value in arithmetic. -/
def booleanRefused (b : Bool) : Error := .malformed (booleanText b) .booleanInArithmetic

/-- The refusal of a literal text. -/
def literalRefused (s : String) : Error := .malformed s (.literalText s)

/-- The refusal of a conditional in arithmetic. -/
def conditionalRefused : Error := .malformed "if" .conditionalInArithmetic

end Expr

end Formula
