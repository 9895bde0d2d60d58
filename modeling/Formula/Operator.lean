/-
# Operators

The operators of the expression language, with their symbols, their levels of precedence and the
side on which chains of one level group.
-/

namespace Formula

/-- An operator; `not` and the one-sided `sub` stand before their operand. -/
inductive Operator where
  | and | or | not
  | eq | ne | gt | lt | ge | le
  | add | sub | mul | div | pow
  deriving DecidableEq, Repr

namespace Operator

/-- All operators. -/
def all : List Operator := [and, or, not, eq, ne, gt, lt, ge, le, add, sub, mul, div, pow]

/-- The canonical symbol. -/
def symbol : Operator → String
  | and => "&&"
  | or => "||"
  | not => "!"
  | eq => "="
  | ne => "<>"
  | gt => ">"
  | lt => "<"
  | ge => ">="
  | le => "<="
  | add => "+"
  | sub => "-"
  | mul => "*"
  | div => "/"
  | pow => "^"

/-- The operator with a symbol. -/
def ofSymbol? (s : String) : Option Operator := all.find? (·.symbol == s)

/-! ## Precedence -/

/-- **The level of precedence**, from the loosest to the tightest. -/
def level : Operator → Nat
  | and | or | not => 1
  | eq | ne | gt | lt | ge | le => 2
  | add | sub => 3
  | mul | div => 4
  | pow => 5

/-- Whether chains of the operator's level group to the right. -/
def isRightAssociative : Operator → Bool
  | pow => true
  | _ => false

/-- The least level of an operator that may stand unbracketed in the right operand. -/
def rightLevel (op : Operator) : Nat :=
  if op.isRightAssociative then op.level else op.level + 1

/-! ## Classes -/

/-- Whether the operator compares two values. -/
def isRelation : Operator → Bool
  | eq | ne | gt | lt | ge | le => true
  | _ => false

/-- Whether the operator combines truth values. -/
def isConnective : Operator → Bool
  | and | or | not => true
  | _ => false

/-- Whether the operator may stand before a single operand. -/
def mayStandBefore : Operator → Bool
  | sub | not => true
  | _ => false

/-- Whether the operator yields a truth value. -/
def isLogical (op : Operator) : Bool := op.isRelation || op.isConnective

end Operator

end Formula
