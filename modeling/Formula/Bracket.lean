/-
# Brackets

The two kinds of brackets that group expressions.
-/

namespace Formula

/-- A kind of bracket. -/
inductive Bracket where
  | paren
  | brace
  deriving DecidableEq, Repr

namespace Bracket

/-- The opening symbol. -/
def opening : Bracket → String
  | paren => "("
  | brace => "\x7b"

/-- The closing symbol. -/
def closing : Bracket → String
  | paren => ")"
  | brace => "\x7d"

end Bracket

end Formula
