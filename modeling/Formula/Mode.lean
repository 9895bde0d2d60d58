/-
# Modes

A mode fixes the lexicon in which an expression is written and the kind of values that it has.
-/
import Formula.Evaluation.Complex
import Formula.Evaluation.Exact
import Formula.Evaluation.Real
import Formula.Lexicon

namespace Formula

/-- The ways in which expressions are written and evaluated. -/
inductive Mode where
  | real
  | rational
  | complex
  | logic
  | pricing
  deriving DecidableEq, Repr

namespace Mode

/-- All modes. -/
def all : List Mode := [real, rational, complex, logic, pricing]

/-- The name of a mode. -/
def name : Mode → String
  | real => "real"
  | rational => "rational"
  | complex => "complex"
  | logic => "logic"
  | pricing => "pricing"

/-- The mode with a name. -/
def ofName? (s : String) : Option Mode := all.find? (·.name == s)

/-- The mode with a name, or the error for an unknown one. -/
def ofName (s : String) : Except Error Mode :=
  (ofName? s).elim (.error (.invalid (.unknownMode s (all.map name)))) .ok

/-- The lexicon of a mode. -/
def lexicon : Mode → Lexicon
  | real | rational => .standard
  | complex => .complex
  | logic => .logic
  | pricing => .pricing

/-- **The value of an expression in a mode.** -/
def evaluate (m : Mode) (s : Scope) (e : Expr) : Except Error Value :=
  match m with
  | real => e.value .arithmetic s
  | rational => .rational <$> e.exactValue s
  | complex => .complex <$> e.complexValue s
  | logic => e.value .logic s
  | pricing => e.value .pricing s

end Mode

end Formula
