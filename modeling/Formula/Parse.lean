/-
# Parsing token lists

A parse drops blanks, checks the brackets, inserts implicit products and reads one expression up to
the end of the tokens, with terminators allowed behind it. The record of consumed tokens is kept on
request and never influences the result.
-/
import Formula.Expr.Ascii
import Formula.Grammar
import Formula.Options
import Formula.Token.Bracketing
import Formula.Token.Product

namespace Formula

/-! ## Rows of the record -/

/-- A consumed token with the operands and the operators that waited at that moment, the outermost
first. -/
structure TraceRow where
  token : String
  operands : List String
  operators : List String
  deriving DecidableEq, Repr

/-- The row of a recorded step. -/
def Step.row (s : Step) : TraceRow :=
  ⟨s.token.value, s.pending.reverse.map (·.2.ascii), s.pending.reverse.map (·.1.symbol)⟩

/-! ## Parsing -/

/-- What a parse produces: an expression or an error, and the rows of its record; a parse that fails
before any token is read has no record. -/
structure Parse where
  result : Except Error Expr
  trace? : Option (List TraceRow)

namespace Parse

/-- Reads one expression and the terminators behind it, up to the end of the tokens. -/
def whole (simplify : Bool) (ts : List Token) : Outcome Expr ts.length :=
  (Grammar.expression simplify [] 0 ts).andThen fun e rest _ =>
    (Outcome.skipTerminators [] rest).andThen fun _ rest' _ =>
      match rest' with
      | [] => Outcome.pure e []
      | t :: _ => .failed [] (.malformed t.value (.unexpectedToken t.value t.position))

/-- The tokens that are read: without blanks, and with implicit products when they are allowed. -/
def prepare (o : Options) (ts : List Token) : List Token :=
  if o.implicitProducts then insertProducts (dropBlanks ts) else dropBlanks ts

/-- The result of reading prepared tokens, with the rows of the record when they are wanted. -/
def ofOutcome {n : Nat} (debug : Bool) (o : Outcome Expr n) : Parse :=
  ⟨o.result.map (·.1), some (if debug then o.steps.map Step.row else [])⟩

/-- **Parses a token list.** -/
def ofTokens (o : Options) (ts : List Token) : Parse :=
  match checkBrackets (dropBlanks ts) with
  | .error e => ⟨.error e, none⟩
  | .ok () =>
    if (prepare o ts).all (·.kind == .terminator) then ⟨.error (.malformed "" .empty), none⟩
    else ofOutcome o.debug (whole o.simplify (prepare o ts))

end Parse

/-- The expression of a token list. -/
def parse (o : Options) (ts : List Token) : Except Error Expr := (Parse.ofTokens o ts).result

end Formula
