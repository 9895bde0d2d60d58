/-
# The grammar of expressions

Expressions are read by precedence climbing. From the loosest to the tightest:

1. connectives; a leading `not` takes an operand of relations;
2. relations;
3. sums and differences;
4. products and quotients; a leading minus takes an operand of this level;
5. powers, which group to the right;
6. factorials after their operand.

A conditional is written with keywords, with blocks in braces, or as a list of three arguments.
Every reader consumes at least one token, except those whose bound says otherwise.
-/
import Formula.Double.Reading
import Formula.Expr.Simplify
import Formula.Grammar.Outcome

namespace Formula

namespace Grammar

open Outcome

/-! ## Construction of nodes -/

/-- The operation of two operands, simplified or plain. -/
def operate (simplify : Bool) (op : Operator) (l r : Expr) : Except Error Expr :=
  if simplify then Simplify.build op l r else .ok (.operation op l r)

/-- The conditional of three parts, simplified or plain. -/
def select (simplify : Bool) (c t e : Expr) : Expr :=
  if simplify then Simplify.choice c t e else .conditional c t e

/-- The least level of the operand of a leading minus. -/
def minusLevel : Nat := 4

/-- The least level of the operand of a leading negation. -/
def notLevel : Nat := 2

/-- The double that a decimal numeral with a point or comma denotes. -/
def numeralValue (text : String) : Double :=
  (Double.read? (String.ofList (text.toList.map fun c => if c = ',' then '.' else c))).getD .nan

/-- The expression of a token that is a whole operand. -/
def operand? (t : Token) : Option Expr :=
  match t.kind with
  | .natural => some (.integer (digitsValue t.value.toList))
  | .real => some (.float (numeralValue t.value))
  | .boolean => some (.boolean (t.value.map Char.toLower == "true"))
  | .constant => some (.constant t.value)
  | .identifier => some (.identifier t.value)
  | .literal => some (.literal t.value)
  | _ => none

/-! ## Looking at tokens -/

/-- The error of a token that cannot start an operand. -/
def unexpected (t : Token) : Error :=
  if t.kind.binary?.isSome || t.kind.isFactorial then .unexpectedOperator t.value
  else .malformed t.value (.unexpectedToken t.value t.position)

/-- Whether a terminator comes before the bracket that closes the outermost of `depth` open
ones, with no other bracket open. -/
def hasTerminator : Nat → List Token → Bool
  | _, [] => false
  | depth, t :: rest =>
    match t.kind with
    | .opening _ => hasTerminator (depth + 1) rest
    | .closing _ => if depth ≤ 1 then false else hasTerminator (depth - 1) rest
    | .terminator => if depth = 1 then true else hasTerminator depth rest
    | _ => hasTerminator depth rest

/-- **Whether tokens start with a list of arguments in parentheses.** -/
def startsList : List Token → Bool
  | [] => false
  | t :: rest => t.kind == .opening .paren && hasTerminator 1 rest

/-- Whether tokens start with a kind of token. -/
def startsWith (kind : Kind) : List Token → Bool
  | [] => false
  | t :: _ => t.kind == kind

/-! ## Expressions -/

/-- Applies the factorials that follow an operand. -/
def factorials (p : Pending) (e : Expr) : (ts : List Token) → Outcome Expr (ts.length + 1)
  | [] => pure e []
  | t :: rest =>
    if t.kind.isFactorial then
      match Expr.ofCall t.value [e] with
      | .ok e' => (factorials p e' rest).after ⟨t, p⟩
      | .error error => failed [⟨t, p⟩] error
    else pure e (t :: rest)

mutual

/-- **Reads an expression** whose operators have at least the level `least`. -/
def expression (s : Bool) (p : Pending) (least : Nat) (ts : List Token) :
    Outcome Expr ts.length :=
  (unary s p least ts).andThen fun left rest _ => chain s p least left rest
  termination_by 8 * ts.length + 4

/-- Reads the operators of at least the level `least` that follow an operand, with their right
operands. -/
def chain (s : Bool) (p : Pending) (least : Nat) (left : Expr) (ts : List Token) :
    Outcome Expr (ts.length + 1) :=
  match ts with
  | [] => pure left []
  | t :: rest =>
    match t.kind.binary? with
    | none => pure left (t :: rest)
    | some op =>
      if op.level < least then pure left (t :: rest)
      else
        ((expression s ((op, left) :: p) op.rightLevel rest).andThen fun right rest' _ =>
          match operate s op left right with
          | .error error => failed [] error
          | .ok whole => chain s p least whole rest').relax.after ⟨t, (op, left) :: p⟩
  termination_by 8 * ts.length

/-- Reads an operand with its leading signs. -/
def unary (s : Bool) (p : Pending) (least : Nat) (ts : List Token) : Outcome Expr ts.length :=
  match ts with
  | [] => postfixed s p []
  | t :: rest =>
    match t.kind with
    | .operator .add => (unary s p least rest).after ⟨t, p⟩
    | .operator .sub =>
      ((expression s p (max least minusLevel) rest).andThen fun e rest' _ =>
        ofExcept (operate s .sub e .hole) rest').after ⟨t, p⟩
    | .operator .not =>
      ((expression s p (max least notLevel) rest).andThen fun e rest' _ =>
        ofExcept (operate s .not e .hole) rest').after ⟨t, p⟩
    | _ => postfixed s p (t :: rest)
  termination_by 8 * ts.length + 3

/-- Reads an operand with the factorials behind it. -/
def postfixed (s : Bool) (p : Pending) (ts : List Token) : Outcome Expr ts.length :=
  (primary s p ts).andThen fun e rest _ => factorials p e rest
  termination_by 8 * ts.length + 2

/-- Reads an operand without signs. -/
def primary (s : Bool) (p : Pending) (ts : List Token) : Outcome Expr ts.length :=
  match ts with
  | [] => failed [] (.malformed "" .unexpectedEnd)
  | t :: rest =>
    match operand? t with
    | some e => accept ⟨t, p⟩ e rest
    | none =>
      match t.kind with
      | .opening .paren =>
        ((expression s p 0 rest).followedBy p (.closing .paren) (.expected "')'")).after ⟨t, p⟩
      | .opening .brace => block s p (t :: rest)
      | .function => application s p (t :: rest)
      | .ifWord => alternatives s p (t :: rest)
      | _ => failed [] (unexpected t)
  termination_by 8 * ts.length + 1

/-- Reads the application of a function to a list of arguments in parentheses. -/
def application (s : Bool) (p : Pending) (ts : List Token) : Outcome Expr ts.length :=
  match ts with
  | [] => failed [] (.malformed "" .unexpectedEnd)
  | t :: rest =>
    (((take p (.opening .paren) (.callWithoutParenthesis t.value) rest).andThen fun _ rest₁ _ =>
        arguments s p rest₁).followedBy p (.closing .paren)
          (.expected s!"')' after arguments of '{t.value}'")
      |>.andThen fun es rest₂ _ => ofExcept (Expr.ofCall t.value es) rest₂).after ⟨t, p⟩
  termination_by 8 * ts.length

/-- Reads a possibly empty list of arguments up to its closing parenthesis. -/
def arguments (s : Bool) (p : Pending) (ts : List Token) :
    Outcome (List Expr) (ts.length + 1) :=
  if startsWith (.closing .paren) ts then pure [] ts
  else
    ((expression s p 0 ts).andThen fun e rest _ =>
      (moreArguments s p rest).map fun es => e :: es).relax
  termination_by 8 * ts.length + 5

/-- Reads the arguments that follow terminators. -/
def moreArguments (s : Bool) (p : Pending) (ts : List Token) :
    Outcome (List Expr) (ts.length + 1) :=
  match ts with
  | [] => pure [] []
  | t :: rest =>
    if t.kind = .terminator then
      ((expression s p 0 rest).andThen fun e rest₁ _ =>
        (moreArguments s p rest₁).map fun es => e :: es).relax.after ⟨t, p⟩
    else pure [] (t :: rest)
  termination_by 8 * ts.length

/-- Reads a block in braces: terminators, an optional `return`, an expression, terminators. -/
def block (s : Bool) (p : Pending) (ts : List Token) : Outcome Expr ts.length :=
  (take p (.opening .brace) (.expected "'\x7b'") ts).andThen fun _ rest _ =>
    (skipTerminators p rest).andThen fun _ rest₁ _ =>
      (skipReturn p rest₁).andRead fun _ rest₂ _ =>
        ((expression s p 0 rest₂).andThen fun e rest₃ _ =>
          (skipTerminators p rest₃).map fun _ => e).followedBy p (.closing .brace)
            (.expected "'\x7d'")
  termination_by 8 * ts.length

/-- Reads a conditional in one of its three spellings. -/
def alternatives (s : Bool) (p : Pending) (ts : List Token) : Outcome Expr ts.length :=
  match ts with
  | [] => failed [] (.malformed "" .unexpectedEnd)
  | t :: rest =>
    (if startsList rest then listAlternatives s p rest
    else (expression s p 0 rest).andRead fun c rest₁ _ => branches s p c rest₁).after ⟨t, p⟩
  termination_by 8 * ts.length

/-- Reads the two branches of a conditional behind its condition. -/
def branches (s : Bool) (p : Pending) (c : Expr) (ts : List Token) : Outcome Expr ts.length :=
  match ts with
  | [] => failed [] (.malformed "" (.expected "THEN or '\x7b' after the condition"))
  | u :: rest =>
    match u.kind with
    | .thenWord =>
      (((expression s p 0 rest).followedBy p .elseWord (.expected "ELSE")).andRead
        fun yes rest₁ _ => (expression s p 0 rest₁).map fun no => select s c yes no).after ⟨u, p⟩
    | .opening .brace =>
      ((block s p (u :: rest)).followedBy p .elseWord (.expected "'else'")).andRead
        fun yes rest₁ _ =>
          if startsWith .ifWord rest₁ then
            (alternatives s p rest₁).map fun no => select s c yes no
          else (block s p rest₁).map fun no => select s c yes no
    | _ => failed [] (.malformed u.value (.expected "THEN or '\x7b' after the condition"))
  termination_by 8 * ts.length + 1
  decreasing_by all_goals (simp only [List.length_cons] at *; omega)

/-- Reads the three parts of a conditional as a list in parentheses. -/
def listAlternatives (s : Bool) (p : Pending) (ts : List Token) : Outcome Expr ts.length :=
  (take p (.opening .paren) (.expected "'('") ts).andRead fun _ rest _ =>
    ((expression s p 0 rest).followedBy p .terminator (.expected "';' after the condition")).andRead
      fun c rest₁ _ =>
        ((expression s p 0 rest₁).followedBy p .terminator
          (.expected "';' after the first branch")).andRead fun yes rest₂ _ =>
            ((expression s p 0 rest₂).followedBy p (.closing .paren) (.expected "')'")).map
              fun no => select s c yes no
  termination_by 8 * ts.length

end

end Grammar

end Formula
