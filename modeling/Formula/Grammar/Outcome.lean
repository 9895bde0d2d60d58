/-
# Outcomes of reading tokens

Reading an expression from a list of tokens ends with a value and the tokens that are left, or with
an error. Either way it leaves a record of the tokens that were consumed, each with the operators
that still waited for their right operand. The list that is left is shorter than a bound, so that
every reader can be seen to end.
-/
import Formula.Expr
import Formula.Token

namespace Formula

/-! ## Records -/

/-- The operators that wait for their right operand with their left operands, the innermost
first. -/
abbrev Pending := List (Operator × Expr)

/-- A consumed token and the operators that waited at that moment. -/
structure Step where
  token : Token
  pending : Pending

/-- **The outcome of reading tokens**: a value with the rest, which has fewer than `n` tokens, or an
error. -/
inductive Outcome (α : Type) (n : Nat) where
  | done (steps : List Step) (value : α) (rest : List Token) (shorter : rest.length < n)
  | failed (steps : List Step) (error : Error)

namespace Outcome

variable {α β : Type} {m n : Nat}

/-! ## Combining outcomes -/

/-- The record of an outcome. -/
def steps : Outcome α n → List Step
  | done steps .. => steps
  | failed steps _ => steps

/-- The value and the rest, or the error. -/
def result : Outcome α n → Except Error (α × List Token)
  | done _ value rest _ => .ok (value, rest)
  | failed _ error => .error error

/-- An outcome under a weaker bound. -/
def weaken (h : m ≤ n) : Outcome α m → Outcome α n
  | done steps value rest shorter => done steps value rest (Nat.lt_of_lt_of_le shorter h)
  | failed steps error => failed steps error

/-- An outcome that may also leave all its tokens. -/
def relax (o : Outcome α n) : Outcome α (n + 1) := o.weaken (Nat.le_succ n)

/-- **The outcome of reading behind one consumed token.** -/
def after (step : Step) : Outcome α n → Outcome α (n + 1)
  | done steps value rest shorter => done (step :: steps) value rest (Nat.lt_succ_of_lt shorter)
  | failed steps error => failed (step :: steps) error

/-- An outcome with its value transformed. -/
def map (f : α → β) : Outcome α n → Outcome β n
  | done steps value rest shorter => done steps (f value) rest shorter
  | failed steps error => failed steps error

/-- **Reads on** from where an outcome ended, consuming any number of tokens. -/
def andThen (o : Outcome α n)
    (next : (value : α) → (rest : List Token) → rest.length < n → Outcome β (rest.length + 1)) :
    Outcome β n :=
  match o with
  | failed steps error => failed steps error
  | done steps value rest shorter =>
    match next value rest shorter with
    | failed more error => failed (steps ++ more) error
    | done more value' rest' shorter' =>
      done (steps ++ more) value' rest'
        (Nat.lt_of_lt_of_le shorter' (Nat.succ_le_of_lt shorter))

/-- **Reads on** from where an outcome ended, consuming at least one token. -/
def andRead (o : Outcome α n)
    (next : (value : α) → (rest : List Token) → rest.length < n → Outcome β rest.length) :
    Outcome β n :=
  o.andThen fun value rest shorter => (next value rest shorter).relax

/-- The outcome that consumes nothing. -/
def pure (value : α) (rest : List Token) : Outcome α (rest.length + 1) :=
  done [] value rest (Nat.lt_succ_self _)

/-- The outcome that consumes one token. -/
def accept (step : Step) (value : α) (rest : List Token) : Outcome α (rest.length + 1) :=
  done [step] value rest (Nat.lt_succ_self _)

/-- The outcome of a computation that consumes nothing. -/
def ofExcept (r : Except Error α) (rest : List Token) : Outcome α (rest.length + 1) :=
  match r with
  | .ok value => pure value rest
  | .error error => failed [] error

/-! ## Single tokens -/

/-- Consumes one token of a kind, or fails for the given reason. -/
def take (p : Pending) (kind : Kind) (cause : Malformed) (ts : List Token) :
    Outcome Unit ts.length :=
  match ts with
  | [] => failed [] (.malformed "" cause)
  | t :: rest =>
    if t.kind = kind then accept ⟨t, p⟩ () rest else failed [] (.malformed t.value cause)

/-- Consumes terminators. -/
def skipTerminators (p : Pending) : (ts : List Token) → Outcome Unit (ts.length + 1)
  | [] => pure () []
  | t :: rest =>
    if t.kind = .terminator then (skipTerminators p rest).after ⟨t, p⟩ else pure () (t :: rest)

/-- Consumes the word `return`, if it is there. -/
def skipReturn (p : Pending) (ts : List Token) : Outcome Unit (ts.length + 1) :=
  match ts with
  | [] => pure () []
  | t :: rest =>
    if t.kind = .returnWord then (accept ⟨t, p⟩ () rest).relax else pure () (t :: rest)

/-- An outcome that has to be followed by a token of a kind. -/
def followedBy (p : Pending) (kind : Kind) (cause : Malformed) (o : Outcome α n) : Outcome α n :=
  o.andRead fun value rest _ => (take p kind cause rest).map fun _ => value

end Outcome

end Formula
