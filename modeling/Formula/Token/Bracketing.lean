/-
# Bracketing

Every closing bracket has to match the innermost open one, and no bracket may stay open. The check
keeps the stack of the open brackets, the innermost first.
-/
import Formula.Error
import Formula.Token

namespace Formula

/-- Reads tokens on top of a stack of open brackets, each with its token value; the first closing
bracket without its partner is an error, and at the end the innermost open bracket is one. -/
def closeBrackets : List (Bracket × String) → List Token → Except Error Unit
  | [], [] => .ok ()
  | (_, value) :: _, [] => .error (.unbalanced value none)
  | stack, t :: ts =>
    match t.kind with
    | .opening b => closeBrackets ((b, t.value) :: stack) ts
    | .closing b =>
      match stack with
      | (b', _) :: below =>
        if b' = b then closeBrackets below ts else .error (.unbalanced t.value (some b))
      | [] => .error (.unbalanced t.value (some b))
    | _ => closeBrackets stack ts

/-- **The bracket check** of a token list. -/
def checkBrackets (ts : List Token) : Except Error Unit := closeBrackets [] ts

end Formula
