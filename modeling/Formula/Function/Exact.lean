/-
# Exact functions of rational numbers

Each function has a rational value or an error that names the argument; nothing is rounded.
-/
import Formula.Function.Real
import Formula.Rational.Power

namespace Formula

namespace Function

/-- The sign as a rational; all but negative numbers have the sign one. -/
def exactSign (n : Number) : Number := .rational (if n.lt (.integer 0) then -1 else 1)

/-- The square root of the square of a rational. -/
def exactSquareRoot (q : Rat) : Except Error Rat :=
  (Rational.sqrt? q).elim (.error (.invalid (.rootIrrational q))) .ok

/-- The natural number that a rational is; `symbol` names the function that needs it. -/
def natural (symbol : String) (q : Rat) : Except Error Nat :=
  if q.den ≠ 1 ∨ q < 0 then .error (.invalid (.notNatural symbol q)) else .ok q.num.toNat

/-- The factorial of a natural number. -/
def exactFactorial (q : Rat) : Except Error Rat := do
  return ((← boundedFactorial (← natural "!" q) : Nat) : Rat)

/-- The semi-factorial of a natural number. -/
def exactSemiFactorial (q : Rat) : Except Error Rat := do
  return ((semiFactorial (← natural "!!" q) : Nat) : Rat)

/-- An entry of the table. -/
def exact (name description : String) (category : Category) (implementation : Implementation)
    (shownExample : String) : FunctionEntry :=
  .unary .rational name description category implementation shownExample

/-- **The exact functions.** -/
def exactTable : List FunctionEntry :=
  [exact "abs" "Absolute value" .arithmetic (.general Value.abs) "abs(-3/4)",
   exact "sgn" "Sign: -1 for negative, 1 otherwise" .arithmetic (.numeric (.ok ∘ exactSign))
     "sgn(x)",
   exact "sqrt" "Exact square root of a rational square" .exponential (.exact exactSquareRoot)
     "sqrt(9/4)",
   exact "!" "Factorial" .arithmetic (.exact exactFactorial) "5!",
   exact "!!" "Semi-factorial" .arithmetic (.exact exactSemiFactorial) "7!!"]

end Function

end Formula
