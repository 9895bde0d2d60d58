/-
# Factorials

The factorial of a natural number multiplies all numbers up to it, the semi-factorial only every
second one.
-/

namespace Formula

/-- The factorial `n!`. -/
def factorial : Nat → Nat
  | 0 => 1
  | n + 1 => (n + 1) * factorial n

/-- `acc * n * (n - 2) * (n - 4) * …`, as long as the factors are at least two. -/
def semiFactorialFrom : Nat → Nat → Nat
  | acc, 0 => acc
  | acc, 1 => acc
  | acc, n + 2 => semiFactorialFrom (acc * (n + 2)) n

/-- **The semi-factorial** `n!! = n * (n - 2) * (n - 4) * …`. -/
def semiFactorial (n : Nat) : Nat := semiFactorialFrom 1 n

end Formula
