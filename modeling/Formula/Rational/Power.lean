/-
# Exact powers

A rational power of a rational number is computed only when it is rational. Roots are exact roots of
the numerator and the denominator.
-/
import Formula.Double.Arithmetic
import Formula.Error

namespace Formula

/-! ## Integer roots -/

/-- **The exact root**: the natural `k`-th root of `n`, when `n` is a `k`-th power. -/
def exactRoot? (n k : Int) : Option Nat :=
  if n < 0 ∨ k < 1 then none
  else
    let r := floorRoot k.toNat n.toNat
    let whole := if r ≤ 1 then r else r ^ k.toNat
    if whole = n.toNat then some r else none

/-! ## Whole exponents -/

/-- The power of an integer; powers of zero, one and minus one take no multiplication. -/
def intPower (a : Int) (n : Nat) : Int :=
  if a = 0 then (if n = 0 then 1 else 0)
  else if a = 1 then 1
  else if a = -1 then (if n % 2 = 0 then 1 else -1)
  else a ^ n

/-- A power of minus one has the sign that the parity of the exponent gives. -/
theorem negOne_pow (n : Nat) : (-1 : Int) ^ n = if n % 2 = 0 then 1 else -1 := by
  induction n with
  | zero => rfl
  | succ n ih =>
    rw [Int.pow_succ, ih]
    split <;> split <;> omega

/-- The power of an integer is the usual one. -/
theorem intPower_eq (a : Int) (n : Nat) : intPower a n = a ^ n := by
  unfold intPower
  split
  · subst a
    split
    · subst n; rfl
    · rw [Int.zero_pow ‹_›]
  · split
    · subst a; rw [Int.one_pow]
    · split
      · subst a; rw [negOne_pow]
      · rfl

namespace Rational

/-- The power of a rational with a natural exponent. -/
def natPower (q : Rat) (n : Nat) : Rat := if q.den = 1 then (intPower q.num n : Rat) else q ^ n

/-- The power of a rational with a whole exponent. -/
def wholePower (q : Rat) : Int → Rat
  | .ofNat n => natPower q n
  | .negSucc n => (natPower q (n + 1))⁻¹

/-- The power with a natural exponent is the usual one. -/
theorem natPower_eq (q : Rat) (n : Nat) : natPower q n = q ^ n := by
  unfold natPower
  split
  · rename_i h
    have hq : (q.num : Rat) = q := Rat.ext rfl h.symm
    rw [intPower_eq, Rat.intCast_pow, hq]
  · rfl

/-- The power with a whole exponent is the usual one. -/
theorem wholePower_eq (q : Rat) (n : Int) : wholePower q n = q ^ n := by
  cases n with
  | ofNat n => exact (natPower_eq q n).trans (Rat.zpow_natCast q n).symm
  | negSucc n =>
    have h : Int.negSucc n = -((n + 1 : Nat) : Int) := Int.negSucc_eq n
    rw [wholePower, natPower_eq, h, Rat.zpow_neg, Rat.zpow_natCast]

/-! ## Fractional exponents -/

/-- The exact square root, when there is one. -/
def sqrt? (q : Rat) : Option Rat := do
  let n ← exactRoot? q.num 2
  let d ← exactRoot? q.den 2
  return mkRat n d

/-- The exact real `k`-th root of a rational, when there is one; `k` is odd for a negative
rational. -/
def root? (q : Rat) (k : Nat) : Option Rat := do
  let n ← exactRoot? q.num.natAbs k
  let d ← exactRoot? q.den k
  return mkRat (if q < 0 then -(n : Int) else n) d

/-- **The exact power** `base ^ exponent`: an error for `0^0`, for a negative power of zero, and
when the power is not rational. -/
def power (base exponent : Rat) : Except Error Rat :=
  if base = 0 then
    if exponent = 0 then .error .undefinedPower
    else if exponent < 0 then .error (.divisionByZero "^")
    else .ok 0
  else if exponent.den = 1 then .ok (wholePower base exponent.num)
  else if base < 0 ∧ exponent.den % 2 = 0 then
    .error (.invalid (.powerNotReal (ratText base) exponent))
  else
    match root? base exponent.den with
    | some r => .ok (wholePower r exponent.num)
    | none => .error (.invalid (.powerIrrational base exponent))

end Rational

end Formula
