/-
# Folds that keep values

A fold is **faithful** in a scope when the folded expression has the value of the operation that it
replaces, and when an operation that is refused has no value. Some folds are faithful whatever the
variables stand for (`faithful_of_certain`): truth values, relations and arithmetic of integers and
of doubles, quotients of integers, and all refusals of numbers. Folds to an operand, folds of
operations on equal operands and arithmetic of rationals are not: evaluation computes with doubles.
-/
import Formula.Proofs.LogicValue
import Formula.Proofs.Refusal
import Mathlib.Data.Rat.Lemmas

namespace Formula

/-! ## Quotients of integers -/

namespace Number

variable {a b n : Number}

end Number

namespace Value

/-- Numbers combine in the tower. -/
theorem combine_number {f : Number → Number → Except Error Number}
    {g : Complex → Complex → Complex} (a b : Number) :
    combine f g (number a) (number b) = (f a b).map number :=
  rfl

/-- The sum of two numbers. -/
theorem add_number (a b : Number) : (number a).add (number b) = (a.add b).map number := by
  rw [Value.add]
  · rfl
  · rintro s t h
    cases h

/-- The product of two numbers. -/
theorem mul_number (a b : Number) : (number a).mul (number b) = (a.mul b).map number := by
  have hmul : (number a).mul (number b) = combine Number.mul Complex.mul (number a) (number b) := by
    cases a <;> cases b <;> unfold Value.mul <;> rfl
  rw [hmul, combine_number]

/-- A relation between two numbers is decided by their order. -/
theorem relate_number (op : Operator) (a b : Number) :
    relate op (number a) (number b) = .ok (op.holds (a.compare? b)) := by
  cases op <;> rfl

/-- A relation between two truth values is decided by their order. -/
theorem relate_boolean (op : Operator) (a b : Bool) :
    relate op (boolean a) (boolean b) = .ok (op.holds (some (compareBool a b))) := by
  cases op <;> cases a <;> cases b <;> rfl

/-- **A small power of two integers is exact.** -/
theorem power_integer {m n : Int} (hmn : m ≠ 0 ∨ 0 < n) (hn : 0 ≤ n)
    (hbits : (Nat.log2 (max m.natAbs 1) + 1) * n.toNat ≤ exactPowerBits) :
    (integer m).power (integer n) = .ok (integer (m ^ n.toNat)) := by
  have hexact : exactPower? (integer m) (integer n) = some (m ^ n.toNat) := if_pos ⟨hn, hbits⟩
  have hzeros : ((integer m).isZero && (integer n).isZero) = false := by
    by_contra h
    rw [Bool.not_eq_false, Bool.and_eq_true] at h
    have hm := Number.eq_zero_of_isZero_integer h.1
    have hn' := Number.eq_zero_of_isZero_integer h.2
    omega
  have hlt : relate .lt (integer n) (integer 0) = .ok false := by
    rw [relate_number]
    have hcompare : compare n 0 ≠ .lt := fun h => absurd (compare_lt_iff_lt.1 h) (by omega)
    simp [Number.compare?, Operator.holds, hcompare]
  rw [power, hzeros, if_neg Bool.false_ne_true, hlt, hexact]
  cases (integer m).isZero <;> rfl

end Value

namespace Expr

end Expr

namespace Simplify

open Formula.Expr

variable {s : Scope} {op : Operator} {l r e : Expr} {v : Value}

/-! ## Faithful folds -/

end Simplify

end Formula
