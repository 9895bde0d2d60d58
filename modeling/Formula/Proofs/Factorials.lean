/-
# Factorials and semi-factorials

The loop of the semi-factorial multiplies its start by every second number from its argument down
(`semiFactorialFrom_eq`), so it ends with the product of all numbers of one parity. The numbers up
to `n` are those of the parity of `n` and those of the parity of `n - 1`: **a factorial is the
product of two neighbouring semi-factorials** (`parityProduct_mul_parityProduct`). The exact
functions answer these products for natural numbers, the factorial below `2 ^ 63` only, and refuse
all other rationals (`Function.factorials_agree`).
-/
import Formula.Evaluation.Exact
import Mathlib.Algebra.BigOperators.Intervals
import Mathlib.Algebra.Order.Field.Rat
import Mathlib.Algebra.Order.Ring.Int
import Mathlib.Data.Nat.Factorial.Basic

namespace Formula

open scoped Nat

/-! ## Products of one parity -/

/-- The product of the numbers from one to `n` that have the parity of `n`. -/
def parityProduct (n : Nat) : Nat := ∏ k ∈ Finset.Icc 1 n with k % 2 = n % 2, k

/-- Two steps up, the upper one of the new numbers is a factor. -/
theorem parityProduct_add_two (n : Nat) : parityProduct (n + 2) = (n + 2) * parityProduct n := by
  have hskip : ¬ (n + 1) % 2 = (n + 2) % 2 := by omega
  simp only [parityProduct, Finset.prod_filter]
  rw [Finset.prod_Icc_succ_top (by omega), Finset.prod_Icc_succ_top (by omega), if_neg hskip,
    if_pos rfl, mul_one, Nat.add_mod_right, mul_comm]

/-- **The loop multiplies its start by the numbers of one parity.** -/
theorem semiFactorialFrom_eq (acc n : Nat) : semiFactorialFrom acc n = acc * parityProduct n := by
  fun_induction semiFactorialFrom acc n with
  | case1 acc => exact (mul_one acc).symm
  | case2 acc => exact (mul_one acc).symm
  | case3 acc n ih => rw [ih, parityProduct_add_two, mul_assoc]

/-- The semi-factorial is the product of the numbers of one parity. -/
theorem semiFactorial_eq (n : Nat) : semiFactorial n = parityProduct n := by
  rw [semiFactorial, semiFactorialFrom_eq, one_mul]

/-- The factorial is the usual one. -/
theorem factorial_eq (n : Nat) : factorial n = n ! := by
  induction n with
  | zero => rfl
  | succ n ih => rw [factorial, ih, Nat.factorial_succ]

/-- **The numbers up to `n + 1` are those of its parity and those of the parity of `n`.** -/
theorem parityProduct_mul_parityProduct (n : Nat) :
    parityProduct (n + 1) * parityProduct n = (n + 1)! := by
  have hother : parityProduct n = ∏ k ∈ Finset.Icc 1 (n + 1) with ¬ k % 2 = (n + 1) % 2, k := by
    refine Finset.prod_congr (Finset.ext fun k => ?_) fun _ _ => rfl
    simp only [Finset.mem_filter, Finset.mem_Icc]
    omega
  rw [hother, parityProduct, Finset.prod_filter_mul_prod_filter_not,
    ← Finset.Ico_add_one_right_eq_Icc, Finset.prod_Ico_id_eq_factorial]

namespace Function

/-! ## The loop over any number -/

/-- The stop test of the loop at a whole number. -/
theorem two_le_integer (n : Nat) : (Number.integer 2).le (.integer n) = decide (2 ≤ n) := by
  rw [Bool.eq_iff_iff]
  simp [Number.le, Number.lt, Number.eqv, Number.compare?, Int.compare_eq_lt]
  omega

/-- **The loop over any number is the loop over natural numbers** where the factors are whole. -/
theorem everySecond_integer {acc n fuel : Nat} (h : n ≤ fuel) :
    everySecond (.integer acc) (.integer n) fuel = .ok (.integer (semiFactorialFrom acc n)) := by
  fun_induction semiFactorialFrom acc n generalizing fuel with
  | case1 acc => cases fuel <;> rfl
  | case2 acc => cases fuel <;> rfl
  | case3 acc n ih =>
    obtain ⟨fuel, rfl⟩ : ∃ k, fuel = k + 1 := ⟨fuel - 1, by omega⟩
    have hproduct : (Number.integer acc).mul (.integer (n + 2 : Nat)) =
        .ok (.integer (acc * (n + 2) : Nat)) := by
      rw [Nat.cast_mul]
      rfl
    have hrest : (Number.integer (n + 2 : Nat)).sub (.integer 2) = .ok (.integer n) := by
      show Except.ok (Number.integer ((n + 2 : Nat) - 2)) = _
      rw [Nat.cast_add, Nat.cast_ofNat, add_sub_cancel_right]
    rw [everySecond, two_le_integer, if_pos (decide_eq_true (Nat.le_add_left 2 n)), hproduct, hrest]
    exact ih (by omega)

/-! ## The exact functions -/

variable {q : Rat} {symbol : String}

/-- What the registered exact function of a name answers for a rational. -/
def exactAnswer (name : String) (q : Rat) : Except Error Value := do
  (← Registry.builtin.get .rational name).apply [.rational q]

/-- The functions behind the two names. -/
theorem exactAnswer_eq (q : Rat) :
    exactAnswer "!" q = .rational <$> exactFactorial q ∧
      exactAnswer "!!" q = .rational <$> exactSemiFactorial q := ⟨rfl, rfl⟩

/-- A whole number that is not negative is the natural number. -/
theorem natural_natCast (symbol : String) (n : Nat) : natural symbol n = .ok n := by
  have hnonneg : ¬ (n : Rat) < 0 := not_lt.2 (Nat.cast_nonneg n)
  rw [natural, if_neg (by simp [hnonneg])]
  rfl

/-- Negative and fractional numbers are refused. -/
theorem natural_of_not (h : q < 0 ∨ q.den ≠ 1) :
    natural symbol q = .error (.invalid (.notNatural symbol q)) := by
  rw [natural, if_pos h.symm]

/-- The exact factorial of a natural number, which is refused from `2 ^ 63` on. -/
theorem exactAnswer_factorial (n : Nat) :
    exactAnswer "!" n = if n < 2 ^ 63 then .ok (.rational (n ! : Nat)) else .error .overflow := by
  rw [(exactAnswer_eq n).1, exactFactorial, natural_natCast]
  show Value.rational <$> (boundedFactorial n >>= fun k => pure (k : Rat)) = _
  rw [boundedFactorial, factorial_eq]
  split <;> rfl

/-- The exact semi-factorial of a natural number. -/
theorem exactAnswer_semiFactorial (n : Nat) :
    exactAnswer "!!" n = .ok (.rational (parityProduct n : Nat)) := by
  rw [(exactAnswer_eq n).2, exactSemiFactorial, natural_natCast, ← semiFactorial_eq]
  rfl

/-- Both functions refuse negative and fractional numbers. -/
theorem exactAnswer_of_not (h : q < 0 ∨ q.den ≠ 1) :
    exactAnswer "!" q = .error (.invalid (.notNatural "!" q)) ∧
      exactAnswer "!!" q = .error (.invalid (.notNatural "!!" q)) := by
  constructor
  · rw [(exactAnswer_eq q).1, exactFactorial, natural_of_not h]
    rfl
  · rw [(exactAnswer_eq q).2, exactSemiFactorial, natural_of_not h]
    rfl

/-- **Factorials and semi-factorials agree.** The semi-factorial of a natural number is the product
of the numbers of its parity, from it down to one or two. The factorial of a positive number is its
semi-factorial times that of the number before; from `2 ^ 63` on the factorial is refused, while the
semi-factorials still have this product. Both functions refuse negative and fractional numbers. -/
theorem factorials_agree :
    (∀ n : Nat, semiFactorialOfInt n = .ok (parityProduct n) ∧
      exactAnswer "!!" n = .ok (.rational (parityProduct n : Nat))) ∧
    semiFactorialOfInt 0 = .ok 1 ∧
    (∀ n : Nat, 1 ≤ n → ∃ a b : Rat, exactAnswer "!!" n = .ok (.rational a) ∧
      exactAnswer "!!" (n - 1) = .ok (.rational b) ∧ a * b = (n ! : Nat) ∧
      exactAnswer "!" n = if n < 2 ^ 63 then .ok (.rational (a * b)) else .error .overflow) ∧
    ∀ q : Rat, q < 0 ∨ q.den ≠ 1 →
      exactAnswer "!" q = .error (.invalid (.notNatural "!" q)) ∧
        exactAnswer "!!" q = .error (.invalid (.notNatural "!!" q)) := by
  refine ⟨fun n => ⟨?_, exactAnswer_semiFactorial n⟩, rfl, fun n hn => ?_,
    fun q => exactAnswer_of_not⟩
  · rw [semiFactorialOfInt, if_neg (by omega), Int.toNat_natCast, semiFactorial_eq]
  · obtain ⟨k, rfl⟩ : ∃ k, n = k + 1 := ⟨n - 1, by omega⟩
    have hbefore : ((k + 1 : Nat) : Rat) - 1 = k := by rw [Nat.cast_succ, add_sub_cancel_right]
    have hproduct : (parityProduct (k + 1) : Rat) * parityProduct k = ((k + 1)! : Nat) := by
      rw [← Nat.cast_mul, parityProduct_mul_parityProduct]
    refine ⟨_, _, exactAnswer_semiFactorial _, ?_, hproduct, ?_⟩
    · rw [hbefore, exactAnswer_semiFactorial]
    · rw [exactAnswer_factorial, hproduct]

/-- The factorial of seven, and two numbers that have none. -/
theorem factorials_agree_seven :
    exactAnswer "!!" (7 : Nat) = .ok (.rational 105) ∧
      exactAnswer "!" (7 : Nat) = .ok (.rational (105 * 48)) ∧
      exactAnswer "!" (-3) = .error (.invalid (.notNatural "!" (-3))) ∧
      exactAnswer "!!" (3 / 2) = .error (.invalid (.notNatural "!!" (3 / 2))) := by
  obtain ⟨-, -, hproduct, hrefused⟩ := factorials_agree
  obtain ⟨a, b, ha, hb, -, hab⟩ := hproduct 7 (by decide)
  have hseven : exactAnswer "!!" (7 : Nat) = .ok (.rational 105) := by decide +kernel
  have hsix : exactAnswer "!!" ((7 : Nat) - 1) = .ok (.rational 48) := by decide +kernel
  rw [hseven] at ha
  rw [hsix] at hb
  cases ha
  cases hb
  exact ⟨hseven, hab.trans (if_pos (by decide)), (hrefused (-3) (by decide +kernel)).1,
    (hrefused (3 / 2) (by decide +kernel)).2⟩

/-- The factorial of `2 ^ 63` is refused, although it is the product of two semi-factorials that
have values; so is its quotient by them, which would be one. -/
theorem factorial_refuses_long :
    exactAnswer "!" (2 ^ 63 : Nat) = .error .overflow ∧
      (¬ ∃ a b : Rat, exactAnswer "!!" (2 ^ 63 : Nat) = .ok (.rational a) ∧
        exactAnswer "!!" ((2 ^ 63 : Nat) - 1) = .ok (.rational b) ∧
        exactAnswer "!" (2 ^ 63 : Nat) = .ok (.rational (a * b))) ∧
      Expr.exactValue (.standard []) (.operation .div (.call "!" (.integer (2 ^ 63)))
        (.operation .mul (.call "!!" (.integer (2 ^ 63))) (.call "!!" (.integer (2 ^ 63 - 1)))))
          = .error .overflow := by
  have hrefused : exactAnswer "!" (2 ^ 63 : Nat) = .error .overflow := by
    rw [exactAnswer_factorial, if_neg (by decide)]
  refine ⟨hrefused, ?_, by decide +kernel⟩
  rintro ⟨a, b, -, -, h⟩
  exact absurd (hrefused.symm.trans h) nofun

end Function

end Formula
