/-
# Integer roots

Newton's step never falls below the root, and a guess that it does not lower is not above the root.
So the iteration ends at the whole part of the root (`floorRoot_eq_nthRoot`), and **the exact root
is found whenever there is one** (`exactRoot?_eq_some_iff`).
-/
import Formula.Rational.Power
import Mathlib.Analysis.SpecialFunctions.Pow.NthRootLemmas

namespace Formula

variable {k n guess : Nat}

/-! ## Newton's iteration -/

/-- A step from a positive guess does not fall below the root. -/
theorem lt_succ_rootStep_pow (hk : 0 < k) (hg : guess ≠ 0) : n < (rootStep k n guess + 1) ^ k := by
  obtain ⟨j, rfl⟩ : ∃ j, k = j + 1 := ⟨k - 1, by omega⟩
  have h : n < ((n / guess ^ j + j * guess) / (j + 1) + 1) ^ (j + 1) :=
    Nat.nthRoot.lt_pow_go_succ_aux hg
  rw [rootStep, Nat.add_sub_cancel, Nat.add_comm (j * guess)]
  exact h

/-- A guess that the step does not lower is not above the root. -/
theorem pow_le_of_le_rootStep (hk : 0 < k) (h : guess ≤ rootStep k n guess) : guess ^ k ≤ n := by
  obtain ⟨j, rfl⟩ : ∃ j, k = j + 1 := ⟨k - 1, by omega⟩
  have hsum : guess * (j + 1) ≤ j * guess + n / guess ^ j := by
    rw [rootStep, Nat.add_sub_cancel] at h
    exact (Nat.le_div_iff_mul_le (Nat.succ_pos j)).1 h
  -- of the `j + 1` parts of the mean, `j` are the guess itself
  have hquotient : guess ≤ n / guess ^ j := by
    rw [Nat.mul_succ, Nat.mul_comm guess j] at hsum
    omega
  calc guess ^ (j + 1) = guess * guess ^ j := Nat.pow_succ'
    _ ≤ n := Nat.mul_le_of_le_div _ _ _ hquotient

/-- **The iteration ends at the whole part of the root**, from any guess that is not below it. -/
theorem descendRoot_bounds (hk : 0 < k) (h : n < (guess + 1) ^ k) :
    descendRoot k n guess ^ k ≤ n ∧ n < (descendRoot k n guess + 1) ^ k := by
  fun_induction descendRoot k n guess with
  | case1 guess hlower ih => exact ih (lt_succ_rootStep_pow hk (by omega))
  | case2 guess hstay => exact ⟨pow_le_of_le_rootStep hk (Nat.le_of_not_lt hstay), h⟩

/-- The power of two from which the iteration starts is above the root. -/
theorem lt_start_pow (hk : 0 < k) : n < (2 ^ ((Nat.log2 n + k) / k) + 1) ^ k := by
  have hlog : Nat.log2 n + 1 ≤ (Nat.log2 n + k) / k * k := by
    have hmod := Nat.mod_lt (Nat.log2 n + k) hk
    have hdiv := Nat.div_add_mod' (Nat.log2 n + k) k
    omega
  calc n < 2 ^ (Nat.log2 n + 1) := Nat.lt_log2_self
    _ ≤ 2 ^ ((Nat.log2 n + k) / k * k) := Nat.pow_le_pow_right (by decide) hlog
    _ = (2 ^ ((Nat.log2 n + k) / k)) ^ k := Nat.pow_mul 2 _ _
    _ ≤ (2 ^ ((Nat.log2 n + k) / k) + 1) ^ k := Nat.pow_le_pow_left (Nat.le_succ _) k

/-- **The computed root is the whole part of the root.** -/
theorem floorRoot_eq_nthRoot (hk : 0 < k) : floorRoot k n = Nat.nthRoot k n := by
  suffices h : floorRoot k n ^ k ≤ n ∧ n < (floorRoot k n + 1) ^ k from
    (Nat.nthRoot_eq_of_le_of_lt h.1 h.2).symm
  rw [floorRoot]
  split
  · rename_i hsmall
    rcases hsmall with hn | hk₁
    · obtain rfl | rfl : n = 0 ∨ n = 1 := by omega
      · exact ⟨by rw [Nat.zero_pow hk], Nat.pow_pos (by decide)⟩
      · exact ⟨by rw [Nat.one_pow], Nat.one_lt_pow (by omega) (by decide)⟩
    · obtain rfl : k = 1 := by omega
      exact ⟨by rw [Nat.pow_one], by rw [Nat.pow_one]; omega⟩
  · rename_i hlarge
    split
    · rename_i hlog
      refine ⟨by rw [Nat.one_pow]; omega, ?_⟩
      exact (Nat.log2_lt (by omega)).1 hlog
    · exact descendRoot_bounds hk (lt_start_pow hk)

/-! ## Exact roots -/

/-- The exact root of a natural number is the number whose power it is. -/
theorem exactRoot?_natCast {m r : Nat} {k : Int} (hk : 1 ≤ k) :
    exactRoot? m k = some r ↔ r ^ k.toNat = m := by
  have hpos : 0 < k.toNat := by omega
  -- the power of a root up to one is not computed
  have hwhole : (if floorRoot k.toNat m ≤ 1 then floorRoot k.toNat m
      else floorRoot k.toNat m ^ k.toNat) = floorRoot k.toNat m ^ k.toNat := by
    split
    · obtain h | h : floorRoot k.toNat m = 0 ∨ floorRoot k.toNat m = 1 := by omega
      · rw [h, Nat.zero_pow hpos]
      · rw [h, Nat.one_pow]
    · rfl
  rw [exactRoot?, if_neg (by omega)]
  simp only [Int.toNat_natCast]
  rw [hwhole, floorRoot_eq_nthRoot hpos, Option.ite_none_right_eq_some, Option.some.injEq]
  constructor
  · rintro ⟨hpow, rfl⟩
    exact hpow
  · rintro rfl
    rw [Nat.nthRoot_pow (by omega)]
    exact ⟨rfl, rfl⟩

/-- **The exact root is found whenever there is one.** -/
theorem exactRoot?_eq_some_iff {n k : Int} {r : Nat} :
    exactRoot? n k = some r ↔ 1 ≤ k ∧ (r : Int) ^ k.toNat = n := by
  by_cases hk : 1 ≤ k
  · by_cases hn : 0 ≤ n
    · obtain ⟨m, rfl⟩ := Int.eq_ofNat_of_zero_le hn
      rw [exactRoot?_natCast hk, ← Int.natCast_pow, Int.natCast_inj]
      exact (and_iff_right hk).symm
    · rw [exactRoot?, if_pos (by omega)]
      constructor
      · intro h
        cases h
      · rintro ⟨-, rfl⟩
        exact absurd (Int.pow_nonneg (Int.natCast_nonneg r)) hn
  · rw [exactRoot?, if_pos (by omega)]
    constructor
    · intro h
      cases h
    · rintro ⟨h, -⟩
      exact absurd h hk

end Formula
