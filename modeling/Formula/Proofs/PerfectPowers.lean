/-
# Perfect powers

Newton's iteration towards an integer root starts from a power of two above the root. **Its guesses
fall until it stops at the whole part of the root**: none of them is below the root, none is zero,
and the first one that is not lowered is not above it (`StopsAfter.rootGuess_eq_nthRoot`). So the
root of an integer is found exactly if the integer is a perfect power (`root_found_or_null`).
-/
import Formula.Proofs.IntegerRoots
import Formula.Value.Power

namespace Formula

variable {k n steps : Nat}

/-! ## The course of the iteration -/

/-- The guesses of Newton's iteration towards the `k`-th root of `n`, continued past its end. -/
def rootGuess (k n : Nat) : Nat → Nat
  | 0 => 2 ^ ((Nat.log2 n + k) / k)
  | i + 1 => rootStep k n (rootGuess k n i)

/-- **Whether the iteration stops after some steps**: each of them lowers the guess, and the next
one would not. -/
structure StopsAfter (k n steps : Nat) : Prop where
  lowers : ∀ i < steps, rootGuess k n (i + 1) < rootGuess k n i
  stays : rootGuess k n steps ≤ rootGuess k n (steps + 1)

/-- A guess that is not below the root of a positive number is positive. -/
theorem ne_zero_of_lt_succ_pow {guess : Nat} (hn : 0 < n) (h : n < (guess + 1) ^ k) :
    guess ≠ 0 := by
  rintro rfl
  rw [Nat.zero_add, Nat.one_pow] at h
  omega

/-- **No guess is below the root.** -/
theorem lt_succ_rootGuess_pow (hk : 0 < k) (hn : 0 < n) (i : Nat) :
    n < (rootGuess k n i + 1) ^ k := by
  induction i with
  | zero => exact lt_start_pow hk
  | succ i ih => exact lt_succ_rootStep_pow hk (ne_zero_of_lt_succ_pow hn ih)

/-- As long as the guesses fall, each is below the first one by the number of steps at least. -/
theorem rootGuess_add_le (h : ∀ i < steps, rootGuess k n (i + 1) < rootGuess k n i) :
    rootGuess k n steps + steps ≤ rootGuess k n 0 := by
  induction steps with
  | zero => exact Nat.le_refl _
  | succ steps ih =>
    have hlast := h steps (Nat.lt_succ_self steps)
    have hfirst := ih fun i hi => h i (Nat.lt_succ_of_lt hi)
    omega

/-- **The iteration stops**, since the guesses cannot fall for ever. -/
theorem exists_stopsAfter (k n : Nat) : ∃ steps, StopsAfter k n steps := by
  have hstays : ∃ i, rootGuess k n i ≤ rootGuess k n (i + 1) := by
    by_contra hnone
    have hfalls : ∀ i, rootGuess k n (i + 1) < rootGuess k n i := fun i =>
      Nat.lt_of_not_le fun hi => hnone ⟨i, hi⟩
    have hbound : rootGuess k n (rootGuess k n 0 + 1) + (rootGuess k n 0 + 1) ≤ rootGuess k n 0 :=
      rootGuess_add_le fun i _ => hfalls i
    omega
  refine ⟨Nat.find hstays, fun i hi => ?_, Nat.find_spec hstays⟩
  exact Nat.lt_of_not_le (Nat.find_min hstays hi)

/-- **The guess at which the iteration stops is the whole part of the root.** -/
theorem StopsAfter.rootGuess_eq_nthRoot (h : StopsAfter k n steps) (hk : 0 < k) (hn : 0 < n) :
    rootGuess k n steps = Nat.nthRoot k n :=
  (Nat.nthRoot_eq_of_le_of_lt (pow_le_of_le_rootStep hk h.stays)
    (lt_succ_rootGuess_pow hk hn steps)).symm

/-- The exact root is the guess at which the iteration stops, if that is a root. -/
theorem exactRoot?_of_stopsAfter (h : StopsAfter k n steps) (hk : 0 < k) (hn : 0 < n) :
    exactRoot? n k
      = if rootGuess k n steps ^ k = n then some (rootGuess k n steps) else none := by
  rw [h.rootGuess_eq_nthRoot hk hn]
  have hroot : ∀ {r : Nat}, exactRoot? n k = some r ↔ r ^ k = n :=
    exactRoot?_natCast (by omega)
  split
  · rename_i hpow
    exact hroot.2 hpow
  · rename_i hpow
    refine Option.eq_none_iff_forall_ne_some.2 fun r hr => hpow ?_
    -- a root of `n` is its whole part already
    rw [← hroot.1 hr, Nat.nthRoot_pow (by omega)]

/-! ## Roots of values -/

namespace Value

/-- Integers are in their order as values. -/
theorem relate_lt_integer (a b : Int) :
    (integer a).relate .lt (integer b) = .ok (decide (a < b)) := by
  show Except.ok (some (compare a b) == some .lt) = _
  congr 1
  rw [Bool.eq_iff_iff, beq_iff_eq, Option.some_inj, compare_lt_iff_lt, decide_eq_true_iff]

/-- **The root of an integer value is the exact root**, or null. -/
theorem exactValueRoot_integer (n k : Int) :
    exactValueRoot (integer n) (integer k)
      = .ok ((exactRoot? n k).elim null fun r => integer r) := by
  have hone : (integer k).eqv (integer 1) = decide (k = 1) := by
    show (some (compare k 1) == some .eq) = _
    rw [Bool.eq_iff_iff, beq_iff_eq, Option.some_inj, compare_eq_iff_eq, decide_eq_true_iff]
  unfold exactValueRoot
  rw [relate_lt_integer, relate_lt_integer, relate_lt_integer, hone]
  by_cases hrefused : n < 0 ∨ k < 1
  · rw [exactRoot?, if_pos hrefused]
    by_cases hn : n < 0
    · rw [decide_eq_true hn]
      rfl
    · have hk : k < 1 := by omega
      rw [decide_eq_false hn, decide_eq_true hk]
      rfl
  · have hn : ¬ n < 0 := by omega
    have hk : ¬ k < 1 := by omega
    rw [decide_eq_false hn, decide_eq_false hk]
    by_cases hsame : n < 2 ∨ k = 1
    · -- zero, one and first roots are answered without an iteration
      have hcast : (n.toNat : Int) = n := Int.toNat_of_nonneg (by omega)
      have hroot : exactRoot? n k = some n.toNat := by
        refine exactRoot?_eq_some_iff.2 ⟨by omega, ?_⟩
        rw [hcast]
        rcases hsame with hsmall | rfl
        · obtain rfl | rfl : n = 0 ∨ n = 1 := by omega
          · exact zero_pow (by omega)
          · exact one_pow _
        · exact pow_one n
      have htest : (decide (n < 2) || decide (k = 1)) = true := by simpa using hsame
      show (if (decide (n < 2) || decide (k = 1)) = true then _ else _) = _
      rw [htest, hroot, Option.elim_some, hcast]
      rfl
    · have htest : (decide (n < 2) || decide (k = 1)) = false := by simpa using hsame
      show (if (decide (n < 2) || decide (k = 1)) = true then _ else _) = _
      rw [htest]
      rfl

end Value

/-! ## The main result -/

/-- **The root of an integer is found exactly if the integer is a perfect power**, and the answer is
null otherwise. From two up, in number and degree, the answer comes from Newton's iteration, which
stops: until then every guess is positive and lower than the one before, and the last one is taken
if its power is the number. -/
theorem root_found_or_null (n k : Int) :
    (∀ r : Int, Value.exactValueRoot (.integer n) (.integer k) = .ok (.integer r) ↔
      0 ≤ n ∧ 1 ≤ k ∧ 0 ≤ r ∧ r ^ k.toNat = n) ∧
    (Value.exactValueRoot (.integer n) (.integer k) = .ok .null ↔
      ¬ ∃ r : Int, 0 ≤ n ∧ 1 ≤ k ∧ 0 ≤ r ∧ r ^ k.toNat = n) ∧
    (2 ≤ n → 2 ≤ k → ∃ steps, StopsAfter k.toNat n.toNat steps ∧
      (∀ i, rootGuess k.toNat n.toNat i ≠ 0) ∧
        Value.exactValueRoot (.integer n) (.integer k) =
          .ok (if rootGuess k.toNat n.toNat steps ^ k.toNat = n.toNat
            then .integer (rootGuess k.toNat n.toNat steps) else .null)) := by
  rw [Value.exactValueRoot_integer]
  have hroot : ∀ r : Int, (∃ m : Nat, exactRoot? n k = some m ∧ (m : Int) = r) ↔
      0 ≤ n ∧ 1 ≤ k ∧ 0 ≤ r ∧ r ^ k.toNat = n := by
    intro r
    constructor
    · rintro ⟨m, hm, rfl⟩
      obtain ⟨hk, hpow⟩ := exactRoot?_eq_some_iff.1 hm
      exact ⟨hpow ▸ Int.pow_nonneg (Int.natCast_nonneg m), hk, Int.natCast_nonneg m, hpow⟩
    · rintro ⟨-, hk, hr, hpow⟩
      obtain ⟨m, rfl⟩ := Int.eq_ofNat_of_zero_le hr
      exact ⟨m, exactRoot?_eq_some_iff.2 ⟨hk, hpow⟩, rfl⟩
  refine ⟨fun r => ?_, ?_, fun hn hk => ?_⟩
  · rw [← hroot r]
    cases exactRoot? n k with
    | none => simp
    | some m => simp
  · simp only [← hroot]
    cases exactRoot? n k with
    | none => simp
    | some m => simp
  · obtain ⟨m, rfl⟩ := Int.eq_ofNat_of_zero_le (show 0 ≤ n by omega)
    obtain ⟨j, rfl⟩ := Int.eq_ofNat_of_zero_le (show 0 ≤ k by omega)
    have hm : 0 < m := by omega
    have hj : 0 < j := by omega
    obtain ⟨steps, hsteps⟩ := exists_stopsAfter j m
    refine ⟨steps, hsteps, fun i => ?_, ?_⟩
    · exact ne_zero_of_lt_succ_pow hm (lt_succ_rootGuess_pow hj hm i)
    · rw [exactRoot?_of_stopsAfter hsteps hj hm]
      simp only [Int.toNat_natCast]
      split <;> rfl

/-- The cube root of 27 is found, and 28 is no cube. -/
theorem root_found_or_null_cube :
    Value.exactValueRoot (.integer 27) (.integer 3) = .ok (.integer 3) ∧
      Value.exactValueRoot (.integer 28) (.integer 3) = .ok .null ∧
        (2 : Int) ≤ 28 ∧ (2 : Int) ≤ 3 ∧ ∃ steps, StopsAfter 3 28 steps := by
  obtain ⟨steps, hsteps, -, -⟩ := (root_found_or_null 28 3).2.2 (by decide) (by decide)
  refine ⟨((root_found_or_null 27 3).1 3).2 (by decide), ?_, by decide, by decide, steps, hsteps⟩
  refine (root_found_or_null 28 3).2.1.2 ?_
  rintro ⟨r, -, -, hr, hpow⟩
  have hcube : r ^ 3 = 28 := hpow
  have hlow : 3 < r := by
    by_contra hle
    have := pow_le_pow_left₀ hr (not_lt.1 hle) 3
    omega
  have hhigh : (4 : Int) ^ 3 ≤ r ^ 3 := pow_le_pow_left₀ (by decide) hlow 3
  omega

end Formula
