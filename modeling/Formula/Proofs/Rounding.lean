/-
# Rounding keeps the order

Rounding to the nearest double never turns two rationals around: **of two rationals, the double
nearest to the smaller one is not above the other** (`ofRat_le_ofRat`). Different rationals may
still meet in one double. The proof compares ranks of magnitudes: within one exponent both quotients
round on the same grid, and across exponents the power of two between them separates the ranks.
-/
import Formula.Proofs.ShortestDecimal
import Mathlib.Algebra.Order.Ring.Rat
import Mathlib.Tactic.Linarith
import Mathlib.Tactic.Zify

namespace Formula

/-! ## Rounding quotients -/

/-- A quotient rounds to its whole part or to the next whole number. -/
theorem roundHalfEven_bounds (n d : Nat) :
    n / d ≤ roundHalfEven n d ∧ roundHalfEven n d ≤ n / d + 1 := by
  have hparity : n / d % 2 ≤ 1 := by omega
  unfold roundHalfEven
  split_ifs <;> omega

/-- A larger quotient rounds to no smaller number. -/
theorem roundHalfEven_mono {n m d : Nat} (h : n ≤ m) :
    roundHalfEven n d ≤ roundHalfEven m d := by
  have hquotient : n / d ≤ m / d := Nat.div_le_div_right h
  by_cases hlt : n / d < m / d
  · have hn := (roundHalfEven_bounds n d).2
    have hm := (roundHalfEven_bounds m d).1
    omega
  · -- with one whole part, the remainders are in order
    have heq : n / d = m / d := by omega
    have hdn : d * (n / d) + n % d = n := Nat.div_add_mod n d
    have hdm : d * (m / d) + m % d = m := Nat.div_add_mod m d
    rw [heq] at hdn
    have hremainder : n % d ≤ m % d := by omega
    unfold roundHalfEven
    rw [heq]
    split_ifs <;> omega

/-! ## Ranks -/

/-- A larger number has no shorter binary form. -/
theorem log2_mono {a b : Nat} (h : a ≤ b) : Nat.log2 a ≤ Nat.log2 b := by
  by_cases ha : a = 0
  · subst ha
    exact Nat.zero_le _
  · have hb : b ≠ 0 := by omega
    exact (Nat.le_log2 hb).2 (Nat.le_trans (Nat.log2_self_le ha) h)

/-- On the grid of its exponent, a quotient rounds to 53 digits at most, or to the next number. -/
theorem roundHalfEven_le_two_pow {n d s : Nat} (h : Nat.log2 (n / d) - 52 = s) :
    roundHalfEven n (d * 2 ^ s) ≤ 2 ^ 53 := by
  have hlt : n / d < 2 ^ s * 2 ^ 53 := by
    rw [← Nat.pow_add]
    exact Nat.lt_of_lt_of_le Nat.lt_log2_self (Nat.pow_le_pow_right (by decide) (by omega))
  have hgrid : n / (d * 2 ^ s) < 2 ^ 53 := by
    rw [← Nat.div_div_eq_div_mul]
    exact Nat.div_lt_of_lt_mul hlt
  have hround := (roundHalfEven_bounds n (d * 2 ^ s)).2
  omega

/-- With an exponent above the least one, a quotient is not below the first point of its grid. -/
theorem two_pow_mul_le_div {n d s : Nat} (h : Nat.log2 (n / d) - 52 = s) (hs : s ≠ 0) :
    2 ^ 52 * 2 ^ s ≤ n / d := by
  have hne : n / d ≠ 0 := by
    intro hzero
    rw [hzero] at h
    exact hs h.symm
  have hlog : Nat.log2 (n / d) = 52 + s := by omega
  rw [← Nat.pow_add, ← hlog]
  exact Nat.log2_self_le hne

/-- On the grid of an exponent above the least one, a quotient has all its 53 digits. -/
theorem two_pow_le_roundHalfEven {n d s : Nat} (h : Nat.log2 (n / d) - 52 = s) (hs : s ≠ 0) :
    2 ^ 52 ≤ roundHalfEven n (d * 2 ^ s) := by
  have hgrid : 2 ^ 52 ≤ n / (d * 2 ^ s) := by
    rw [← Nat.div_div_eq_div_mul]
    exact (Nat.le_div_iff_mul_le (Nat.two_pow_pos s)).2 (two_pow_mul_le_div h hs)
  exact Nat.le_trans hgrid (roundHalfEven_bounds n (d * 2 ^ s)).1

/-- Within one denominator, a larger quotient has no smaller rank. -/
theorem nearestRank_mono {n m d : Nat} (h : n ≤ m) : nearestRank n d ≤ nearestRank m d := by
  have hlog : Nat.log2 (n / d) ≤ Nat.log2 (m / d) := log2_mono (Nat.div_le_div_right h)
  unfold nearestRank
  dsimp only
  generalize hs : Nat.log2 (n / d) - 52 = s
  generalize ht : Nat.log2 (m / d) - 52 = t
  by_cases heq : s = t
  · subst heq
    exact Nat.add_le_add_left (roundHalfEven_mono h) _
  · -- the larger quotient starts where the smaller one ends
    have hsmall := roundHalfEven_le_two_pow hs
    have hlarge := two_pow_le_roundHalfEven ht (by omega)
    omega

/-- **A larger quotient has no smaller rank.** -/
theorem nearestRank_le {n d m e : Nat} (hd : 0 < d) (he : 0 < e) (h : n * e ≤ m * d) :
    nearestRank n d ≤ nearestRank m e :=
  calc nearestRank n d = nearestRank (n * e) (d * e) := (nearestRank_mul_right he).symm
    _ ≤ nearestRank (m * d) (d * e) := nearestRank_mono h
    _ = nearestRank (m * d) (e * d) := by rw [Nat.mul_comm d e]
    _ = nearestRank m e := nearestRank_mul_right hd

/-! ## Doubles -/

namespace Double

/-- The rank of the magnitude nearest to that of a rational, past the last one for an overflow. -/
def rankOf (q : Rat) : Nat := min (nearestRank (q.num.natAbs * 2 ^ 1074) q.den) rankLimit

/-- The place of the double nearest to a rational. -/
def placeOf (q : Rat) : Int := if q < 0 then -(rankOf q : Int) else rankOf q

/-- The double nearest to a rational is always some number. -/
theorem place?_ofRat (q : Rat) : (ofRat q).place? = some (placeOf q) := by
  unfold ofRat ofUnits placeOf rankOf
  split
  · rename_i h
    rw [place?, Nat.min_eq_left (Nat.le_of_lt h)]
    simp only [decide_eq_true_eq]
  · rename_i h
    rw [place?, Nat.min_eq_right (Nat.le_of_not_lt h)]
    simp only [decide_eq_true_eq]

/-- A larger magnitude has no smaller rank. -/
theorem rankOf_le {p q : Rat} (h : p.num.natAbs * q.den ≤ q.num.natAbs * p.den) :
    rankOf p ≤ rankOf q := by
  have hunits : p.num.natAbs * 2 ^ 1074 * q.den ≤ q.num.natAbs * 2 ^ 1074 * p.den := by
    rw [Nat.mul_right_comm, Nat.mul_right_comm q.num.natAbs]
    exact Nat.mul_le_mul_right _ h
  have hrank := nearestRank_le p.den_pos q.den_pos hunits
  unfold rankOf
  omega

/-- **Rounding keeps the order** of rationals, up to equality. -/
theorem placeOf_mono {p q : Rat} (h : p ≤ q) : placeOf p ≤ placeOf q := by
  have hcross : p.num * q.den ≤ q.num * p.den := (Rat.le_iff p q).1 h
  unfold placeOf
  by_cases hq : q < 0
  · -- of two negative numbers, the smaller one has the larger magnitude
    have hp : p < 0 := lt_of_le_of_lt h hq
    have hpnum : p.num < 0 := Rat.num_neg.2 hp
    have hqnum : q.num < 0 := Rat.num_neg.2 hq
    have hrank : rankOf q ≤ rankOf p := by
      refine rankOf_le ?_
      zify
      rw [abs_of_neg hpnum, abs_of_neg hqnum]
      linarith
    rw [if_pos hp, if_pos hq]
    omega
  · rw [if_neg hq]
    by_cases hp : p < 0
    · rw [if_pos hp]
      omega
    · have hpnum : 0 ≤ p.num := Rat.num_nonneg.2 (not_lt.1 hp)
      have hqnum : 0 ≤ q.num := Rat.num_nonneg.2 (not_lt.1 hq)
      have hrank : rankOf p ≤ rankOf q := by
        refine rankOf_le ?_
        zify
        rwa [abs_of_nonneg hpnum, abs_of_nonneg hqnum]
      rw [if_neg hp]
      omega

/-- **Of two rationals, the double nearest to the smaller one is not above the other.** -/
theorem ofRat_le_ofRat {p q : Rat} (h : p ≤ q) : (ofRat p).le (ofRat q) = true := by
  rw [le, place?_ofRat, place?_ofRat]
  exact decide_eq_true (placeOf_mono h)

end Double

end Formula
