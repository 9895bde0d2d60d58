/-
# Lowest terms

A quotient of two integers is kept in lowest terms: both are divided by their greatest common
divisor, and the sign moves to the numerator. This is the form in which rationals are stored
(`Rational.ofQuotient`).
-/

namespace Formula

namespace Rational

/-- The numerator and the denominator of a quotient in lowest terms: both are divided by their
greatest common divisor, and a negative denominator hands its sign over. -/
def lowestTerms (p q : Int) : Int × Int :=
  let divisor : Int := Int.gcd p q
  let numerator := p.fdiv divisor
  let denominator := q.fdiv divisor
  if denominator < 0 then (-numerator, -denominator) else (numerator, denominator)

variable {p q : Int}

/-- Dividing by the greatest common divisor leaves nothing over. -/
theorem fdiv_gcd_mul_gcd (p q : Int) :
    p.fdiv (Int.gcd p q) * Int.gcd p q = p ∧ q.fdiv (Int.gcd p q) * Int.gcd p q = q :=
  ⟨Int.fdiv_mul_cancel_of_dvd (Int.gcd_dvd_left ..),
    Int.fdiv_mul_cancel_of_dvd (Int.gcd_dvd_right ..)⟩

/-- What is left of two integers has no common divisor. -/
theorem gcd_fdiv_gcd (hq : q ≠ 0) :
    Int.gcd (p.fdiv (Int.gcd p q)) (q.fdiv (Int.gcd p q)) = 1 := by
  rw [Int.fdiv_eq_ediv_of_dvd (Int.gcd_dvd_left ..), Int.fdiv_eq_ediv_of_dvd (Int.gcd_dvd_right ..)]
  exact Int.gcd_ediv_gcd_ediv_gcd_of_ne_zero_right hq

/-- The denominator in lowest terms is positive. -/
theorem lowestTerms_pos (hq : q ≠ 0) : 0 < (lowestTerms p q).2 := by
  have hne : q.fdiv (Int.gcd p q) ≠ 0 := by
    intro h
    have hcancel := (fdiv_gcd_mul_gcd p q).2
    rw [h, Int.zero_mul] at hcancel
    exact hq hcancel.symm
  simp only [lowestTerms]
  split <;> simp only <;> omega

/-- Lowest terms have no common divisor. -/
theorem coprime_lowestTerms (hq : q ≠ 0) :
    (lowestTerms p q).1.natAbs.Coprime (lowestTerms p q).2.natAbs := by
  have hgcd := gcd_fdiv_gcd (p := p) hq
  simp only [lowestTerms]
  split
  · rw [Int.natAbs_neg, Int.natAbs_neg]
    exact hgcd
  · exact hgcd

/-- **The quotient stays the same**: the products across are equal. -/
theorem lowestTerms_mul (p q : Int) : (lowestTerms p q).1 * q = p * (lowestTerms p q).2 := by
  obtain ⟨hp, hq⟩ := fdiv_gcd_mul_gcd p q
  have hcross : p.fdiv (Int.gcd p q) * q = p * q.fdiv (Int.gcd p q) := by
    calc p.fdiv (Int.gcd p q) * q
        = p.fdiv (Int.gcd p q) * (q.fdiv (Int.gcd p q) * Int.gcd p q) := by rw [hq]
      _ = p.fdiv (Int.gcd p q) * Int.gcd p q * q.fdiv (Int.gcd p q) := by
        rw [Int.mul_comm (q.fdiv _), Int.mul_assoc]
      _ = p * q.fdiv (Int.gcd p q) := by rw [hp]
  simp only [lowestTerms]
  split
  · rw [Int.neg_mul, Int.mul_neg, hcross]
  · exact hcross

/-- **The rational that a quotient of two integers is.** -/
def ofQuotient (p q : Int) (hq : q ≠ 0) : Rat where
  num := (lowestTerms p q).1
  den := (lowestTerms p q).2.natAbs
  den_nz := Int.natAbs_ne_zero.2 (Int.ne_of_gt (lowestTerms_pos hq))
  reduced := coprime_lowestTerms hq

end Rational

end Formula
