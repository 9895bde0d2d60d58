/-
# Convergents of inexact remainders

The terms of a continued fraction are the whole parts of its remainders, and each remainder is the
reciprocal of the fraction of the one before. Two neighbouring convergents together with a remainder
make up a number, which is the approximated one as long as the reciprocals are exact. **With
reciprocals off by a small factor, this number stays within the product of these factors**
(`Follows.next`), and a convergent is as close as the inverse of its numerator times its denominator
(`Follows.abs_sub_le`). These grow as the Fibonacci numbers at least (`Grown.next`).
-/
import Formula.Rational.Approximation
import Mathlib.Algebra.Order.Field.Basic
import Mathlib.Data.Nat.Fib.Basic
import Mathlib.Data.Rat.Floor
import Mathlib.Tactic.FieldSimp
import Mathlib.Tactic.Positivity
import Mathlib.Tactic.Ring

namespace Formula

namespace Rational.Convergents

variable {c : Convergents} {a : Int} {n : Nat} {R S X : Rat}

/-! ## Neighbouring convergents -/

/-- Neighbouring convergents of a number that is not negative: their numbers are not negative
either, and their cross products are one apart. -/
structure Neighbours (c : Convergents) : Prop where
  p_nonneg : 0 ≤ c.p
  q_nonneg : 0 ≤ c.q
  p'_nonneg : 0 ≤ c.p'
  q'_nonneg : 0 ≤ c.q'
  cross : |c.p * c.q' - c.p' * c.q| = 1

/-- The convergents before the first term. -/
theorem neighbours_start : Neighbours start := by
  constructor <;> decide

/-- The convergents after the first term. -/
theorem next_start (a : Int) : start.next a = ⟨a, 1, 1, 0⟩ := by
  simp [Convergents.next, start]

/-- One more term. -/
theorem Neighbours.next (h : Neighbours c) (ha : 0 ≤ a) : Neighbours (c.next a) := by
  have hp := mul_nonneg ha h.p_nonneg
  have hq := mul_nonneg ha h.q_nonneg
  refine ⟨add_nonneg hp h.p'_nonneg, add_nonneg hq h.q'_nonneg, h.p_nonneg, h.q_nonneg, ?_⟩
  have hswap : (c.next a).p * (c.next a).q' - (c.next a).p' * (c.next a).q
      = -(c.p * c.q' - c.p' * c.q) := by
    simp only [Convergents.next]
    ring
  rw [hswap, abs_neg, h.cross]

/-- **How far the convergents have grown** when `n` terms followed the first one. -/
structure Grown (n : Nat) (c : Convergents) : Prop where
  le_p : (Nat.fib n : Int) ≤ c.p
  le_add : (Nat.fib (n + 1) : Int) ≤ c.p + c.p'
  le_q : (Nat.fib (n + 1) : Int) ≤ c.q
  le_q' : (Nat.fib n : Int) ≤ c.q'

/-- The first term may be zero. -/
theorem grown_first (ha : 0 ≤ a) : Grown 0 (start.next a) := by
  rw [next_start]
  constructor <;> simp [ha]

/-- Every further term is one at least. -/
theorem Grown.next (h : Grown n c) (hc : Neighbours c) (ha : 1 ≤ a) :
    Grown (n + 1) (c.next a) := by
  have hp : c.p ≤ a * c.p := le_mul_of_one_le_left hc.p_nonneg ha
  have hq : c.q ≤ a * c.q := le_mul_of_one_le_left hc.q_nonneg ha
  have hfib : (Nat.fib (n + 1 + 1) : Int) = Nat.fib n + Nat.fib (n + 1) := by
    rw [Nat.fib_add_two, Nat.cast_add]
  obtain ⟨hp', hadd, hq', hlast⟩ := h
  constructor <;> simp only [Convergents.next] <;> omega

/-- The numerator times the denominator grows as the Fibonacci numbers at least. -/
theorem Grown.fib_mul_le (h : Grown n c) :
    ((Nat.fib n * Nat.fib (n + 1) : Nat) : Int) ≤ c.p * c.q := by
  rw [Nat.cast_mul]
  exact mul_le_mul h.le_p h.le_q (Nat.cast_nonneg _) ((Nat.cast_nonneg _).trans h.le_p)

/-! ## What the convergents make up with a remainder -/

/-- The numerator of what the convergents and a remainder make up. -/
def num (c : Convergents) (R : Rat) : Rat := c.p * R + c.p'

/-- The denominator of what the convergents and a remainder make up. -/
def den (c : Convergents) (R : Rat) : Rat := c.q * R + c.q'

/-- The numerator, as the next one and a rest. -/
theorem num_eq (c : Convergents) (R : Rat) :
    c.num R = (c.next ⌊R⌋).p + c.p * Int.fract R := by
  simp only [num, Convergents.next, Int.fract]
  push_cast
  ring

/-- The denominator, as the next one and a rest. -/
theorem den_eq (c : Convergents) (R : Rat) :
    c.den R = (c.next ⌊R⌋).q + c.q * Int.fract R := by
  simp only [den, Convergents.next, Int.fract]
  push_cast
  ring

/-- The next numerator is not above the one that is made up. -/
theorem p_next_le_num (h : Neighbours c) (R : Rat) : ((c.next ⌊R⌋).p : Rat) ≤ c.num R := by
  rw [num_eq, le_add_iff_nonneg_right]
  exact mul_nonneg (Int.cast_nonneg h.p_nonneg) (Int.fract_nonneg R)

/-- The next denominator is not above the one that is made up. -/
theorem q_next_le_den (h : Neighbours c) (R : Rat) : ((c.next ⌊R⌋).q : Rat) ≤ c.den R := by
  rw [den_eq, le_add_iff_nonneg_right]
  exact mul_nonneg (Int.cast_nonneg h.q_nonneg) (Int.fract_nonneg R)

/-- The next convergent is as far from what is made up as the fraction that it leaves. -/
theorem abs_cross (h : Neighbours c) (R : Rat) :
    |(c.next ⌊R⌋).p * c.den R - (c.next ⌊R⌋).q * c.num R| = Int.fract R := by
  have hcross : (c.next ⌊R⌋).p * c.den R - (c.next ⌊R⌋).q * c.num R
      = -((c.p * c.q' - c.p' * c.q : Int) : Rat) * Int.fract R := by
    simp only [num, den, Convergents.next, Int.fract]
    push_cast
    ring
  rw [hcross, abs_mul, abs_neg, ← Int.cast_abs, h.cross, Int.cast_one, one_mul,
    abs_of_nonneg (Int.fract_nonneg R)]

/-! ## Inexact remainders -/

/-- **What is made up follows a number** within a factor. -/
structure Follows (X factor : Rat) (c : Convergents) (R : Rat) : Prop where
  num_le : c.num R ≤ factor * (X * c.den R)
  le_num : X * c.den R ≤ factor * c.num R

/-- Before the first term, the number itself is the remainder. -/
theorem follows_start (X : Rat) : Follows X 1 start X := by
  constructor <;> simp [num, den, start]

/-- A product with an inexact reciprocal. -/
theorem inexact_bounds {N P M f d error : Rat} (hM : M * f = N + P * d) (hd : |d| ≤ error)
    (hP : 0 ≤ P) (hPN : P ≤ N) : (1 - error) * N ≤ M * f ∧ M * f ≤ (1 + error) * N := by
  have herror : 0 ≤ error := (abs_nonneg d).trans hd
  have hrest : |P * d| ≤ N * error := by
    rw [abs_mul, abs_of_nonneg hP]
    exact mul_le_mul hPN hd (abs_nonneg d) (hP.trans hPN)
  obtain ⟨hlow, hhigh⟩ := abs_le.1 hrest
  constructor <;> linarith

/-- One inexact step keeps an inequality, within one more factor. -/
theorem le_mul_step {A B A' B' factor step error : Rat} (h : A ≤ factor * B)
    (hA : A' ≤ (1 + error) * A) (hB : (1 - error) * B ≤ B') (hB0 : 0 ≤ B) (herror : 0 ≤ error)
    (hfactor : 0 ≤ factor) (hstep : 0 ≤ step) (hsteps : 1 + error ≤ step * (1 - error)) :
    A' ≤ factor * step * B' :=
  calc A' ≤ (1 + error) * A := hA
    _ ≤ (1 + error) * (factor * B) := mul_le_mul_of_nonneg_left h (by positivity)
    _ ≤ step * (1 - error) * (factor * B) := mul_le_mul_of_nonneg_right hsteps (by positivity)
    _ = factor * step * ((1 - error) * B) := by ring
    _ ≤ factor * step * B' := mul_le_mul_of_nonneg_left hB (by positivity)

/-- **One more term**, where the reciprocal of the fraction is off by a part of it. -/
theorem Follows.next {factor error step : Rat} (h : Follows X factor c R) (hc : Neighbours c)
    (hX : 0 ≤ X) (hR : 0 ≤ R) (hfactor : 0 ≤ factor) (hstep : 0 ≤ step)
    (hsteps : 1 + error ≤ step * (1 - error)) (hfract : 0 < Int.fract R)
    (hS : |S * Int.fract R - 1| ≤ error) : Follows X (factor * step) (c.next ⌊R⌋) S := by
  have hnext := hc.next (Int.floor_nonneg.2 hR)
  have hp : (0 : Rat) ≤ (c.next ⌊R⌋).p := Int.cast_nonneg hnext.p_nonneg
  have hq : (0 : Rat) ≤ (c.next ⌊R⌋).q := Int.cast_nonneg hnext.q_nonneg
  have hnum : (c.next ⌊R⌋).num S * Int.fract R
      = c.num R + (c.next ⌊R⌋).p * (S * Int.fract R - 1) := by
    rw [num_eq c, num, show (c.next ⌊R⌋).p' = c.p from rfl]
    ring
  have hden : (c.next ⌊R⌋).den S * Int.fract R
      = c.den R + (c.next ⌊R⌋).q * (S * Int.fract R - 1) := by
    rw [den_eq c, den, show (c.next ⌊R⌋).q' = c.q from rfl]
    ring
  obtain ⟨hlow, hhigh⟩ := inexact_bounds hnum hS hp (p_next_le_num hc R)
  obtain ⟨hlow', hhigh'⟩ := inexact_bounds hden hS hq (q_next_le_den hc R)
  have hnum0 : 0 ≤ c.num R := hp.trans (p_next_le_num hc R)
  have hden0 : 0 ≤ c.den R := hq.trans (q_next_le_den hc R)
  have herror : 0 ≤ error := (abs_nonneg _).trans hS
  constructor
  · refine le_of_mul_le_mul_right ?_ hfract
    have hscaled : (1 - error) * (X * c.den R) ≤ X * ((c.next ⌊R⌋).den S * Int.fract R) := by
      rw [mul_left_comm]
      exact mul_le_mul_of_nonneg_left hlow' hX
    have hle := le_mul_step h.num_le hhigh hscaled (mul_nonneg hX hden0) herror hfactor hstep hsteps
    rwa [mul_assoc _ (X * _), mul_assoc X]
  · refine le_of_mul_le_mul_right ?_ hfract
    have hscaled : X * ((c.next ⌊R⌋).den S * Int.fract R) ≤ (1 + error) * (X * c.den R) := by
      rw [mul_left_comm (1 + error)]
      exact mul_le_mul_of_nonneg_left hhigh' hX
    have hle := le_mul_step h.le_num hscaled hlow hnum0 herror hfactor hstep hsteps
    rwa [mul_assoc X, mul_assoc _ (num _ _)]

/-! ## How close a convergent is -/

/-- The distance of a fraction, from cross products and factors. -/
theorem abs_div_sub_le {N D P Q f factor bound : Rat} (hX : 0 < X) (hD : 0 < D) (hQ : 0 < Q)
    (hfactor : 1 ≤ factor) (hbound : 0 < bound) (hcross : |P * D - Q * N| ≤ f) (hPN : P ≤ N)
    (hnum : N ≤ factor * (X * D)) (hden : X * D ≤ factor * N) (hf : f * bound ≤ P * Q) :
    |P / Q - X| ≤ X * (factor - 1 + factor / bound) := by
  have hsplit : P / Q - X = (P * D - Q * N) / (Q * D) + (N - X * D) / D := by
    field_simp
    ring
  have hconvergent : |(P * D - Q * N) / (Q * D)| ≤ X * (factor / bound) := by
    rw [abs_div, abs_of_pos (mul_pos hQ hD), mul_div_assoc', div_le_div_iff₀ (mul_pos hQ hD) hbound]
    calc |P * D - Q * N| * bound ≤ f * bound := mul_le_mul_of_nonneg_right hcross hbound.le
      _ ≤ P * Q := hf
      _ ≤ factor * (X * D) * Q := mul_le_mul_of_nonneg_right (hPN.trans hnum) hQ.le
      _ = X * factor * (Q * D) := by ring
  have hdrift : |(N - X * D) / D| ≤ X * (factor - 1) := by
    have hN : 0 ≤ (factor - 1) * (X * D) := by
      apply mul_nonneg (by linarith) (by positivity)
    rw [abs_div, abs_of_pos hD, div_le_iff₀ hD, abs_le]
    constructor
    · rcases le_total N (X * D) with h | h
      · have := mul_le_mul_of_nonneg_left h (by linarith : 0 ≤ factor - 1)
        linarith
      · linarith
    · linarith
  rw [hsplit, mul_add, add_comm (X * (factor - 1))]
  exact (abs_add_le _ _).trans (add_le_add hconvergent hdrift)

/-- **The next convergent is close** as soon as its numerator times its denominator is large against
the fraction that it leaves. -/
theorem Follows.abs_sub_le {factor bound : Rat} (h : Follows X factor c R) (hc : Neighbours c)
    (hX : 0 < X) (hfactor : 1 ≤ factor) (hbound : 0 < bound) (hq : 0 < (c.next ⌊R⌋).q)
    (hlarge : Int.fract R * bound ≤ (c.next ⌊R⌋).p * (c.next ⌊R⌋).q) :
    |(c.next ⌊R⌋).p / (c.next ⌊R⌋).q - X| ≤ X * (factor - 1 + factor / bound) := by
  have hq' : (0 : Rat) < (c.next ⌊R⌋).q := Int.cast_pos.2 hq
  exact abs_div_sub_le hX (hq'.trans_le (q_next_le_den hc R)) hq' hfactor hbound
    (abs_cross hc R).le (p_next_le_num hc R) h.num_le h.le_num hlarge

/-- No convergent is far above the number. -/
theorem Follows.div_le {factor : Rat} (h : Follows X factor c R) (hc : Neighbours c)
    (hq : 0 < (c.next ⌊R⌋).q) :
    ((c.next ⌊R⌋).p : Rat) / (c.next ⌊R⌋).q ≤ factor * X + 1 := by
  have hq' : (1 : Rat) ≤ (c.next ⌊R⌋).q := by exact_mod_cast hq
  have hden : 1 ≤ c.den R := hq'.trans (q_next_le_den hc R)
  have hcross := (abs_le.1 (abs_cross hc R).le).2
  have hproduct : 1 ≤ (c.next ⌊R⌋).q * c.den R := one_le_mul_of_one_le_of_one_le hq' hden
  rw [div_le_iff₀ (zero_lt_one.trans_le hq')]
  refine le_of_mul_le_mul_right ?_ (zero_lt_one.trans_le hden)
  calc (c.next ⌊R⌋).p * c.den R ≤ (c.next ⌊R⌋).q * c.num R + 1 := by
        linarith [Int.fract_lt_one R]
    _ ≤ (c.next ⌊R⌋).q * (factor * (X * c.den R)) + (c.next ⌊R⌋).q * c.den R := by
        apply add_le_add _ hproduct
        exact mul_le_mul_of_nonneg_left h.num_le (zero_le_one.trans hq')
    _ = (factor * X + 1) * (c.next ⌊R⌋).q * c.den R := by ring

end Rational.Convergents

end Formula
