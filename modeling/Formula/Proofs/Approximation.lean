/-
# Approximations of doubles

The continued fraction of a double is computed with inexact reciprocals. Its convergents come close
all the same: after twenty terms at most, one is within the tolerance (`exists_converge`). **So every
double is approximated but those whose fraction has no reciprocal**: up to `2 ^ -1024` and away from
zero, the first reciprocal is infinite, and its whole part overflows (`approximates`).
-/
import Formula.Complex.Text
import Formula.Proofs.Convergents
import Formula.Proofs.WholeParts
import Mathlib.Data.Sign.Basic

namespace Formula

namespace Double

variable {x y : Double} {q X : Rat} {n : Int}

/-- The least positive double. -/
def least : Double := finite false 1 (by decide)

/-! ## Doubles of integers and quotients -/

/-- The double nearest to an integer is the one nearest to that rational. -/
theorem ofRat_intCast (n : Int) : ofRat n = ofInt n := by
  simp only [ofRat, ofInt, Rat.num_intCast, Rat.den_intCast, Int.cast_lt_zero]

/-- An integer that is the value of a double keeps its value. -/
theorem toRat?_ofInt (hy : y.toRat? = some (n : Rat)) : (ofInt n).toRat? = some (n : Rat) := by
  rw [← ofRat_intCast]
  exact (rounds_ofRat _).toRat? hy

/-- A rational below `2 ^ 60` has a finite double. -/
theorem isFinite_ofRat (hq : 0 ≤ q) (hle : q ≤ (2 ^ 60 : Nat)) : (ofRat q).isFinite = true := by
  obtain ⟨y, hy⟩ := exists_toRat?_two_pow (k := 60) (by decide)
  refine (rounds_ofRat q).isFinite hy ?_
  rw [abs_of_nonneg hq]
  exact hle

/-- The double of an integer, where it is finite. -/
theorem ofInt?_of_isFinite (h : (ofInt n).isFinite = true) : ofInt? n = some (ofInt n) := if_pos h

/-- The double of a quotient, where it is finite. -/
theorem ofQuotient?_of_isFinite {p d : Int} (hp : 0 ≤ p) (hd : 0 < d)
    (h : (ofRat ((p : Rat) / d)).isFinite = true) : ofQuotient? p d = some (ofRat ((p : Rat) / d)) := by
  obtain ⟨m, rfl⟩ := Int.eq_ofNat_of_zero_le hp
  obtain ⟨k, rfl⟩ := Int.eq_ofNat_of_zero_le hd.le
  rw [Int.cast_natCast, Int.cast_natCast] at h ⊢
  rw [ofQuotient?_natCast (by omega), if_pos h]

/-- A positive value is a unit at least. -/
theorem unit_le (hx : x.toRat? = some X) (hX : 0 < X) : 1 / (2 ^ 1074 : Nat) ≤ X := by
  obtain ⟨r, hr, rfl⟩ := exists_magnitude hx hX.le
  rw [magnitude] at hX ⊢
  have hunits : 1 ≤ unitsOfRank r := by
    rw [Nat.one_le_iff_ne_zero]
    intro h
    rw [h, Nat.cast_zero, zero_div] at hX
    exact hX.false
  exact div_le_div_of_nonneg_right (by exact_mod_cast hunits) (two_pow_pos_rat _).le

end Double

namespace Number

variable {x : Double} {X : Rat}

/-- A double counts as zero exactly if its value is zero. -/
theorem isZero_float_iff (hx : x.toRat? = some X) : (float x).isZero = true ↔ X = 0 := by
  rw [isZero_float, Double.isZero, Double.eqv_iff_of_toRat? hx Double.toRat?_zero, Int.cast_zero]

/-- The double of an integer, where there is one. -/
theorem toDouble_integer {y : Double} {n : Int} (h : Double.ofInt? n = some y) :
    (integer n).toDouble = .ok y := by
  rw [toDouble, h]
  rfl

/-- A difference of a double and an integer. -/
theorem sub_float_integer {y : Double} {n : Int} (h : (integer n).toDouble = .ok y) :
    (float x).sub (integer n) = .ok (float (x.sub y)) := by
  have hcombine : (float x).sub (integer n) = (do
      let a ← (float x).toDouble
      let b ← (integer n).toDouble
      return float (a.sub b)) := rfl
  rw [hcombine, h]
  rfl

/-- The reciprocal of a double. -/
theorem one_div_float : (integer 1).div (float x) = .ok (float (Double.one.div x)) := by
  have hone : (integer 1).toDouble = .ok Double.one := by decide +kernel
  have hcombine : (integer 1).div (float x) = (do
      let a ← (integer 1).toDouble
      let b ← (float x).toDouble
      return float (a / b)) := rfl
  rw [hcombine, hone]
  rfl

/-- A double is below zero exactly if its value is. -/
theorem lt_zero_float (hx : x.toRat? = some X) : (float x).lt (integer 0) = true ↔ X < 0 := by
  obtain ⟨a, ha, -, rfl⟩ := Double.toRat?_eq_some_iff.1 hx
  rw [float_lt_integer Double.toRat?_zero, Double.lt_iff ha Double.place?_zero,
    ← Double.valueAt_zero, Double.valueAt_lt]

end Number

namespace Rational

open Double Convergents

variable {x r : Double} {q X R : Rat} {c : Convergents} {n k : Nat}

/-! ## Within the tolerance -/

/-- The standard tolerance, relative to the magnitude. -/
def tolerance : Double := Double.ofScientific false 1 (-7)

/-- The value of the tolerance. -/
theorem toRat?_tolerance :
    tolerance.toRat? = some (944473296573929 / 9444732965739290427392) := by decide +kernel

/-- **Whether a rational is within the tolerance** of a magnitude, in rounded arithmetic. -/
def IsClose (x : Double) (q : Rat) : Prop :=
  (x.sub (.ofRat q)).abs.le (x.mul tolerance) = true

instance (x : Double) (q : Rat) : Decidable (IsClose x q) := inferInstanceAs (Decidable (_ = true))

/-- Past the limit, half a unit is a small part of a magnitude. -/
theorem half_unit_le_of_limit (hlimit : reciprocalLimit < X) :
    1 / (2 * (2 ^ 1074 : Nat)) ≤ X / (2 ^ 51 : Nat) := by
  have hsplit : ((2 ^ 1074 : Nat) : Rat) = (2 ^ 1024 : Nat) * (2 ^ 50 : Nat) := by
    rw [← Nat.cast_mul, ← Nat.pow_add]
  have hunit : 1 / (2 * ((2 ^ 1074 : Nat) : Rat)) = reciprocalLimit / (2 ^ 51 : Nat) := by
    rw [hsplit, reciprocalLimit, div_div, Nat.pow_succ 2 50, Nat.cast_mul (2 ^ 50), Nat.cast_ofNat]
    ring
  rw [hunit]
  exact div_le_div_of_nonneg_right hlimit.le (two_pow_pos_rat _).le

/-- A rational off by one part in `2 ^ 24` is close. -/
theorem isClose_of_abs_sub_le (hx : x.toRat? = some X) (hlimit : reciprocalLimit < X) (hq : 0 ≤ q)
    (hfinite : (ofRat q).isFinite = true) (h : |q - X| ≤ X / (2 ^ 24 : Nat)) : IsClose x q := by
  have hX : 0 < X := reciprocalLimit_pos.trans hlimit
  obtain ⟨V, hV, hnear⟩ := (rounds_ofRat q).exists_near hq hfinite
  refine (rounds_sub hx hV).abs.le (rounds_mul hx toRat?_tolerance) ?_
  have hunit := half_unit_le_of_limit hlimit
  have hle : q ≤ 2 * X := by
    have hhigh := (abs_le.1 h).2
    push_cast at hhigh
    linarith
  calc |X - V| = |(X - q) + (q - V)| := by rw [sub_add_sub_cancel]
    _ ≤ |X - q| + |q - V| := abs_add_le _ _
    _ = |q - X| + |V - q| := by rw [abs_sub_comm X q, abs_sub_comm q V]
    _ ≤ X / (2 ^ 24 : Nat) + (q / (2 ^ 53 : Nat) + X / (2 ^ 51 : Nat)) := by
      apply add_le_add h
      exact hnear.trans (add_le_add_right hunit _)
    _ ≤ X * (944473296573929 / 9444732965739290427392) := by
      push_cast
      linarith

/-- Zero is not close to a positive magnitude. -/
theorem not_isClose_zero (hx : x.toRat? = some X) (hX : 0 < X) : ¬ IsClose x 0 := by
  have hzero := (rounds_ofRat ((0 : Int) : Rat)).toRat? toRat?_zero
  have hgap := (rounds_sub hx hzero).abs
  rw [Int.cast_zero, sub_zero, abs_of_pos hX] at hgap
  have hmargin := rounds_mul hx toRat?_tolerance
  have hpos : 0 ≤ X * (944473296573929 / 9444732965739290427392) := by positivity
  have hfinite := hmargin.isFinite hx (by rw [abs_of_nonneg hpos]; linarith)
  obtain ⟨V, hV, hnear⟩ := hmargin.exists_near hpos hfinite
  rw [IsClose, le_iff_of_toRat? (hgap.toRat? hx) hV, not_le]
  have hhalf : 1 / (2 * ((2 ^ 1074 : Nat) : Rat)) ≤ X / 2 := by
    rw [mul_comm, ← div_div]
    exact div_le_div_of_nonneg_right (unit_le hx hX) (by decide)
  have hsmall : X * (944473296573929 / 9444732965739290427392) / (2 ^ 53 : Nat)
      ≤ X * (944473296573929 / 9444732965739290427392) :=
    div_le_self hpos (by exact_mod_cast Nat.one_le_two_pow)
  linarith [(abs_le.1 hnear).2]

/-! ## One term -/

/-- A computation goes on with what was returned. -/
theorem ok_bind {α β : Type} (a : α) (f : α → Except Error β) : (Except.ok a >>= f) = f a := rfl

/-- One term, for the double of a whole part. -/
theorem converge_float {v y margin : Double} {term : Int} (hfloor : r.floor? = some term)
    (hterm : (Number.integer term).toDouble = .ok y)
    (hv : ofQuotient? (c.next term).p (c.next term).q = some v) (n : Nat) :
    converge (.float x) (.float margin) c (.float r) (n + 1)
      = if (x.sub v).abs.le margin || (Number.float (r.sub y)).isZero
        then .ok (Rat.divInt (c.next term).p (c.next term).q)
        else converge (.float x) (.float margin) (c.next term) (.float (one.div (r.sub y))) n := by
  have hfloor' : (Number.float r).floor = .ok term := by
    rw [Number.floor, hfloor]
    rfl
  have hgap : (Number.float x).sub (.float v) = .ok (.float (x.sub v)) := rfl
  rw [converge, hfloor', ok_bind]
  dsimp only
  rw [hv, Option.elim_some, ok_bind, hgap, ok_bind, Number.sub_float_integer hterm, ok_bind,
    Number.one_div_float, ok_bind, Number.abs, Number.le_float]
  rfl

/-- **One term of the continued fraction**, from a remainder that is the value of a double. -/
theorem converge_succ (margin : Double) (hr : r.toRat? = some R) (hR : 0 ≤ R)
    (hp : 0 ≤ (c.next ⌊R⌋).p) (hq : 0 < (c.next ⌊R⌋).q)
    (hfinite : (ofRat ((c.next ⌊R⌋).p / (c.next ⌊R⌋).q)).isFinite = true) (n : Nat) :
    ∃ f, f.toRat? = some (Int.fract R) ∧
      converge (.float x) (.float margin) c (.float r) (n + 1)
        = if (x.sub (ofRat ((c.next ⌊R⌋).p / (c.next ⌊R⌋).q))).abs.le margin = true
            ∨ Int.fract R = 0
          then .ok ((c.next ⌊R⌋).p / (c.next ⌊R⌋).q)
          else converge (.float x) (.float margin) (c.next ⌊R⌋) (.float (one.div f)) n := by
  obtain ⟨y, hy⟩ := exists_toRat?_floor hr hR
  have hterm := toRat?_ofInt hy
  obtain ⟨w, hw⟩ := exists_toRat?_fract hr hR
  have hrest : (r.sub (ofInt ⌊R⌋)).toRat? = some (Int.fract R) := (rounds_sub hr hterm).toRat? hw
  have hdouble := Number.toDouble_integer (ofInt?_of_isFinite (isFinite_of_toRat? hterm))
  refine ⟨_, hrest, ?_⟩
  rw [converge_float (floor?_of_toRat? hr) hdouble (ofQuotient?_of_isFinite hp hq hfinite)]
  simp only [Bool.or_eq_true, Number.isZero_float_iff hrest, Rat.divInt_eq_div]

/-! ## The run -/

/-- The factor by which an inexact reciprocal may move what the convergents make up. -/
def drift : Rat := 1 + 1 / (2 ^ 50 : Nat)

/-- The drift goes upwards. -/
theorem one_le_drift : 1 ≤ drift := by
  rw [drift]
  norm_num

/-- The drift covers an error of one part in `2 ^ 52` on both sides. -/
theorem drift_step : 1 + 1 / (2 ^ 52 : Nat) ≤ drift * (1 - 1 / (2 ^ 52 : Nat)) := by
  rw [drift]
  norm_num

/-- The drift of twenty terms is small. -/
theorem drift_pow_le (hk : k ≤ 20) : drift ^ k ≤ 1 + 1 / (2 ^ 40 : Nat) := by
  refine (pow_le_pow_right₀ one_le_drift hk).trans ?_
  rw [drift]
  norm_num

/-- The error of a reciprocal, as one of the product. -/
theorem abs_mul_sub_one_le {F S error : Rat} (hF : 0 < F) (h : |S - 1 / F| ≤ 1 / F / error) :
    |S * F - 1| ≤ 1 / error := by
  have hproduct : S * F - 1 = (S - 1 / F) * F := by
    field_simp
  rw [hproduct, abs_mul, abs_of_pos hF]
  calc |S - 1 / F| * F ≤ 1 / F / error * F := mul_le_mul_of_nonneg_right h hF.le
    _ = 1 / error := by field_simp

/-- **Where the continued fraction of a number stands** when `k` terms followed the first one. -/
structure Reached (X : Rat) (k : Nat) (c : Convergents) (R : Rat) : Prop where
  neighbours : Neighbours c
  grown : Grown k c
  follows : Follows X (drift ^ (k + 1)) c R
  one_le : 1 ≤ R

section Term

variable {factor : Rat} (hx : x.toRat? = some X) (hlimit : reciprocalLimit < X)
  (hX : X ≤ (2 ^ 53 : Int)) (hc : Neighbours c) (hfollows : Follows X factor c R)
  (hone : 1 ≤ factor) (hdrift : factor ≤ 1 + 1 / (2 ^ 40 : Nat)) (hq : 0 < (c.next ⌊R⌋).q)
  (hR : 0 ≤ R)

include hlimit hX hc hfollows hdrift hq hR

/-- The next convergent has a finite double. -/
theorem isFinite_next : (ofRat ((c.next ⌊R⌋).p / (c.next ⌊R⌋).q)).isFinite = true := by
  have hnext := hc.next (Int.floor_nonneg.2 hR)
  have hX0 := reciprocalLimit_pos.trans hlimit
  refine isFinite_ofRat (div_nonneg (Int.cast_nonneg hnext.p_nonneg) (Int.cast_nonneg hq.le)) ?_
  have hle := hfollows.div_le hc hq
  push_cast at hX hdrift ⊢
  nlinarith

include hx hone

/-- **The next convergent is close** if it has grown enough, or leaves no fraction. -/
theorem isClose_next
    (hlarge : Int.fract R * 20000000 ≤ (c.next ⌊R⌋).p * (c.next ⌊R⌋).q) :
    IsClose x ((c.next ⌊R⌋).p / (c.next ⌊R⌋).q) := by
  have hnext := hc.next (Int.floor_nonneg.2 hR)
  have hX0 := reciprocalLimit_pos.trans hlimit
  refine isClose_of_abs_sub_le hx hlimit
    (div_nonneg (Int.cast_nonneg hnext.p_nonneg) (Int.cast_nonneg hq.le))
    (isFinite_next hlimit hX hc hfollows hdrift hq hR) ?_
  refine (hfollows.abs_sub_le hc hX0 hone (by norm_num) hq hlarge).trans ?_
  rw [div_eq_mul_one_div X]
  refine mul_le_mul_of_nonneg_left ?_ hX0.le
  push_cast at hdrift ⊢
  linarith

/-- **What one term does**: the search ends with a close convergent, or it goes on with a remainder
of one at least, and the next convergent has not grown far. -/
theorem converge_cases (hr : r.toRat? = some R) (hRlimit : reciprocalLimit < R) (n : Nat) :
    (∃ q, converge (.float x) (.float (x.mul tolerance)) c (.float r) (n + 1) = .ok q ∧ 0 ≤ q
      ∧ IsClose x q) ∨
    (∃ s S, converge (.float x) (.float (x.mul tolerance)) c (.float r) (n + 1)
        = converge (.float x) (.float (x.mul tolerance)) (c.next ⌊R⌋) (.float s) n ∧
      s.toRat? = some S ∧ 1 ≤ S ∧ Follows X (factor * drift) (c.next ⌊R⌋) S ∧
      (c.next ⌊R⌋).p * (c.next ⌊R⌋).q < 20000000) := by
  have hnext := hc.next (Int.floor_nonneg.2 hR)
  have hfinite := isFinite_next hlimit hX hc hfollows hdrift hq hR
  have hclose := isClose_next hx hlimit hX hc hfollows hone hdrift hq hR
  have hquotient : (0 : Rat) ≤ (c.next ⌊R⌋).p / (c.next ⌊R⌋).q :=
    div_nonneg (Int.cast_nonneg hnext.p_nonneg) (Int.cast_nonneg hq.le)
  obtain ⟨f, hf, hstep⟩ :=
    converge_succ (x := x) (x.mul tolerance) hr hR hnext.p_nonneg hq hfinite n
  rw [hstep]
  by_cases hdone : IsClose x ((c.next ⌊R⌋).p / (c.next ⌊R⌋).q)
  · exact .inl ⟨_, if_pos (.inl hdone), hquotient, hdone⟩
  · have hlarge := fun h => hdone (hclose h)
    have hfract : Int.fract R ≠ 0 := by
      intro h
      apply hlarge
      rw [h, zero_mul]
      exact mul_nonneg (Int.cast_nonneg hnext.p_nonneg) (Int.cast_nonneg hq.le)
    have hpos : 0 < Int.fract R := lt_of_le_of_ne (Int.fract_nonneg R) hfract.symm
    obtain ⟨S, hS, hone', hnear⟩ :=
      exists_reciprocal hf (limit_lt_fract hr hRlimit hfract) (Int.fract_lt_one R).le
    refine .inr ⟨_, S, if_neg (not_or.2 ⟨hdone, hfract⟩), hS, hone', ?_, ?_⟩
    · exact hfollows.next hc (reciprocalLimit_pos.trans hlimit).le hR (zero_le_one.trans hone)
        (zero_le_one.trans one_le_drift) drift_step hpos (abs_mul_sub_one_le hpos hnear)
    · by_contra hgrown
      apply hlarge
      have hcast : (20000000 : Rat) ≤ (c.next ⌊R⌋).p * (c.next ⌊R⌋).q := by
        exact_mod_cast not_lt.1 hgrown
      refine (mul_le_of_le_one_left ?_ (Int.fract_lt_one R).le).trans hcast
      norm_num

end Term

/-- **From the first term on, the search ends** with a close convergent, after nineteen further
terms at most. -/
theorem exists_converge_of_reached (hx : x.toRat? = some X) (hlimit : reciprocalLimit < X)
    (hX : X ≤ (2 ^ 53 : Int)) (n : Nat) : ∀ {k c r R}, Reached X k c R → r.toRat? = some R →
      k < 19 → 19 ≤ k + n → ∃ q, converge (.float x) (.float (x.mul tolerance)) c (.float r) n
        = .ok q ∧ 0 ≤ q ∧ IsClose x q := by
  induction n with
  | zero =>
    intro k c r R _ _ hk hn
    omega
  | succ n ih =>
    intro k c r R hreached hr hk hn
    obtain ⟨hc, hgrown, hfollows, hone⟩ := hreached
    have hfloor : 1 ≤ ⌊R⌋ := Int.le_floor.2 (by exact_mod_cast hone)
    have hgrown' := hgrown.next hc hfloor
    have hq : 0 < (c.next ⌊R⌋).q := by
      have hfib : 0 < Nat.fib (k + 1 + 1) := Nat.fib_pos.2 (by omega)
      have := hgrown'.le_q
      omega
    have hlimit' : reciprocalLimit < R := reciprocalLimit_lt_one.trans_le hone
    rcases converge_cases hx hlimit hX hc hfollows (one_le_pow₀ one_le_drift)
      (drift_pow_le (by omega)) hq (zero_le_one.trans hone) hr hlimit' n with hdone | hmore
    · exact hdone
    · obtain ⟨s, S, hstep, hs, hS, hfollows', hsmall⟩ := hmore
      rw [← pow_succ] at hfollows'
      have hk' : k + 1 < 19 := by
        -- the nineteenth convergent has grown enough
        by_contra hlast
        obtain rfl : k = 18 := by omega
        have hfib := hgrown'.fib_mul_le
        have hvalue : Nat.fib 19 * Nat.fib 20 = 28284465 := by decide
        rw [hvalue] at hfib
        omega
      obtain ⟨q, hq', hresult⟩ := ih
        ⟨hc.next (by omega), hgrown', hfollows', hS⟩ hs hk' (by omega)
      exact ⟨q, hstep.trans hq', hresult⟩

/-! ## The search -/

/-- A whole double is its own approximation. -/
theorem converge_whole (margin : Double) (hx : x.toRat? = some X) (hX : 0 ≤ X)
    (hfract : Int.fract X = 0) (n : Nat) :
    converge (.float x) (.float margin) .start (.float x) (n + 1) = .ok X := by
  have hfloor := Int.floor_nonneg.2 hX
  have hvalue : ((start.next ⌊X⌋).p : Rat) / (start.next ⌊X⌋).q = X := by
    rw [next_start, Int.cast_one, div_one]
    exact (Int.self_sub_fract X).symm.trans (by rw [hfract, sub_zero])
  have hfinite : (ofRat ((start.next ⌊X⌋).p / (start.next ⌊X⌋).q)).isFinite = true := by
    rw [hvalue]
    exact isFinite_of_toRat? ((rounds_ofRat X).toRat? hx)
  have hq : 0 < (start.next ⌊X⌋).q := by
    rw [next_start]
    exact zero_lt_one
  obtain ⟨f, -, hstep⟩ := converge_succ (x := x) margin hx hX
    (neighbours_start.next hfloor).p_nonneg hq hfinite n
  rw [hstep, if_pos (.inr hfract), hvalue]

/-- A magnitude is close to itself. -/
theorem isClose_self (hx : x.toRat? = some X) (hX : 0 ≤ X) : IsClose x X := by
  have hgap := (rounds_sub hx ((rounds_ofRat X).toRat? hx)).abs
  refine hgap.le (rounds_mul hx toRat?_tolerance) ?_
  rw [sub_self, abs_zero]
  positivity

/-- **The search ends with a close convergent** past the limit. -/
theorem exists_converge (hx : x.toRat? = some X) (hlimit : reciprocalLimit < X) :
    ∃ q, converge (.float x) (.float (x.mul tolerance)) .start (.float x) termLimit = .ok q
      ∧ 0 ≤ q ∧ IsClose x q := by
  have hX : 0 < X := reciprocalLimit_pos.trans hlimit
  by_cases hfract : Int.fract X = 0
  · exact ⟨X, converge_whole _ hx hX.le hfract 63, hX.le, isClose_self hx hX.le⟩
  · have hsmall : X ≤ (2 ^ 53 : Int) := by
      by_contra hlarge
      refine hfract (fract_eq_zero_of_large hx ?_)
      push_cast at hlarge ⊢
      linarith
    have hfloor := Int.floor_nonneg.2 hX.le
    rcases converge_cases hx hlimit hsmall neighbours_start (follows_start X) le_rfl
      (by norm_num) (by rw [next_start]; exact zero_lt_one) hX.le hx hlimit 63 with hdone | hmore
    · exact hdone
    · obtain ⟨s, S, hstep, hs, hS, hfollows, -⟩ := hmore
      rw [one_mul, ← pow_one drift] at hfollows
      obtain ⟨q, hq, hresult⟩ := exists_converge_of_reached hx hlimit hsmall 63
        ⟨neighbours_start.next hfloor, grown_first hfloor, hfollows, hS⟩ hs (by decide) (by decide)
      exact ⟨q, hstep.trans hq, hresult⟩

/-- An infinite remainder overflows. -/
theorem converge_of_not_isFinite (x margin : Number) (c : Convergents)
    (hr : r.isFinite = false) (n : Nat) :
    converge x margin c (.float r) (n + 1) = .error .overflow := by
  have hfloor : (Number.float r).floor = .error .overflow := by
    cases r with
    | finite => cases hr
    | _ => rfl
  rw [converge, hfloor]
  rfl

/-- **The search overflows** up to the limit. -/
theorem converge_eq_overflow (hx : x.toRat? = some X) (hX : 0 < X) (hle : X ≤ reciprocalLimit) :
    converge (.float x) (.float (x.mul tolerance)) .start (.float x) termLimit
      = .error .overflow := by
  have hone : X < 1 := hle.trans_lt reciprocalLimit_lt_one
  have hfloor : ⌊X⌋ = 0 := Int.floor_eq_zero_iff.2 ⟨hX.le, hone⟩
  have hfract : Int.fract X = X := Int.fract_eq_self.2 ⟨hX.le, hone⟩
  have hzero : ((start.next ⌊X⌋).p : Rat) / (start.next ⌊X⌋).q = 0 := by
    rw [hfloor, next_start, Int.cast_zero, zero_div]
  have hfinite : (ofRat ((start.next ⌊X⌋).p / (start.next ⌊X⌋).q)).isFinite = true := by
    rw [hzero]
    exact isFinite_ofRat le_rfl (by norm_num)
  have hq : 0 < (start.next ⌊X⌋).q := by
    rw [next_start]
    exact zero_lt_one
  obtain ⟨f, hf, hstep⟩ := converge_succ (x := x) (x.mul tolerance) hx hX.le
    (neighbours_start.next hfloor.ge).p_nonneg hq hfinite 63
  have hmore : ¬ ((x.sub (ofRat 0)).abs.le (x.mul tolerance) = true ∨ X = 0) :=
    not_or.2 ⟨not_isClose_zero hx hX, hX.ne'⟩
  rw [hzero, hfract, if_neg hmore] at hstep
  rw [hfract] at hf
  refine hstep.trans ?_
  exact converge_of_not_isFinite _ _ _ (reciprocal_overflows hf hX hle) 62

/-! ## Approximations of doubles -/

/-- **Whether a value can be approximated**: it is zero, or its magnitude is past the limit. -/
def Approximable (X : Rat) : Prop := X = 0 ∨ reciprocalLimit < |X|

/-- The approximation of a double, by the search from its magnitude. -/
theorem approximateClosely_float (hx : x.toRat? = some X) : approximateClosely (.float x)
    = if X = 0 then .ok 0
      else (converge (.float x.abs) (.float (x.abs.mul tolerance)) .start (.float x.abs)
        termLimit).map fun q => if X < 0 then -q else q := by
  have hdouble : (Number.float x).toDouble = .ok x := rfl
  have hmargin : (Number.float x).abs.mul standardTolerance
      = .ok (.float (x.abs.mul tolerance)) := rfl
  have habs : (Number.float x).abs = .float x.abs := rfl
  rw [approximateClosely, approximate, hdouble, ok_bind, isFinite_of_toRat? hx]
  dsimp only
  rw [if_neg (by decide), hmargin, ok_bind, habs]
  simp only [Number.isZero_float_iff hx, Number.lt_zero_float hx]
  split
  · rfl
  · cases converge (.float x.abs) (.float (x.abs.mul tolerance)) start (.float x.abs) termLimit
    · rfl
    · rfl

/-- What is approximated has the sign of the value and is close to it. -/
theorem exists_approximateClosely (hx : x.toRat? = some X) (h : Approximable X) :
    ∃ q, approximateClosely (.float x) = .ok q ∧ SignType.sign q = SignType.sign X ∧
      IsClose x.abs |q| := by
  rw [approximateClosely_float hx]
  by_cases hX : X = 0
  · subst hX
    refine ⟨0, if_pos rfl, rfl, ?_⟩
    have habs := toRat?_abs hx
    rw [abs_zero] at habs ⊢
    exact isClose_self habs le_rfl
  · have hpos : 0 < |X| := abs_pos.2 hX
    obtain ⟨q, hq, hnonneg, hclose⟩ := exists_converge (toRat?_abs hx) (h.resolve_left hX)
    have hq0 : q ≠ 0 := by
      rintro rfl
      exact not_isClose_zero (toRat?_abs hx) hpos hclose
    have hqpos : 0 < q := lt_of_le_of_ne hnonneg hq0.symm
    refine ⟨if X < 0 then -q else q, ?_, ?_⟩
    · rw [if_neg hX, hq]
      rfl
    · rcases lt_or_gt_of_ne hX with hneg | hpos'
      · rw [if_pos hneg, abs_neg, abs_of_pos hqpos, sign_neg hneg, sign_neg (neg_neg_of_pos hqpos)]
        exact ⟨rfl, hclose⟩
      · rw [if_neg hpos'.not_gt, abs_of_pos hqpos, sign_pos hpos', sign_pos hqpos]
        exact ⟨rfl, hclose⟩

/-- What is not approximated overflows. -/
theorem approximateClosely_eq_overflow (hx : x.toRat? = some X) (h : ¬ Approximable X) :
    approximateClosely (.float x) = .error .overflow := by
  obtain ⟨hX, hle⟩ := not_or.1 h
  rw [approximateClosely_float hx, if_neg hX,
    converge_eq_overflow (toRat?_abs hx) (abs_pos.2 hX) (not_lt.1 hle)]
  rfl

end Rational

namespace Complex

open Double Rational

variable {x y : Double} {X Y : Rat}

/-! ## Texts of complex numbers -/

/-- The text of a part with the approximation `q`. -/
def shownPart (plus : Bool) (x : Double) (q : Rat) : String :=
  if q.den ≤ largestDenominator then
    if plus && decide (0 ≤ q) then "+" ++ ratText q else ratText q
  else x.fixedText 6 plus

/-- The text of a finite part is that of its approximation. -/
theorem partText_float (plus : Bool) (hx : x.isFinite = true) :
    partText plus (.float x) = (approximateClosely (.float x)).map (shownPart plus x) := by
  have hdouble : (Number.float x).toDouble = .ok x := rfl
  rw [partText, hdouble, ok_bind]
  simp only [hx, if_true]
  cases approximateClosely (.float x) with
  | error e => rfl
  | ok q =>
    rw [ok_bind, Except.map, shownPart]
    split
    · split <;> rfl
    · rfl

/-- A finite part has a text exactly if it can be approximated. -/
theorem exists_partText_iff (plus : Bool) (hx : x.toRat? = some X) :
    (∃ t, partText plus (.float x) = .ok t) ↔ Approximable X := by
  rw [partText_float plus (isFinite_of_toRat? hx)]
  by_cases h : Approximable X
  · obtain ⟨q, hq, -⟩ := exists_approximateClosely hx h
    rw [hq]
    exact iff_of_true ⟨_, rfl⟩ h
  · rw [approximateClosely_eq_overflow hx h]
    refine iff_of_false ?_ h
    rintro ⟨t, ht⟩
    cases ht

/-- Zero, one and minus one can be approximated. -/
theorem approximable_of_abs (h : X = 0 ∨ |X| = 1) : Approximable X := by
  refine h.imp_right fun hone => ?_
  rw [hone]
  exact reciprocalLimit_lt_one

/-- **A complex number with finite parts has a text** exactly if both parts can be approximated. -/
theorem exists_text_iff (hx : x.toRat? = some X) (hy : y.toRat? = some Y) :
    (∃ t, text ⟨x, y⟩ = .ok t) ↔ Approximable X ∧ Approximable Y := by
  rw [← exists_partText_iff false hx]
  cases hre : partText false (.float x) with
  | error e =>
    refine iff_of_false ?_ ?_
    · rintro ⟨t, ht⟩
      rw [text, hre] at ht
      cases ht
    · rintro ⟨⟨t, ht⟩, -⟩
      cases ht
  | ok re =>
    have hre' : ∃ t, Except.ok (ε := Error) re = .ok t := ⟨re, rfl⟩
    rw [text, hre, ok_bind, and_iff_right hre']
    dsimp only
    generalize (if x.isZero = true then "" else re) = shown
    split
    · rename_i hzero
      have hY := (eqv_iff_of_toRat? hy toRat?_zero).1 hzero
      exact iff_of_true ⟨_, rfl⟩ (approximable_of_abs (.inl hY))
    · split
      · rename_i hone
        have hY := (eqv_iff_of_toRat? hy toRat?_one).1 hone
        exact iff_of_true ⟨_, rfl⟩ (approximable_of_abs (.inr (by simp [hY])))
      · split
        · rename_i hone
          have hY := (eqv_iff_of_toRat? hy (toRat?_neg toRat?_one)).1 hone
          exact iff_of_true ⟨_, rfl⟩ (approximable_of_abs (.inr (by simp [hY])))
        · rw [← exists_partText_iff (!x.isZero) hy]
          cases partText (!x.isZero) (.float y) with
          | error e => exact iff_of_false (by rintro ⟨t, ht⟩; cases ht) (by rintro ⟨t, ht⟩; cases ht)
          | ok im => exact iff_of_true ⟨_, rfl⟩ ⟨_, rfl⟩

/-- **Finite doubles are approximated within the tolerance and with their sign**, unless their
fraction has no reciprocal: these overflow. So a complex number with finite parts has a text exactly
if neither of its parts is such a double. -/
theorem approximates_finite (hx : x.toRat? = some X) (hy : y.toRat? = some Y) :
    (Approximable X → ∃ q, approximateClosely (.float x) = .ok q ∧
      SignType.sign q = SignType.sign X ∧ IsClose x.abs |q|) ∧
    (¬ Approximable X → approximateClosely (.float x) = .error .overflow) ∧
    ((∃ t, text ⟨x, y⟩ = .ok t) ↔ Approximable X ∧ Approximable Y) :=
  ⟨exists_approximateClosely hx, approximateClosely_eq_overflow hx, exists_text_iff hx hy⟩

/-- The double `-0.7` is approximated, and a number with it has a text. -/
theorem approximates_seven_tenths :
    (∃ q, approximateClosely (.float (ofScientific true 7 (-1))) = .ok q ∧
      SignType.sign q = -1 ∧ IsClose (ofScientific false 7 (-1)) |q|) ∧
    ∃ t, text ⟨ofScientific true 7 (-1), .one⟩ = .ok t := by
  have hvalue : (ofScientific true 7 (-1)).toRat?
      = some (-(3152519739159347 / 4503599627370496)) := by decide +kernel
  have happrox : Approximable (-(3152519739159347 / 4503599627370496)) := by
    refine .inr ((reciprocalLimit_lt_one_div (k := 1) (by decide)).trans ?_)
    norm_num [abs_of_pos]
  obtain ⟨hclose, -, htext⟩ := approximates_finite hvalue toRat?_one
  obtain ⟨q, hq, hsign, hq'⟩ := hclose happrox
  refine ⟨⟨q, hq, ?_, ?_⟩, htext.2 ⟨happrox, approximable_of_abs (.inr (by simp))⟩⟩
  · rw [hsign, sign_neg (by norm_num)]
  · have habs : (ofScientific true 7 (-1)).abs = ofScientific false 7 (-1) := by decide +kernel
    rw [habs] at hq'
    exact hq'

/-- The least positive double is not approximated, and has no text. -/
theorem approximateClosely_least : least.isFinite = true ∧
    approximateClosely (.float least) = .error .overflow ∧
    ¬ ∃ t, text ⟨least, .zero⟩ = .ok t := by
  have hvalue : least.toRat? = some (magnitude 1) := toRat?_finite false 1 _
  have hpos : 0 < magnitude 1 := div_pos (Nat.cast_pos.2 zero_lt_one) (two_pow_pos_rat _)
  have hnot : ¬ Approximable (magnitude 1) := by
    rintro (h | h)
    · exact hpos.ne' h
    · rw [abs_of_pos hpos, magnitude, reciprocalLimit_lt] at h
      exact absurd h (by decide)
  refine ⟨rfl, approximateClosely_eq_overflow hvalue hnot, ?_⟩
  rw [exists_text_iff hvalue toRat?_zero]
  exact fun h => hnot h.1

end Complex

end Formula
