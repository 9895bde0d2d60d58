/-
# Whole parts and reciprocals of doubles

The whole part and the fraction of a double that is not negative are doubles again, so that cutting
off the whole part is exact (`exists_toRat?_floor`, `exists_toRat?_fract`). The reciprocal of a
fraction is off by one part in `2 ^ 52` at most, **unless the fraction is so small that its
reciprocal overflows**, which is so up to `2 ^ -1024` (`exists_reciprocal`, `reciprocal_overflows`).
The fraction of a double is not so small, unless the double itself is (`limit_lt_fract`).
-/
import Formula.Proofs.RoundedArithmetic
import Mathlib.Data.Rat.Floor
import Mathlib.Tactic.NormNum

namespace Formula

/-! ## Magnitudes -/

/-- A magnitude is a number of at most 53 binary digits, multiplied with a power of two. -/
theorem exists_unitsOfRank_eq (r : Nat) : ∃ c e, c < 2 ^ 53 ∧ unitsOfRank r = c * 2 ^ e := by
  by_cases hr : r < 2 ^ 53
  · exact ⟨r, 0, hr, by rw [unitsOfRank_of_lt hr, Nat.pow_zero, Nat.mul_one]⟩
  · have hmod : r % 2 ^ 52 < 2 ^ 52 := Nat.mod_lt _ (by decide)
    exact ⟨2 ^ 52 + r % 2 ^ 52, r / 2 ^ 52 - 1, by omega, by rw [unitsOfRank, if_neg hr]⟩

/-- The whole ones of a magnitude are a magnitude. -/
theorem exists_unitsOfRank_div (r k : Nat) :
    ∃ w, unitsOfRank w = unitsOfRank r / 2 ^ k * 2 ^ k := by
  obtain ⟨c, e, hc, hr⟩ := exists_unitsOfRank_eq r
  rw [hr]
  by_cases he : k ≤ e
  · have hdvd : 2 ^ k ∣ c * 2 ^ e := Nat.dvd_mul_left_of_dvd (Nat.pow_dvd_pow 2 he) c
    exact ⟨r, by rw [Nat.div_mul_cancel hdvd, hr]⟩
  · -- the last digits of the number are cut off
    have hsplit : 2 ^ k = 2 ^ (k - e) * 2 ^ e := by
      rw [← Nat.pow_add]
      congr 1
      omega
    have hquotient : c * 2 ^ e / 2 ^ k = c / 2 ^ (k - e) := by
      rw [hsplit, Nat.mul_div_mul_right _ _ (Nat.two_pow_pos e)]
    have hle : c / 2 ^ (k - e) ≤ c := Nat.div_le_self _ _
    refine ⟨nearestRank (c / 2 ^ (k - e) * 2 ^ k) 1, ?_⟩
    rw [unitsOfRank_of_small k (by omega), hquotient]

/-- What a magnitude has besides its whole ones is a magnitude. -/
theorem exists_unitsOfRank_mod (r k : Nat) : ∃ w, unitsOfRank w = unitsOfRank r % 2 ^ k := by
  obtain ⟨c, e, hc, hr⟩ := exists_unitsOfRank_eq r
  rw [hr]
  by_cases he : k ≤ e
  · have hdvd : 2 ^ k ∣ c * 2 ^ e := Nat.dvd_mul_left_of_dvd (Nat.pow_dvd_pow 2 he) c
    exact ⟨0, by rw [Nat.mod_eq_zero_of_dvd hdvd]; rfl⟩
  · have hsplit : 2 ^ k = 2 ^ (k - e) * 2 ^ e := by
      rw [← Nat.pow_add]
      congr 1
      omega
    have hremainder : c * 2 ^ e % 2 ^ k = c % 2 ^ (k - e) * 2 ^ e := by
      rw [hsplit, Nat.mul_mod_mul_right]
    have hle : c % 2 ^ (k - e) ≤ c := Nat.mod_le _ _
    refine ⟨nearestRank (c % 2 ^ (k - e) * 2 ^ e) 1, ?_⟩
    rw [unitsOfRank_of_small e (by omega), hremainder]

/-- A large magnitude is a multiple of a power of two. -/
theorem two_pow_dvd_unitsOfRank {r k : Nat} (h : 2 ^ 52 * 2 ^ k ≤ unitsOfRank r) :
    2 ^ k ∣ unitsOfRank r := by
  obtain ⟨c, e, hc, hr⟩ := exists_unitsOfRank_eq r
  rw [hr] at h ⊢
  have he : k ≤ e := by
    by_contra hlt
    have hpow : 2 ^ (e + 1) ≤ 2 ^ k := Nat.pow_le_pow_right (by decide) (by omega)
    have hsmall : c * 2 ^ e < 2 ^ 52 * 2 ^ k :=
      calc c * 2 ^ e < 2 ^ 53 * 2 ^ e := Nat.mul_lt_mul_of_pos_right hc (Nat.two_pow_pos e)
        _ = 2 ^ 52 * 2 ^ (e + 1) := by rw [Nat.pow_succ 2 e]; omega
        _ ≤ 2 ^ 52 * 2 ^ k := Nat.mul_le_mul_left _ hpow
    omega
  exact Nat.dvd_mul_left_of_dvd (Nat.pow_dvd_pow 2 he) c

/-- A large magnitude has no small remainder. -/
theorem two_pow_le_mod {r k e : Nat} (he : e = k + 52) (h : 2 ^ e ≤ unitsOfRank r)
    (hne : unitsOfRank r % 2 ^ e ≠ 0) : 2 ^ k ≤ unitsOfRank r % 2 ^ e := by
  subst he
  rw [Nat.pow_add, Nat.mul_comm] at h
  have hdvd : 2 ^ k ∣ unitsOfRank r % 2 ^ (k + 52) :=
    (Nat.dvd_mod_iff (Nat.pow_dvd_pow 2 (Nat.le_add_right k 52))).2 (two_pow_dvd_unitsOfRank h)
  exact Nat.le_of_dvd (Nat.pos_of_ne_zero hne) hdvd

namespace Double

variable {x y : Double} {q X Y : Rat}

/-- The largest fraction whose reciprocal overflows. -/
def reciprocalLimit : Rat := 1 / (2 ^ 1024 : Nat)

/-- The limit is positive. -/
theorem reciprocalLimit_pos : 0 < reciprocalLimit := one_div_pos.2 (two_pow_pos_rat _)

/-- Every smaller power of two has a reciprocal past the limit. -/
theorem reciprocalLimit_lt_one_div {k : Nat} (hk : k < 1024) :
    reciprocalLimit < 1 / (2 ^ k : Nat) :=
  one_div_lt_one_div_of_lt (two_pow_pos_rat k) (two_pow_lt_rat.2 hk)

/-- The limit is below one. -/
theorem reciprocalLimit_lt_one : reciprocalLimit < 1 := by
  have hlt := reciprocalLimit_lt_one_div (k := 0) (by decide)
  rwa [Nat.pow_zero, Nat.cast_one, one_div_one] at hlt

/-! ## Whole parts and fractions -/

/-- A magnitude below that of a finite double is the value of a double. -/
theorem exists_toRat?_of_units {r w : Nat} (hr : r < rankLimit) (h : unitsOfRank w ≤ unitsOfRank r) :
    ∃ y : Double, y.toRat? = some (magnitude w) := by
  have hle : w ≤ r := strictMono_unitsOfRank.le_iff_le.1 h
  exact ⟨finite false w (Nat.lt_of_le_of_lt hle hr), toRat?_finite _ _ _⟩

/-- The whole part of a magnitude. -/
theorem floor_magnitude (r : Nat) : ⌊magnitude r⌋ = (unitsOfRank r / 2 ^ 1074 : Nat) := by
  rw [magnitude, Rat.floor_natCast_div_natCast, Int.natCast_div]

/-- The fraction of a magnitude. -/
theorem fract_magnitude (r : Nat) :
    Int.fract (magnitude r) = (unitsOfRank r % 2 ^ 1074 : Nat) / (2 ^ 1074 : Nat) := by
  have hsplit : ((unitsOfRank r : Nat) : Rat)
      = (unitsOfRank r / 2 ^ 1074 : Nat) * (2 ^ 1074 : Nat) + (unitsOfRank r % 2 ^ 1074 : Nat) := by
    rw [← Nat.cast_mul, ← Nat.cast_add, Nat.div_add_mod']
  rw [Int.fract, floor_magnitude, Int.cast_natCast, magnitude, sub_eq_iff_eq_add,
    eq_comm, div_add' _ _ _ (two_pow_pos_rat _).ne', add_comm, ← hsplit]

/-- A value that is not negative is a magnitude. -/
theorem exists_magnitude (hx : x.toRat? = some X) (hX : 0 ≤ X) :
    ∃ r, r < rankLimit ∧ X = magnitude r := by
  have habs := toRat?_abs hx
  rw [abs_of_nonneg hX] at habs
  cases x with
  | finite s r hr =>
    rw [Double.abs, toRat?_finite] at habs
    exact ⟨r, hr, (Option.some.inj habs).symm⟩
  | _ => cases hx

/-- **The whole part of a double is a double.** -/
theorem exists_toRat?_floor (hx : x.toRat? = some X) (hX : 0 ≤ X) :
    ∃ y : Double, y.toRat? = some (⌊X⌋ : Rat) := by
  obtain ⟨r, hr, rfl⟩ := exists_magnitude hx hX
  obtain ⟨w, hw⟩ := exists_unitsOfRank_div r 1074
  obtain ⟨y, hy⟩ := exists_toRat?_of_units hr (hw.trans_le (Nat.div_mul_le_self _ _))
  refine ⟨y, hy.trans ?_⟩
  rw [floor_magnitude, magnitude, hw, Nat.cast_mul, mul_div_cancel_right₀ _ (two_pow_pos_rat _).ne',
    Int.cast_natCast]

/-- **The fraction of a double is a double.** -/
theorem exists_toRat?_fract (hx : x.toRat? = some X) (hX : 0 ≤ X) :
    ∃ y : Double, y.toRat? = some (Int.fract X) := by
  obtain ⟨r, hr, rfl⟩ := exists_magnitude hx hX
  obtain ⟨w, hw⟩ := exists_unitsOfRank_mod r 1074
  obtain ⟨y, hy⟩ := exists_toRat?_of_units hr (hw.trans_le (Nat.mod_le _ _))
  refine ⟨y, hy.trans ?_⟩
  rw [fract_magnitude, magnitude, hw]

/-- A number of units is past the limit exactly if it has more than 50 binary digits. -/
theorem reciprocalLimit_lt {n : Nat} :
    reciprocalLimit < (n : Rat) / (2 ^ 1074 : Nat) ↔ 2 ^ 50 < n := by
  have hlimit : reciprocalLimit = ((2 ^ 50 : Nat) : Rat) / (2 ^ 1074 : Nat) := by
    rw [reciprocalLimit, div_eq_div_iff (two_pow_pos_rat _).ne' (two_pow_pos_rat _).ne', one_mul,
      ← Nat.cast_mul, ← Nat.pow_add]
  rw [hlimit, div_lt_div_iff_of_pos_right (two_pow_pos_rat _), Nat.cast_lt]

/-- **The fraction of a double is zero or past the limit**, if the double is past it. -/
theorem limit_lt_fract (hx : x.toRat? = some X) (hX : reciprocalLimit < X)
    (hne : Int.fract X ≠ 0) : reciprocalLimit < Int.fract X := by
  obtain ⟨r, hr, rfl⟩ := exists_magnitude hx (reciprocalLimit_pos.le.trans hX.le)
  rw [magnitude, reciprocalLimit_lt] at hX
  rw [fract_magnitude] at hne ⊢
  rw [reciprocalLimit_lt]
  by_cases hone : unitsOfRank r < 2 ^ 1074
  · rwa [Nat.mod_eq_of_lt hone]
  · have hmod : unitsOfRank r % 2 ^ 1074 ≠ 0 := by
      intro h
      rw [h, Nat.cast_zero, zero_div] at hne
      exact hne rfl
    have hstep := two_pow_le_mod (k := 1022) (e := 1074) rfl (Nat.le_of_not_lt hone) hmod
    have hdigits : 2 ^ 50 < 2 ^ 1022 := Nat.cast_lt.1 (two_pow_lt_rat.2 (by decide))
    exact hdigits.trans_le hstep

/-- From `2 ^ 52` on, a double has no fraction. -/
theorem fract_eq_zero_of_large (hx : x.toRat? = some X) (hX : ((2 ^ 52 : Nat) : Rat) ≤ X) :
    Int.fract X = 0 := by
  obtain ⟨r, hr, rfl⟩ := exists_magnitude hx ((Nat.cast_nonneg _).trans hX)
  have hunits : 2 ^ 52 * 2 ^ 1074 ≤ unitsOfRank r := by
    rwa [magnitude, le_div_iff₀ (two_pow_pos_rat _), ← Nat.cast_mul, Nat.cast_le] at hX
  rw [fract_magnitude, Nat.mod_eq_zero_of_dvd (two_pow_dvd_unitsOfRank hunits), Nat.cast_zero,
    zero_div]

/-- **A double is rounded down exactly.** -/
theorem floor?_of_toRat? (hx : x.toRat? = some X) : x.floor? = some ⌊X⌋ := by
  rw [toRat?] at hx
  rw [floor?]
  cases hu : x.units? with
  | none => rw [hu] at hx; cases hx
  | some u =>
    rw [hu] at hx
    obtain rfl : mkRat u (2 ^ 1074) = X := Option.some.inj hx
    rw [Rat.mkRat_eq_div, Rat.floor_intCast_div_natCast, Option.map_some]
    rw [Int.fdiv_eq_ediv_of_nonneg u (by positivity), Nat.cast_pow, Nat.cast_ofNat]

/-! ## Reciprocals -/

/-- The place that one rounds to. -/
theorem placeOf_one : placeOf 1 = (1023 * 2 ^ 52 : Nat) := by
  rw [← Int.cast_one]
  exact placeOf_of_toRat? toRat?_one place?_one

/-- A result of at least one is rounded to at least one. -/
theorem one_le_of_rounds (h : x.Rounds q) (hq : 1 ≤ q) (hx : x.toRat? = some X) : 1 ≤ X := by
  have hle : one.le x = true := (le_iff place?_one h).2 (placeOf_one ▸ placeOf_mono hq)
  have hvalue := (le_iff_of_toRat? toRat?_one hx).1 hle
  rwa [Int.cast_one] at hvalue

/-- From one on, the half unit of the error is a small part of the result. -/
theorem half_unit_le (hq : 1 ≤ q) :
    q / (2 ^ 53 : Nat) + 1 / (2 * (2 ^ 1074 : Nat)) ≤ q / (2 ^ 52 : Nat) := by
  have hhalves : q / (2 ^ 52 : Nat) = q / (2 ^ 53 : Nat) + q / (2 ^ 53 : Nat) := by
    push_cast
    ring
  have hunit : ((2 ^ 53 : Nat) : Rat) ≤ 2 * (2 ^ 1074 : Nat) := by
    have hpow : ((2 ^ 53 : Nat) : Rat) < (2 ^ 1074 : Nat) := two_pow_lt_rat.2 (by decide)
    linarith [two_pow_pos_rat 1074]
  rw [hhalves, add_le_add_iff_left]
  exact div_le_div₀ (zero_le_one.trans hq) hq (two_pow_pos_rat 53) hunit

/-- The place where the doubles end. -/
theorem placeOf_two_pow : placeOf (2 ^ 1024 : Nat) = rankLimit := by
  have hplace := placeOf_units Nat.one_pos (2 ^ 2098)
  have hvalue : ((2 ^ 2098 : Nat) : Rat) / ((1 : Nat) * (2 ^ 1074 : Nat)) = (2 ^ 1024 : Nat) := by
    rw [Nat.cast_one, one_mul, div_eq_iff (two_pow_pos_rat _).ne', ← Nat.cast_mul, ← Nat.pow_add]
  rw [hvalue, nearestRank_two_pow (k := 2047) (e := 2098) (by decide) rfl] at hplace
  exact hplace

/-- The largest magnitude has 53 binary digits, and zeros. -/
theorem unitsOfRank_last : unitsOfRank (rankLimit - 1) = (2 ^ 53 - 1) * 2 ^ 2045 := by
  have hmod : (rankLimit - 1) % 2 ^ 52 = 2 ^ 52 - 1 := by decide
  have hdiv : (rankLimit - 1) / 2 ^ 52 - 1 = 2045 := by decide
  have hdigits : 2 ^ 52 + (2 ^ 52 - 1) = 2 ^ 53 - 1 := by decide
  rw [unitsOfRank, if_neg (by decide), hmod, hdiv, hdigits]

/-- The reciprocal of a magnitude of more than 50 binary digits is a finite magnitude at most. -/
theorem inv_magnitude_le {r : Nat} (hr : 2 ^ 50 < unitsOfRank r) :
    1 / magnitude r ≤ magnitude (rankLimit - 1) := by
  have hpos : (0 : Rat) < unitsOfRank r := Nat.cast_pos.2 (Nat.zero_lt_of_lt hr)
  have hproduct : 2 ^ 1074 * 2 ^ 1074 ≤ unitsOfRank (rankLimit - 1) * unitsOfRank r :=
    calc 2 ^ 1074 * 2 ^ 1074 = 2 ^ 103 * 2 ^ 2045 := by rw [← pow_add, ← pow_add]
      _ ≤ (2 ^ 53 - 1) * (2 ^ 50 + 1) * 2 ^ 2045 := Nat.mul_le_mul_right _ (by decide)
      _ = unitsOfRank (rankLimit - 1) * (2 ^ 50 + 1) := by rw [unitsOfRank_last, Nat.mul_right_comm]
      _ ≤ unitsOfRank (rankLimit - 1) * unitsOfRank r := Nat.mul_le_mul_left _ hr
  rw [magnitude, magnitude, one_div_div, div_le_div_iff₀ hpos (two_pow_pos_rat _), ← Nat.cast_mul,
    ← Nat.cast_mul, Nat.cast_le]
  exact hproduct

/-- The reciprocal of a value is rounded once. -/
theorem rounds_reciprocal (hx : x.toRat? = some X) (hpos : 0 < X) :
    (one.div x).Rounds (1 / X) := by
  have hround := rounds_div toRat?_one hx hpos.ne'
  rwa [Int.cast_one] at hround

/-- **The reciprocal of a fraction past the limit** is finite, and off by one part in `2 ^ 52` at
most. -/
theorem exists_reciprocal (hx : x.toRat? = some X) (hlimit : reciprocalLimit < X) (hX : X ≤ 1) :
    ∃ R, (one.div x).toRat? = some R ∧ 1 ≤ R ∧ |R - 1 / X| ≤ 1 / X / (2 ^ 52 : Nat) := by
  have hpos : 0 < X := reciprocalLimit_pos.trans hlimit
  have hround := rounds_reciprocal hx hpos
  have hone : 1 ≤ 1 / X := one_le_one_div hpos hX
  obtain ⟨r, hr, rfl⟩ := exists_magnitude hx hpos.le
  have hfinite : (one.div x).isFinite = true := by
    refine hround.isFinite (toRat?_finite false (rankLimit - 1) (by decide)) ?_
    rw [abs_of_nonneg (zero_le_one.trans hone)]
    exact inv_magnitude_le (reciprocalLimit_lt.1 hlimit)
  obtain ⟨R, hR, hnear⟩ := hround.exists_near (zero_le_one.trans hone) hfinite
  refine ⟨R, hR, ?_, hnear.trans (half_unit_le hone)⟩
  exact one_le_of_rounds hround hone hR

/-- **The reciprocal of a fraction up to the limit** is infinite. -/
theorem reciprocal_overflows (hx : x.toRat? = some X) (hpos : 0 < X) (hX : X ≤ reciprocalLimit) :
    (one.div x).isFinite = false := by
  have hround := rounds_reciprocal hx hpos
  have hlarge : ((2 ^ 1024 : Nat) : Rat) ≤ 1 / X := by
    rwa [reciprocalLimit, le_one_div hpos (two_pow_pos_rat _)] at hX
  have hplace := placeOf_mono hlarge
  rw [placeOf_two_pow] at hplace
  rw [Bool.eq_false_iff, Ne, isFinite_iff hround]
  omega

end Double

end Formula
