/-
# Rounding to whole numbers

Rounding down and up goes through the exact value of a double, and rounding to the nearest whole
number through the shortest decimal that reads back as it. Decimals are read by value
(`Double.rounds_ofDecimal`), a whole double shows a whole decimal (`Double.isWhole_toDecimal?`),
and the decimal of any other double lies between the same whole numbers as the double does. **So
every finite double is rounded down and up, and it is rounded to the nearest whole number, halves
going away from zero, as long as that has no more digits than a decimal may have**
(`Function.rounds_finite_doubles`).
-/
import Formula.Proofs.GaussianTexts
import Formula.Proofs.PriceEndings
import Formula.Registry

namespace Formula

variable {x y : Double} {d d' : Decimal} {X : Rat} {n : Int}

/-! ## Nearest whole numbers -/

/-- Whether a whole number is nearest to a rational, the one away from zero of two. -/
def IsHalfAway (q : Rat) (n : Int) : Prop :=
  |(n : Rat) - q| ≤ 1 / 2 ∧ (|(n : Rat) - q| = 1 / 2 → |q| < |(n : Rat)|)

/-- A whole number is nearest to itself. -/
theorem isHalfAway_self (n : Int) : IsHalfAway n n := by
  rw [IsHalfAway, sub_self, abs_zero]
  exact ⟨by norm_num, by norm_num⟩

/-- The opposite of a rational is rounded to the opposite. -/
theorem IsHalfAway.neg {q : Rat} (h : IsHalfAway q n) : IsHalfAway (-q) (-n) := by
  have hdistance : |((-n : Int) : Rat) - -q| = |(n : Rat) - q| := by
    rw [Int.cast_neg, neg_sub_neg, abs_sub_comm]
  rw [IsHalfAway, hdistance, abs_neg, Int.cast_neg, abs_neg]
  exact h

/-- From a whole number on, the nearest one is not below it. -/
theorem IsHalfAway.ge {q : Rat} {m : Int} (h : IsHalfAway q n) (hm : (m : Rat) ≤ q) : m ≤ n := by
  have hnear := (abs_le.1 h.1).1
  have hlt : ((m : Int) : Rat) < (n + 1 : Int) := by
    push_cast
    linarith
  exact Int.lt_add_one_iff.1 (Int.cast_lt.1 hlt)

/-- Up to a whole number, the nearest one is not above it. -/
theorem IsHalfAway.le {q : Rat} {m : Int} (h : IsHalfAway q n) (hm : q ≤ m) : n ≤ m := by
  have hnear := (abs_le.1 h.1).2
  have hlt : ((n : Int) : Rat) < (m + 1 : Int) := by
    push_cast
    linarith
  exact Int.lt_add_one_iff.1 (Int.cast_lt.1 hlt)

/-- Adding a half and cutting off gives the nearest whole number. -/
theorem isHalfAway_div {b : Nat} (hb : 0 < b) (a : Nat) :
    IsHalfAway ((a : Rat) / b) ((2 * a + b) / (2 * b) : Nat) := by
  have hpos : (0 : Rat) < b := Nat.cast_pos.2 hb
  have hlow := Nat.div_mul_le_self (2 * a + b) (2 * b)
  have hhigh := Nat.lt_div_mul_add (a := 2 * a + b) (b := 2 * b) (by omega)
  generalize (2 * a + b) / (2 * b) = c at *
  have hle : (c : Rat) - a / b ≤ 1 / 2 := by
    rw [sub_le_iff_le_add, ← sub_le_iff_le_add', le_div_iff₀ hpos]
    have hcast : ((c * (2 * b) : Nat) : Rat) ≤ (2 * a + b : Nat) := Nat.cast_le.2 hlow
    push_cast at hcast
    linarith
  have hlt : -(1 / 2) < (c : Rat) - a / b := by
    rw [lt_sub_iff_add_lt, ← lt_sub_iff_add_lt', div_lt_iff₀ hpos]
    have hcast : ((2 * a + b : Nat) : Rat) < (c * (2 * b) + 2 * b : Nat) := Nat.cast_lt.2 hhigh
    push_cast at hcast
    linarith
  have hnonneg : (0 : Rat) ≤ a / b := by positivity
  rw [IsHalfAway, Int.cast_natCast, abs_of_nonneg hnonneg, Nat.abs_cast]
  refine ⟨abs_le.2 ⟨hlt.le, hle⟩, fun htie => ?_⟩
  -- the distance is a half only upwards
  rcases (abs_eq (by norm_num)).1 htie with h | h
  · linarith
  · linarith

/-! ## Decimals by value -/

namespace Decimal

/-- The value of a decimal, by its sign and magnitude. -/
theorem toRat_eq (d : Decimal) :
    d.toRat = Double.signed d.negative ((d.ratio.1 : Rat) / d.ratio.2) := by
  rw [toRat, Rat.mkRat_eq_div, Double.signed]
  split_ifs <;> simp [neg_div]

/-- The magnitude of a decimal. -/
theorem abs_toRat (d : Decimal) : |d.toRat| = (d.ratio.1 : Rat) / d.ratio.2 := by
  have hnonneg : (0 : Rat) ≤ (d.ratio.1 : Rat) / d.ratio.2 := by positivity
  rw [toRat_eq, Double.signed]
  split_ifs
  · rw [abs_neg, abs_of_nonneg hnonneg]
  · exact abs_of_nonneg hnonneg

/-- Whether a decimal is a whole number. -/
def IsWhole (d : Decimal) : Prop := d.ratio.2 ∣ d.ratio.1

/-- The whole number that a decimal is nearest to. -/
def nearest (d : Decimal) : Int :=
  if d.negative then -(d.scaled .halfAway 0 : Int) else d.scaled .halfAway 0

/-- The units of a decimal that is rounded to a whole number. -/
theorem scaled_halfAway (d : Decimal) :
    d.scaled .halfAway 0 = (2 * d.ratio.1 + d.ratio.2) / (2 * d.ratio.2) := by
  rw [scaled, Nat.pow_zero, Nat.mul_one]

/-- **The whole number that a decimal is nearest to**, a half going away from zero. -/
theorem isHalfAway_nearest (d : Decimal) : IsHalfAway d.toRat d.nearest := by
  have hnear := isHalfAway_div d.ratio_pos d.ratio.1
  rw [← scaled_halfAway] at hnear
  rw [toRat_eq, Double.signed, nearest]
  split_ifs
  · exact hnear.neg
  · exact hnear

/-- A whole decimal is rounded to itself. -/
theorem IsWhole.toRat_eq_nearest (h : d.IsWhole) : d.toRat = d.nearest := by
  obtain ⟨m, hm⟩ := h
  have hpos := d.ratio_pos
  have hscaled : d.scaled .halfAway 0 = m := by
    have hsum : 2 * (d.ratio.2 * m) + d.ratio.2 = d.ratio.2 + 2 * d.ratio.2 * m := by ring
    rw [scaled_halfAway, hm, hsum, Nat.add_mul_div_left _ _ (by omega),
      Nat.div_eq_of_lt (by omega), Nat.zero_add]
  have hvalue : (d.ratio.1 : Rat) / d.ratio.2 = m := by
    rw [hm, Nat.cast_mul, mul_div_cancel_left₀ _ (Nat.cast_ne_zero.2 hpos.ne')]
  rw [toRat_eq, hvalue, nearest, hscaled, Double.signed]
  split_ifs <;> simp

end Decimal

namespace Double

/-- A decimal without places is read by value, also where it is far past the largest double. -/
theorem ofScientific_natCast (s : Bool) (c k : Nat) :
    ofScientific s c (k : Int) = ofUnits s (c * 10 ^ k * 2 ^ 1074) 1 := by
  by_cases hc : c = 0
  · subst hc
    rw [ofScientific_zero, Nat.zero_mul, Nat.zero_mul, ofUnits_eq_zero Nat.one_pos (by omega)]
  · rw [ofScientific_eq hc]
    split
    · exact (ofUnits_ten_pow hc (by omega)).symm
    · rw [if_neg (by omega), scaled, if_pos (Int.natCast_nonneg k), Int.toNat_natCast]

/-- **Decimals are read by value.** -/
theorem ofDecimal_eq (d : Decimal) :
    ofDecimal d = ofUnits d.negative (d.ratio.1 * 2 ^ 1074) d.ratio.2 := by
  obtain ⟨s, c, e⟩ := d
  rw [ofDecimal, Decimal.ratio]
  split
  · rename_i he
    obtain ⟨k, rfl⟩ := Int.eq_ofNat_of_zero_le he
    exact ofScientific_natCast s c k
  · rename_i he
    obtain ⟨k, rfl⟩ := Int.exists_eq_neg_ofNat (Int.not_le.1 he).le
    show ofScientific s c (-(k : Int)) = ofUnits s (c * 2 ^ 1074) (10 ^ (- -(k : Int)).toNat)
    rw [neg_neg, Int.toNat_natCast]
    exact ofScientific_places s c k

/-- **A decimal rounds as the rational that it is.** -/
theorem rounds_ofDecimal (d : Decimal) : (ofDecimal d).Rounds d.toRat := by
  have hround := rounds_ofUnits d.ratio_pos d.negative (d.ratio.1 * 2 ^ 1074)
  rw [Nat.cast_mul, mul_div_mul_right _ _ (two_pow_pos_rat _).ne'] at hround
  rw [ofDecimal_eq, Decimal.toRat_eq]
  exact hround

/-- The shortest decimal has the sign of the double, and its magnitude is that of the magnitude. -/
theorem toDecimal?_finite {s : Bool} {r : Nat} {hr : r < rankLimit}
    (h : (finite s r hr).toDecimal? = some d) :
    d.negative = s ∧ (finite false r hr).toDecimal? = some { d with negative := false } := by
  rw [toDecimal?] at h ⊢
  split at h
  · rename_i hzero
    obtain rfl := Option.some.inj h
    exact ⟨rfl, if_pos hzero⟩
  · rename_i hzero
    rw [if_neg hzero]
    simp only at h ⊢
    split at h <;>
    · obtain rfl := Option.some.inj h
      exact ⟨rfl, rfl⟩

/-- What some units are rounded to, by sign and rank. -/
theorem ofUnits_eq_finite {s t : Bool} {n m r : Nat} {hr : r < rankLimit}
    (h : ofUnits s n m = finite s r hr) : ofUnits t n m = finite t r hr := by
  unfold ofUnits at h ⊢
  split at h
  · cases h
    exact dif_pos hr
  · cases h

/-- **The shortest decimal reads back**, with its sign. -/
theorem ofDecimal_toDecimal? (h : x.toDecimal? = some d) : ofDecimal d = x := by
  cases x with
  | finite s r hr =>
    obtain ⟨hs, hmagnitude⟩ := toDecimal?_finite h
    have hread : ofDecimal { d with negative := false } = finite false r hr :=
      ofScientific_toDecimal? rfl hmagnitude
    rw [ofDecimal_eq] at hread ⊢
    rw [hs]
    exact ofUnits_eq_finite hread
  | _ => cases h

/-! ## Whole doubles -/

/-- Stripping zeros lowers no exponent. -/
theorem le_stripZeros (c : Nat) (e : Int) : e ≤ (Decimal.stripZeros c e).2 := by
  fun_induction Decimal.stripZeros c e with
  | case1 c e h ih => omega
  | case2 c e h => exact le_rfl

/-- A number of whole units is on the grid of ones. -/
theorem gridPoint?_whole {N D m : Nat} (hN : N = m * D) (hD : 0 < D)
    (hread : ofScientific false m 0 = x) : gridPoint? x N D 0 = some m := by
  have hgrid : onGrid N D 0 = (m * D, D) := by
    rw [onGrid, if_pos le_rfl, Int.toNat_zero, Nat.pow_zero, Nat.mul_one, hN]
  rw [gridPoint?, hgrid]
  simp only [roundHalfEven_mul m D hD]
  rw [if_pos hread]

/-- **The search ends on the grid of ones at the latest**, if that holds the value. -/
theorem nonneg_of_searchShortest {N D : Nat} {e : Int} (hgrid : gridPoint? x N D 0 ≠ none)
    {left : Nat} : ∀ {k c : Nat} {p : Int}, (k : Int) ≤ e + 1 →
      searchShortest x N D e k left = some (c, p) → 0 ≤ p := by
  induction left with
  | zero => exact fun _ h => by cases h
  | succ left ih =>
    intro k c p hk h
    rw [searchShortest] at h
    split at h
    · rename_i c' hc'
      have hle := le_stripZeros c' (e - k + 1)
      rw [Option.some.inj h] at hle
      omega
    · rename_i hnone
      have hne : e - k + 1 ≠ 0 := by
        intro hzero
        rw [hzero] at hnone
        exact hgrid hnone
      exact ih (by omega) h

/-- The units of a double that is a whole number. -/
theorem unitsOfRank_of_whole {s : Bool} {r : Nat} {hr : r < rankLimit}
    (hx : (finite s r hr).toRat? = some (n : Rat)) : unitsOfRank r = n.natAbs * 2 ^ 1074 := by
  have habs := toRat?_abs hx
  rw [Double.abs, toRat?_finite, signed, if_neg Bool.false_ne_true, Option.some.injEq, magnitude,
    div_eq_iff (two_pow_pos_rat _).ne', ← Int.cast_abs, Int.abs_eq_natAbs, Int.cast_natCast,
    ← Nat.cast_mul, Nat.cast_inj] at habs
  exact habs

/-- A decimal without places is whole. -/
theorem isWhole_of_nonneg {s : Bool} {c : Nat} {e : Int} (he : 0 ≤ e) :
    Decimal.IsWhole ⟨s, c, e⟩ := by
  rw [Decimal.IsWhole, Decimal.ratio, if_pos he]
  exact one_dvd _

/-- The exact expansion of a whole number is whole. -/
theorem isWhole_expansion (s : Bool) (m k : Nat) :
    Decimal.IsWhole ⟨s, m * 2 ^ k * 5 ^ k, -(k : Int)⟩ := by
  rw [Decimal.IsWhole, Decimal.ratio]
  split
  · exact one_dvd _
  · have hten : 10 ^ k = 2 ^ k * 5 ^ k := Nat.mul_pow 2 5 k
    rw [neg_neg, Int.toNat_natCast, hten, Nat.mul_assoc]
    exact Nat.dvd_mul_left _ _

/-- A quotient of at least one has no negative exponent. -/
theorem decimalExponent_nonneg {N D : Nat} (h : D ≤ N) : 0 ≤ decimalExponent N D := by
  have hlength : 0 < (digits (N / D)).length := List.length_pos_iff.2 (digits_ne_nil _)
  rw [decimalExponent, if_pos h]
  omega

/-- **A whole double shows a whole decimal.** -/
theorem isWhole_toDecimal? (hx : x.toRat? = some (n : Rat)) (hd : x.toDecimal? = some d) :
    d.IsWhole := by
  cases x with
  | finite s r hr =>
    have hunits := unitsOfRank_of_whole hx
    rw [toDecimal?] at hd
    split at hd
    · obtain rfl := Option.some.inj hd
      exact isWhole_of_nonneg le_rfl
    · rename_i hzero
      have hm : 0 < n.natAbs := by
        refine Nat.pos_of_ne_zero fun hm => unitsOfRank_ne_zero hzero ?_
        rw [hunits, hm, Nat.zero_mul]
      have hread : ofScientific false n.natAbs 0 = finite false r hr := by
        rw [← Int.natCast_zero, ofScientific_natCast, Nat.pow_zero, Nat.mul_one, ← hunits,
          ofUnits_unitsOfRank hr]
      have hunit : 0 < 2 ^ 1074 := by positivity
      have hgrid := gridPoint?_whole hunits hunit hread
      have hexponent := decimalExponent_nonneg
        ((Nat.le_mul_of_pos_left (2 ^ 1074) hm).trans_eq hunits.symm)
      simp only at hd
      split at hd
      · rename_i hfound
        obtain rfl := Option.some.inj hd
        have hne : gridPoint? (finite false r hr) (unitsOfRank r) (2 ^ 1074) 0 ≠ none := by
          rw [hgrid]
          exact Option.some_ne_none _
        exact isWhole_of_nonneg (nonneg_of_searchShortest hne (by omega) hfound)
      · obtain rfl := Option.some.inj hd
        rw [hunits]
        exact isWhole_expansion s n.natAbs 1074
  | _ => cases hx

/-! ## Values and their decimals -/

/-- What is rounded to a double is not above a value that the double is not above. -/
theorem Rounds.lt_of_lt {q v : Rat} {z : Double} (h : x.Rounds q) (hx : x.toRat? = some X)
    (hz : z.toRat? = some v) (hlt : v < X) : v < q := by
  by_contra hle
  have hround : z.Rounds v := by
    obtain ⟨a, ha, -⟩ := toRat?_eq_some_iff.1 hz
    rw [Rounds, placeOf_of_toRat? hz ha, ha]
  exact absurd ((le_iff_of_toRat? hx hz).1 (h.le hround (not_lt.1 hle))) (not_le.2 hlt)

/-- What is rounded to a double is not below a value that the double is not below. -/
theorem Rounds.gt_of_gt {q v : Rat} {z : Double} (h : x.Rounds q) (hx : x.toRat? = some X)
    (hz : z.toRat? = some v) (hlt : X < v) : q < v := by
  have hneg := h.neg.lt_of_lt (toRat?_neg hx) (toRat?_neg hz) (neg_lt_neg hlt)
  exact neg_lt_neg_iff.1 hneg

/-- A double that is no whole number is below `2 ^ 52`. -/
theorem abs_lt_of_not_whole (hx : x.toRat? = some X) (h : ¬ ∃ n : Int, X = n) :
    |X| < (2 ^ 52 : Nat) := by
  by_contra hle
  have hfract := fract_eq_zero_of_large (toRat?_abs hx) (not_lt.1 hle)
  have habs : |X| = (⌊|X|⌋ : Int) := by
    have hsum := Int.floor_add_fract |X|
    rw [hfract, add_zero] at hsum
    exact hsum.symm
  rcases abs_choice X with hX | hX
  · exact h ⟨_, hX ▸ habs⟩
  · exact h ⟨-⌊|X|⌋, by rw [Int.cast_neg, ← habs, hX, neg_neg]⟩

/-- The whole numbers around a double that is none have at most 53 binary digits. -/
theorem bounds_of_not_whole (hx : x.toRat? = some X) (h : ¬ ∃ n : Int, X = n) :
    -(2 ^ 52 : Int) ≤ ⌊X⌋ ∧ ⌈X⌉ ≤ (2 ^ 52 : Int) := by
  have hbound := abs_lt.1 (abs_lt_of_not_whole hx h)
  push_cast at hbound
  constructor
  · rw [Int.le_floor]
    push_cast
    exact hbound.1.le
  · rw [Int.ceil_le]
    push_cast
    exact hbound.2.le

/-- The whole numbers around a double are values of doubles. -/
theorem toRat?_ofInt_between (hx : x.toRat? = some X) (hlow : ⌊X⌋ ≤ n) (hhigh : n ≤ ⌈X⌉) :
    (ofInt n).toRat? = some (n : Rat) := by
  by_cases hX : ∃ m : Int, X = m
  · obtain ⟨m, rfl⟩ := hX
    rw [Int.floor_intCast] at hlow
    rw [Int.ceil_intCast] at hhigh
    obtain rfl : n = m := by omega
    exact toRat?_ofInt hx
  · obtain ⟨hfirst, hlast⟩ := bounds_of_not_whole hx hX
    exact toRat?_ofInt_of_le (by omega)

/-- **Below `2 ^ 53`, a whole double shows its value.** -/
theorem toRat_toDecimal?_whole (hx : x.toRat? = some (n : Rat)) (hd : x.toDecimal? = some d)
    (hn : n.natAbs < 2 ^ 53) : d.toRat = n := by
  have hround := rounds_ofDecimal d
  rw [ofDecimal_toDecimal? hd, (isWhole_toDecimal? hx hd).toRat_eq_nearest] at hround
  rw [(isWhole_toDecimal? hx hd).toRat_eq_nearest]
  have hlast : (ofInt (2 ^ 53)).toRat? = some ((2 ^ 53 : Int) : Rat) :=
    toRat?_ofInt_of_le (by decide)
  have hfirst : (ofInt (-2 ^ 53)).toRat? = some ((-2 ^ 53 : Int) : Rat) :=
    toRat?_ofInt_of_le (by decide)
  have hhigh := Int.cast_lt.1 (hround.gt_of_gt hx hlast (Int.cast_lt.2 (by omega)))
  have hlow := Int.cast_lt.1 (hround.lt_of_lt hx hfirst (Int.cast_lt.2 (by omega)))
  have hvalue := hround.toRat? (toRat?_ofInt_of_le (by omega : d.nearest.natAbs ≤ 2 ^ 53))
  exact Option.some.inj (hvalue.symm.trans hx)

/-! ## Rounded doubles -/

/-- The double that the shortest decimal, rounded to a whole number, is read as. -/
def roundedWhole (d : Decimal) : Double := ofDecimal ⟨d.negative, d.scaled .halfAway 0, 0⟩

/-- The rounded decimal is read as the nearest whole number. -/
theorem rounds_roundedWhole (d : Decimal) : (roundedWhole d).Rounds (d.nearest : Rat) := by
  have hround := rounds_ofDecimal ⟨d.negative, d.scaled .halfAway 0, 0⟩
  have hvalue : Decimal.toRat ⟨d.negative, d.scaled .halfAway 0, 0⟩ = (d.nearest : Rat) := by
    have hratio : Decimal.ratio ⟨d.negative, d.scaled .halfAway 0, 0⟩
        = (d.scaled .halfAway 0, 1) := by
      rw [Decimal.ratio, if_pos le_rfl, Int.toNat_zero, Nat.pow_zero, Nat.mul_one]
    rw [Decimal.toRat_eq, hratio, Nat.cast_one, div_one, signed, Decimal.nearest]
    split_ifs <;> simp
  rwa [hvalue] at hround

/-- A whole decimal is rounded to the double that it is read as. -/
theorem roundedWhole_of_isWhole (h : d.IsWhole) : roundedWhole d = ofDecimal d := by
  have hvalue := h.toRat_eq_nearest
  obtain ⟨m, hm⟩ := h
  have hscaled : d.ratio.1 = d.ratio.2 * d.scaled .halfAway 0 := by
    have hpos : (d.ratio.2 : Rat) ≠ 0 := Nat.cast_ne_zero.2 d.ratio_pos.ne'
    have habs := d.abs_toRat
    have hnearest : |(d.nearest : Rat)| = d.scaled .halfAway 0 := by
      rw [Decimal.nearest]
      split_ifs <;> simp
    rw [hvalue, hnearest, eq_div_iff hpos, ← Nat.cast_mul, Nat.cast_inj] at habs
    rw [← habs, Nat.mul_comm]
  have hunits := ofUnits_mul_mul (s := d.negative) (n := d.scaled .halfAway 0 * 2 ^ 1074) (d := 1)
    d.ratio_pos
  rw [Nat.mul_one] at hunits
  rw [roundedWhole, ofDecimal_eq d, hscaled, Nat.mul_assoc, hunits]
  exact (ofScientific_natCast d.negative _ 0).trans (by rw [Nat.pow_zero, Nat.mul_one])

/-- Whether a double is another one rounded to a whole number: it is a whole number around the
value `X` of that one, and by the decimals that the two show it is nearest. -/
structure IsRounded (y : Double) (X : Rat) (d : Decimal) : Prop where
  around : ∃ n : Int, y.toRat? = some (n : Rat) ∧ ⌊X⌋ ≤ n ∧ n ≤ ⌈X⌉ ∧
    (|X| < (2 ^ 53 : Nat) → IsHalfAway d.toRat n)
  shown : ∃ (d' : Decimal) (n : Int), y.toDecimal? = some d' ∧ d'.toRat = n ∧ IsHalfAway d.toRat n

/-- **A whole double is rounded to itself.** -/
theorem isRounded_whole (hx : x.toRat? = some (n : Rat)) (hd : x.toDecimal? = some d) :
    roundedWhole d = x ∧ x.IsRounded n d := by
  have hwhole := isWhole_toDecimal? hx hd
  have hself : IsHalfAway d.toRat d.nearest := d.isHalfAway_nearest
  refine ⟨(roundedWhole_of_isWhole hwhole).trans (ofDecimal_toDecimal? hd),
    ⟨n, hx, (Int.floor_intCast n).le, (Int.ceil_intCast n).ge, fun hn => ?_⟩,
    d, d.nearest, hd, hwhole.toRat_eq_nearest, hself⟩
  have hsmall : n.natAbs < 2 ^ 53 := by
    rw [← Int.cast_abs, Int.abs_eq_natAbs, Int.cast_natCast, Nat.cast_lt] at hn
    exact hn
  rw [toRat_toDecimal?_whole hx hd hsmall]
  exact isHalfAway_self n

/-- **A double between two whole numbers is rounded to one of them.** -/
theorem isRounded_between (hx : x.toRat? = some X) (hd : x.toDecimal? = some d)
    (hX : ¬ ∃ n : Int, X = n) : (roundedWhole d).IsRounded X d := by
  have hround := rounds_ofDecimal d
  rw [ofDecimal_toDecimal? hd] at hround
  have hfloor : (⌊X⌋ : Rat) < X :=
    lt_of_le_of_ne (Int.floor_le X) fun h => hX ⟨_, h.symm⟩
  have hceil : X < (⌈X⌉ : Rat) := lt_of_le_of_ne (Int.le_ceil X) fun h => hX ⟨_, h⟩
  -- the decimal is between the whole numbers too, as it is read as the double
  have hlow := hround.lt_of_lt hx (toRat?_ofInt_between hx le_rfl (Int.floor_le_ceil X)) hfloor
  have hhigh := hround.gt_of_gt hx (toRat?_ofInt_between hx (Int.floor_le_ceil X) le_rfl) hceil
  have hnearest := d.isHalfAway_nearest
  have hge := hnearest.ge hlow.le
  have hle := hnearest.le hhigh.le
  have hvalue := (rounds_roundedWhole d).toRat? (toRat?_ofInt_between hx hge hle)
  have hsmall : d.nearest.natAbs < 2 ^ 53 := by
    obtain ⟨hfirst, hlast⟩ := bounds_of_not_whole hx hX
    omega
  obtain ⟨d', hd'⟩ := exists_toDecimal? (isFinite_of_toRat? hvalue)
  exact ⟨⟨d.nearest, hvalue, hge, hle, fun _ => hnearest⟩,
    d', d.nearest, hd', toRat_toDecimal?_whole hvalue hd' hsmall, hnearest⟩

/-- **A finite double is rounded to a whole number**, halves going away from zero. -/
theorem isRounded_roundedWhole (hx : x.toRat? = some X) (hd : x.toDecimal? = some d) :
    (roundedWhole d).IsRounded X d := by
  by_cases hX : ∃ n : Int, X = n
  · obtain ⟨n, rfl⟩ := hX
    obtain ⟨hself, hrounded⟩ := isRounded_whole hx hd
    rwa [hself]
  · exact isRounded_between hx hd hX

end Double

namespace Function

/-! ## The registered functions -/

/-- What the registered function of a domain and name answers for a double. -/
def answer (domain : Domain) (name : String) (x : Double) : Except Error Value := do
  (← Registry.builtin.get domain name).apply [.number (.float x)]

variable {domain : Domain}

/-- A rounded number of digits that a decimal may have. -/
theorem scaled_lt_iff (d : Decimal) :
    d.scaled .halfAway 0 < 10 ^ Decimal.precision ↔ |d.toRat| + 1 / 2 < (10 ^ 28 : Nat) := by
  have hpos : (0 : Rat) < d.ratio.2 := Nat.cast_pos.2 d.ratio_pos
  have hsum : |d.toRat| + 1 / 2 = ((2 * d.ratio.1 + d.ratio.2 : Nat) : Rat)
      / (2 * d.ratio.2 : Nat) := by
    rw [d.abs_toRat]
    push_cast
    field_simp
  have htwo : (0 : Rat) < (2 * d.ratio.2 : Nat) := by
    push_cast
    linarith
  rw [hsum, div_lt_iff₀ htwo, ← Nat.cast_mul, Nat.cast_lt, Decimal.scaled_halfAway,
    Nat.div_lt_iff_lt_mul (by have := d.ratio_pos; omega)]
  rfl

/-- Rounding a double goes through its shortest decimal. -/
theorem roundHalfAway_float (hd : x.toDecimal? = some d) :
    roundHalfAway (.number (.float x)) =
      if d.scaled .halfAway 0 < 10 ^ Decimal.precision then
        .ok (.number (.float (Double.roundedWhole d)))
      else .error .decimalPrecision := by
  rw [roundHalfAway, hd]
  simp only [Decimal.round?]
  split <;> rfl

/-- Rounding a double down or up goes through its value. -/
theorem rounding_float {onRat : Rat → Int} (hx : x.toRat? = some X) (hn : onRat X = n)
    (hvalue : (Double.ofInt n).toRat? = some (n : Rat)) :
    rounding onRat (.float x) = .ok (.float (Double.ofInt n)) := by
  have hfinite := Double.isFinite_of_toRat? hvalue
  simp only [rounding, Number.toDouble, Number.toRat?, hx, hn, Double.ofInt?, if_pos hfinite]
  rfl

/-- Rounding down and up, by the value of a double. -/
theorem answer_floor_and_ceil (hdomain : domain = .real ∨ domain = .pricing)
    (hx : x.toRat? = some X) :
    (∃ y, answer domain "floor" x = .ok (.number (.float y)) ∧ y.toRat? = some (⌊X⌋ : Rat)) ∧
      ∃ y, answer domain "ceil" x = .ok (.number (.float y)) ∧ y.toRat? = some (⌈X⌉ : Rat) := by
  have hfloor := Double.toRat?_ofInt_between hx le_rfl (Int.floor_le_ceil X)
  have hceil := Double.toRat?_ofInt_between hx (Int.floor_le_ceil X) le_rfl
  have hdown : answer domain "floor" x = .number <$> rounding Rat.floor (.float x) := by
    rcases hdomain with rfl | rfl <;> rfl
  have hup : answer domain "ceil" x = .number <$> rounding Rat.ceil (.float x) := by
    rcases hdomain with rfl | rfl <;> rfl
  refine ⟨⟨_, ?_, hfloor⟩, ⟨_, ?_, hceil⟩⟩
  · rw [hdown, rounding_float hx (rfl : X.floor = ⌊X⌋) hfloor]
    rfl
  · rw [hup, rounding_float hx (Rat.ceil_eq_neg_floor_neg X) hceil]
    rfl

/-- Rounding to the nearest whole number, by the decimal of a double. -/
theorem answer_round (hdomain : domain = .real ∨ domain = .pricing)
    (hd : x.toDecimal? = some d) :
    answer domain "round" x =
      if d.scaled .halfAway 0 < 10 ^ Decimal.precision then
        .ok (.number (.float (Double.roundedWhole d)))
      else .error .decimalPrecision := by
  have hnear : answer domain "round" x = roundHalfAway (.number (.float x)) := by
    rcases hdomain with rfl | rfl <;> rfl
  rw [hnear, roundHalfAway_float hd]

/-- **Finite doubles are rounded to whole numbers.** In both domains, rounding down and up gives
the nearest whole numbers below and above. Rounding gives one of these two, and it is nearest to the
double by the decimals that the two show, halves going away from zero; only if that decimal has more
than 28 digits before its point is it refused. -/
theorem rounds_finite_doubles (hdomain : domain = .real ∨ domain = .pricing)
    (hx : x.isFinite = true) :
    ∃ X d, x.toRat? = some X ∧ x.toDecimal? = some d ∧
      (∃ y, answer domain "floor" x = .ok (.number (.float y)) ∧ y.toRat? = some (⌊X⌋ : Rat)) ∧
      (∃ y, answer domain "ceil" x = .ok (.number (.float y)) ∧ y.toRat? = some (⌈X⌉ : Rat)) ∧
      (|d.toRat| + 1 / 2 < (10 ^ 28 : Nat) →
        ∃ y, answer domain "round" x = .ok (.number (.float y)) ∧ y.IsRounded X d) ∧
      ((10 ^ 28 : Nat) ≤ |d.toRat| + 1 / 2 →
        answer domain "round" x = .error .decimalPrecision) := by
  obtain ⟨X, hX⟩ := Double.exists_toRat? hx
  obtain ⟨d, hd⟩ := Double.exists_toDecimal? hx
  obtain ⟨hdown, hup⟩ := answer_floor_and_ceil hdomain hX
  refine ⟨X, d, hX, hd, hdown, hup, ?_, ?_⟩
  · intro hlt
    rw [answer_round hdomain hd, if_pos ((scaled_lt_iff d).2 hlt)]
    exact ⟨_, rfl, Double.isRounded_roundedWhole hX hd⟩
  · intro hle
    rw [answer_round hdomain hd, if_neg]
    exact fun hlt => absurd ((scaled_lt_iff d).1 hlt) (not_lt.2 hle)

/-- Minus two and a half is rounded as a price. -/
theorem rounds_minus_two_and_a_half :
    (Double.ofRat (-5 / 2)).isFinite = true ∧
      ∃ y, answer .pricing "round" (.ofRat (-5 / 2)) = .ok (.number (.float y)) ∧
        y.IsRounded (-5 / 2) ⟨true, 25, -1⟩ := by
  have hfinite : (Double.ofRat (-5 / 2)).isFinite = true := by decide +kernel
  have hvalue : (Double.ofRat (-5 / 2)).toRat? = some (-5 / 2) := by decide +kernel
  have hdecimal : (Double.ofRat (-5 / 2)).toDecimal? = some ⟨true, 25, -1⟩ := by decide +kernel
  have hshort : |Decimal.toRat ⟨true, 25, -1⟩| + 1 / 2 < (10 ^ 28 : Nat) := by decide +kernel
  obtain ⟨X, d, hX, hd, -, -, hround, -⟩ := rounds_finite_doubles (.inr rfl) hfinite
  rw [hvalue] at hX
  rw [hdecimal] at hd
  cases hX
  cases hd
  exact ⟨hfinite, hround hshort⟩

/-- The double `1e28` is finite and whole, but rounding refuses it. -/
theorem round_refuses_long :
    (Double.ofInt (10 ^ 28)).isFinite = true ∧ (Double.ofInt (10 ^ 28)).isInteger = true ∧
      answer .real "round" (.ofInt (10 ^ 28)) = .error .decimalPrecision ∧
      answer .pricing "round" (.ofInt (10 ^ 28)) = .error .decimalPrecision ∧
      answer .real "floor" (.ofInt (10 ^ 28)) = .ok (.number (.float (.ofInt (10 ^ 28)))) := by
  decide +kernel

end Function

end Formula
