/-
# Doubles nearest to integers

Magnitudes grow with their ranks, so finite doubles are in the order of their exact values
(`Double.compareRat_of_toRat?`). The double nearest to an integer is a whole number; it keeps the
integer below `2 ^ 53` and is even from there on, so that **it is odd exactly if the integer is odd
and below `2 ^ 53`** (`Double.isOddInteger_ofInt`).
-/
import Formula.Double.Arithmetic
import Formula.Number
import Formula.Proofs.Rounding

namespace Formula

/-! ## Magnitudes -/

/-- A larger rank has a larger magnitude. -/
theorem unitsOfRank_lt {r q : Nat} (h : r < q) : unitsOfRank r < unitsOfRank q := by
  by_contra hle
  have hrank := nearestRank_mono (d := 1) (Nat.le_of_not_lt hle)
  rw [nearestRank_unitsOfRank, nearestRank_unitsOfRank] at hrank
  omega

/-- Magnitudes are in the order of their ranks. -/
theorem strictMono_unitsOfRank : StrictMono unitsOfRank := fun _ _ => unitsOfRank_lt

/-- A power of two is the first magnitude with its number of digits. -/
theorem unitsOfRank_binade {k e : Nat} (hk : 2 ≤ k) (he : e = k + 51) :
    unitsOfRank (k * 2 ^ 52) = 2 ^ e := by
  have hlarge : ¬ k * 2 ^ 52 < 2 ^ 53 := by omega
  rw [unitsOfRank, if_neg hlarge, Nat.mul_mod_left, Nat.mul_div_cancel _ (Nat.two_pow_pos 52),
    Nat.add_zero, ← Nat.pow_add]
  congr 1
  omega

/-- The rank of a power of two. -/
theorem nearestRank_two_pow {k e : Nat} (hk : 2 ≤ k) (he : e = k + 51) :
    nearestRank (2 ^ e) 1 = k * 2 ^ 52 := by
  rw [← unitsOfRank_binade hk he, nearestRank_unitsOfRank]

/-- Signed magnitudes are in the order of their signed ranks. -/
theorem signed_unitsOfRank_lt (s t : Bool) (r q : Nat) :
    (if s then -(unitsOfRank r : Int) else unitsOfRank r)
        < (if t then -(unitsOfRank q : Int) else unitsOfRank q)
      ↔ (if s then -(r : Int) else r) < (if t then -(q : Int) else q) := by
  have hzero : unitsOfRank 0 = 0 := rfl
  have hr : unitsOfRank 0 < unitsOfRank r ↔ 0 < r := strictMono_unitsOfRank.lt_iff_lt
  have hq : unitsOfRank 0 < unitsOfRank q ↔ 0 < q := strictMono_unitsOfRank.lt_iff_lt
  have hrq : unitsOfRank r < unitsOfRank q ↔ r < q := strictMono_unitsOfRank.lt_iff_lt
  have hqr : unitsOfRank q < unitsOfRank r ↔ q < r := strictMono_unitsOfRank.lt_iff_lt
  cases s <;> cases t <;> simp only [if_true, if_false, Bool.false_eq_true] <;> omega

/-- The magnitudes on the grid of an exponent: up to `2 ^ 53` steps of `2 ^ s` units. -/
theorem unitsOfRank_grid {s c : Nat} (hlow : s ≠ 0 → 2 ^ 52 ≤ c) (hhigh : c ≤ 2 ^ 53) :
    unitsOfRank (s * 2 ^ 52 + c) = c * 2 ^ s := by
  by_cases hs : s = 0
  · subst hs
    by_cases hc : c < 2 ^ 53
    · rw [Nat.zero_mul, Nat.zero_add, unitsOfRank_of_lt hc, Nat.pow_zero, Nat.mul_one]
    · obtain rfl : c = 2 ^ 53 := by omega
      decide
  · have hlow := hlow hs
    have hrank : ¬ s * 2 ^ 52 + c < 2 ^ 53 := by omega
    rw [unitsOfRank, if_neg hrank]
    by_cases hc : c < 2 ^ 53
    · have hdiv : (s * 2 ^ 52 + c) / 2 ^ 52 - 1 = s := by omega
      have hmod : 2 ^ 52 + (s * 2 ^ 52 + c) % 2 ^ 52 = c := by omega
      rw [hdiv, hmod]
    · -- the last step of the grid is the first one of the next
      obtain rfl : c = 2 ^ 53 := by omega
      have hdiv : (s * 2 ^ 52 + 2 ^ 53) / 2 ^ 52 - 1 = s + 1 := by omega
      have hmod : 2 ^ 52 + (s * 2 ^ 52 + 2 ^ 53) % 2 ^ 52 = 2 ^ 52 := by omega
      rw [hdiv, hmod, Nat.pow_succ 2 s]
      omega

/-- **The magnitude nearest to some units** is a whole number of steps of their grid. -/
theorem unitsOfRank_nearestRank (n d : Nat) : unitsOfRank (nearestRank n d)
    = roundHalfEven n (d * 2 ^ (Nat.log2 (n / d) - 52)) * 2 ^ (Nat.log2 (n / d) - 52) :=
  unitsOfRank_grid (two_pow_le_roundHalfEven rfl) (roundHalfEven_le_two_pow rfl)

/-! ## Whole numbers -/

/-- A power of two adds its exponent to the length of a binary form. -/
theorem log2_mul_two_pow {m : Nat} (hm : m ≠ 0) (k : Nat) :
    Nat.log2 (m * 2 ^ k) = Nat.log2 m + k := by
  have hpos : 0 < 2 ^ k := Nat.two_pow_pos k
  have hne : m * 2 ^ k ≠ 0 := Nat.mul_ne_zero hm (Nat.ne_of_gt hpos)
  rw [Nat.log2_eq_iff hne, Nat.pow_add, Nat.add_right_comm, Nat.pow_add]
  exact ⟨Nat.mul_le_mul_right _ (Nat.log2_self_le hm),
    (Nat.mul_lt_mul_right hpos).2 Nat.lt_log2_self⟩

/-- A number of at most 53 digits is kept, whatever power of two it is multiplied with. -/
theorem unitsOfRank_of_small {m : Nat} (k : Nat) (hm : m < 2 ^ 53) :
    unitsOfRank (nearestRank (m * 2 ^ k) 1) = m * 2 ^ k := by
  by_cases hzero : m = 0
  · subst hzero
    rw [Nat.zero_mul]
    decide
  · have hlog : Nat.log2 m < 53 := (Nat.log2_lt hzero).2 hm
    rw [unitsOfRank_nearestRank, Nat.div_one, Nat.one_mul, log2_mul_two_pow hzero]
    generalize hs : Nat.log2 m + k - 52 = s
    have hsplit : 2 ^ k = 2 ^ (k - s) * 2 ^ s := by
      rw [← Nat.pow_add]
      congr 1
      omega
    rw [hsplit, ← Nat.mul_assoc, roundHalfEven_mul _ _ (Nat.two_pow_pos s)]

/-- A number of more digits becomes an even one. -/
theorem dvd_unitsOfRank_of_large {m k : Nat} (hm : 2 ^ 53 ≤ m) :
    2 ^ (k + 1) ∣ unitsOfRank (nearestRank (m * 2 ^ k) 1) := by
  have hne : m ≠ 0 := by omega
  have hlog : 53 ≤ Nat.log2 m := (Nat.le_log2 hne).2 hm
  rw [unitsOfRank_nearestRank, Nat.div_one, Nat.one_mul, log2_mul_two_pow hne]
  exact Nat.dvd_mul_left_of_dvd (Nat.pow_dvd_pow 2 (by omega)) _

/-- **A whole number rounds to a whole number**, which is odd exactly if the number is odd and has
at most 53 digits. -/
theorem exists_unitsOfRank (k m : Nat) :
    ∃ c, unitsOfRank (nearestRank (m * 2 ^ k) 1) = 2 ^ k * c ∧
      (c % 2 = 1 ↔ m % 2 = 1 ∧ m < 2 ^ 53) := by
  by_cases hm : m < 2 ^ 53
  · refine ⟨m, ?_, (and_iff_left hm).symm⟩
    rw [unitsOfRank_of_small k hm, Nat.mul_comm]
  · obtain ⟨c, hc⟩ := dvd_unitsOfRank_of_large (k := k) (Nat.le_of_not_lt hm)
    refine ⟨2 * c, ?_, ?_⟩
    · rw [hc, Nat.pow_succ, Nat.mul_assoc]
    · omega

/-- Only zero rounds below one. -/
theorem le_nearestRank {m : Nat} (hm : m ≠ 0) :
    1023 * 2 ^ 52 ≤ nearestRank (m * 2 ^ 1074) 1 :=
  calc 1023 * 2 ^ 52 = nearestRank (2 ^ 1074) 1 := (nearestRank_two_pow (k := 1023) (e := 1074) (by decide) rfl).symm
    _ ≤ nearestRank (m * 2 ^ 1074) 1 :=
      nearestRank_mono (Nat.le_mul_of_pos_left _ (Nat.pos_of_ne_zero hm))

namespace Double

/-- The double nearest to an integer, where it is finite. -/
theorem ofInt_eq_finite {n : Int} (h : (ofInt n).isFinite = true) :
    ∃ hr, ofInt n = finite (decide (n < 0)) (nearestRank (n.natAbs * 2 ^ 1074) 1) hr := by
  unfold ofInt ofUnits at h ⊢
  split at h
  · rename_i hr
    exact ⟨hr, dif_pos hr⟩
  · cases h

/-- The double nearest to an integer, in units. -/
theorem units?_ofInt {n : Int} (h : (ofInt n).isFinite = true) :
    ∃ k : Int, (ofInt n).units? = some (2 ^ 1074 * k) ∧
      (k % 2 = 1 ↔ n % 2 = 1 ∧ n.natAbs < 2 ^ 53) := by
  obtain ⟨hr, hfinite⟩ := ofInt_eq_finite h
  obtain ⟨c, hunits, hodd⟩ := exists_unitsOfRank 1074 n.natAbs
  rw [hfinite, units?, hunits, Int.natCast_mul, Int.natCast_pow]
  generalize ((2 : Nat) : Int) ^ 1074 = unit
  by_cases hneg : n < 0
  · refine ⟨-c, ?_, by omega⟩
    rw [decide_eq_true hneg, if_pos rfl, Int.mul_neg]
  · refine ⟨c, ?_, by omega⟩
    rw [decide_eq_false hneg, if_neg Bool.false_ne_true]

/-- The double nearest to an integer is a whole number. -/
theorem isInteger_ofInt {n : Int} (h : (ofInt n).isFinite = true) :
    (ofInt n).isInteger = true := by
  obtain ⟨k, hk, -⟩ := units?_ofInt h
  rw [isInteger, hk]
  exact beq_iff_eq.2 (Int.mul_emod_right _ k)

/-- **The double nearest to an integer is odd** exactly if the integer is odd and below
`2 ^ 53`. -/
theorem isOddInteger_ofInt {n : Int} (h : (ofInt n).isFinite = true) :
    (ofInt n).isOddInteger = true ↔ n % 2 = 1 ∧ n.natAbs < 2 ^ 53 := by
  obtain ⟨k, hk, hodd⟩ := units?_ofInt h
  have hunit : (2 : Int) ^ 1074 ≠ 0 := pow_ne_zero _ (by decide)
  rw [← hodd, isOddInteger, hk]
  simp only [Int.mul_emod_right, Int.mul_ediv_cancel_left k hunit, BEq.rfl, Bool.true_and,
    beq_iff_eq]

/-! ## Order -/

/-- Rationals in the order of two integers compare like these. -/
theorem compareRat_eq_compare {p q : Rat} {a b : Int} (hlt : p < q ↔ a < b)
    (hgt : q < p ↔ b < a) : Number.compareRat p q = compare a b := by
  unfold Number.compareRat
  rcases lt_trichotomy a b with h | h | h
  · rw [if_pos (hlt.2 h), compare_lt_iff_lt.2 h]
  · have hle : ¬ p < q := fun hpq => absurd (hlt.1 hpq) (by omega)
    have hge : ¬ q < p := fun hqp => absurd (hgt.1 hqp) (by omega)
    rw [if_neg hle, if_pos (le_antisymm (not_lt.1 hge) (not_lt.1 hle)), compare_eq_iff_eq.2 h]
  · have hqp : q < p := hgt.2 h
    rw [if_neg hqp.not_gt, if_neg hqp.ne', compare_gt_iff_gt.2 h]

/-- Fractions with one denominator are in the order of their numerators. -/
theorem mkRat_lt_mkRat {u v : Int} {d : Nat} (hd : 0 < d) : mkRat u d < mkRat v d ↔ u < v := by
  have hpos : (0 : Rat) < d := Nat.cast_pos.2 hd
  rw [Rat.mkRat_eq_div, Rat.mkRat_eq_div, div_lt_div_iff_of_pos_right hpos, Int.cast_lt]

/-- **Finite doubles are in the order of their exact values.** -/
theorem compareRat_of_toRat? {x y : Double} {p q : Rat} {a b : Int} (hx : x.toRat? = some p)
    (hy : y.toRat? = some q) (ha : x.place? = some a) (hb : y.place? = some b) :
    Number.compareRat p q = compare a b := by
  have hunit : 0 < 2 ^ 1074 := by positivity
  cases x with
  | finite s r hr =>
    cases y with
    | finite t w hw =>
      obtain rfl := Option.some.inj hx
      obtain rfl := Option.some.inj hy
      obtain rfl := Option.some.inj ha
      obtain rfl := Option.some.inj hb
      refine compareRat_eq_compare ?_ ?_
      · exact (mkRat_lt_mkRat hunit).trans (signed_unitsOfRank_lt s t r w)
      · exact (mkRat_lt_mkRat hunit).trans (signed_unitsOfRank_lt t s w r)
    | _ => cases hy
  | _ => cases hx

/-- A power of two is positive, as a rational. -/
theorem two_pow_pos_rat (k : Nat) : (0 : Rat) < (2 ^ k : Nat) := Nat.cast_pos.2 (Nat.two_pow_pos k)

/-- Powers of two are in the order of their exponents, as rationals. -/
theorem two_pow_lt_rat {k l : Nat} : ((2 ^ k : Nat) : Rat) < (2 ^ l : Nat) ↔ k < l := by
  rw [Nat.cast_lt, Nat.pow_lt_pow_iff_right (by decide)]

/-- The value of zero. -/
theorem toRat?_zero : zero.toRat? = some ((0 : Int) : Rat) := by
  show some (mkRat 0 (2 ^ 1074)) = _
  rw [Rat.zero_mkRat, Int.cast_zero]

/-- The value of one. -/
theorem toRat?_one : one.toRat? = some ((1 : Int) : Rat) := by
  show some (mkRat (unitsOfRank (1023 * 2 ^ 52) : Nat) (2 ^ 1074)) = _
  rw [unitsOfRank_binade (k := 1023) (e := 1074) (by decide) rfl, Rat.mkRat_eq_div,
    Int.cast_natCast, div_self (two_pow_pos_rat 1074).ne', Int.cast_one]

end Double

namespace Number

variable {x y : Double} {n : Int}

/-- A double compares with an integer as with the double of that value. -/
theorem compare?_float_integer (hy : y.toRat? = some (n : Rat)) :
    compare? (float x) (integer n) = compare? (float x) (float y) := by
  cases y with
  | finite t w hw =>
    cases x with
    | nan => rfl
    | infinity s =>
      have hplace : compare (if s then -(rankLimit : Int) else rankLimit)
          (if t then -(w : Int) else w) = if s then .lt else .gt := by
        cases s <;> cases t <;> simp [compare_lt_iff_lt, compare_gt_iff_gt] <;> omega
      exact congrArg some hplace.symm
    | finite s r hr =>
      have hvalue : (Double.finite s r hr).toRat?
          = some (mkRat (if s then -(unitsOfRank r : Int) else unitsOfRank r) (2 ^ 1074)) := rfl
      exact congrArg some (Double.compareRat_of_toRat? hvalue hy rfl rfl)
  | _ => cases hy

/-- An integer compares with a double as the double of its value. -/
theorem compare?_integer_float (hy : y.toRat? = some (n : Rat)) :
    compare? (integer n) (float x) = compare? (float y) (float x) := by
  have hswap : compare? (integer n) (float x) = (compare? (float x) (integer n)).map .swap := rfl
  rw [hswap, compare?_float_integer hy, compare?, compare?]
  cases x.place? with
  | none => cases y.place? <;> rfl
  | some a =>
    cases y.place? with
    | none => rfl
    | some b => exact congrArg some Std.OrientedCmp.eq_swap.symm

/-- Doubles are in the strict order of numbers as in their own. -/
theorem lt_float : (float x).lt (float y) = x.lt y := by
  rw [Bool.eq_iff_iff, lt, compare?, Double.lt]
  cases x.place? <;> cases y.place? <;> simp [compare_lt_iff_lt]

/-- Doubles are in the order of numbers as in their own. -/
theorem le_float : (float x).le (float y) = x.le y := by
  rw [Bool.eq_iff_iff, le, lt, eqv, compare?, Double.le]
  cases x.place? <;> cases y.place? <;> simp [compare_lt_iff_lt, le_iff_lt_or_eq]

/-- Doubles count as equal numbers as they do among themselves. -/
theorem eqv_float : (float x).eqv (float y) = x.eqv y := by
  rw [Bool.eq_iff_iff, eqv, compare?, Double.eqv]
  cases x.place? <;> cases y.place? <;> simp

/-- A double is below an integer exactly if it is below the double of that value. -/
theorem float_lt_integer (hy : y.toRat? = some (n : Rat)) :
    (float x).lt (integer n) = x.lt y := by
  rw [lt, compare?_float_integer hy]
  exact lt_float

/-- An integer is below a double exactly if the double of its value is. -/
theorem integer_lt_float (hy : y.toRat? = some (n : Rat)) :
    (integer n).lt (float x) = y.lt x := by
  rw [lt, compare?_integer_float hy]
  exact lt_float

/-- A double is an integer at most exactly if it is the double of that value at most. -/
theorem float_le_integer (hy : y.toRat? = some (n : Rat)) :
    (float x).le (integer n) = x.le y := by
  rw [le, lt, eqv, compare?_float_integer hy]
  exact le_float

/-- A double is an integer at least exactly if it is the double of that value at least. -/
theorem integer_le_float (hy : y.toRat? = some (n : Rat)) :
    (integer n).le (float x) = y.le x := by
  rw [le, lt, eqv, compare?_integer_float hy]
  exact le_float

/-- A double counts as equal to an integer exactly if it does to the double of that value. -/
theorem float_eqv_integer (hy : y.toRat? = some (n : Rat)) :
    (float x).eqv (integer n) = x.eqv y := by
  rw [eqv, compare?_float_integer hy]
  exact eqv_float

/-- A double is zero as a number exactly if it is a zero. -/
theorem isZero_float (x : Double) : (float x).isZero = x.isZero :=
  float_eqv_integer Double.toRat?_zero

end Number

end Formula
