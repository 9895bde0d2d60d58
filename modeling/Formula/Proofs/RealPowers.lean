/-
# Real powers of integers

A power of two integers over the real numbers is exact where it is small. Elsewhere both integers
become doubles first. An operand or a result past the largest double counts as positive infinity,
and from `2 ^ 53` on the double of an odd exponent is even. **So the power is on its side of one
unless an operand is too large for a double, and has the wrong sign exactly for an odd power of a
negative base that becomes positive infinity or has so large an exponent**
(`Expr.exists_value_integerPower`).
-/
import Formula.Evaluation.Real
import Formula.Proofs.DoubleIntegers
import Formula.Proofs.KnownConditions
import Formula.Proofs.Places
import Mathlib.Algebra.Order.Field.Power

namespace Formula

namespace Double

variable {x y : Double} {a b n : Int}

/-! ## Powers of doubles -/

/-- **The power of a magnitude from one on** is above one or below it as its exponent is above zero
or below it. -/
theorem place?_powerMagnitude (hx : one.le x.abs = true) :
    ∃ p : Int, (powerMagnitude x y).place? = some p ∧ 0 ≤ p ∧
      (zero.le y = true → 1023 * 2 ^ 52 ≤ p) ∧ (zero.le y = false → p ≤ 1023 * 2 ^ 52) := by
  unfold powerMagnitude
  dsimp only
  rw [hx]
  generalize ofFloat (Float.pow x.abs.toFloat y.toFloat) = digits
  cases hy : zero.le y with
  | true =>
    rw [if_pos rfl]
    split
    · rename_i hone
      obtain ⟨a, p, ha, hp, hle⟩ := exists_place? hone
      obtain rfl := Option.some.inj (place?_one.symm.trans ha)
      exact ⟨p, hp, by omega, fun _ => hle, nofun⟩
    · exact ⟨_, rfl, by decide, fun _ => le_rfl, nofun⟩
  | false =>
    rw [if_neg (by decide)]
    split
    · rename_i hone
      obtain ⟨p, a, hp, ha, hle⟩ := exists_place? hone
      obtain rfl := Option.some.inj (place?_one.symm.trans ha)
      exact ⟨p, hp, nonneg_of_place?_abs hp, nofun, fun _ => hle⟩
    · exact ⟨_, rfl, by decide, nofun, fun _ => le_rfl⟩

/-! ## Doubles of integers -/

/-- The place of the double nearest to an integer: that of one at least, on the side of zero of the
integer. -/
theorem place?_ofInt (hn : n ≠ 0) (h : (ofInt n).isFinite = true) :
    ∃ r : Nat, 1023 * 2 ^ 52 ≤ r ∧
      (ofInt n).place? = some (if n < 0 then -(r : Int) else r) := by
  obtain ⟨hr, hfinite⟩ := ofInt_eq_finite h
  refine ⟨_, le_nearestRank (m := n.natAbs) (by omega), ?_⟩
  rw [hfinite, place?]
  simp only [decide_eq_true_eq]

/-- Whether a power of two integers is negative over the doubles: an odd power of a negative base,
as far as the double of the exponent is odd. -/
def Negates (b n : Int) : Prop := b < 0 ∧ n % 2 = 1 ∧ n.natAbs < 2 ^ 53

instance : Decidable (Negates b n) := inferInstanceAs (Decidable (_ ∧ _ ∧ _))

/-- The power over the doubles of two integers, its sign apart. -/
theorem power_ofInt (hb : b ≠ 0) (hn : n ≠ 0) (hx : (ofInt b).isFinite = true)
    (hy : (ofInt n).isFinite = true) : power (ofInt b) (ofInt n)
      = if Negates b n then (powerMagnitude (ofInt b) (ofInt n)).neg
        else powerMagnitude (ofInt b) (ofInt n) := by
  have hinteger := isInteger_ofInt hy
  have hodd := isOddInteger_ofInt hy
  have hbase := le_nearestRank (m := b.natAbs) (by omega)
  have hexponent := le_nearestRank (m := n.natAbs) (by omega)
  obtain ⟨hr, hfinite⟩ := ofInt_eq_finite hx
  obtain ⟨hq, hfinite'⟩ := ofInt_eq_finite hy
  rw [hfinite'] at hinteger hodd
  rw [hfinite, hfinite']
  unfold power
  dsimp only
  rw [if_neg (by omega), if_neg (by omega), hinteger, Bool.not_true, Bool.and_false,
    if_neg Bool.false_ne_true]
  have hsign : (decide (b < 0) && (finite (decide (n < 0)) _ hq).isOddInteger) = true
      ↔ Negates b n := by
    rw [Bool.and_eq_true, decide_eq_true_iff, hodd, Negates]
  by_cases h : Negates b n
  · rw [if_pos h, if_pos (hsign.2 h)]
  · rw [if_neg h, if_neg fun hs => h (hsign.1 hs)]

/-- **A power over the doubles of two integers** is above one or below it as the exponent is above
zero or below it, and negative as far as the double of the exponent is odd. -/
theorem place?_power (hb : b ≠ 0) (hn : n ≠ 0) (hx : (ofInt b).isFinite = true)
    (hy : (ofInt n).isFinite = true) : ∃ p : Int, 0 ≤ p ∧ (0 ≤ n → 1023 * 2 ^ 52 ≤ p) ∧
      (n < 0 → p ≤ 1023 * 2 ^ 52) ∧
        (power (ofInt b) (ofInt n)).place? = some (if Negates b n then -p else p) := by
  obtain ⟨r, hr, hbase⟩ := place?_ofInt hb hx
  obtain ⟨q, hq, hexponent⟩ := place?_ofInt hn hy
  have hmagnitude : one.le (ofInt b).abs = true := by
    rw [le_iff place?_one (place?_abs hbase)]
    split <;> omega
  obtain ⟨p, hplace, hp, habove, hbelow⟩ := place?_powerMagnitude (y := ofInt n) hmagnitude
  have hzero : zero.le (ofInt n) = true ↔ 0 ≤ n := by
    rw [le_iff place?_zero hexponent]
    split <;> omega
  refine ⟨p, hp, fun h => habove (hzero.2 h), fun h => hbelow ?_, ?_⟩
  · rw [Bool.eq_false_iff, Ne, hzero]
    omega
  · rw [power_ofInt hb hn hx hy]
    by_cases h : Negates b n
    · rw [if_pos h, if_pos h, place?_neg hplace]
    · rw [if_neg h, if_neg h, hplace]

end Double

/-! ## Powers of values -/

open Double

/-- **What a power of two integers becomes** where it is not exact: positive infinity past the
largest double, else the power of their doubles. -/
inductive RoundedPower (b n : Int) : Double → Prop where
  | operand : ¬ ((ofInt b).isFinite = true ∧ (ofInt n).isFinite = true) →
      RoundedPower b n (.infinity false)
  | overflow : (ofInt b).isFinite = true → (ofInt n).isFinite = true →
      (power (ofInt b) (ofInt n)).isFinite = false → RoundedPower b n (.infinity false)
  | rounded : (ofInt b).isFinite = true → (ofInt n).isFinite = true →
      (power (ofInt b) (ofInt n)).isFinite = true → RoundedPower b n (power (ofInt b) (ofInt n))

namespace Value

variable {b n : Int}

/-- The double of an integer, where it is finite. -/
theorem toDouble_integer (h : (ofInt n).isFinite = true) :
    (integer n).toDouble = .ok (ofInt n) := by
  rw [toDouble, Number.toDouble, ofInt?, if_pos h]
  rfl

/-- An integer past the largest double has none. -/
theorem toDouble_integer_eq_error (h : ¬ (ofInt n).isFinite = true) :
    (integer n).toDouble = .error .overflow := by
  rw [toDouble, Number.toDouble, ofInt?, if_neg h]
  rfl

-- these are stated for any values: at two integers the kernel would try to compute their doubles

/-- The power of two values with doubles. -/
theorem floatPower_of_toDouble {v w : Value} {x y : Double} (hv : v.toDouble = .ok x)
    (hw : w.toDouble = .ok y) : floatPower v w = doublePower x y := by
  rw [floatPower, hv, hw]

/-- A base past the largest double makes the power infinite. -/
theorem floatPower_of_overflow {v w : Value} (hv : v.toDouble = .error .overflow) :
    floatPower v w = .ok (.infinity false) := by
  rw [floatPower, hv]

/-- An exponent past the largest double makes the power infinite. -/
theorem floatPower_of_overflow_right {v w : Value} {x : Double} (hv : v.toDouble = .ok x)
    (hw : w.toDouble = .error .overflow) : floatPower v w = .ok (.infinity false) := by
  rw [floatPower, hv, hw]

/-- The power of the doubles of two integers is found. -/
theorem exists_doublePower (hb : b ≠ 0) (hx : (ofInt b).isFinite = true)
    (hy : (ofInt n).isFinite = true) :
    ∃ z, doublePower (ofInt b) (ofInt n) = .ok z ∧ RoundedPower b n z := by
  have hzero : (ofInt b).isZero = false := by
    obtain ⟨r, hr, hplace⟩ := place?_ofInt hb hx
    rw [isZero_of_place? hplace]
    split <;> exact decide_eq_false (by omega)
  rw [doublePower, power?, hx, hy, hzero, isInteger_ofInt hy]
  cases hfinite : (Double.power (ofInt b) (ofInt n)).isFinite with
  | true => exact ⟨_, by simp, .rounded hx hy hfinite⟩
  | false => exact ⟨_, by simp, .overflow hx hy hfinite⟩

/-- **The power of two integers over doubles** is always found. -/
theorem exists_floatPower (hb : b ≠ 0) :
    ∃ z, floatPower (integer b) (integer n) = .ok z ∧ RoundedPower b n z := by
  by_cases hx : (ofInt b).isFinite = true
  · have hbase := toDouble_integer hx
    by_cases hy : (ofInt n).isFinite = true
    · rw [floatPower_of_toDouble hbase (toDouble_integer hy)]
      exact exists_doublePower hb hx hy
    · exact ⟨_, floatPower_of_overflow_right hbase (toDouble_integer_eq_error hy),
        .operand fun h => hy h.2⟩
  · exact ⟨_, floatPower_of_overflow (toDouble_integer_eq_error hx), .operand fun h => hx h.1⟩

/-- The power of two integers, the first of which is not zero: exact where it is small, over doubles
elsewhere. -/
theorem power_of_ne_zero (hb : b ≠ 0) : (integer b).power (integer n)
    = match exactPower? (integer b) (integer n) with
      | some k => .ok (integer k)
      | none => float <$> floatPower (integer b) (integer n) := by
  have hzero : (integer b).isZero = false := by
    rw [Bool.eq_false_iff]
    exact fun h => hb (Number.eq_zero_of_isZero_integer h)
  rw [power, hzero]
  rfl

/-- Powers that are small enough to be exact have a natural exponent that is small itself. -/
theorem exactPower?_eq_some {k : Int} (h : exactPower? (integer b) (integer n) = some k) :
    0 ≤ n ∧ n.natAbs ≤ exactPowerBits ∧ k = b ^ n.toNat := by
  obtain ⟨⟨hn, hbits⟩, hk⟩ := Option.ite_none_right_eq_some.1 h
  have hle : 1 * n.toNat ≤ (Nat.log2 (max b.natAbs 1) + 1) * n.toNat :=
    Nat.mul_le_mul_right _ (Nat.succ_le_succ (Nat.zero_le _))
  exact ⟨hn, by omega, (Option.some.inj hk).symm⟩

/-- The exponent zero is small. -/
theorem exactPower?_zero : exactPower? (integer b) (integer 0) = some (b ^ 0) := by
  rw [exactPower?]
  exact if_pos ⟨le_rfl, Nat.zero_le _⟩

end Value

/-! ## Signs -/

/-- Integers are in the strict order of numbers as in their own. -/
theorem Number.integer_lt_integer {m n : Int} :
    (Number.integer m).lt (.integer n) = true ↔ m < n := by
  simp [lt, compare?, compare_lt_iff_lt]

/-- Integers are in the order of numbers as in their own. -/
theorem Number.integer_le_integer {m n : Int} :
    (Number.integer m).le (.integer n) = true ↔ m ≤ n := by
  simp [le, lt, eqv, compare?, compare_lt_iff_lt, le_iff_lt_or_eq]

/-- Whether a number is on the other side of zero than a rational. -/
def Number.Opposes (r : Number) (q : Rat) : Prop :=
  0 < q ∧ r.lt (.integer 0) = true ∨ q < 0 ∧ (Number.integer 0).lt r = true

/-- No integer is on the other side of zero than itself. -/
theorem Number.not_opposes_integer (n : Int) : ¬ (Number.integer n).Opposes n := by
  rw [Opposes, integer_lt_integer, integer_lt_integer, Int.cast_pos, Int.cast_lt_zero]
  omega

/-- The odd powers of negative integers are negative. -/
theorem zpow_lt_zero_iff {b : Int} (hb : b ≠ 0) (n : Int) :
    (b : Rat) ^ n < 0 ↔ b < 0 ∧ n % 2 = 1 := by
  have hb' : (b : Rat) ≠ 0 := Int.cast_ne_zero.2 hb
  rcases Int.even_or_odd n with hn | hn
  · have hpos : 0 < (b : Rat) ^ n := hn.zpow_pos hb'
    have heven := Int.even_iff.1 hn
    exact iff_of_false hpos.not_gt (by omega)
  · have hodd := Int.odd_iff.1 hn
    rw [hn.zpow_neg_iff, Int.cast_lt_zero]
    exact (and_iff_left hodd).symm

namespace RoundedPower

variable {b n : Int} {z : Double}

/-- **Where the power of two integers over doubles lies**: above one or below it as the exponent is
above zero or below it, unless an operand is too large, and on its side of zero as far as the double
of the exponent is odd and the power is not infinite. -/
theorem place? (h : RoundedPower b n z) (hb : b ≠ 0) (hn : n ≠ 0) : ∃ p : Int, 0 ≤ p ∧
    (0 ≤ n → 1023 * 2 ^ 52 ≤ p) ∧
      (n < 0 → (p ≤ 1023 * 2 ^ 52 ↔ (ofInt b).isFinite = true ∧ (ofInt n).isFinite = true)) ∧
        z.place? = some (if Negates b n ∧ z ≠ .infinity false then -p else p) := by
  have hlimit : 1023 * 2 ^ 52 < (rankLimit : Int) := by decide
  have hinfinite : (Double.infinity false).place? = some
      (if Negates b n ∧ Double.infinity false ≠ .infinity false then -(rankLimit : Int)
        else rankLimit) := by
    rw [if_neg fun h => h.2 rfl]
    rfl
  cases h with
  | operand hlarge =>
    refine ⟨rankLimit, by omega, fun _ => hlimit.le, fun _ => ?_, hinfinite⟩
    exact iff_of_false (by omega) hlarge
  | overflow hx hy hpower =>
    refine ⟨rankLimit, by omega, fun _ => hlimit.le, fun hneg => ?_, hinfinite⟩
    -- a power below one does not overflow
    obtain ⟨p, hp, -, hbelow, hplace⟩ := place?_power hb hn hx hy
    have hsmall := hbelow hneg
    rw [Bool.eq_false_iff, Ne, isFinite_iff hplace] at hpower
    split at hpower <;> omega
  | rounded hx hy hpower =>
    obtain ⟨p, hp, habove, hbelow, hplace⟩ := place?_power hb hn hx hy
    refine ⟨p, hp, habove, fun hneg => iff_of_true (hbelow hneg) ⟨hx, hy⟩, ?_⟩
    have hfinite : power (ofInt b) (ofInt n) ≠ .infinity false := by
      intro hinf
      rw [hinf] at hpower
      cases hpower
    rw [hplace]
    simp only [hfinite, ne_eq, not_false_eq_true, and_true]

/-- A power with a positive exponent is one at least. -/
theorem one_le_abs (h : RoundedPower b n z) (hb : b ≠ 0) (hn : n ≠ 0) (hpos : 0 ≤ n) :
    (Number.integer 1).le (Number.float z).abs = true := by
  obtain ⟨p, hp, habove, -, hplace⟩ := h.place? hb hn
  have habove := habove hpos
  rw [Number.abs, Number.integer_le_float toRat?_one, le_iff place?_one (place?_abs hplace)]
  split <;> omega

/-- A power with a negative exponent is one at most, exactly if no operand is too large. -/
theorem abs_le_one_iff (h : RoundedPower b n z) (hb : b ≠ 0) (hneg : n < 0) :
    (Number.float z).abs.le (.integer 1) = true
      ↔ (ofInt b).isFinite = true ∧ (ofInt n).isFinite = true := by
  obtain ⟨p, hp, -, hbelow, hplace⟩ := h.place? hb hneg.ne
  rw [Number.abs, Number.float_le_integer toRat?_one, le_iff (place?_abs hplace) place?_one,
    ← hbelow hneg]
  split <;> omega

/-- A power has the wrong sign exactly if it is an odd power of a negative base that becomes
positive infinity, or whose exponent is too large to stay odd while the power is not zero. -/
theorem opposes_iff (h : RoundedPower b n z) (hb : b ≠ 0) (hn : n ≠ 0) :
    (Number.float z).Opposes ((b : Rat) ^ n) ↔ b < 0 ∧ n % 2 = 1 ∧
      (z = .infinity false ∨ 2 ^ 53 < n.natAbs ∧ z.isZero = false) := by
  obtain ⟨p, hp, -, -, hplace⟩ := h.place? hb hn
  have hne : (b : Rat) ^ n ≠ 0 := zpow_ne_zero n (Int.cast_ne_zero.2 hb)
  have hpositive : 0 < (b : Rat) ^ n ↔ ¬ (b < 0 ∧ n % 2 = 1) := by
    rw [← zpow_lt_zero_iff hb n, not_lt]
    exact ⟨le_of_lt, fun hle => lt_of_le_of_ne hle hne.symm⟩
  rw [Number.Opposes, hpositive, zpow_lt_zero_iff hb n, Number.float_lt_integer toRat?_zero,
    Number.integer_lt_float toRat?_zero, lt_iff hplace place?_zero, lt_iff place?_zero hplace,
    isZero_of_place? hplace, decide_eq_false_iff_not]
  -- positive infinity is above zero whatever the operands are
  by_cases hinf : z = .infinity false
  · have hlimit : 0 < (rankLimit : Int) := by decide
    have hplace' : (if Negates b n ∧ z ≠ .infinity false then -p else p) = rankLimit := by
      rw [hinf] at hplace ⊢
      exact (Option.some.inj hplace).symm
    rw [hplace']
    simp only [hinf, true_or, and_true]
    omega
  · simp only [hinf, ne_eq, not_false_eq_true, and_true, false_or, Negates]
    split <;> omega

end RoundedPower

/-! ## The main result -/

namespace Expr

/-- **The power of two integers over real numbers**, the first of which is not zero, is always found
and exact if it is an integer. It is one at least for a natural exponent. For a negative one it is
one at most, exactly if the doubles of both integers are finite. Its sign is wrong exactly for an
odd power of a negative base that becomes positive infinity, or whose exponent is past `2 ^ 53`
while the power is not zero. -/
theorem exists_value_integerPower {b : Int} (hb : b ≠ 0) (n : Int) (d : Dialect) (s : Scope) :
    ∃ r : Number, (operation .pow (integer b) (integer n)).value d s = .ok (.number r) ∧
      (∀ k, r = .integer k → (k : Rat) = (b : Rat) ^ n) ∧
      (0 ≤ n → (Number.integer 1).le r.abs = true) ∧
      (n < 0 → (r.abs.le (.integer 1) = true ↔
        (ofInt b).isFinite = true ∧ (ofInt n).isFinite = true)) ∧
      (r.Opposes ((b : Rat) ^ n) ↔ b < 0 ∧ n % 2 = 1 ∧
        (r = .float (.infinity false) ∨ 2 ^ 53 < n.natAbs ∧ r.isZero = false)) := by
  have hpower := Value.power_of_ne_zero (n := n) hb
  have hvalue : ∀ {v}, (Value.integer b).power (.integer n) = .ok v →
      (operation .pow (integer b) (integer n)).value d s = .ok v := fun h =>
    (value_arithmetic rfl rfl rfl rfl).2 ⟨_, _, rfl, rfl, h⟩
  cases hexact : Value.exactPower? (.integer b) (.integer n) with
  | some k =>
    rw [hexact] at hpower
    refine ⟨.integer k, hvalue hpower, ?_⟩
    obtain ⟨hn, hsmall, rfl⟩ := Value.exactPower?_eq_some hexact
    have hcast : ((b ^ n.toNat : Int) : Rat) = (b : Rat) ^ n := by
      rw [Int.cast_pow, ← zpow_natCast, Int.toNat_of_nonneg hn]
    refine ⟨?_, fun _ => ?_, fun hneg => absurd hn (by omega), iff_of_false ?_ ?_⟩
    · rintro _ ⟨⟩
      exact hcast
    · have hpos : 0 < (b ^ n.toNat).natAbs := Int.natAbs_pos.2 (pow_ne_zero _ hb)
      rw [Number.abs, Number.integer_le_integer]
      omega
    · rw [← hcast]
      exact Number.not_opposes_integer _
    · rintro ⟨-, -, hinf | ⟨hlarge, -⟩⟩
      · cases hinf
      · rw [Value.exactPowerBits] at hsmall
        omega
  | none =>
    rw [hexact] at hpower
    have hn : n ≠ 0 := by
      rintro rfl
      rw [Value.exactPower?_zero] at hexact
      cases hexact
    obtain ⟨z, hz, hround⟩ := Value.exists_floatPower (n := n) hb
    rw [hz] at hpower
    refine ⟨.float z, hvalue hpower, nofun, hround.one_le_abs hb hn, hround.abs_le_one_iff hb, ?_⟩
    rw [hround.opposes_iff hb hn, Number.isZero_float]
    simp only [Number.float.injEq]

/-- The cube of minus two is exact. -/
theorem exists_value_integerPower_cube :
    ∃ r : Number, (operation .pow (integer (-2)) (integer 3)).value .arithmetic (.standard [])
        = .ok (.number r) ∧ r = .integer (-8) ∧ (Number.integer 1).le r.abs = true ∧
          ¬ r.Opposes ((-2 : Int) ^ (3 : Int)) := by
  obtain ⟨r, hr, -, habove, -, hsign⟩ :=
    exists_value_integerPower (b := -2) (by decide) 3 .arithmetic (.standard [])
  have hvalue : (operation .pow (integer (-2)) (integer 3)).value .arithmetic (.standard [])
      = .ok (.integer (-8)) := rfl
  obtain rfl : r = .integer (-8) := Value.number.inj (Except.ok.inj (hr.symm.trans hvalue))
  refine ⟨_, hr, rfl, habove (by decide), fun h => ?_⟩
  obtain ⟨-, -, hinf | ⟨hlarge, -⟩⟩ := hsign.1 h
  · cases hinf
  · exact absurd hlarge (by decide)

/-- **The fifth power of a negative integer past the largest double is positive infinity**, and so
is the reciprocal of such an integer. -/
theorem value_power_past_doubles :
    let large : Int := 10 ^ 400
    (operation .pow (integer (-large)) (integer 5)).value .arithmetic (.standard [])
        = .ok (.float (.infinity false)) ∧
      (Number.float (.infinity false)).Opposes ((-large : Int) ^ (5 : Int)) ∧
        (operation .pow (integer large) (integer (-1))).value .arithmetic (.standard [])
            = .ok (.float (.infinity false)) ∧
          (Number.float (.infinity false)).abs.le (.integer 1) = false := by
  intro large
  refine ⟨?_, .inr ⟨?_, rfl⟩, ?_, rfl⟩
  · decide +kernel
  · exact (zpow_lt_zero_iff (by decide +kernel) 5).2 (by decide +kernel)
  · decide +kernel

end Expr

end Formula
