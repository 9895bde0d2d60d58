/-
# Principal values of rational powers

A rational power of a rational is a real number, which need not be rational. Where it is, the power
has that value, and where it is not, it is refused: **the value and the refusal are those of the
principal value** (`power_exact_and_complete`). Completeness rests on two facts about reduced
fractions: a base whose power has a root has that root itself (`exists_root_of_pow_eq`), and a
root is taken in the numerator and in the denominator apart (`root?_eq_some_iff`).
-/
import Formula.Proofs.Folding
import Formula.Proofs.IntegerRoots
import Formula.Registry
import Formula.Value.Power
import Mathlib.Algebra.Order.Field.Rat
import Mathlib.Algebra.Order.Ring.Abs
import Mathlib.Data.Rat.Lemmas

namespace Formula

namespace Rational

/-! ## Roots of reduced fractions -/

/-- A power of a reduced fraction is reduced: its parts are the powers of the parts. -/
theorem pow_eq_iff {q s : Rat} {k : Nat} : s ^ k = q ↔ s.num ^ k = q.num ∧ s.den ^ k = q.den := by
  rw [← Rat.num_pow, ← Rat.den_pow]
  constructor
  · rintro rfl
    exact ⟨rfl, rfl⟩
  · rintro ⟨hnum, hden⟩
    exact Rat.ext hnum hden

/-- The numerator of a root, put together from its magnitude and the sign of the power. -/
theorem num_of_pow_eq {q s : Rat} {k : Nat} (hs : s ^ k = q) (hpos : 0 ≤ q → 0 ≤ s) :
    (if q < 0 then -(s.num.natAbs : Int) else s.num.natAbs) = s.num := by
  split
  · rename_i hq
    have hneg : s < 0 := by
      by_contra hnonneg
      rw [← hs] at hq
      exact absurd hq (not_lt.2 (pow_nonneg (not_lt.1 hnonneg) k))
    have hnum : s.num < 0 := Rat.num_neg.2 hneg
    omega
  · rename_i hq
    have hnonneg : 0 ≤ s.num := Rat.num_nonneg.2 (hpos (not_lt.1 hq))
    omega

/-- **A root is found whenever there is one**: the root of a fraction that is not negative is not
negative, and the degree is odd for a negative one. -/
theorem root?_eq_some_iff {q s : Rat} {k : Nat} (hk : 0 < k) (hodd : q < 0 → Odd k) :
    root? q k = some s ↔ s ^ k = q ∧ (0 ≤ q → 0 ≤ s) := by
  have hk' : (1 : Int) ≤ k := by omega
  have hroot : ∀ {m r : Nat}, exactRoot? m k = some r ↔ r ^ k = m := exactRoot?_natCast hk'
  simp only [root?, Option.bind_eq_bind, Option.bind_eq_some_iff, hroot, Option.pure_def,
    Option.some.injEq]
  constructor
  · rintro ⟨n, hn, d, hd, rfl⟩
    have hd₀ : d ≠ 0 := by
      rintro rfl
      rw [Nat.zero_pow hk] at hd
      exact q.den_ne_zero hd.symm
    have hnum : (if q < 0 then -(n : Int) else n) ^ k = q.num := by
      have hcast : (n : Int) ^ k = q.num.natAbs := by exact_mod_cast hn
      split
      · rename_i hq
        have hneg : q.num < 0 := Rat.num_neg.2 hq
        rw [(hodd hq).neg_pow, hcast]
        omega
      · rename_i hq
        have hnonneg : 0 ≤ q.num := Rat.num_nonneg.2 (not_lt.1 hq)
        rw [hcast]
        omega
    constructor
    · rw [Rat.mkRat_eq_div, div_pow, ← Int.cast_pow, hnum, ← Nat.cast_pow, hd]
      exact Rat.num_div_den q
    · intro hq
      rw [if_neg (not_lt.2 hq)]
      exact Rat.mkRat_nonneg (Int.natCast_nonneg n) d
  · rintro ⟨hpow, hpos⟩
    obtain ⟨hnum, hden⟩ := pow_eq_iff.1 hpow
    refine ⟨s.num.natAbs, ?_, s.den, hden, ?_⟩
    · rw [← Int.natAbs_pow, hnum]
    · rw [num_of_pow_eq hpow hpos]
      exact Rat.mkRat_self s

/-- **A base whose power has a root has that root itself**, since the exponent is reduced. -/
theorem exists_root_of_pow_eq {b e r : Rat} (hb : b ≠ 0) (h : r ^ e.den = b ^ e.num) :
    ∃ s : Rat, s ^ e.den = b := by
  have hbezout : e.num * e.num.gcdA e.den + e.den * e.num.gcdB e.den = 1 := by
    rw [← Int.gcd_eq_gcd_ab, Int.gcd, Int.natAbs_natCast, e.reduced]
    rfl
  generalize e.num.gcdA e.den = m, e.num.gcdB e.den = n at hbezout
  have hcomm : ∀ (x : Rat) (i : Int), (x ^ i) ^ e.den = (x ^ e.den) ^ i := by
    intro x i
    rw [← zpow_natCast, zpow_comm, zpow_natCast]
  refine ⟨r ^ m * b ^ n, ?_⟩
  calc (r ^ m * b ^ n) ^ e.den = (b ^ e.num) ^ m * (b ^ e.den) ^ n := by
        rw [mul_pow, hcomm, hcomm, h]
    _ = b ^ (e.num * m + e.den * n) := by
        rw [zpow_add₀ hb, zpow_mul, zpow_mul, zpow_natCast]
    _ = b := by rw [hbezout, zpow_one]

/-! ## Principal values -/

/-- **The principal value** of a rational power of a base other than zero: the root of the power
that is positive for a positive base; a negative base has odd roots only. -/
structure IsPrincipalPower (b e r : Rat) : Prop where
  pow : r ^ e.den = b ^ e.num
  pos : 0 < b → 0 < r
  odd : b < 0 → Odd e.den

variable {b e r s : Rat}

/-- There is one principal value at most. -/
theorem IsPrincipalPower.unique (hb : b ≠ 0) (hr : IsPrincipalPower b e r)
    (hs : IsPrincipalPower b e s) : r = s := by
  have hpow : r ^ e.den = s ^ e.den := hr.pow.trans hs.pow.symm
  rcases lt_or_gt_of_ne hb with hneg | hpos
  · exact (hr.odd hneg).strictMono_pow.injective hpow
  · exact (pow_left_inj₀ (hr.pos hpos).le (hs.pos hpos).le e.den_ne_zero).1 hpow

/-- A power of a root is a principal value. -/
theorem isPrincipalPower_of_root? (hb : b ≠ 0) (hodd : b < 0 → Odd e.den)
    (h : root? b e.den = some s) : IsPrincipalPower b e (s ^ e.num) := by
  obtain ⟨hpow, hnonneg⟩ := (root?_eq_some_iff e.den_pos hodd).1 h
  refine ⟨?_, ?_, hodd⟩
  · rw [← zpow_natCast, zpow_comm, zpow_natCast, hpow]
  · intro hpos
    have hs : s ≠ 0 := by
      rintro rfl
      exact hb (by rw [← hpow, zero_pow e.den_ne_zero])
    exact zpow_pos (lt_of_le_of_ne (hnonneg hpos.le) hs.symm) e.num

/-- Where there is a principal value, the base has a root. -/
theorem exists_root?_of_isPrincipalPower (hb : b ≠ 0) (h : IsPrincipalPower b e r) :
    ∃ s, root? b e.den = some s := by
  obtain ⟨s, hs⟩ := exists_root_of_pow_eq hb h.pow
  rcases lt_or_gt_of_ne hb with hneg | hpos
  · exact ⟨s, (root?_eq_some_iff e.den_pos h.odd).2 ⟨hs, fun hb' => absurd hneg (not_lt.2 hb')⟩⟩
  -- of two roots of a positive base, the one without sign is taken
  · have habs : |s| ^ e.den = b := by rw [← abs_pow, hs, abs_of_pos hpos]
    exact ⟨|s|, (root?_eq_some_iff e.den_pos h.odd).2 ⟨habs, fun _ => abs_nonneg s⟩⟩

/-- **The power of a base other than zero is its principal value**, or it is refused because there is
none. -/
theorem power_cases (hb : b ≠ 0) (e : Rat) :
    (∃ r, power b e = .ok r ∧ IsPrincipalPower b e r) ∨
      (∃ cause, power b e = .error (.invalid cause)) ∧ ∀ r, ¬ IsPrincipalPower b e r := by
  rw [power, if_neg hb]
  by_cases hwhole : e.den = 1
  · rw [if_pos hwhole, wholePower_eq]
    refine Or.inl ⟨_, rfl, ?_, fun hpos => zpow_pos hpos e.num, fun _ => ?_⟩
    · rw [hwhole, pow_one]
    · rw [hwhole]
      exact odd_one
  · rw [if_neg hwhole]
    by_cases hreal : b < 0 ∧ e.den % 2 = 0
    · rw [if_pos hreal]
      refine Or.inr ⟨⟨_, rfl⟩, fun r hr => ?_⟩
      exact Nat.not_odd_iff.2 hreal.2 (hr.odd hreal.1)
    · rw [if_neg hreal]
      have hodd : b < 0 → Odd e.den := fun hneg =>
        Nat.not_even_iff_odd.1 fun heven => hreal ⟨hneg, Nat.even_iff.1 heven⟩
      cases hroot : root? b e.den with
      | some s =>
        refine Or.inl ⟨_, rfl, ?_⟩
        rw [wholePower_eq]
        exact isPrincipalPower_of_root? hb hodd hroot
      | none =>
        refine Or.inr ⟨⟨_, rfl⟩, fun r hr => ?_⟩
        obtain ⟨s, hs⟩ := exists_root?_of_isPrincipalPower hb hr
        rw [hroot] at hs
        cases hs

/-- A power has the principal value. -/
theorem power_eq_ok_iff (hb : b ≠ 0) : power b e = .ok r ↔ IsPrincipalPower b e r := by
  rcases power_cases hb e with ⟨s, hs, hprincipal⟩ | ⟨⟨cause, hcause⟩, hnone⟩
  · rw [hs, Except.ok.injEq]
    constructor
    · rintro rfl
      exact hprincipal
    · exact hprincipal.unique hb
  · rw [hcause]
    constructor
    · intro h
      cases h
    · exact fun h => absurd h (hnone r)

/-- A power is refused as a value exactly where there is no principal value. -/
theorem power_eq_invalid_iff (hb : b ≠ 0) :
    (∃ cause, power b e = .error (.invalid cause)) ↔ ¬ ∃ r, IsPrincipalPower b e r := by
  rcases power_cases hb e with ⟨s, hs, hprincipal⟩ | ⟨hcause, hnone⟩
  · constructor
    · rintro ⟨cause, hcause⟩
      rw [hs] at hcause
      cases hcause
    · exact fun h => absurd ⟨s, hprincipal⟩ h
  · exact iff_of_true hcause fun ⟨r, hr⟩ => hnone r hr

/-- The powers of zero. -/
theorem power_zero (e : Rat) :
    power 0 e = if e = 0 then .error .undefinedPower
      else if e < 0 then .error (.divisionByZero "^") else .ok 0 := by
  rw [power, if_pos rfl]

/-! ## Square roots -/

/-- The square root is the root of degree two; a negative rational has none. -/
theorem sqrt?_eq_some_iff {x : Rat} : sqrt? x = some r ↔ r ^ 2 = x ∧ 0 ≤ r := by
  by_cases hx : x < 0
  · have hnone : exactRoot? x.num 2 = none := by
      rw [exactRoot?, if_pos (Or.inl (Rat.num_neg.2 hx))]
    rw [sqrt?, hnone]
    constructor
    · intro h
      cases h
    · rintro ⟨rfl, -⟩
      exact absurd hx (not_lt.2 (sq_nonneg r))
  · have hroot : sqrt? x = root? x 2 := by
      have hnum : (x.num.natAbs : Int) = x.num :=
        Int.natAbs_of_nonneg (Rat.num_nonneg.2 (not_lt.1 hx))
      simp only [sqrt?, root?, hnum, if_neg hx]
      rfl
    rw [hroot, root?_eq_some_iff (by decide) fun h => absurd h hx]
    simp only [not_lt.1 hx, forall_const]

end Rational

/-! ## Powers of values -/

/-- A rational value is below an integer when the rational is. -/
theorem Value.relate_lt_rational (q : Rat) (n : Int) :
    (Value.rational q).relate .lt (.integer n) = .ok (decide (q < n)) := by
  show Except.ok (some (Number.compareRat q n) == some .lt) = _
  rw [Number.compareRat]
  by_cases hlt : q < n
  · simp [hlt]
  · by_cases heq : q = n
    · simp [heq]
    · simp [hlt, heq]

open Rational in
/-- **The power of two rational values** is the power of the rationals. -/
theorem exactValuePower_rational (b e : Rat) :
    Value.exactValuePower (.rational b) (.rational e) = .rational <$> power b e := by
  have hzero : ∀ q : Rat, (Value.rational q).isZero = decide (q = 0) := by
    intro q
    rw [Bool.eq_iff_iff, decide_eq_true_iff]
    exact Number.isZero_rational_iff
  have hlt : ∀ q : Rat, (Value.rational q).relate .lt (.integer 0) = .ok (decide (q < 0)) := by
    intro q
    exact Value.relate_lt_rational q 0
  rw [Value.exactValuePower, hzero, hzero, hlt, hlt]
  by_cases hb : b = 0
  · subst hb
    rw [power_zero]
    by_cases he : e = 0
    · rw [if_pos he, decide_eq_true he]
      rfl
    · rw [if_neg he, decide_eq_false he]
      by_cases hneg : e < 0
      · rw [if_pos hneg, decide_eq_true hneg]
        rfl
      · rw [if_neg hneg, decide_eq_false hneg]
        rfl
  · rw [decide_eq_false hb]
    show (if e.den = 1 then Value.powRational b e.num else _) = _
    by_cases hwhole : e.den = 1
    · have hok : ¬ (b = 0 ∧ e.num < 0) := fun h => hb h.1
      rw [if_pos hwhole, power, if_neg hb, if_pos hwhole, Value.powRational, if_neg hok]
      rfl
    · rw [if_neg hwhole]
      show (if (decide (b < 0) && e.den % 2 == 0) = true then _ else _) = _
      by_cases hreal : b < 0 ∧ e.den % 2 = 0
      · have htrue : (decide (b < 0) && e.den % 2 == 0) = true := by simpa using hreal
        rw [htrue, power, if_neg hb, if_neg hwhole, if_pos hreal]
        rfl
      · have hfalse : (decide (b < 0) && e.den % 2 == 0) = false := by simpa using hreal
        rw [hfalse]
        rfl

/-! ## The registered square root -/

/-- Whether two computations answer alike: with the same value, or by refusing a value. -/
def AnswerAlike (a b : Except Error Value) : Prop :=
  (∃ v, a = .ok v ∧ b = .ok v) ∨
    (∃ cause, a = .error (.invalid cause)) ∧ ∃ cause, b = .error (.invalid cause)

open Rational in
/-- **The square root and the power one half answer alike.** -/
theorem answerAlike_sqrt (x : Rat) :
    AnswerAlike (.rational <$> Function.exactSquareRoot x) (.rational <$> power x (1 / 2)) := by
  have hden : (1 / 2 : Rat).den = 2 := by decide +kernel
  have hnum : (1 / 2 : Rat).num = 1 := by decide +kernel
  rw [Function.exactSquareRoot]
  cases hsqrt : sqrt? x with
  | some r =>
    obtain ⟨hpow, hr⟩ := sqrt?_eq_some_iff.1 hsqrt
    refine Or.inl ⟨.rational r, rfl, ?_⟩
    by_cases hx : x = 0
    · obtain rfl : r = 0 := by
        rw [hx] at hpow
        exact pow_eq_zero_iff (by decide) |>.1 hpow
      rw [hx]
      decide +kernel
    · have hprincipal : IsPrincipalPower x (1 / 2) r := by
        refine ⟨by rw [hden, hnum, hpow, zpow_one], fun _ => ?_, fun hneg => ?_⟩
        · refine lt_of_le_of_ne hr ?_
          rintro rfl
          exact hx (by rw [← hpow]; rfl)
        · exact absurd hneg (not_lt.2 (hpow ▸ sq_nonneg r))
      rw [(power_eq_ok_iff hx).2 hprincipal]
      rfl
  | none =>
    have hx : x ≠ 0 := by
      rintro rfl
      cases hsqrt
    refine Or.inr ⟨⟨_, rfl⟩, ?_⟩
    have hnone : ¬ ∃ r, IsPrincipalPower x (1 / 2) r := by
      rintro ⟨r, hr⟩
      have hpow : r ^ 2 = x := by
        rw [← hden, hr.pow, hnum, zpow_one]
      have hpos : 0 < x := lt_of_le_of_ne (hpow ▸ sq_nonneg r) hx.symm
      rw [sqrt?_eq_some_iff.2 ⟨hpow, (hr.pos hpos).le⟩] at hsqrt
      cases hsqrt
    obtain ⟨cause, hcause⟩ := (power_eq_invalid_iff hx).2 hnone
    exact ⟨cause, by rw [hcause]; rfl⟩

/-! ## Exactness and completeness -/

open Rational in
/-- **Rational powers are exact and complete.** The power of a base other than zero is its principal
value, and a value is refused exactly where there is none. Zero to the power zero is undefined, zero
to a negative power divides by zero, and its other powers are zero. The registered square root
answers as the power one half does. -/
theorem power_exact_and_complete (b e x : Rat) :
    Value.exactValuePower (.rational b) (.rational e) = .rational <$> power b e ∧
    (b ≠ 0 → (∀ r, power b e = .ok r ↔ IsPrincipalPower b e r) ∧
      ((∃ cause, power b e = .error (.invalid cause)) ↔ ¬ ∃ r, IsPrincipalPower b e r)) ∧
    (power 0 e = .error .undefinedPower ↔ e = 0) ∧
    ((∃ culprit, power 0 e = .error (.divisionByZero culprit)) ↔ e < 0) ∧
    (power 0 e = .ok 0 ↔ 0 < e) ∧
    ∃ f, Registry.builtin.find? .rational "sqrt" = some f ∧
      AnswerAlike (f.apply [.rational x]) (.rational <$> power x (1 / 2)) := by
  refine ⟨exactValuePower_rational b e,
    fun hb => ⟨fun r => power_eq_ok_iff hb, power_eq_invalid_iff hb⟩, ?_, ?_, ?_,
    ⟨_, rfl, answerAlike_sqrt x⟩⟩
  all_goals
    rw [power_zero]
    rcases lt_trichotomy e 0 with he | he | he
    · simp [he, he.ne, he.not_gt]
    · simp [he]
    · simp [he, he.ne', he.not_gt]

open Rational in
/-- The cube root of `(-8) ^ 2` is found, and the square root of `-8` is refused. -/
theorem power_exact_and_complete_cube :
    (-8 : Rat) ≠ 0 ∧ power (-8) (2 / 3) = .ok 4 ∧
      (∃ cause, power (-8) (1 / 2) = .error (.invalid cause)) := by
  have hb : (-8 : Rat) ≠ 0 := by decide +kernel
  have hcube := (power_exact_and_complete (-8) (2 / 3) 2).2.1 hb
  have hroot := (power_exact_and_complete (-8) (1 / 2) 2).2.1 hb
  refine ⟨hb, (hcube.1 4).2 ⟨?_, ?_, ?_⟩, hroot.2.2 ?_⟩
  · decide +kernel
  · decide +kernel
  · intro _
    exact ⟨1, by decide +kernel⟩
  · rintro ⟨r, hr⟩
    exact absurd (hr.odd (by decide +kernel)) (by decide +kernel)

end Formula
