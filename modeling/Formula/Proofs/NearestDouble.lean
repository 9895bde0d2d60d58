/-
# The nearest double

A double is nearest to a rational if no finite double is closer, and where another value is as close
its last bit is zero. **Rounding a rational that is not negative gives the nearest double**
(`Double.isNearest_ofRat`), unless it is past the largest one. The grid of the quotient holds every
magnitude that could be as close: a magnitude off the grid is below its first point, which lies
between that magnitude and the quotient.
-/
import Formula.Proofs.DoubleIntegers
import Mathlib.Algebra.Order.Field.Basic
import Mathlib.Algebra.Order.Ring.Abs
import Mathlib.Tactic.FieldSimp
import Mathlib.Tactic.Linarith
import Mathlib.Tactic.Positivity
import Mathlib.Tactic.Ring

namespace Formula

/-! ## Nearest whole numbers -/

/-- A quotient rounds by half a step at most, and by half a step only to an even number. -/
theorem roundHalfEven_near {d : Nat} (hd : 0 < d) (n : Nat) :
    (2 * |(roundHalfEven n d * d : Int) - n| < d) ∨
      (2 * |(roundHalfEven n d * d : Int) - n| = d ∧ roundHalfEven n d % 2 = 0) := by
  have hdm : (d : Int) * (n / d : Nat) + (n % d : Nat) = n := by exact_mod_cast Nat.div_add_mod n d
  have hlt : n % d < d := Nat.mod_lt n hd
  have hparity : n / d % 2 = 0 ∨ n / d % 2 = 1 := by omega
  -- the distance is the remainder, or what the remainder leaves of a step
  have hdown : |((n / d : Nat) * d : Int) - n| = (n % d : Nat) := by
    rw [abs_eq (by omega)]
    right
    linarith
  have hup : |((n / d + 1 : Nat) * d : Int) - n| = d - (n % d : Nat) := by
    rw [abs_eq (by omega)]
    left
    push_cast at hdm ⊢
    linarith
  unfold roundHalfEven
  split_ifs with hless hmore
  · left
    rw [hdown]
    omega
  · left
    rw [hup]
    omega
  · right
    rcases hparity with heven | hodd
    · rw [heven, Nat.add_zero, hdown]
      omega
    · rw [hodd, hup]
      omega

/-- **A quotient rounds to a nearest whole number**, to the even one of two. -/
theorem roundHalfEven_nearest {d : Nat} (hd : 0 < d) (n k : Nat) :
    |(roundHalfEven n d * d : Int) - n| ≤ |(k * d : Int) - n| ∧
      (|(k * d : Int) - n| = |(roundHalfEven n d * d : Int) - n| →
        k = roundHalfEven n d ∨ roundHalfEven n d % 2 = 0) := by
  have hnear := roundHalfEven_near hd n
  generalize roundHalfEven n d = c at *
  by_cases hk : k = c
  · subst hk
    exact ⟨le_rfl, fun _ => .inl rfl⟩
  · -- another whole number is a step away at least
    have hstep : (d : Int) ≤ |(k * d : Int) - c * d| := by
      rw [← sub_mul, abs_mul, Nat.abs_cast]
      exact le_mul_of_one_le_left (by omega) (Int.one_le_abs (by omega))
    have htriangle := abs_sub_le (k * d : Int) n (c * d)
    rw [abs_sub_comm (n : Int)] at htriangle
    refine ⟨?_, fun heq => ?_⟩
    · omega
    · right
      omega

/-- Whether a whole number is nearest to a rational, the even one of two. -/
def IsHalfEven (q : Rat) (c : Nat) : Prop :=
  |(c : Rat) - q| < 1 / 2 ∨ |(c : Rat) - q| = 1 / 2 ∧ c % 2 = 0

/-- The nearest whole number is half a step away at most. -/
theorem IsHalfEven.bounds {q : Rat} {c : Nat} (h : IsHalfEven q c) :
    (c : Rat) ≤ q + 1 / 2 ∧ q ≤ c + 1 / 2 := by
  have hle : |(c : Rat) - q| ≤ 1 / 2 := by
    rcases h with h | h
    · exact h.le
    · exact h.1.le
  obtain ⟨hlow, hhigh⟩ := abs_le.1 hle
  constructor <;> linarith

/-- Below a whole number, the nearest one is not above it. -/
theorem IsHalfEven.le {q : Rat} {b c : Nat} (h : IsHalfEven q c) (hlt : q < b) : c ≤ b := by
  have hlast : (c : Rat) < (b + 1 : Nat) := by
    push_cast
    linarith [h.bounds.1]
  exact Nat.lt_succ_iff.1 (Nat.cast_lt.1 hlast)

/-- From a whole number on, the nearest one is not below it. -/
theorem IsHalfEven.ge {q : Rat} {b c : Nat} (h : IsHalfEven q c) (hle : (b : Rat) ≤ q) :
    b ≤ c := by
  have hfirst : (b : Rat) < (c + 1 : Nat) := by
    push_cast
    linarith [h.bounds.2]
  exact Nat.lt_succ_iff.1 (Nat.cast_lt.1 hfirst)

/-- **The nearest whole number of a quotient**, as a rational. -/
theorem isHalfEven_roundHalfEven {d : Nat} (hd : 0 < d) (n : Nat) :
    IsHalfEven ((n : Rat) / d) (roundHalfEven n d) := by
  have hnear := roundHalfEven_near hd n
  have hpos : (0 : Rat) < d := Nat.cast_pos.2 hd
  generalize roundHalfEven n d = c at *
  have hdistance : |(c : Rat) - (n : Rat) / d| = (|(c * d : Int) - n| : Int) / (d : Rat) := by
    rw [Int.cast_abs, ← abs_of_pos hpos, ← abs_div, abs_of_pos hpos]
    congr 1
    push_cast
    field_simp
  rw [IsHalfEven, hdistance, div_lt_div_iff₀ hpos two_pos, div_eq_div_iff hpos.ne' two_ne_zero,
    one_mul, mul_comm _ (2 : Rat)]
  exact_mod_cast hnear

/-! ## Nearest magnitudes -/

/-- A magnitude lies on the grid of an exponent or below its first point. -/
theorem dvd_or_lt_unitsOfRank (s r : Nat) :
    2 ^ s ∣ unitsOfRank r ∨ (s ≠ 0 ∧ unitsOfRank r < 2 ^ 52 * 2 ^ s) := by
  by_cases hs : s = 0
  · subst hs
    exact .inl (one_dvd _)
  · by_cases hr : r < 2 ^ 53
    · rw [unitsOfRank_of_lt hr]
      have hpow : 2 ^ 1 ≤ 2 ^ s := Nat.pow_le_pow_right (by decide) (by omega)
      exact .inr ⟨hs, by omega⟩
    · rw [unitsOfRank, if_neg hr]
      generalize r / 2 ^ 52 - 1 = e
      by_cases he : s ≤ e
      · exact .inl (Nat.dvd_mul_left_of_dvd (Nat.pow_dvd_pow 2 he) _)
      · have hpow : 2 ^ (e + 1) ≤ 2 ^ s := Nat.pow_le_pow_right (by decide) (by omega)
        have hmod : r % 2 ^ 52 < 2 ^ 52 := Nat.mod_lt _ (by decide)
        refine .inr ⟨hs, ?_⟩
        calc (2 ^ 52 + r % 2 ^ 52) * 2 ^ e < 2 ^ 53 * 2 ^ e :=
              Nat.mul_lt_mul_of_pos_right (by omega) (Nat.two_pow_pos e)
          _ = 2 ^ 52 * 2 ^ (e + 1) := by rw [Nat.pow_succ 2 e]; omega
          _ ≤ 2 ^ 52 * 2 ^ s := Nat.mul_le_mul_left _ hpow

/-- **No magnitude is nearer** to a quotient than that of its nearest rank, which is even where
another one is as near. -/
theorem nearestRank_nearest {d : Nat} (hd : 0 < d) (n r : Nat) :
    |(unitsOfRank (nearestRank n d) * d : Int) - n| ≤ |(unitsOfRank r * d : Int) - n| ∧
      (|(unitsOfRank r * d : Int) - n| = |(unitsOfRank (nearestRank n d) * d : Int) - n| →
        unitsOfRank r = unitsOfRank (nearestRank n d) ∨ nearestRank n d % 2 = 0) := by
  rw [unitsOfRank_nearestRank, nearestRank]
  generalize hs : Nat.log2 (n / d) - 52 = s
  have hstep : 0 < d * 2 ^ s := Nat.mul_pos hd (Nat.two_pow_pos s)
  have hnearest := roundHalfEven_nearest hstep n
  generalize roundHalfEven n (d * 2 ^ s) = c at hnearest
  have hgrid : ∀ k : Nat, ((k * 2 ^ s : Nat) * d : Int) = k * (d * 2 ^ s : Nat) := by
    intro k
    push_cast
    ring
  rcases dvd_or_lt_unitsOfRank s r with ⟨k, hk⟩ | ⟨hne, hlt⟩
  · -- both lie on the grid, where the quotient is rounded
    obtain ⟨hle, htie⟩ := hnearest k
    rw [hk, Nat.mul_comm (2 ^ s) k, hgrid, hgrid]
    refine ⟨hle, fun heq => ?_⟩
    rcases htie heq with rfl | heven
    · exact .inl rfl
    · right
      omega
  · -- the first point of the grid is nearer
    have hfirst : 2 ^ 52 * 2 ^ s * d ≤ n :=
      Nat.le_trans (Nat.mul_le_mul_right d (two_pow_mul_le_div hs hne)) (Nat.div_mul_le_self n d)
    have hbelow : (unitsOfRank r * d : Int) < (2 ^ 52 : Nat) * (d * 2 ^ s : Nat) := by
      rw [← hgrid]
      exact_mod_cast Nat.mul_lt_mul_of_pos_right hlt hd
    have hquotient : ((2 ^ 52 : Nat) * (d * 2 ^ s : Nat) : Int) ≤ n := by
      rw [← hgrid]
      exact_mod_cast hfirst
    have hle := (hnearest (2 ^ 52)).1
    rw [abs_of_nonpos (sub_nonpos.2 hquotient)] at hle
    have hdistance : |(unitsOfRank r * d : Int) - n| = n - unitsOfRank r * d := by
      rw [abs_of_nonpos (by omega)]
      ring
    rw [hgrid, hdistance]
    refine ⟨by omega, fun heq => ?_⟩
    omega

/-- A negative magnitude is not nearer than zero, so the same holds against signed magnitudes. -/
theorem nearestRank_nearest_signed {d : Nat} (hd : 0 < d) (n r : Nat) (t : Bool) {w : Int}
    (hw : w = if t then -(unitsOfRank r : Int) else unitsOfRank r) :
    |(unitsOfRank (nearestRank n d) * d : Int) - n| ≤ |w * d - n| ∧
      (|w * d - n| = |(unitsOfRank (nearestRank n d) * d : Int) - n| →
        w = unitsOfRank (nearestRank n d) ∨ nearestRank n d % 2 = 0) := by
  cases t with
  | false =>
    obtain ⟨hle, htie⟩ := nearestRank_nearest hd n r
    rw [if_neg Bool.false_ne_true] at hw
    subst hw
    exact ⟨hle, fun heq => (htie heq).imp_left (congrArg _)⟩
  | true =>
    rw [if_pos rfl] at hw
    obtain ⟨hle, htie⟩ := nearestRank_nearest hd n 0
    have hzero : |((unitsOfRank 0 : Nat) * d : Int) - n| = n := by
      rw [show unitsOfRank 0 = 0 from rfl, Nat.cast_zero, zero_mul, zero_sub, abs_neg,
        Nat.abs_cast]
    have hpos : (0 : Int) ≤ unitsOfRank r * d := by positivity
    have hdistance : |w * d - n| = unitsOfRank r * d + n := by
      rw [hw, neg_mul, abs_of_nonpos (by omega)]
      ring
    rw [hzero] at hle htie
    rw [hdistance]
    refine ⟨by omega, fun heq => ?_⟩
    -- as near as zero, it is zero
    have hw0 : (unitsOfRank r : Int) * d = 0 := by omega
    have hunits : (unitsOfRank r : Int) = 0 :=
      (mul_eq_zero.1 hw0).resolve_right (by exact_mod_cast hd.ne')
    refine (htie (by omega)).imp_left fun hzero' => ?_
    rw [hw, hunits, ← hzero']
    rfl

/-! ## Nearest doubles -/

namespace Double

/-- Whether a double is nearest to a rational: no finite double is closer, and where another value
is as close, the last bit is zero. -/
def IsNearest (x : Double) (q : Rat) : Prop :=
  ∃ v, x.toRat? = some v ∧ ∀ (y : Double) (w : Rat), y.toRat? = some w →
    |v - q| ≤ |w - q| ∧ (|w - q| = |v - q| → w = v ∨ x.toBits % 2 = 0)

/-- The distance of two fractions. -/
theorem abs_mkRat_sub {d : Nat} (hd : 0 < d) (u : Int) (q : Rat) :
    |mkRat u d - q| = (|u * q.den - q.num * d| : Int) / ((d : Rat) * q.den) := by
  have hden : (0 : Rat) < q.den := Nat.cast_pos.2 q.den_pos
  have hpos : (0 : Rat) < d := Nat.cast_pos.2 hd
  have hdiff : mkRat u d - q = ((u * q.den - q.num * d : Int) : Rat) / ((d : Rat) * q.den) := by
    conv_lhs => rw [Rat.mkRat_eq_div, ← Rat.num_div_den q]
    rw [div_sub_div _ _ hpos.ne' hden.ne', mul_comm (d : Rat) q.num]
    push_cast
    rfl
  rw [hdiff, abs_div, abs_of_pos (mul_pos hpos hden), Int.cast_abs]

/-- **Rounding a rational gives the nearest double**, for rationals that are not negative. -/
theorem isNearest_ofRat {q : Rat} (hq : 0 ≤ q) (h : (ofRat q).isFinite = true) :
    (ofRat q).IsNearest q := by
  have hnum : (q.num.natAbs : Int) = q.num := Int.natAbs_of_nonneg (Rat.num_nonneg.2 hq)
  have hunit : 0 < 2 ^ 1074 := by positivity
  have hscale : (0 : Rat) < ((2 ^ 1074 : Nat) : Rat) * q.den :=
    mul_pos (Nat.cast_pos.2 hunit) (Nat.cast_pos.2 q.den_pos)
  unfold ofRat ofUnits at h ⊢
  rw [decide_eq_false (not_lt.2 hq)] at h ⊢
  split at h
  · rename_i hr
    rw [dif_pos hr]
    refine ⟨mkRat (unitsOfRank (nearestRank (q.num.natAbs * 2 ^ 1074) q.den)) (2 ^ 1074), rfl, ?_⟩
    intro y w hy
    cases y with
    | finite t r hr' =>
      obtain rfl := Option.some.inj hy
      obtain ⟨hle, htie⟩ :=
        nearestRank_nearest_signed q.den_pos (q.num.natAbs * 2 ^ 1074) r t rfl
      rw [Int.natCast_mul, hnum] at hle htie
      rw [abs_mkRat_sub hunit, abs_mkRat_sub hunit, div_le_div_iff_of_pos_right hscale,
        div_left_inj' hscale.ne', Int.cast_le, Int.cast_inj]
      refine ⟨hle, fun heq => (htie heq).imp (congrArg (mkRat · _)) fun heven => ?_⟩
      rw [toBits, if_neg Bool.false_ne_true]
      omega
    | _ => cases hy
  · cases h

end Double

end Formula
