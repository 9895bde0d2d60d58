/-
# Places and values of doubles

The place of a double orders it among all doubles, and it says all about it but the sign of a zero:
whether it is finite, and what its exact value is (`toRat?_eq_some_iff`). Rounding a rational gives
a double at a place that depends on the rational alone, and which is the opposite place for the
opposite rational (`placeOf_neg`).
-/
import Formula.Proofs.DoubleIntegers
import Mathlib.Algebra.Order.Field.Basic
import Mathlib.Tactic.FieldSimp
import Mathlib.Tactic.Positivity
import Mathlib.Tactic.Ring

namespace Formula

namespace Double

variable {x y : Double} {a b : Int} {p q : Rat}

/-! ## Places -/

/-- The place of zero. -/
theorem place?_zero : zero.place? = some 0 := rfl

/-- The place of one. -/
theorem place?_one : one.place? = some ((1023 * 2 ^ 52 : Nat) : Int) := rfl

/-- The place of a magnitude. -/
theorem place?_abs (h : x.place? = some a) : x.abs.place? = some (a.natAbs : Int) := by
  cases x with
  | nan => cases h
  | infinity s => cases h; cases s <;> rfl
  | finite s r hr => cases h; cases s <;> simp [abs, place?]

/-- The place of a negation. -/
theorem place?_neg (h : x.place? = some a) : x.neg.place? = some (-a) := by
  cases x with
  | nan => cases h
  | infinity s => cases h; cases s <;> rfl
  | finite s r hr => cases h; cases s <;> simp [neg, place?]

/-- The finite doubles are those between the infinities. -/
theorem isFinite_iff (h : x.place? = some a) : x.isFinite = true ↔ a.natAbs < rankLimit := by
  cases x with
  | nan => cases h
  | infinity s => cases h; cases s <;> simp [isFinite]
  | finite s r hr => cases h; cases s <;> simpa [isFinite] using hr

/-- The order of two doubles is that of their places. -/
theorem le_iff (hx : x.place? = some a) (hy : y.place? = some b) : x.le y = true ↔ a ≤ b := by
  rw [le, hx, hy, decide_eq_true_iff]

/-- The strict order of two doubles is that of their places. -/
theorem lt_iff (hx : x.place? = some a) (hy : y.place? = some b) : x.lt y = true ↔ a < b := by
  rw [lt, hx, hy, decide_eq_true_iff]

/-- The zeros are at place zero. -/
theorem isZero_of_place? (h : x.place? = some a) : x.isZero = decide (a = 0) := by
  rw [isZero, eqv, h]
  exact Bool.beq_eq_decide_eq a 0

/-- What is comparable has a place. -/
theorem exists_place? (h : x.le y = true) :
    ∃ a b, x.place? = some a ∧ y.place? = some b ∧ a ≤ b := by
  unfold le at h
  split at h
  · rename_i a b ha hb
    exact ⟨a, b, ha, hb, of_decide_eq_true h⟩
  · cases h

/-- No magnitude is below zero. -/
theorem nonneg_of_place?_abs (h : x.abs.place? = some a) : 0 ≤ a := by
  cases x <;> cases h <;> simp

/-! ## Values -/

/-- A double with a value is finite. -/
theorem isFinite_of_toRat? (h : x.toRat? = some q) : x.isFinite = true := by
  cases x with
  | finite => rfl
  | _ => cases h

/-- The signed magnitude at a place, in units. -/
def unitsAt (a : Int) : Int :=
  if a < 0 then -(unitsOfRank a.natAbs : Int) else unitsOfRank a.natAbs

/-- The exact value at a place. -/
def valueAt (a : Int) : Rat := (unitsAt a : Rat) / (2 ^ 1074 : Nat)

/-- The signed magnitude of a finite double is that at its place. -/
theorem units?_eq_unitsAt (ha : x.place? = some a) (h : a.natAbs < rankLimit) :
    x.units? = some (unitsAt a) := by
  have hfinite := (isFinite_iff ha).2 h
  cases x with
  | finite s r hr =>
    cases ha
    cases s with
    | false =>
      have hneg : ¬ (r : Int) < 0 := by omega
      simp [units?, unitsAt, hneg]
    | true =>
      by_cases hr0 : r = 0
      · -- zero has the same magnitude with either sign
        subst hr0
        rfl
      · have hneg : -(r : Int) < 0 := by omega
        show some (-(unitsOfRank r : Int)) = some (unitsAt (-(r : Int)))
        rw [unitsAt, if_pos hneg, Int.natAbs_neg, Int.natAbs_natCast]
  | _ => cases hfinite

/-- **The value of a double is that at its place**, as long as it is finite. -/
theorem toRat?_eq_some_iff :
    x.toRat? = some q ↔ ∃ a, x.place? = some a ∧ a.natAbs < rankLimit ∧ q = valueAt a := by
  constructor
  · intro h
    have hfinite := isFinite_of_toRat? h
    obtain ⟨a, ha⟩ : ∃ a, x.place? = some a := by
      cases x with
      | nan => cases h
      | _ => exact ⟨_, rfl⟩
    have hlt := (isFinite_iff ha).1 hfinite
    refine ⟨a, ha, hlt, ?_⟩
    rw [toRat?, units?_eq_unitsAt ha hlt, Option.map_some, Rat.mkRat_eq_div] at h
    exact (Option.some.inj h).symm
  · rintro ⟨a, ha, hlt, rfl⟩
    rw [toRat?, units?_eq_unitsAt ha hlt, Option.map_some, Rat.mkRat_eq_div, valueAt]

/-- Values are in the order of their places. -/
theorem unitsAt_lt : unitsAt a < unitsAt b ↔ a < b := by
  have h := signed_unitsOfRank_lt (decide (a < 0)) (decide (b < 0)) a.natAbs b.natAbs
  have ha : (if decide (a < 0) = true then -(a.natAbs : Int) else a.natAbs) = a := by
    split_ifs with hneg <;> simp only [decide_eq_true_eq] at hneg <;> omega
  have hb : (if decide (b < 0) = true then -(b.natAbs : Int) else b.natAbs) = b := by
    split_ifs with hneg <;> simp only [decide_eq_true_eq] at hneg <;> omega
  rw [ha, hb] at h
  simpa only [unitsAt, decide_eq_true_eq] using h

/-- **Values are in the order of their places.** -/
theorem valueAt_lt : valueAt a < valueAt b ↔ a < b := by
  rw [valueAt, valueAt, div_lt_div_iff_of_pos_right (two_pow_pos_rat _), Int.cast_lt, unitsAt_lt]

/-- Different places have different values. -/
theorem valueAt_inj : valueAt a = valueAt b ↔ a = b := by
  constructor
  · intro h
    have hab : ¬ a < b := fun hlt => (valueAt_lt.2 hlt).ne h
    have hba : ¬ b < a := fun hlt => (valueAt_lt.2 hlt).ne' h
    omega
  · rintro rfl
    rfl

/-- Doubles are in the order of their values. -/
theorem le_iff_of_toRat? (hx : x.toRat? = some p) (hy : y.toRat? = some q) :
    x.le y = true ↔ p ≤ q := by
  obtain ⟨a, ha, -, rfl⟩ := toRat?_eq_some_iff.1 hx
  obtain ⟨b, hb, -, rfl⟩ := toRat?_eq_some_iff.1 hy
  rw [le_iff ha hb, ← not_lt, ← not_lt, valueAt_lt]

/-- Doubles count as equal exactly if they have one value. -/
theorem eqv_iff_of_toRat? (hx : x.toRat? = some p) (hy : y.toRat? = some q) :
    x.eqv y = true ↔ p = q := by
  obtain ⟨a, ha, -, rfl⟩ := toRat?_eq_some_iff.1 hx
  obtain ⟨b, hb, -, rfl⟩ := toRat?_eq_some_iff.1 hy
  rw [eqv, ha, hb, valueAt_inj, beq_iff_eq]

/-- The value at place zero. -/
theorem valueAt_zero : valueAt 0 = 0 := by
  rw [valueAt, show unitsAt 0 = 0 by decide, Int.cast_zero, zero_div]

/-! ## Rounding to a place -/

/-- The double nearest to a quotient of natural numbers. -/
theorem ofRat_div {d : Nat} (hd : 0 < d) (n : Nat) :
    ofRat ((n : Rat) / d) = ofUnits false (n * 2 ^ 1074) d := by
  have hnonneg : (0 : Rat) ≤ (n : Rat) / d := by positivity
  generalize hq : (n : Rat) / d = q at hnonneg
  have hcross : q.num.natAbs * d = n * q.den := by
    have hd' : (d : Rat) ≠ 0 := Nat.cast_ne_zero.2 hd.ne'
    have hden : (q.den : Rat) ≠ 0 := Nat.cast_ne_zero.2 q.den_nz
    have hnum : ((q.num.natAbs : Int) : Rat) = q.num := by
      rw [Int.natAbs_of_nonneg (Rat.num_nonneg.2 hnonneg)]
    have hcast : (q.num : Rat) * d = n * q.den := by
      rw [← div_eq_div_iff hden hd', Rat.num_div_den, hq]
    rw [← hnum] at hcast
    exact_mod_cast hcast
  rw [ofRat, decide_eq_false (not_lt.2 hnonneg), ← ofUnits_mul_right hd, Nat.mul_right_comm, hcross,
    ← ofUnits_mul_right (n := n * 2 ^ 1074) q.den_pos, Nat.mul_right_comm, Nat.mul_comm d]

/-- Zero has the first rank. -/
theorem rankOf_zero : rankOf 0 = 0 := by
  rw [rankOf, Rat.num_zero, Int.natAbs_zero, Nat.zero_mul]
  decide

/-- Zero rounds to its own place. -/
theorem placeOf_zero : placeOf 0 = 0 := by
  rw [placeOf, if_neg (lt_irrefl 0), rankOf_zero]
  rfl

/-- Opposite rationals round to opposite places. -/
theorem placeOf_neg (q : Rat) : placeOf (-q) = -placeOf q := by
  have hrank : rankOf (-q) = rankOf q := by
    rw [rankOf, rankOf, Rat.num_neg_eq_neg_num, Rat.den_neg_eq_den, Int.natAbs_neg]
  unfold placeOf
  rw [hrank]
  rcases lt_trichotomy q 0 with h | h | h
  · rw [if_neg (by linarith), if_pos h]
    omega
  · rw [h, rankOf_zero]
    simp
  · rw [if_pos (by linarith), if_neg (by linarith)]

/-- What is not negative rounds to a place that is not. -/
theorem placeOf_nonneg (h : 0 ≤ q) : 0 ≤ placeOf q := by
  rw [placeOf, if_neg (not_lt.2 h)]
  omega

/-- The place of the magnitude. -/
theorem placeOf_abs (q : Rat) : placeOf |q| = (placeOf q).natAbs := by
  rcases le_total 0 q with h | h
  · rw [abs_of_nonneg h, Int.natAbs_of_nonneg (placeOf_nonneg h)]
  · have hneg := placeOf_nonneg (neg_nonneg.2 h)
    rw [placeOf_neg] at hneg
    rw [abs_of_nonpos h, placeOf_neg]
    omega

end Double

end Formula
