/-
# Rounded arithmetic

The operations on doubles compute their exact result and round it once: **the result of an operation
is at the place of the exact result** (`rounds_sub`, `rounds_mul`, `rounds_div`). A result that is a
value itself is exact (`Rounds.toRat?`), and any other result that is not negative is off by one
part in `2 ^ 53` and half a unit at most (`Rounds.exists_near`).
-/
import Formula.Proofs.NearestDouble
import Formula.Proofs.Places

namespace Formula

namespace Double

variable {x y : Double} {p q X Y : Rat}

/-! ## Rounded results -/

/-- Whether a double is what a rational rounds to, up to the sign of a zero. -/
def Rounds (x : Double) (q : Rat) : Prop := x.place? = some (placeOf q)

/-- The double nearest to a rational is what it rounds to. -/
theorem rounds_ofRat (q : Rat) : (ofRat q).Rounds q := place?_ofRat q

/-- The opposite of a rounded result. -/
theorem Rounds.neg (h : x.Rounds q) : x.neg.Rounds (-q) := by
  rw [Rounds, placeOf_neg]
  exact place?_neg h

/-- The magnitude of a rounded result. -/
theorem Rounds.abs (h : x.Rounds q) : x.abs.Rounds |q| := by
  rw [Rounds, placeOf_abs]
  exact place?_abs h

/-- **Rounded results are in the order of the exact ones**, or meet. -/
theorem Rounds.le (hx : x.Rounds p) (hy : y.Rounds q) (h : p ≤ q) : x.le y = true :=
  (le_iff hx hy).2 (placeOf_mono h)

/-! ## Signs and magnitudes -/

/-- A rational with a sign. -/
def signed (s : Bool) (q : Rat) : Rat := if s then -q else q

/-- The sign of a product. -/
theorem signed_mul (s t : Bool) (p q : Rat) :
    signed (s != t) (p * q) = signed s p * signed t q := by
  cases s <;> cases t <;> simp [signed]

/-- The sign of a quotient. -/
theorem signed_div (s t : Bool) (p q : Rat) :
    signed (s != t) (p / q) = signed s p / signed t q := by
  cases s <;> cases t <;> simp [signed, neg_div, div_neg]

/-- The magnitude of a rank. -/
def magnitude (r : Nat) : Rat := (unitsOfRank r : Rat) / (2 ^ 1074 : Nat)

/-- No magnitude is negative. -/
theorem magnitude_nonneg (r : Nat) : 0 ≤ magnitude r :=
  div_nonneg (Nat.cast_nonneg _) (two_pow_pos_rat _).le

/-- The first rank has no magnitude. -/
theorem magnitude_zero : magnitude 0 = 0 := by
  rw [magnitude, show unitsOfRank 0 = 0 from rfl, Nat.cast_zero, zero_div]

/-- The value of a finite double. -/
theorem toRat?_finite (s : Bool) (r : Nat) (hr : r < rankLimit) :
    (finite s r hr).toRat? = some (signed s (magnitude r)) := by
  show some (mkRat (if s then -(unitsOfRank r : Int) else unitsOfRank r) (2 ^ 1074)) = _
  rw [Rat.mkRat_eq_div, magnitude]
  generalize ((2 ^ 1074 : Nat) : Rat) = unit
  cases s <;> simp [signed, neg_div]

/-- A double with a value is finite, with that value. -/
theorem exists_finite_of_toRat? (h : x.toRat? = some q) :
    ∃ s r hr, x = finite s r hr ∧ q = signed s (magnitude r) := by
  cases x with
  | finite s r hr =>
    rw [toRat?_finite] at h
    exact ⟨s, r, hr, rfl, (Option.some.inj h).symm⟩
  | _ => cases h

/-- Finite doubles have values. -/
theorem exists_toRat? (h : x.isFinite = true) : ∃ X, x.toRat? = some X := by
  cases x with
  | finite s r hr => exact ⟨_, toRat?_finite s r hr⟩
  | _ => cases h

/-- The magnitude of a value. -/
theorem toRat?_abs (h : x.toRat? = some q) : x.abs.toRat? = some |q| := by
  obtain ⟨s, r, hr, rfl, rfl⟩ := exists_finite_of_toRat? h
  rw [Double.abs, toRat?_finite]
  have hpos := abs_of_nonneg (magnitude_nonneg r)
  cases s <;> simp [signed, hpos]

/-- The opposite of a value. -/
theorem toRat?_neg (h : x.toRat? = some q) : x.neg.toRat? = some (-q) := by
  obtain ⟨s, r, hr, rfl, rfl⟩ := exists_finite_of_toRat? h
  rw [Double.neg, toRat?_finite]
  cases s <;> simp [signed]

/-! ## Rounding units -/

/-- The place of a rounded magnitude. -/
theorem place?_ofUnits (s : Bool) (n d : Nat) : (ofUnits s n d).place?
    = some (if s then -((min (nearestRank n d) rankLimit : Nat) : Int)
      else (min (nearestRank n d) rankLimit : Nat)) := by
  unfold ofUnits
  split
  · rename_i h
    rw [place?, Nat.min_eq_left h.le]
  · rename_i h
    rw [place?, Nat.min_eq_right (Nat.le_of_not_lt h)]

/-- The magnitude of some units rounds to their nearest rank. -/
theorem placeOf_units {d : Nat} (hd : 0 < d) (n : Nat) :
    placeOf ((n : Rat) / (d * (2 ^ 1074 : Nat))) = (min (nearestRank n d) rankLimit : Nat) := by
  have hunit : 0 < 2 ^ 1074 := by positivity
  have hscale : 0 < d * 2 ^ 1074 := Nat.mul_pos hd hunit
  have hplace := place?_ofRat ((n : Rat) / ((d * 2 ^ 1074 : Nat) : Rat))
  rw [ofRat_div hscale, ofUnits_mul_right hunit, place?_ofUnits,
    if_neg Bool.false_ne_true, Nat.cast_mul] at hplace
  exact (Option.some.inj hplace).symm

/-- **Units round as the rational that they are.** -/
theorem rounds_ofUnits {d : Nat} (hd : 0 < d) (s : Bool) (n : Nat) :
    (ofUnits s n d).Rounds (signed s ((n : Rat) / (d * (2 ^ 1074 : Nat)))) := by
  rw [Rounds, place?_ofUnits]
  cases s with
  | false =>
    rw [signed, if_neg Bool.false_ne_true, if_neg Bool.false_ne_true, placeOf_units hd]
  | true => rw [signed, if_pos rfl, if_pos rfl, placeOf_neg, placeOf_units hd]

/-- A signed number of units rounds as the rational that it is. -/
theorem rounds_ofSignedUnits (zeroSign : Bool) (u : Int) :
    (ofSignedUnits zeroSign u).Rounds ((u : Rat) / (2 ^ 1074 : Nat)) := by
  have hround := rounds_ofUnits Nat.one_pos (if u = 0 then zeroSign else decide (u < 0)) u.natAbs
  rw [Nat.cast_one, one_mul, Nat.cast_natAbs, Int.cast_abs] at hround
  rw [ofSignedUnits]
  rcases lt_trichotomy u 0 with h | h | h
  · have hcast : (u : Rat) < 0 := Int.cast_lt_zero.2 h
    rw [if_neg h.ne, decide_eq_true h] at hround ⊢
    rw [signed, if_pos rfl, abs_of_neg hcast, neg_div, neg_neg] at hround
    exact hround
  · subst h
    rw [if_pos rfl] at hround ⊢
    rw [Int.cast_zero, abs_zero, zero_div, signed, neg_zero, ite_self] at hround
    rw [Int.cast_zero, zero_div]
    exact hround
  · have hcast : (0 : Rat) < u := Int.cast_pos.2 h
    rw [if_neg h.ne', decide_eq_false h.not_gt] at hround ⊢
    rw [signed, if_neg Bool.false_ne_true, abs_of_pos hcast] at hround
    exact hround

/-! ## Operations -/

/-- **A difference is rounded once.** -/
theorem rounds_sub (hx : x.toRat? = some X) (hy : y.toRat? = some Y) :
    (x.sub y).Rounds (X - Y) := by
  obtain ⟨s, r, hr, rfl, rfl⟩ := exists_finite_of_toRat? hx
  obtain ⟨t, w, hw, rfl, rfl⟩ := exists_finite_of_toRat? hy
  have hround := rounds_ofSignedUnits (s && !t)
    ((if s then -(unitsOfRank r : Int) else unitsOfRank r)
      + (if !t then -(unitsOfRank w : Int) else unitsOfRank w))
  have hvalue : signed s (magnitude r) - signed t (magnitude w)
      = (((if s then -(unitsOfRank r : Int) else unitsOfRank r)
        + (if !t then -(unitsOfRank w : Int) else unitsOfRank w) : Int) : Rat)
          / (2 ^ 1074 : Nat) := by
    rw [magnitude, magnitude, Int.cast_add, add_div]
    generalize ((2 ^ 1074 : Nat) : Rat) = unit
    cases s <;> cases t <;> simp [signed, neg_div, sub_eq_add_neg]
  rw [hvalue]
  exact hround

/-- The result of an addition is at the place of the exact one. -/
theorem rounds_add (hx : x.toRat? = some X) (hy : y.toRat? = some Y) :
    (x.add y).Rounds (X + Y) := by
  have hround := rounds_sub hx (toRat?_neg hy)
  have hneg : y.neg.neg = y := by cases y <;> simp [Double.neg]
  rwa [Double.sub, hneg, sub_neg_eq_add] at hround

/-- **A product is rounded once.** -/
theorem rounds_mul (hx : x.toRat? = some X) (hy : y.toRat? = some Y) :
    (x.mul y).Rounds (X * Y) := by
  obtain ⟨s, r, hr, rfl, rfl⟩ := exists_finite_of_toRat? hx
  obtain ⟨t, w, hw, rfl, rfl⟩ := exists_finite_of_toRat? hy
  have hunit : 0 < 2 ^ 1074 := by positivity
  have hround := rounds_ofUnits hunit (s != t) (unitsOfRank r * unitsOfRank w)
  rw [Nat.cast_mul, ← div_mul_div_comm, signed_mul] at hround
  exact hround

/-- **A quotient is rounded once.** -/
theorem rounds_div (hx : x.toRat? = some X) (hy : y.toRat? = some Y) (hne : Y ≠ 0) :
    (x.div y).Rounds (X / Y) := by
  obtain ⟨s, r, hr, rfl, rfl⟩ := exists_finite_of_toRat? hx
  obtain ⟨t, w, hw, rfl, rfl⟩ := exists_finite_of_toRat? hy
  have hw0 : w ≠ 0 := by
    rintro rfl
    apply hne
    rw [magnitude_zero, signed, neg_zero, ite_self]
  have hpos : 0 < unitsOfRank w := Nat.pos_of_ne_zero (unitsOfRank_ne_zero hw0)
  have hround := rounds_ofUnits hpos (s != t) (unitsOfRank r * 2 ^ 1074)
  have hunit := (two_pow_pos_rat 1074).ne'
  rw [Nat.cast_mul, mul_div_mul_right _ _ hunit, ← div_div_div_cancel_right₀ hunit,
    signed_div] at hround
  show (if w = 0 then _ else ofUnits (s != t) (unitsOfRank r * 2 ^ 1074) (unitsOfRank w)).Rounds _
  rw [if_neg hw0]
  exact hround

/-- The quotient of two natural numbers is the double nearest to it, unless it is past the largest
one. -/
theorem ofQuotient?_natCast {d : Nat} (hd : 0 < d) (n : Nat) : ofQuotient? n d
    = if (ofRat ((n : Rat) / d)).isFinite then some (ofRat ((n : Rat) / d)) else none := by
  have hn : decide ((n : Int) < 0) = false := decide_eq_false (by omega)
  have hd' : decide ((d : Int) < 0) = false := decide_eq_false (by omega)
  rw [ofRat_div hd, ofQuotient?, hn, hd']
  rfl

/-! ## Exact results -/

/-- A value rounds to its own place. -/
theorem placeOf_valueAt {a : Int} (h : a.natAbs < rankLimit) : placeOf (valueAt a) = a := by
  have hplace := rounds_ofUnits Nat.one_pos (decide (a < 0)) (unitsOfRank a.natAbs)
  rw [Rounds, place?_ofUnits, nearestRank_unitsOfRank, Nat.min_eq_left h.le, Nat.cast_one,
    one_mul] at hplace
  have hvalue : valueAt a
      = signed (decide (a < 0)) ((unitsOfRank a.natAbs : Rat) / (2 ^ 1074 : Nat)) := by
    rw [valueAt, unitsAt, signed]
    generalize ((2 ^ 1074 : Nat) : Rat) = unit
    by_cases hneg : a < 0
    · simp [hneg, neg_div]
    · simp [hneg]
  rw [hvalue, ← Option.some.inj hplace]
  split_ifs with hneg
  · have := of_decide_eq_true hneg
    omega
  · have : ¬ a < 0 := fun h => hneg (decide_eq_true h)
    omega

/-- The value of a double rounds to the place of the double. -/
theorem placeOf_of_toRat? {a : Int} (hx : x.toRat? = some q) (ha : x.place? = some a) :
    placeOf q = a := by
  obtain ⟨b, hb, hlt, rfl⟩ := toRat?_eq_some_iff.1 hx
  rw [placeOf_valueAt hlt]
  exact Option.some.inj (hb.symm.trans ha)

/-- A power of two is the value of a double. -/
theorem exists_toRat?_two_pow {k : Nat} (hk : k < 1024) :
    ∃ y : Double, y.toRat? = some ((2 ^ k : Nat) : Rat) := by
  refine ⟨finite false ((k + 1023) * 2 ^ 52) ?_, ?_⟩
  · unfold rankLimit
    omega
  · rw [toRat?_finite, magnitude, unitsOfRank_binade (e := k + 1074) (by omega) rfl, pow_add,
      Nat.cast_mul, mul_div_cancel_right₀ _ (two_pow_pos_rat 1074).ne']
    rfl

/-- **A result that is a value is exact.** -/
theorem Rounds.toRat? (h : x.Rounds q) (hy : y.toRat? = some q) : x.toRat? = some q := by
  obtain ⟨a, ha, hlt, rfl⟩ := toRat?_eq_some_iff.1 hy
  rw [Rounds, placeOf_valueAt hlt] at h
  exact toRat?_eq_some_iff.2 ⟨a, h, hlt, rfl⟩

/-- What rounds zero is zero. -/
theorem Rounds.toRat?_zero (h : x.Rounds 0) : x.toRat? = some 0 :=
  h.toRat? (y := zero) (by rw [Double.toRat?_zero, Int.cast_zero])

/-- A result between a value and its opposite is finite. -/
theorem Rounds.isFinite (h : x.Rounds q) (hy : y.toRat? = some p) (hle : |q| ≤ p) :
    x.isFinite = true := by
  obtain ⟨a, ha, hlt, rfl⟩ := toRat?_eq_some_iff.1 hy
  have hplace := placeOf_mono hle
  rw [placeOf_abs, placeOf_valueAt hlt] at hplace
  refine (isFinite_iff h).2 ?_
  omega

/-- The error of a rounded number of units: one part in `2 ^ 53`, and half a unit. -/
theorem unitsOfRank_near {d : Nat} (hd : 0 < d) (n : Nat) :
    (2 ^ 53 : Nat) * |(unitsOfRank (nearestRank n d) * d : Int) - n| ≤ n + (2 ^ 52 : Nat) * d := by
  rw [unitsOfRank_nearestRank]
  generalize hs : Nat.log2 (n / d) - 52 = s
  have hstep : 0 < d * 2 ^ s := Nat.mul_pos hd (Nat.two_pow_pos s)
  have hhalf : 2 * |(roundHalfEven n (d * 2 ^ s) * (d * 2 ^ s : Nat) : Int) - n| ≤ (d * 2 ^ s : Nat)
      := by
    rcases roundHalfEven_near hstep n with h | h
    · exact h.le
    · exact h.1.le
  have hgrid : ((roundHalfEven n (d * 2 ^ s) * 2 ^ s : Nat) * d : Int)
      = roundHalfEven n (d * 2 ^ s) * (d * 2 ^ s : Nat) := by
    push_cast
    ring
  -- a step of the grid is small against the quotient, or it is a unit
  have hbound : 2 ^ 52 * (d * 2 ^ s) ≤ n + 2 ^ 52 * d := by
    by_cases hs0 : s = 0
    · subst hs0
      omega
    · have hfirst := Nat.mul_le_mul_right d (two_pow_mul_le_div hs hs0)
      have hdiv := Nat.div_mul_le_self n d
      have hcomm : 2 ^ 52 * (d * 2 ^ s) = 2 ^ 52 * 2 ^ s * d := by ring
      omega
  rw [hgrid]
  generalize d * 2 ^ s = step at *
  omega

/-- An error of whole numbers, as one of rationals. -/
theorem cast_error_le {e f u d n : Nat} (h : e * |(u * d : Int) - n| ≤ n + f * d) :
    (e : Rat) * |(u : Rat) * d - n| ≤ n + f * d := by
  exact_mod_cast h

/-- The distance of two fractions, from that of their cross products. -/
theorem abs_div_sub_div_le {u n d unit e f : Rat} (hunit : 0 < unit) (hd : 0 < d) (he : 0 < e)
    (hf : e = 2 * f) (h : e * |u * d - n * unit| ≤ n * unit + f * d) :
    |u / unit - n / d| ≤ n / d / e + 1 / (2 * unit) := by
  have hdiff : u / unit - n / d = (u * d - n * unit) / (unit * d) := by
    field_simp
  have hbound : n / d / e + 1 / (2 * unit) = (n * unit + f * d) / e / (unit * d) := by
    have hf0 : f ≠ 0 := by
      rintro rfl
      rw [mul_zero] at hf
      exact he.ne' hf
    rw [hf]
    field_simp
  rw [hdiff, hbound, abs_div, abs_of_pos (mul_pos hunit hd)]
  apply div_le_div_of_nonneg_right _ (mul_pos hunit hd).le
  rw [le_div_iff₀ he]
  linarith

/-- **The error of a rounded result** that is not negative: one part in `2 ^ 53`, and half a
unit. -/
theorem Rounds.exists_near (h : x.Rounds q) (hq : 0 ≤ q) (hfinite : x.isFinite = true) :
    ∃ v, x.toRat? = some v ∧ |v - q|
      ≤ q / (2 ^ 53 : Nat) + 1 / (2 * (2 ^ 1074 : Nat)) := by
  have hplace : placeOf q = (rankOf q : Int) := by rw [placeOf, if_neg (not_lt.2 hq)]
  have hlt := (isFinite_iff h).1 hfinite
  rw [Rounds, hplace] at h
  rw [hplace] at hlt
  have hrank : nearestRank (q.num.natAbs * 2 ^ 1074) q.den = rankOf q := by
    rw [Int.natAbs_natCast] at hlt
    unfold rankOf at hlt ⊢
    omega
  have hvalue : valueAt (rankOf q) = (unitsOfRank (rankOf q) : Rat) / (2 ^ 1074 : Nat) := by
    rw [valueAt, unitsAt, if_neg (by omega), Int.natAbs_natCast, Int.cast_natCast]
  refine ⟨valueAt (rankOf q), toRat?_eq_some_iff.2 ⟨rankOf q, h, hlt, rfl⟩, ?_⟩
  have hcast := cast_error_le (unitsOfRank_near q.den_pos (q.num.natAbs * 2 ^ 1074))
  rw [Nat.cast_mul q.num.natAbs, hrank] at hcast
  have hnear := abs_div_sub_div_le (two_pow_pos_rat 1074) (Nat.cast_pos.2 q.den_pos)
    (two_pow_pos_rat 53) (Nat.cast_mul 2 (2 ^ 52)) hcast
  have hnum : ((q.num.natAbs : Nat) : Rat) / q.den = q := by
    rw [Nat.cast_natAbs, abs_of_nonneg (Rat.num_nonneg.2 hq), Rat.num_div_den]
  rw [hnum, ← hvalue] at hnear
  exact hnear

end Double

end Formula
