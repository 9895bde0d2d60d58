/-
# Decimals that read back

Reading a decimal depends on its value alone: a common factor of numerator and denominator does not
matter, and a trailing zero of the coefficient may move into the exponent. The shortest decimal of a
finite double is found by reading candidates back, and the exact expansion that ends the search
reads back as well. **So the shortest decimal of a double reads back as the double**
(`ofScientific_toDecimal?`).
-/
import Formula.Double.Shortest
import Formula.Proofs.Digits

namespace Formula

/-! ## Rounding and scaling -/

/-- A common factor does not change what a quotient rounds to. -/
theorem roundHalfEven_mul_right {n d k : Nat} (hk : 0 < k) :
    roundHalfEven (n * k) (d * k) = roundHalfEven n d := by
  have hlt : ∀ a b, a * k < b * k ↔ a < b := fun a b => Nat.mul_lt_mul_right hk
  have hdiv : n * k / (d * k) = n / d := Nat.mul_div_mul_right n d hk
  have hmod : n * k % (d * k) = n % d * k := Nat.mul_mod_mul_right k n d
  unfold roundHalfEven
  simp only [hdiv, hmod, ← Nat.mul_assoc, hlt]

/-- A common factor does not change the nearest rank. -/
theorem nearestRank_mul_right {n d k : Nat} (hk : 0 < k) :
    nearestRank (n * k) (d * k) = nearestRank n d := by
  unfold nearestRank
  rw [Nat.mul_div_mul_right n d hk]
  simp only
  rw [Nat.mul_right_comm d k, roundHalfEven_mul_right hk]

/-- **A magnitude is nearest to itself.** -/
theorem nearestRank_unitsOfRank (r : Nat) : nearestRank (unitsOfRank r) 1 = r := by
  unfold nearestRank
  rw [Nat.div_one]
  simp only
  by_cases h : r < 2 ^ 53
  · have hs : Nat.log2 (unitsOfRank r) - 52 = 0 := by
      rw [unitsOfRank_of_lt h]
      by_cases hr : r = 0
      · subst hr
        decide
      · have := (Nat.log2_lt hr).2 h
        omega
    have hr : roundHalfEven (r * 1) 1 = r := roundHalfEven_mul r 1 (by decide)
    rw [Nat.mul_one] at hr
    rw [hs, unitsOfRank_of_lt h, Nat.zero_mul, Nat.zero_add, Nat.pow_zero, Nat.mul_one, hr]
  · have hm : r % 2 ^ 52 < 2 ^ 52 := Nat.mod_lt _ (by decide)
    have hunits : unitsOfRank r = (2 ^ 52 + r % 2 ^ 52) * 2 ^ (r / 2 ^ 52 - 1) := by
      rw [unitsOfRank, if_neg h]
    generalize hE : r / 2 ^ 52 - 1 = E at hunits
    -- the leading bit of the significand is at its place, so the shift is the exponent
    have hs : Nat.log2 (unitsOfRank r) = 52 + E := by
      have hpos : 0 < 2 ^ E := Nat.two_pow_pos E
      have hne : (2 ^ 52 + r % 2 ^ 52) * 2 ^ E ≠ 0 := Nat.mul_ne_zero (by omega) (Nat.ne_of_gt hpos)
      rw [hunits, Nat.log2_eq_iff hne, Nat.pow_add, Nat.add_right_comm, Nat.pow_add]
      exact ⟨Nat.mul_le_mul_right _ (by omega), (Nat.mul_lt_mul_right hpos).2 (by omega)⟩
    rw [hs, Nat.add_sub_cancel_left, hunits, Nat.one_mul,
      roundHalfEven_mul _ _ (Nat.two_pow_pos E)]
    omega

namespace Double

/-! ## Decimals by value -/

/-- A common factor does not change the nearest double. -/
theorem ofUnits_mul_right {s : Bool} {n d k : Nat} (hk : 0 < k) :
    ofUnits s (n * k) (d * k) = ofUnits s n d := by
  unfold ofUnits
  simp only [nearestRank_mul_right hk]

/-- A finite magnitude is nearest to itself. -/
theorem ofUnits_unitsOfRank {s : Bool} {r : Nat} (h : r < rankLimit) :
    ofUnits s (unitsOfRank r) 1 = finite s r h := by
  unfold ofUnits
  simp only [nearestRank_unitsOfRank, h, dite_true]

/-- Far past the largest double, everything is infinite. -/
theorem ofUnits_of_large {s : Bool} {n k : Nat} (hk : 2099 ≤ k) (h : 2 ^ k ≤ n) :
    ofUnits s n 1 = infinity s := by
  have hn : n ≠ 0 := Nat.ne_of_gt (Nat.lt_of_lt_of_le (Nat.two_pow_pos k) h)
  have hlog : k ≤ Nat.log2 n := (Nat.le_log2 hn).2 h
  have hrank : ¬ nearestRank n 1 < rankLimit := by
    rw [nearestRank, Nat.div_one, rankLimit]
    generalize roundHalfEven n (1 * 2 ^ (Nat.log2 n - 52)) = m
    omega
  rw [ofUnits, dif_neg hrank]

/-- A further digit behind a number. -/
theorem length_digits_mul_ten {c : Nat} (hc : c ≠ 0) :
    (digits (c * 10)).length = (digits c).length + 1 := by
  have h : Nat.toDigits 10 c ++ Nat.toDigits 10 0 = Nat.toDigits 10 (10 * c + 0) :=
    Nat.toDigits_append_toDigits (by decide) (Nat.pos_of_ne_zero hc) (by decide)
  rw [digits, Nat.mul_comm c 10, ← Nat.add_zero (10 * c), ← h, List.length_append]
  rfl

/-- The double nearest to `c * 10 ^ e`, where the exponent is in range. -/
def scaled (s : Bool) (c : Nat) (e : Int) : Double :=
  if 0 ≤ e then ofUnits s (c * 10 ^ e.toNat * 2 ^ 1074) 1
  else ofUnits s (c * 2 ^ 1074) (10 ^ (-e).toNat)

/-- The value does not change when a trailing zero moves into the exponent. -/
theorem scaled_mul_ten (s : Bool) (c : Nat) (e : Int) :
    scaled s (c * 10) e = scaled s c (e + 1) := by
  unfold scaled
  by_cases h : 0 ≤ e
  · have he : (e + 1).toNat = e.toNat + 1 := by omega
    rw [if_pos h, if_pos (by omega), he, Nat.pow_succ' (m := 10), Nat.mul_assoc c 10]
  · rw [if_neg h]
    have he : 10 ^ (-e).toNat = 10 ^ (-(e + 1)).toNat * 10 := by
      rw [← Nat.pow_succ]
      congr 1
      omega
    rw [he, Nat.mul_right_comm, ofUnits_mul_right (by decide)]
    by_cases h₁ : 0 ≤ e + 1
    -- from minus one the exponent reaches zero, where both forms of the quotient agree
    · obtain rfl : e = -1 := by omega
      rw [if_pos h₁]
      show ofUnits s (c * 2 ^ 1074) (10 ^ 0) = ofUnits s (c * 10 ^ 0 * 2 ^ 1074) 1
      rw [Nat.pow_zero, Nat.mul_one]
    · rw [if_neg h₁]

/-- Powers of ten in powers of two. -/
theorem two_pow_le_ten_pow (k : Nat) : 2 ^ (3 * k) ≤ 10 ^ k := by
  rw [Nat.pow_mul]
  exact Nat.pow_le_pow_left (by decide) k

/-- A large power of ten is infinite. -/
theorem ofUnits_ten_pow {s : Bool} {c j k : Nat} (hc : c ≠ 0) (hjk : 2099 ≤ 3 * k + j) :
    ofUnits s (c * 10 ^ k * 2 ^ j) 1 = infinity s := by
  refine ofUnits_of_large hjk ?_
  rw [Nat.pow_add]
  refine Nat.mul_le_mul_right _ (Nat.le_trans (two_pow_le_ten_pow k) ?_)
  exact Nat.le_mul_of_pos_left _ (Nat.pos_of_ne_zero hc)

/-- A decimal with an exponent past the range is infinite. -/
theorem scaled_of_large {s : Bool} {c : Nat} (hc : c ≠ 0) : scaled s c 400 = infinity s := by
  rw [scaled, if_pos (by decide)]
  apply ofUnits_ten_pow hc
  decide

/-- A coefficient of zero is zero. -/
theorem ofScientific_zero (s : Bool) (e : Int) :
    ofScientific s 0 e = finite s 0 (by decide) := by
  rw [ofScientific, if_pos rfl]

/-- Decimals are read by value, up to exponents that leave the range by far. -/
theorem ofScientific_eq {s : Bool} {c : Nat} {e : Int} (hc : c ≠ 0) :
    ofScientific s c e =
      if 400 < e then infinity s
      else if e + (digits c).length < -400 then finite s 0 (by decide)
      else scaled s c e := by
  rw [ofScientific, if_neg hc, scaled]

/-- **A trailing zero may move into the exponent.** -/
theorem ofScientific_mul_ten {s : Bool} {c : Nat} {e : Int} (hc : c ≠ 0) :
    ofScientific s (c * 10) e = ofScientific s c (e + 1) := by
  have hlen : e + ((digits c).length + 1 : Nat) = e + 1 + (digits c).length := by
    omega
  rw [ofScientific_eq hc, ofScientific_eq (Nat.mul_ne_zero hc (by decide)),
    length_digits_mul_ten hc, hlen]
  by_cases h : e = 400
  · -- only here do the two exponents lie on different sides of the range
    subst h
    have hl : ¬ ((400 : Int) + 1 + (digits c).length < -400) := by omega
    rw [if_neg (by decide), if_neg hl, if_pos (by decide),
      scaled_of_large (Nat.mul_ne_zero hc (by decide))]
  · have hiff : 400 < e ↔ 400 < e + 1 := by omega
    simp only [hiff, scaled_mul_ten]

/-- Trailing zeros may move into the exponent. -/
theorem ofScientific_mul_pow {s : Bool} {c : Nat} (hc : c ≠ 0) (k : Nat) :
    ∀ {e : Int}, ofScientific s (c * 10 ^ k) e = ofScientific s c (e + k) := by
  induction k with
  | zero => simp
  | succ k ih =>
    intro e
    have hck : c * 10 ^ k ≠ 0 := Nat.mul_ne_zero hc (Nat.ne_of_gt (Nat.pow_pos (by decide)))
    rw [Nat.pow_succ, ← Nat.mul_assoc, ofScientific_mul_ten hck, ih]
    congr 1
    omega

/-- Stripping zeros keeps the double. -/
theorem ofScientific_stripZeros {s : Bool} (c : Nat) (e : Int) :
    ofScientific s (Decimal.stripZeros c e).1 (Decimal.stripZeros c e).2 = ofScientific s c e := by
  fun_induction Decimal.stripZeros c e with
  | case1 c e h ih =>
    have hc : c = c / 10 * 10 := by omega
    rw [ih, ← ofScientific_mul_ten (by omega), ← hc]
  | case2 c e h => rfl

/-! ## The search -/

/-- A point of the grid is accepted when it reads back. -/
theorem ofScientific_of_gridPoint? {x : Double} {n d c : Nat} {p : Int}
    (h : gridPoint? x n d p = some c) : ofScientific false c p = x := by
  unfold gridPoint? at h
  simp only at h
  -- whichever neighbour is tried second, it is tried by reading it back
  generalize (if roundHalfEven (onGrid n d p).1 (onGrid n d p).2 = _ then _ else _) = other at h
  split at h
  · obtain rfl := Option.some.inj h
    assumption
  · split at h
    · obtain rfl := Option.some.inj h
      assumption
    · cases h

/-- Whatever the search finds reads back. -/
theorem ofScientific_of_searchShortest {x : Double} {n d : Nat} {e : Int} {left : Nat} :
    ∀ {k c : Nat} {p : Int}, searchShortest x n d e k left = some (c, p) →
      ofScientific false c p = x := by
  induction left with
  | zero => exact fun h => by cases h
  | succ left ih =>
    intro k c p h
    rw [searchShortest] at h
    split at h
    · rename_i c' hc'
      have hstrip := ofScientific_stripZeros (s := false) c' (e - k + 1)
      rw [Option.some.inj h, ofScientific_of_gridPoint? hc'] at hstrip
      exact hstrip
    · exact ih h

/-- The digits of a large number are many. -/
theorem length_digits_of_le {n k : Nat} (h : 10 ^ k ≤ n) : k < (digits n).length := by
  refine Nat.lt_of_not_le fun hlt => ?_
  cases k with
  | zero => exact absurd (List.length_pos_iff.2 (digits_ne_nil n)) (by omega)
  | succ k =>
    have := (Nat.length_toDigits_le_iff (b := 10) (n := n) (by decide) (Nat.succ_pos k)).1 hlt
    omega

/-- Only the first rank has no magnitude. -/
theorem unitsOfRank_ne_zero {r : Nat} (hr : r ≠ 0) : unitsOfRank r ≠ 0 := by
  intro h
  have hn := nearestRank_unitsOfRank r
  rw [h] at hn
  exact hr (hn.symm.trans (by decide))

/-- Powers of five and two cancel against a power of ten. -/
theorem ofUnits_five_pow {s : Bool} (n k : Nat) :
    ofUnits s (n * 5 ^ k * 2 ^ k) (10 ^ k) = ofUnits s n 1 := by
  have hk : 0 < 10 ^ k := Nat.pow_pos (by decide)
  have hten : 10 ^ k = 5 ^ k * 2 ^ k := Nat.mul_pow 5 2 k
  have h : ofUnits s (n * 10 ^ k) (1 * 10 ^ k) = ofUnits s n 1 := ofUnits_mul_right hk
  rw [Nat.one_mul] at h
  rw [Nat.mul_assoc, ← hten, h]

/-- A multiple of a power of five is no zero. -/
theorem mul_five_pow_ne_zero {n : Nat} (hn : n ≠ 0) (k : Nat) : n * 5 ^ k ≠ 0 :=
  Nat.mul_ne_zero hn (Nat.ne_of_gt (Nat.pow_pos (by decide)))

/-- **The exact expansion reads back.** -/
theorem ofScientific_expansion {s : Bool} {r : Nat} (hr : r ≠ 0) (h : r < rankLimit) :
    ofScientific s (unitsOfRank r * 5 ^ 1074) (-1074) = finite s r h := by
  have hn := unitsOfRank_ne_zero hr
  have hfive : 10 ^ 700 ≤ 5 ^ 1074 := by decide +kernel
  -- the expansion has so many digits that its exponent is in range
  have hlen : 700 < (digits (unitsOfRank r * 5 ^ 1074)).length :=
    length_digits_of_le (Nat.le_trans hfive (Nat.le_mul_of_pos_left _ (Nat.pos_of_ne_zero hn)))
  have hscaled : scaled s (unitsOfRank r * 5 ^ 1074) (-1074) = ofUnits s (unitsOfRank r) 1 := by
    have hexp : (-(-1074 : Int)).toNat = 1074 := rfl
    rw [scaled, if_neg (by decide), hexp, ofUnits_five_pow (unitsOfRank r) 1074]
  rw [ofScientific_eq (mul_five_pow_ne_zero hn 1074), if_neg (by decide), if_neg (by omega),
    hscaled, ofUnits_unitsOfRank h]

/-- **The shortest decimal of a double reads back**, for doubles without sign. -/
theorem ofScientific_toDecimal? {x : Double} {d : Decimal} (hs : x.signBit = false)
    (h : x.toDecimal? = some d) : ofScientific false d.coefficient d.exponent = x := by
  match x, hs with
  | finite false r hr, _ =>
    rw [toDecimal?] at h
    split at h
    · rename_i h₀
      obtain rfl := Option.some.inj h
      subst h₀
      rfl
    · rename_i h₀
      simp only at h
      split at h
      · rename_i hfound
        obtain rfl := Option.some.inj h
        exact ofScientific_of_searchShortest hfound
      · obtain rfl := Option.some.inj h
        exact ofScientific_expansion h₀ hr

/-- Every finite double has a shortest decimal. -/
theorem exists_toDecimal? {x : Double} (h : x.isFinite = true) : ∃ d, x.toDecimal? = some d := by
  match x, h with
  | finite s r hr, _ =>
    rw [toDecimal?]
    split
    · exact ⟨_, rfl⟩
    · simp only
      split <;> exact ⟨_, rfl⟩

end Double

end Formula
