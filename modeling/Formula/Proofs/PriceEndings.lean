/-
# Price endings

A price is written with its cents, and an ending of `k` digits, a point and two digits stands for
the last `k + 3` characters. Cutting characters of a text is division by a power of ten
(`take_digits`), so **an ending overwrites exactly the low digits of a price**
(`Function.withEnding_text`): what is left is the multiple of `10 ^ k` below the price.

An ending given as a number is first written out. **It says the number rounded to cents, except from
0.995 up to one** (`Function.withEnding_number`), where the rounded text `1.00` loses its one.
-/
import Formula.Function.Price
import Formula.Proofs.Conversions
import Formula.Proofs.NearestDouble
import Formula.Proofs.Places
import Mathlib.Algebra.Order.Floor.Semifield
import Mathlib.Data.Rat.Floor

namespace Formula

/-! ## Cents -/

/-- Numbers below a hundred have two padded digits. -/
theorem length_paddedDigits {c : Nat} (h : c < 100) : (paddedDigits 2 c).length = 2 := by
  have hlength : (digits c).length ≤ 2 :=
    (Nat.length_toDigits_le_iff (by decide) (by decide)).2 h
  rw [paddedDigits, List.length_append, List.length_replicate]
  omega

/-- An amount of cents: its digits, a point and two digits. -/
theorem fixedPoint_two (c : Nat) :
    fixedPoint 2 c = digits (c / 100) ++ '.' :: paddedDigits 2 (c % 100) := rfl

/-- The text of an amount of cents. -/
theorem length_fixedPoint_two (c : Nat) :
    (fixedPoint 2 c).length = (digits (c / 100)).length + 3 := by
  rw [fixedPoint_two, List.length_append, List.length_cons,
    length_paddedDigits (Nat.mod_lt c (by decide))]

/-- What is left of an amount when the last digits before its point are cut off, and all behind
them. -/
theorem take_fixedPoint_two {c k : Nat} (h : k < (digits (c / 100)).length) :
    (fixedPoint 2 c).take ((digits (c / 100)).length - k) = digits (c / 100 / 10 ^ k) := by
  rw [fixedPoint_two, List.take_append_of_le_length (Nat.sub_le _ k), take_digits h]

namespace Decimal

/-- The magnitude is a quotient. -/
theorem ratio_pos (d : Decimal) : 0 < d.ratio.2 := by
  unfold ratio
  split
  · exact Nat.one_pos
  · exact Nat.pow_pos (by decide)

/-- The whole part of a decimal without sign. -/
theorem floor_toRat {d : Decimal} (h : d.negative = false) :
    ⌊d.toRat⌋₊ = d.ratio.1 / d.ratio.2 := by
  rw [toRat, h, if_neg Bool.false_ne_true, Rat.mkRat_eq_div, Int.cast_natCast,
    Nat.floor_div_natCast, Nat.floor_natCast]

/-- Cut to cents, a decimal without sign keeps its whole part. -/
theorem scaled_floor_div {d : Decimal} (h : d.negative = false) :
    d.scaled .floor 2 / 100 = ⌊d.toRat⌋₊ := by
  have hscaled : d.scaled .floor 2 = d.ratio.1 * 100 / d.ratio.2 := by
    rw [scaled, h]
    rfl
  rw [hscaled, floor_toRat h, Nat.div_div_eq_div_mul, Nat.mul_div_mul_right _ _ (by decide)]

end Decimal

namespace Double

/-! ## Doubles of quotients -/

/-- The double of an amount of cents. -/
theorem ofScientific_cents (n : Nat) :
    ofScientific false n (-2) = ofRat ((n : Rat) / 100) := by
  have hratio : ofRat ((n : Rat) / 100) = ofUnits false (n * 2 ^ 1074) 100 := by
    exact_mod_cast ofRat_div (by decide : 0 < 100) n
  rw [hratio]
  by_cases hn : n = 0
  · subst hn
    rw [ofScientific_zero, Nat.zero_mul]
    decide
  · rw [ofScientific_eq hn, if_neg (by decide), if_neg (by omega), scaled, if_neg (by decide)]
    rfl

/-! ## Shortest decimals by value -/

/-- A decimal in range is read by its value. -/
theorem scaled_eq_ofUnits (d : Decimal) :
    scaled false d.coefficient d.exponent = ofUnits false (d.ratio.1 * 2 ^ 1074) d.ratio.2 := by
  unfold scaled Decimal.ratio
  split <;> rfl

/-- The shortest decimal of a double without sign has none. -/
theorem negative_of_toDecimal? {x : Double} {d : Decimal} (hs : x.signBit = false)
    (h : x.toDecimal? = some d) : d.negative = false := by
  cases x with
  | finite s r hr =>
    rw [toDecimal?] at h
    split at h
    · rw [← Option.some.inj h]
      exact hs
    · simp only at h
      split at h <;>
      · rw [← Option.some.inj h]
        exact hs
  | _ => cases h

/-- Only zero has the shortest decimal zero. -/
theorem toDecimal?_zero {s : Bool} {h : 0 < rankLimit} :
    (finite s 0 h).toDecimal? = some ⟨s, 0, 0⟩ := by
  rw [toDecimal?, if_pos rfl]

/-- **The shortest decimal rounds to its double**, unless it is zero. -/
theorem ofUnits_toDecimal? {x : Double} {d : Decimal} (hs : x.signBit = false)
    (hfinite : x.isFinite = true) (h : x.toDecimal? = some d) (hd : d.coefficient ≠ 0) :
    ofUnits false (d.ratio.1 * 2 ^ 1074) d.ratio.2 = x := by
  have hread := ofScientific_toDecimal? hs h
  rw [ofScientific_eq hd] at hread
  split at hread
  · -- a double that is finite has no such exponent
    rw [← hread] at hfinite
    cases hfinite
  · split at hread
    · rw [← hread, toDecimal?_zero] at h
      exact absurd (congrArg Decimal.coefficient (Option.some.inj h)).symm hd
    · rw [← scaled_eq_ofUnits, hread]

/-- A double that rounds a quotient not below a number is not below the double nearest to it. -/
theorem unitsOfRank_le_of_ofUnits {x : Double} {n m b : Nat} {q : Rat} (hm : 0 < m)
    (hx : ofUnits false n m = x) (hq : x.toRat? = some q) (hle : b * m ≤ n) :
    (unitsOfRank (nearestRank b 1) : Rat) / (2 ^ 1074 : Nat) ≤ q := by
  have hrank : nearestRank b 1 ≤ nearestRank n m :=
    nearestRank_le (by decide) hm (by rwa [Nat.mul_one])
  have hunits := strictMono_unitsOfRank.monotone hrank
  unfold ofUnits at hx
  split at hx
  · subst hx
    have hvalue : mkRat (unitsOfRank (nearestRank n m)) (2 ^ 1074) = q := Option.some.inj hq
    rw [← hvalue, Rat.mkRat_eq_div]
    exact div_le_div_of_nonneg_right (by exact_mod_cast hunits) (Nat.cast_nonneg _)
  · subst hx
    cases hq

/-- **Below a number that rounds to no smaller double**, a double has a shortest decimal below it
too. -/
theorem ratio_lt {x : Double} {d : Decimal} {q : Rat} {b : Nat} (hs : x.signBit = false)
    (h : x.toDecimal? = some d) (hq : x.toRat? = some q) (hb : 0 < b)
    (hround : b * 2 ^ 1074 ≤ unitsOfRank (nearestRank (b * 2 ^ 1074) 1)) (hlt : q < b) :
    d.ratio.1 < b * d.ratio.2 := by
  by_contra hle
  rw [Nat.not_lt] at hle
  have hpos := d.ratio_pos
  have hcoefficient : d.coefficient ≠ 0 := by
    intro hzero
    have hratio : d.ratio.1 = 0 := by
      unfold Decimal.ratio
      split <;> simp [hzero]
    have hprod := Nat.mul_pos hb hpos
    omega
  have hx := ofUnits_toDecimal? hs (isFinite_of_toRat? hq) h hcoefficient
  have hbelow := unitsOfRank_le_of_ofUnits (b := b * 2 ^ 1074) hpos hx hq
    (by rw [Nat.mul_right_comm]; exact Nat.mul_le_mul_right _ hle)
  have hunit : (0 : Rat) < (2 ^ 1074 : Nat) := Nat.cast_pos.2 (by positivity)
  have hb' : (b : Rat) ≤ (unitsOfRank (nearestRank (b * 2 ^ 1074) 1) : Rat) / (2 ^ 1074 : Nat) := by
    rw [le_div_iff₀ hunit]
    exact_mod_cast hround
  exact absurd (hlt.trans_le hb') (not_lt.2 hbelow)

/-! ## Reading amounts -/

/-- **Digits, a point and two digits are read as an amount of cents**, whatever their script. -/
theorem read?_cents {whole : List Char} {a b : Char} (hne : whole ≠ [])
    (h : ∀ c ∈ whole ++ [a, b], isDecimalDigit c = true) :
    read? (String.ofList (whole ++ ['.', a, b]))
      = some (ofRat ((digitsValue (whole ++ [a, b]) : Rat) / 100)) := by
  have hdigits := isDigit_of_mem_map h
  rw [List.map_append] at hdigits
  have hvalid : Numeral.Valid ⟨whole.map asciiDigit, [a, b].map asciiDigit, none⟩ :=
    ⟨by simpa using hne, List.cons_ne_nil _ _, hdigits⟩
  have htext : (whole ++ ['.', a, b]).map asciiDigit
      = Numeral.text ⟨whole.map asciiDigit, [a, b].map asciiDigit, none⟩ := by
    have hpoint : asciiDigit '.' = '.' := by decide
    simp [Numeral.text, Numeral.mark, hpoint]
  rw [← read?_map_asciiDigit, htext, hvalid.read?_text, ← ofScientific_cents, ← digitsValue_map h,
    List.map_append]
  rfl

/-- Amounts below `10 ^ 26` have finite doubles. -/
theorem isFinite_cents {n : Nat} (h : n < 10 ^ 28) : (ofRat ((n : Rat) / 100)).isFinite = true := by
  have hlast : nearestRank (10 ^ 26 * 2 ^ 1074) 1 < rankLimit := by decide +kernel
  have hrank : nearestRank (n * 2 ^ 1074) 100 ≤ nearestRank (10 ^ 26 * 2 ^ 1074) 1 :=
    nearestRank_le (by decide) (by decide) (by
      rw [Nat.mul_one, Nat.mul_right_comm]
      exact Nat.mul_le_mul_right _ (Nat.le_of_lt h))
  have hratio : ofRat ((n : Rat) / 100) = ofUnits false (n * 2 ^ 1074) 100 := by
    exact_mod_cast ofRat_div (by decide : 0 < 100) n
  rw [hratio, ofUnits, dif_pos (Nat.lt_of_le_of_lt hrank hlast)]
  rfl

end Double

namespace Function

/-! ## Endings as texts -/

variable {price : Value} {v : Double} {d : Decimal} {q : Rat} {whole : List Char} {a b : Char}

/-- Digits, a point and two digits are an ending. -/
theorem isDecimalTail_of_digits (h : ∀ c ∈ whole ++ [a, b], isDecimalDigit c = true) :
    isDecimalTail (whole ++ ['.', a, b]) = true := by
  have hpoint : isDecimalDigit '.' = false := by decide
  have hdrop : (whole ++ ['.', a, b]).dropWhile isDecimalDigit = ['.', a, b] := by
    rw [List.dropWhile_append_of_pos fun c hc => h c (List.mem_append_left _ hc),
      List.dropWhile_cons_of_neg (by rw [hpoint]; exact Bool.false_ne_true)]
  have ha : isDecimalDigit a = true := h a (by simp)
  have hb : isDecimalDigit b = true := h b (by simp)
  rw [isDecimalTail, hdrop]
  simp only [ha, hb, Bool.and_self]

/-- The decimal of a price below `10 ^ 26` is below it. -/
theorem floor_toRat_lt (hs : v.signBit = false) (hd : v.toDecimal? = some d)
    (hq : v.toRat? = some q) (hlt : q < (10 ^ 26 : Nat)) : ⌊d.toRat⌋₊ < 10 ^ 26 := by
  have hround : 10 ^ 26 * 2 ^ 1074 ≤ unitsOfRank (nearestRank (10 ^ 26 * 2 ^ 1074) 1) := by
    decide +kernel
  have hratio := Double.ratio_lt hs hd hq (by decide) hround hlt
  rw [Decimal.floor_toRat (Double.negative_of_toDecimal? hs hd)]
  exact (Nat.div_lt_iff_lt_mul d.ratio_pos).2 hratio

/-- **A price below `10 ^ 26` is written with its cents**, cut to them. -/
theorem priceText_eq (hs : v.signBit = false) (hd : v.toDecimal? = some d)
    (hq : v.toRat? = some q) (hlt : q < (10 ^ 26 : Nat)) :
    priceText v = .ok (String.ofList (fixedPoint 2 (d.scaled .floor 2))) := by
  have hnegative := Double.negative_of_toDecimal? hs hd
  have hfloor := floor_toRat_lt hs hd hq hlt
  have hcents : d.scaled .floor 2 < 10 ^ Decimal.precision := by
    rw [← Decimal.scaled_floor_div hnegative] at hfloor
    show d.scaled .floor 2 < 10 ^ 28
    omega
  cases v with
  | finite s r hr =>
    simp only [priceText, hd, Option.bind_some, Decimal.round?, if_pos hcents, Decimal.fixedText,
      hnegative]
    rfl
  | _ => cases hq

/-- The result of an ending, by the text of the price. -/
theorem withEnding_of_priceText {tail shown : List Char} (hprice : price.toDouble = .ok v)
    (htail : isDecimalTail tail = true) (hshown : priceText v = .ok (String.ofList shown)) :
    withEnding price (.text (String.ofList tail)) =
      if shown.length - tail.length = 0 then
        .error (.malformed (String.ofList tail)
          (.longEnding (String.ofList tail) (String.ofList shown)))
      else (readNumeral (String.ofList (shown.take (shown.length - tail.length) ++ tail))).map
        .float := by
  rw [withEnding, tailText]
  simp only [bind, Except.bind, hprice, hshown, String.toList_ofList, htail, Bool.not_true,
    Bool.false_eq_true, if_false, String.length_ofList, String.ofList_append]
  split
  · rfl
  · rfl

/-! ## Endings as amounts -/

/-- The amount whose digits below the place of `10 ^ k` are those of an ending. -/
def overwritten (k : Nat) (amount ending : Rat) : Rat :=
  (⌊amount / (10 ^ k : Nat)⌋₊ * 10 ^ k : Nat) + ending

/-- The digits that are left and those of the ending are a row of digits. -/
theorem forall_mem_kept {m : Nat} (hdigits : ∀ c ∈ whole ++ [a, b], isDecimalDigit c = true) :
    ∀ c ∈ digits m ++ whole ++ [a, b], isDecimalDigit c = true := by
  intro c hc
  rw [List.append_assoc] at hc
  rcases List.mem_append.1 hc with hc | hc
  · exact isDecimalDigit_of_isDigit (isDigit_of_mem_digits hc)
  · exact hdigits c hc

/-- The digits that are left, with the ending behind them, show the overwritten amount. -/
theorem digitsValue_overwritten (q : Rat) (whole : List Char) (a b : Char) :
    ((digitsValue (digits (⌊q⌋₊ / 10 ^ whole.length) ++ whole ++ [a, b]) : Nat) : Rat) / 100
      = overwritten whole.length q ((digitsValue (whole ++ [a, b]) : Rat) / 100) := by
  have hlength : (whole ++ [a, b]).length = whole.length + 2 := by simp
  rw [overwritten, Nat.floor_div_natCast, List.append_assoc, digitsValue_append, digitsValue_digits,
    hlength, Nat.pow_add]
  push_cast
  ring

/-- **What is left of a price and its ending are read as the overwritten amount.** -/
theorem readNumeral_overwritten (q : Rat)
    (hdigits : ∀ c ∈ whole ++ [a, b], isDecimalDigit c = true) :
    readNumeral (String.ofList (digits (⌊q⌋₊ / 10 ^ whole.length) ++ (whole ++ ['.', a, b])))
      = .ok (.ofRat (overwritten whole.length q
          ((digitsValue (whole ++ [a, b]) : Rat) / 100))) := by
  have hne : digits (⌊q⌋₊ / 10 ^ whole.length) ++ whole ≠ [] :=
    List.append_ne_nil_of_left_ne_nil (digits_ne_nil _) _
  rw [← List.append_assoc, readNumeral, Double.read?_cents hne (forall_mem_kept hdigits),
    digitsValue_overwritten]
  rfl

/-- With an ending in the place of as many characters, a price keeps its number of digits. -/
theorem length_kept {m : Nat} (hk : whole.length < (digits m).length) :
    (digits (m / 10 ^ whole.length) ++ whole ++ [a, b]).length = (digits m).length + 2 := by
  have hcut := congrArg List.length (take_digits hk)
  rw [List.length_take] at hcut
  rw [List.length_append, List.length_append, ← hcut]
  simp only [List.length_cons, List.length_nil]
  omega

/-- **A price below `10 ^ 26` stays below it with an ending**, so the result is the nearest
double. -/
theorem isNearest_overwritten (hm : ⌊q⌋₊ < 10 ^ 26) (hk : whole.length < (digits ⌊q⌋₊).length)
    (hdigits : ∀ c ∈ whole ++ [a, b], isDecimalDigit c = true) :
    (Double.ofRat (overwritten whole.length q
      ((digitsValue (whole ++ [a, b]) : Rat) / 100))).IsNearest
        (overwritten whole.length q ((digitsValue (whole ++ [a, b]) : Rat) / 100)) := by
  have hlength : (digits ⌊q⌋₊).length ≤ 26 :=
    (Nat.length_toDigits_le_iff (by decide) (by decide)).2 hm
  have hlt : digitsValue (digits (⌊q⌋₊ / 10 ^ whole.length) ++ whole ++ [a, b]) < 10 ^ 28 := by
    refine Nat.lt_of_lt_of_le (digitsValue_lt (forall_mem_kept hdigits))
      (Nat.pow_le_pow_right (by decide) ?_)
    rw [length_kept hk]
    omega
  rw [← digitsValue_overwritten]
  exact Double.isNearest_ofRat (by positivity) (Double.isFinite_cents hlt)

/-- **An ending overwrites exactly the low digits of a price**: with `k` digits before its point it
replaces the digits below the place of `10 ^ k`, and the result is the nearest double. The price
has to have more digits than that. -/
theorem withEnding_text (hprice : price.toDouble = .ok v) (hs : v.signBit = false)
    (hq : v.toRat? = some q) (hlt : q < (10 ^ 26 : Nat))
    (hdigits : ∀ c ∈ whole ++ [a, b], isDecimalDigit c = true) :
    ∃ d shown, v.toDecimal? = some d ∧ priceText v = .ok shown ∧
      let k := whole.length
      let tail := String.ofList (whole ++ ['.', a, b])
      let amount := overwritten k d.toRat ((digitsValue (whole ++ [a, b]) : Rat) / 100)
      if (digits ⌊d.toRat⌋₊).length ≤ k then
        withEnding price (.text tail) = .error (.malformed tail (.longEnding tail shown))
      else
        withEnding price (.text tail) = .ok (.float (.ofRat amount)) ∧
          (Double.ofRat amount).IsNearest amount := by
  obtain ⟨d, hd⟩ := Double.exists_toDecimal? (Double.isFinite_of_toRat? hq)
  have hwhole := Decimal.scaled_floor_div (Double.negative_of_toDecimal? hs hd)
  have hshown := priceText_eq hs hd hq hlt
  have hresult := withEnding_of_priceText hprice (isDecimalTail_of_digits hdigits) hshown
  -- both texts have three characters from the point on
  have hkeep : (fixedPoint 2 (d.scaled .floor 2)).length - (whole ++ ['.', a, b]).length
      = (digits ⌊d.toRat⌋₊).length - whole.length := by
    rw [length_fixedPoint_two, hwhole, List.length_append]
    simp only [List.length_cons, List.length_nil]
    omega
  rw [hkeep] at hresult
  refine ⟨d, _, hd, hshown, ?_⟩
  intro k tail amount
  split
  · rename_i hle
    rw [hresult, if_pos (Nat.sub_eq_zero_of_le hle)]
  · rename_i hle
    have hk : whole.length < (digits ⌊d.toRat⌋₊).length := Nat.lt_of_not_le hle
    have htake := take_fixedPoint_two (c := d.scaled .floor 2) (k := whole.length)
    rw [hwhole] at htake
    rw [hresult, if_neg (Nat.sub_ne_zero_of_lt hk), htake hk, readNumeral_overwritten _ hdigits]
    exact ⟨rfl, isNearest_overwritten (floor_toRat_lt hs hd hq hlt) hk hdigits⟩

/-- The price 512.34 with the ending 9.90. -/
theorem withEnding_text_price :
    withEnding (.float (.ofRat (51234 / 100))) (.text "9.90")
        = .ok (.float (.ofRat (51990 / 100))) ∧
      (Double.ofRat (51990 / 100)).IsNearest (51990 / 100) := by
  have hexact : (Double.ofRat (51234 / 100)).toDecimal? = some ⟨false, 51234, -2⟩ := by
    decide +kernel
  have hprice : Value.toDouble (.float (.ofRat (51234 / 100))) = .ok (.ofRat (51234 / 100)) := rfl
  have hvalue : (Double.ofRat (51234 / 100)).toRat? = some (mkRat 4506590298998047 (2 ^ 43)) := by
    decide +kernel
  have hdigits : (['9'] ++ ['9', '0']).all isDecimalDigit = true := by decide
  obtain ⟨d, shown, hd, -, h⟩ := withEnding_text hprice (by decide +kernel) hvalue
    (by decide +kernel) (List.all_eq_true.1 hdigits)
  obtain rfl := Option.some.inj (hd.symm.trans hexact)
  have hfloor : ⌊Decimal.toRat ⟨false, 51234, -2⟩⌋₊ = 512 := Decimal.floor_toRat rfl
  have hlong : ¬ (digits 512).length ≤ ['9'].length := by decide
  have hamount : overwritten ['9'].length (Decimal.toRat ⟨false, 51234, -2⟩)
      ((digitsValue (['9'] ++ ['9', '0']) : Rat) / 100) = 51990 / 100 := by
    rw [overwritten, Nat.floor_div_natCast, hfloor]
    decide +kernel
  simp only [hfloor, hamount, if_neg hlong] at h
  exact h

/-! ## Endings given as numbers -/

/-- The ending of `c` cents, without a digit before the point below one. -/
def amountTail (c : Nat) : String :=
  String.ofList (if c < 100 then '.' :: paddedDigits 2 c else fixedPoint 2 c)

/-- Digits, a point and digits show a decimal. -/
theorem readMagnitude?_point {ds ps : List Char} (hds : ∀ c ∈ ds, c.isDigit = true)
    (hps : ∀ c ∈ ps, c.isDigit = true) (hne : ps ≠ []) :
    readMagnitude? (ds ++ '.' :: ps) = some (digitsValue (ds ++ ps), -(ps.length : Int)) := by
  have hpoint : ∀ c ∈ ('.' :: ps).head?, isAsciiDigit c = false := by
    rintro c ⟨⟩
    decide
  obtain ⟨hw, hw'⟩ := takeWhile_isAsciiDigit hds hpoint
  have hend : ∀ c ∈ ([] : List Char).head?, isAsciiDigit c = false := nofun
  obtain ⟨hp, hp'⟩ := takeWhile_isAsciiDigit hps hend
  rw [List.append_nil] at hp hp'
  rw [readMagnitude?, hw, hw']
  simp only [hp, hp', hne, and_false, if_false, readExponent?, Option.map_some, Int.zero_sub]

/-- **The text of an ending of `c` cents shows `c` cents.** -/
theorem readMagnitude?_amountTail (c : Nat) :
    readMagnitude? (amountTail c).toList = some (c, -2) := by
  have hpadded : ∀ n, ∀ d ∈ paddedDigits 2 n, d.isDigit = true :=
    fun _ _ => Numeral.isDigit_of_mem_paddedDigits
  rw [amountTail, String.toList_ofList]
  by_cases hc : c < 100
  · rw [if_pos hc, ← List.nil_append ('.' :: _), readMagnitude?_point (by simp) (hpadded c)
      (Numeral.paddedDigits_ne_nil 2 c), List.nil_append, Numeral.digitsValue_paddedDigits,
      length_paddedDigits hc]
    rfl
  · have hlength := length_paddedDigits (Nat.mod_lt c (by decide : 100 > 0))
    have hvalue : c / 100 * 10 ^ 2 + c % 100 = c := by omega
    rw [if_neg hc, fixedPoint_two, readMagnitude?_point (fun _ => isDigit_of_mem_digits)
      (hpadded _) (Numeral.paddedDigits_ne_nil 2 _), digitsValue_append, digitsValue_digits,
      Numeral.digitsValue_paddedDigits, hlength, hvalue]
    rfl

/-- A number is written out with two decimals and, below one, without the first character. -/
theorem tailText_of_toDouble {t : Value} {x : Double} (ht : ∀ s, t ≠ .text s)
    (hx : t.toDouble = .ok x) : tailText t = .ok (if Double.zero.le x && x.lt .one then
      String.ofList ((x.fixedText 2 false).toList.drop 1) else x.fixedText 2 false) := by
  have hwritten : tailText t = do
      let x ← t.toDouble
      let s := x.fixedText 2 false
      return if Double.zero.le x && x.lt .one then String.ofList (s.toList.drop 1) else s := by
    cases t with
    | text s => exact absurd rfl (ht s)
    | _ => rfl
  rw [hwritten, hx]
  rfl

/-- The double one is one. -/
theorem unitsOfRank_one : unitsOfRank (1023 * 2 ^ 52) = 2 ^ 1074 := by decide +kernel

/-- A double without sign is below one exactly if its value is. -/
theorem lt_one {r : Nat} {hr : r < rankLimit} :
    (Double.finite false r hr).lt .one = true ↔ ((unitsOfRank r : Rat) / (2 ^ 1074 : Nat)) < 1 := by
  have hunit : (0 : Rat) < (2 ^ 1074 : Nat) := Nat.cast_pos.2 (by positivity)
  have hrank : (Double.finite false r hr).lt .one = true ↔ r < 1023 * 2 ^ 52 := by
    simp [Double.lt, Double.place?, Double.one]
  rw [hrank, div_lt_one hunit, Nat.cast_lt, ← unitsOfRank_one, strictMono_unitsOfRank.lt_iff_lt]

/-- A number below one has a hundred hundredths, rounded, from 0.995 on. -/
theorem eq_hundred_iff {q : Rat} {c : Nat} (hc : IsHalfEven (100 * q) c) (hq : q < 1) :
    c = 100 ↔ 199 / 200 ≤ q := by
  constructor
  · rintro rfl
    have hlow := hc.bounds.1
    push_cast at hlow
    linarith
  · intro hband
    have hle : c ≤ 100 := hc.le (by push_cast; linarith)
    have hge : 99 ≤ c := hc.ge (by push_cast; linarith)
    by_contra hne
    -- ninety-nine is half a step away at least, and odd
    obtain rfl : c = 99 := by omega
    rcases hc with hlt | ⟨-, heven⟩
    · have hnear := (abs_lt.1 hlt).1
      push_cast at hnear
      linarith
    · omega

/-- The hundredths of a double are rounded to the nearest whole number. -/
theorem isHalfEven_scaledHalfEven (r : Nat) :
    IsHalfEven (100 * ((unitsOfRank r : Rat) / (2 ^ 1074 : Nat))) (Double.scaledHalfEven 2 r) := by
  have hhundred : 100 * ((unitsOfRank r : Rat) / (2 ^ 1074 : Nat))
      = ((unitsOfRank r * 10 ^ 2 : Nat) : Rat) / (2 ^ 1074 : Nat) := by
    rw [Nat.cast_mul, mul_comm, div_mul_eq_mul_div]
    norm_cast
  rw [hhundred]
  exact isHalfEven_roundHalfEven (by positivity) _

/-- **The text of a number without sign** is the ending of its cents; a number below one that
rounds to one loses its one. -/
theorem tailText_unsigned {t : Value} {r : Nat} {hr : r < rankLimit} (ht : ∀ s, t ≠ .text s)
    (hx : t.toDouble = .ok (.finite false r hr)) : tailText t = .ok
      (if (unitsOfRank r : Rat) / (2 ^ 1074 : Nat) < 1 ∧ Double.scaledHalfEven 2 r = 100 then ".00"
      else amountTail (Double.scaledHalfEven 2 r)) := by
  have hc := isHalfEven_scaledHalfEven r
  have hone := @lt_one r hr
  have htext : (Double.finite false r hr).fixedText 2 false
      = String.ofList (fixedPoint 2 (Double.scaledHalfEven 2 r)) := rfl
  have hzero : Double.zero.le (.finite false r hr) = true := by
    simp [Double.le, Double.place?, Double.zero]
  rw [tailText_of_toDouble ht hx, htext, hzero, Bool.true_and, String.toList_ofList]
  generalize (unitsOfRank r : Rat) / (2 ^ 1074 : Nat) = q at *
  generalize Double.scaledHalfEven 2 r = c at *
  by_cases hlt : q < 1
  · rw [if_pos (hone.2 hlt)]
    by_cases hhundred : c = 100
    · rw [if_pos ⟨hlt, hhundred⟩, hhundred]
      decide
    · have hle : c ≤ 100 := hc.le (by push_cast; linarith)
      have hc100 : c < 100 := Nat.lt_of_le_of_ne hle hhundred
      rw [if_neg (fun h => hhundred h.2), amountTail, if_pos hc100, fixedPoint_two,
        Nat.div_eq_of_lt hc100, Nat.mod_eq_of_lt hc100]
      rfl
  · have hc100 : ¬ c < 100 := Nat.not_lt.2 (hc.ge (by push_cast; linarith))
    rw [if_neg (mt hone.1 hlt), if_neg (fun h => hlt h.1), amountTail, if_neg hc100]

/-- The text of negative zero keeps the digit before its point. -/
theorem tailText_negativeZero {t : Value} (ht : ∀ s, t ≠ .text s)
    (hx : t.toDouble = .ok (.finite true 0 rankLimit_pos)) : tailText t = .ok "0.00" := by
  rw [tailText_of_toDouble ht hx]
  decide +kernel

/-- Endings of one text are one. -/
theorem withEnding_congr {t u : Value} (h : tailText t = tailText u) (price : Value) :
    withEnding price t = withEnding price u := by
  rw [withEnding, withEnding, h]

/-- Whether a number below one rounds to one. -/
def RoundsUpToOne (q : Rat) : Prop := 199 / 200 ≤ q ∧ q < 1

instance (q : Rat) : Decidable (RoundsUpToOne q) := inferInstanceAs (Decidable (_ ∧ _))

/-- The text of the number `x` as an ending, where its value `q` has `c` cents: a number below one
that rounds to one loses its one, and negative zero keeps a digit before its point. -/
def shownTail (x : Double) (q : Rat) (c : Nat) : String :=
  if RoundsUpToOne q then ".00" else if x.signBit then "0.00" else amountTail c

/-- Of the doubles with a sign, only zero is not negative. -/
theorem eq_zero_of_signBit {r : Nat} {hr : r < rankLimit} {q : Rat}
    (hq : (Double.finite true r hr).toRat? = some q) (hnonneg : 0 ≤ q) : r = 0 ∧ q = 0 := by
  have hvalue : mkRat (-(unitsOfRank r : Int)) (2 ^ 1074) = q := Option.some.inj hq
  by_cases hr0 : r = 0
  · subst hr0
    exact ⟨rfl, hvalue.symm.trans (Rat.zero_mkRat _)⟩
  · have hunits : -(unitsOfRank r : Int) < 0 := by
      have := Nat.pos_of_ne_zero (Double.unitsOfRank_ne_zero hr0)
      omega
    have hneg := (Double.mkRat_lt_mkRat (v := 0) (by positivity : 0 < 2 ^ 1074)).2 hunits
    rw [Rat.zero_mkRat, hvalue] at hneg
    exact absurd hnonneg (not_le.2 hneg)

/-- **The text of a number as an ending**, by its cents. -/
theorem tailText_number {t : Value} {x : Double} {q : Rat} (ht : ∀ s, t ≠ .text s)
    (hx : t.toDouble = .ok x) (hq : x.toRat? = some q) (hnonneg : 0 ≤ q) :
    ∃ c, IsHalfEven (100 * q) c ∧ tailText t = .ok (shownTail x q c) ∧
      (RoundsUpToOne q → c = 100) ∧ (x.signBit = true → c = 0) := by
  cases x with
  | finite s r hr =>
    cases s with
    | false =>
      have hvalue : mkRat (unitsOfRank r) (2 ^ 1074) = q := Option.some.inj hq
      rw [Rat.mkRat_eq_div, Int.cast_natCast] at hvalue
      have htext := tailText_unsigned ht hx
      have hc := isHalfEven_scaledHalfEven r
      rw [hvalue] at htext hc
      have hband : q < 1 ∧ Double.scaledHalfEven 2 r = 100 ↔ RoundsUpToOne q := by
        rw [RoundsUpToOne, and_comm]
        exact and_congr_left fun hlt => eq_hundred_iff hc hlt
      refine ⟨_, hc, ?_, fun h => (hband.2 h).2, nofun⟩
      rw [htext, shownTail]
      simp only [hband, Double.signBit, Bool.false_eq_true, if_false]
    | true =>
      obtain ⟨rfl, rfl⟩ := eq_zero_of_signBit hq hnonneg
      have hband : ¬ RoundsUpToOne 0 := by decide +kernel
      refine ⟨0, .inl (by norm_num), ?_, fun h => absurd h hband, fun _ => rfl⟩
      rw [tailText_negativeZero ht hx, shownTail, if_neg hband]
      rfl
  | _ => cases hq

/-- A price that the endings `.00`, `0.00` and `1.00` change in different ways. -/
theorem withEnding_distinguishes :
    withEnding (.integer 512) (.text ".00") = .ok (.float (.ofInt 512)) ∧
      withEnding (.integer 512) (.text "0.00") = .ok (.float (.ofInt 510)) ∧
      withEnding (.integer 512) (.text "1.00") = .ok (.float (.ofInt 511)) := by
  decide +kernel

/-- **An ending given as a number means its cents**: it stands for a text, which shows the number
rounded to cents unless the number is below one and rounds to one, and which acts as the ending of
these cents on every price unless the number is such a number or negative zero. -/
theorem withEnding_number {t : Value} {x : Double} {q : Rat} (ht : ∀ s, t ≠ .text s)
    (hx : t.toDouble = .ok x) (hq : x.toRat? = some q) (hnonneg : 0 ≤ q) :
    ∃ c, IsHalfEven (100 * q) c ∧ tailText t = .ok (shownTail x q c) ∧
      (∀ price, withEnding price t = withEnding price (.text (shownTail x q c))) ∧
      (readMagnitude? (shownTail x q c).toList = some (c, -2) ↔ ¬ RoundsUpToOne q) ∧
      ((∀ price, withEnding price t = withEnding price (.text (amountTail c)))
        ↔ ¬ RoundsUpToOne q ∧ x.signBit = false) := by
  obtain ⟨c, hc, htext, hone, hzero⟩ := tailText_number ht hx hq hnonneg
  have hending := withEnding_congr (u := .text (shownTail x q c)) htext
  refine ⟨c, hc, htext, hending, ?_, ?_⟩
  · by_cases hband : RoundsUpToOne q
    · rw [shownTail, if_pos hband, hone hband]
      exact iff_of_false (by decide) (not_not.2 hband)
    · rw [shownTail, if_neg hband]
      refine iff_of_true ?_ hband
      split
      · rename_i hsign
        rw [hzero hsign]
        decide
      · exact readMagnitude?_amountTail c
  · constructor
    · intro h
      have hsame := (hending (.integer 512)).symm.trans (h (.integer 512))
      obtain ⟨hplain, hkept, hamount⟩ := withEnding_distinguishes
      by_cases hband : RoundsUpToOne q
      · have hcents : amountTail 100 = "1.00" := by decide
        rw [shownTail, if_pos hband, hone hband, hcents, hplain, hamount] at hsame
        exact absurd hsame (by decide +kernel)
      · refine ⟨hband, Bool.eq_false_iff.2 fun hsign => ?_⟩
        have hcents : amountTail 0 = ".00" := by decide
        rw [shownTail, if_neg hband, if_pos hsign, hzero hsign, hcents, hplain, hkept] at hsame
        exact absurd hsame (by decide +kernel)
    · rintro ⟨hband, hsign⟩ price
      rw [hending price, shownTail, if_neg hband, hsign, if_neg Bool.false_ne_true]

/-- The number 9.9 as an ending. -/
theorem withEnding_number_tail :
    withEnding (.integer 512) (.float (.ofRat (99 / 10)))
      = withEnding (.integer 512) (.text "9.90") := by
  obtain ⟨c, hc, -, -, -, hsame⟩ := withEnding_number (t := .float (.ofRat (99 / 10)))
    (q := mkRat 5573204538870989 (2 ^ 49)) nofun rfl (by decide +kernel) (by decide +kernel)
  have hge : 990 ≤ c := hc.ge (by decide +kernel)
  have hle : c ≤ 991 := hc.le (by decide +kernel)
  have hne : c ≠ 991 := by
    rintro rfl
    exact absurd hc.bounds.1 (by decide +kernel)
  obtain rfl : c = 990 := by omega
  exact hsame.2 ⟨by decide +kernel, by decide +kernel⟩ (.integer 512)

/-- The number 0.999 has one as its cents, but ends a price with none. -/
theorem withEnding_below_one :
    (Double.ofRat (999 / 1000)).fixedText 2 false = "1.00" ∧
      withEnding (.float (.ofInt 500)) (.float (.ofRat (999 / 1000)))
        = .ok (.float (.ofInt 500)) ∧
      withEnding (.float (.ofInt 500)) (.text "1.00") = .ok (.float (.ofInt 501)) := by
  decide +kernel

end Function

end Formula
