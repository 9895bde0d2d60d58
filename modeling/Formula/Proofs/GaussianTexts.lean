/-
# Texts of Gaussian integers

Integers up to `2 ^ 53` are values of doubles, and each is its own approximation. So the text of a
Gaussian integer has its digits, without a zero part and without the digits of an imaginary part of
magnitude one (`text_gaussian`). **It is cut at its sign and read back exactly**
(`reads_gaussian_text`).
-/
import Formula.Proofs.Approximation
import Formula.Proofs.ComplexLiterals

namespace Formula

namespace Double

variable {n : Int} {m : Nat}

/-! ## Doubles of integers -/

/-- Up to `2 ^ 53`, a whole number is a magnitude. -/
theorem exists_magnitude_natCast (hm : m ≤ 2 ^ 53) : ∃ r, r < rankLimit ∧ magnitude r = m := by
  have hrank : nearestRank (2 ^ 53 * 2 ^ 1074) 1 = 1076 * 2 ^ 52 := by
    rw [← pow_add, nearestRank_two_pow (k := 1076) (e := 53 + 1074) (by decide) rfl]
  have hlimit : nearestRank (2 ^ 53 * 2 ^ 1074) 1 < rankLimit := by
    rw [hrank]
    decide
  have hmono := nearestRank_mono (d := 1) (Nat.mul_le_mul_right (2 ^ 1074) hm)
  refine ⟨nearestRank (m * 2 ^ 1074) 1, hmono.trans_lt hlimit, ?_⟩
  have hunits : unitsOfRank (nearestRank (m * 2 ^ 1074) 1) = m * 2 ^ 1074 := by
    by_cases hlt : m < 2 ^ 53
    · exact unitsOfRank_of_small 1074 hlt
    · obtain rfl : m = 2 ^ 53 := by omega
      rw [hrank, unitsOfRank_binade (k := 1076) (e := 53 + 1074) (by decide) rfl, pow_add]
  rw [magnitude, hunits, Nat.cast_mul, mul_div_cancel_right₀ _ (two_pow_pos_rat _).ne']

/-- An integer, by its sign and its magnitude. -/
theorem signed_natAbs (n : Int) : signed (decide (n < 0)) (n.natAbs : Rat) = n := by
  rw [Nat.cast_natAbs, signed]
  by_cases hn : n < 0
  · rw [if_pos (decide_eq_true hn), abs_of_neg hn, Int.cast_neg, neg_neg]
  · rw [if_neg (by simpa using hn), abs_of_nonneg (not_lt.1 hn)]

/-- **Up to `2 ^ 53`, an integer is the value of its double.** -/
theorem toRat?_ofInt_of_le (hn : n.natAbs ≤ 2 ^ 53) : (ofInt n).toRat? = some (n : Rat) := by
  obtain ⟨r, hr, hvalue⟩ := exists_magnitude_natCast hn
  have hfinite := toRat?_finite (decide (n < 0)) r hr
  rw [hvalue, signed_natAbs] at hfinite
  exact toRat?_ofInt hfinite

/-- Up to `2 ^ 53`, the doubles of integers count as equal exactly if the integers are. -/
theorem eqv_ofInt_iff {m : Int} (hn : n.natAbs ≤ 2 ^ 53) {x : Double}
    (hx : x.toRat? = some (m : Rat)) : (ofInt n).eqv x = true ↔ n = m :=
  (eqv_iff_of_toRat? (toRat?_ofInt_of_le hn) hx).trans Int.cast_inj

/-- The opposite of rounded units. -/
theorem neg_ofUnits (s : Bool) (n d : Nat) : (ofUnits s n d).neg = ofUnits (!s) n d := by
  unfold ofUnits
  split <;> rfl

/-- The double of an integer, by its sign and the double of its magnitude. -/
theorem signed_ofRat_natAbs (n : Int) :
    (if decide (n < 0) then -ofRat n.natAbs else ofRat n.natAbs) = ofInt n := by
  have hmagnitude : ofRat n.natAbs = ofUnits false (n.natAbs * 2 ^ 1074) 1 := by
    rw [← Int.cast_natCast, ofRat_intCast, ofInt, Int.natAbs_natCast,
      decide_eq_false (by omega : ¬ (n.natAbs : Int) < 0)]
  by_cases hn : n < 0
  · rw [if_pos (decide_eq_true hn), hmagnitude, ofInt, decide_eq_true hn]
    exact neg_ofUnits _ _ _
  · rw [if_neg (by simpa using hn), hmagnitude, ofInt, decide_eq_false hn]

end Double

namespace Complex

open Double Rational

variable {a b n : Int}

/-! ## Written Gaussian integers -/

/-- The text of an integer. -/
def wholeText (n : Int) : List Char := minusText (decide (n < 0)) ++ digits n.natAbs

/-- The sign of an imaginary part: a plus sign only behind a real part. -/
def imaginarySign (a b : Int) : List Char :=
  if b < 0 then ['-'] else if a = 0 then [] else ['+']

/-- The digits in front of the imaginary unit: none for one. -/
def coefficientText (b : Int) : List Char := if b.natAbs = 1 then [] else digits b.natAbs

/-- **The text of a Gaussian integer.** -/
def gaussianText (a b : Int) : List Char :=
  if b = 0 then wholeText a
  else (if a = 0 then [] else wholeText a) ++ (imaginarySign a b ++ coefficientText b ++ ['i'])

/-- The text of an integer, character by character. -/
theorem intText_eq_ofList (n : Int) : intText n = String.ofList (wholeText n) := by
  unfold intText wholeText
  by_cases hn : n < 0
  · rw [if_pos hn, decide_eq_true hn]
    exact String.ofList_append.symm
  · rw [if_neg hn, decide_eq_false hn]
    rfl

/-- An integer is its own approximation. -/
theorem approximateClosely_ofInt (hn : n.natAbs ≤ 2 ^ 53) :
    approximateClosely (.float (ofInt n)) = .ok n := by
  have hvalue := toRat?_ofInt_of_le hn
  have hfract : Int.fract |(n : Rat)| = 0 := by
    rw [← Int.cast_abs, Int.fract_intCast]
  rw [approximateClosely_float hvalue, show termLimit = 63 + 1 from rfl,
    converge_whole _ (toRat?_abs hvalue) (abs_nonneg _) hfract 63]
  split
  · rename_i hzero
    rw [hzero]
  · show Except.ok (if (n : Rat) < 0 then -|(n : Rat)| else |(n : Rat)|) = _
    split
    · rename_i hneg
      rw [abs_of_neg hneg, neg_neg]
    · rename_i hnonneg
      rw [abs_of_nonneg (not_lt.1 hnonneg)]

/-- The text of a part that is an integer. -/
theorem partText_ofInt (plus : Bool) (hn : n.natAbs ≤ 2 ^ 53) : partText plus (.float (ofInt n))
    = .ok (String.ofList ((if plus && decide (0 ≤ n) then ['+'] else []) ++ wholeText n)) := by
  rw [partText_float plus (isFinite_of_toRat? (toRat?_ofInt_of_le hn)),
    approximateClosely_ofInt hn]
  have hden : (n : Rat).den ≤ largestDenominator := by
    rw [Rat.den_intCast]
    decide
  have htext : ratText n = String.ofList (wholeText n) := by
    rw [ratText, if_pos (Rat.den_intCast n), Rat.num_intCast, intText_eq_ofList]
  have hnonneg : decide ((0 : Rat) ≤ n) = decide (0 ≤ n) := decide_eq_decide.2 Int.cast_nonneg_iff
  show Except.ok (shownPart plus (ofInt n) n) = _
  rw [shownPart, if_pos hden, htext, hnonneg]
  split
  · exact congrArg Except.ok String.ofList_append.symm
  · rfl

/-- An imaginary part with digits, behind a plus sign on request. -/
theorem imaginarySign_append (a : Int) (hb : b.natAbs ≠ 1) :
    (if !decide (a = 0) && decide (0 ≤ b) then ['+'] else []) ++ wholeText b
      = imaginarySign a b ++ coefficientText b := by
  unfold imaginarySign coefficientText wholeText minusText
  rw [if_neg hb]
  by_cases hneg : b < 0
  · have hle : ¬ 0 ≤ b := by omega
    simp [hneg, hle]
  · have hle : 0 ≤ b := by omega
    by_cases ha : a = 0
    · simp [hneg, ha]
    · simp [hneg, hle, ha]

/-- The text of an imaginary one. -/
theorem imaginaryText_one (a : Int) : (if a = 0 then "i" else "+i")
    = String.ofList (imaginarySign a 1 ++ coefficientText 1 ++ ['i']) := by
  have hsign : imaginarySign a 1 = if a = 0 then [] else ['+'] := if_neg (by decide)
  rw [hsign]
  split <;> rfl

/-- The text of an imaginary part with digits. -/
theorem imaginaryText_eq (ha : a.natAbs ≤ 2 ^ 53) (hb : b.natAbs ≤ 2 ^ 53) (hb1 : b.natAbs ≠ 1) :
    partText (!(ofInt a).isZero) (.float (ofInt b))
      = .ok (String.ofList (imaginarySign a b ++ coefficientText b)) := by
  have hplus : (!(ofInt a).isZero) = !decide (a = 0) := by
    congr 1
    rw [Bool.eq_iff_iff, decide_eq_true_iff]
    exact eqv_ofInt_iff ha toRat?_zero
  rw [partText_ofInt _ hb, hplus, imaginarySign_append a hb1]

/-- **What the text of a Gaussian integer is.** -/
theorem text_gaussian (ha : a.natAbs ≤ 2 ^ 53) (hb : b.natAbs ≤ 2 ^ 53) :
    text ⟨ofInt a, ofInt b⟩ = .ok (String.ofList (gaussianText a b)) := by
  have hre : (ofInt a).isZero = true ↔ a = 0 := eqv_ofInt_iff ha toRat?_zero
  have him : (ofInt b).isZero = true ↔ b = 0 := eqv_ofInt_iff hb toRat?_zero
  have hone : (ofInt b).eqv .one = true ↔ b = 1 := eqv_ofInt_iff hb toRat?_one
  have hminus : (ofInt b).eqv (-.one) = true ↔ b = -1 := by
    refine eqv_ofInt_iff hb ?_
    rw [Int.cast_neg]
    exact toRat?_neg toRat?_one
  rw [text, partText_ofInt false ha, ok_bind]
  dsimp only
  simp only [hre, him, hone, hminus]
  have hshown : (if a = 0 then "" else
      String.ofList ((if (false && decide (0 ≤ a)) = true then ['+'] else []) ++ wholeText a))
        = String.ofList (if a = 0 then [] else wholeText a) := by
    split <;> rfl
  rw [hshown, gaussianText]
  split
  · rfl
  rename_i hb0
  rw [String.ofList_append]
  generalize String.ofList (if a = 0 then [] else wholeText a) = shown
  split
  · rename_i hb1
    subst hb1
    rw [imaginaryText_one]
    rfl
  · split
    · rename_i hb1
      subst hb1
      rfl
    · rename_i hb1 hb1'
      have hunit : String.ofList (imaginarySign a b ++ coefficientText b ++ ['i'])
          = String.ofList (imaginarySign a b ++ coefficientText b) ++ "i" := String.ofList_append
      rw [imaginaryText_eq ha hb (by omega), ok_bind, hunit, ← String.append_assoc]
      rfl

/-! ## Reading them back -/

/-- Digits are characters of parts. -/
theorem isPartChar_of_mem_digits {m : Nat} {c : Char} (h : c ∈ digits m) : isPartChar c = true := by
  have hdigit : isAsciiDigit c = true := isAsciiDigit_of_isDigit (isDigit_of_mem_digits h)
  rw [isPartChar, hdigit]
  rfl

/-- The digits of an imaginary part are characters of parts. -/
theorem isPartChar_of_mem_coefficientText {c : Char} (h : c ∈ coefficientText b) :
    isPartChar c = true := by
  unfold coefficientText at h
  split at h
  · cases h
  · exact isPartChar_of_mem_digits h

/-- A text without blanks is read as it stands. -/
theorem compact_ofList {cs : List Char} (h : ∀ c ∈ cs, isBlank c = false) :
    compact (String.ofList cs) = cs := by
  rw [compact, String.toList_ofList, trimBoth_eq_self h, List.filter_eq_self]
  intro c hc
  rw [bne_iff_ne]
  rintro rfl
  exact absurd (h _ hc) (by decide)

/-- The characters of the text of an integer. -/
theorem mem_of_mem_wholeText {c : Char} (h : c ∈ wholeText n) : c ∈ '-' :: digitChars := by
  rcases List.mem_append.1 h with h | h
  · unfold minusText at h
    split at h
    · obtain rfl := List.mem_singleton.1 h
      exact List.mem_cons_self
    · cases h
  · exact List.mem_cons_of_mem _ (mem_of_isDigit (isDigit_of_mem_digits h))

/-- The text of an integer has no blanks, and no imaginary unit. -/
theorem plain_of_mem_wholeText {c : Char} (h : c ∈ wholeText n) : isBlank c = false ∧ c ≠ 'i' := by
  have hall : ∀ c ∈ '-' :: digitChars, isBlank c = false ∧ c ≠ 'i' :=
    forall_mem_of_all (by decide)
  exact hall c (mem_of_mem_wholeText h)

/-- The text of an imaginary part has no blanks. -/
theorem isBlank_of_mem_imaginary {c : Char}
    (h : c ∈ imaginarySign a b ++ coefficientText b ++ ['i']) : isBlank c = false := by
  rcases List.mem_append.1 h with h | h
  · rcases List.mem_append.1 h with h | h
    · unfold imaginarySign at h
      split_ifs at h
      · obtain rfl := List.mem_singleton.1 h
        decide
      · cases h
      · obtain rfl := List.mem_singleton.1 h
        decide
    · exact (plain_of_isPartChar (isPartChar_of_mem_coefficientText h)).2
  · obtain rfl := List.mem_singleton.1 h
    decide

/-- The text of a Gaussian integer has no blanks. -/
theorem isBlank_of_mem_gaussianText {c : Char} (h : c ∈ gaussianText a b) : isBlank c = false := by
  unfold gaussianText at h
  split at h
  · exact (plain_of_mem_wholeText h).1
  · rcases List.mem_append.1 h with h | h
    · split at h
      · cases h
      · exact (plain_of_mem_wholeText h).1
    · exact isBlank_of_mem_imaginary h

/-- The double of an integer up to `2 ^ 53` is finite. -/
theorem isFinite_ofRat_intCast (hn : n.natAbs ≤ 2 ^ 53) : (ofRat n).isFinite = true := by
  rw [ofRat_intCast]
  exact isFinite_of_toRat? (toRat?_ofInt_of_le hn)

/-- **The text of an integer is read as that integer.** -/
theorem readPart_wholeText (hn : n.natAbs ≤ 2 ^ 53) : readPart (wholeText n) = .ok (ofInt n) := by
  have hvalue : signed (decide (n < 0)) (digitsValue (digits n.natAbs)) = n := by
    rw [digitsValue_digits, signed_natAbs]
  have hfinite := isFinite_ofRat_intCast hn
  rw [← hvalue] at hfinite
  rw [wholeText, readPart_digits _ (isDigits_digits _) hfinite, hvalue, ofRat_intCast]

/-- Its digits are read as its magnitude. -/
theorem readPart_natAbs (hn : n.natAbs ≤ 2 ^ 53) :
    readPart (digits n.natAbs) = .ok (ofRat n.natAbs) := by
  have hwhole := readPart_wholeText (n := (n.natAbs : Int)) (by rwa [Int.natAbs_natCast])
  have hnonneg : ¬ (n.natAbs : Int) < 0 := by omega
  rw [wholeText, decide_eq_false hnonneg, Int.natAbs_natCast, ← ofRat_intCast,
    Int.cast_natCast] at hwhole
  exact hwhole

/-- The digits of an imaginary part are read as its magnitude. -/
theorem readPart_coefficientText (hn : n.natAbs ≤ 2 ^ 53) :
    readPart (if (coefficientText n).isEmpty then ['1'] else coefficientText n)
      = .ok (ofRat n.natAbs) := by
  rw [← readPart_natAbs hn]
  apply congrArg readPart
  unfold coefficientText
  split
  · rename_i hone
    rw [hone]
    decide
  · rw [if_neg]
    simpa using digits_ne_nil n.natAbs

/-- The sign of an imaginary part. -/
theorem sign_imaginarySign (b : Int) : Sign (imaginarySign 0 b) (decide (b < 0)) := by
  unfold imaginarySign
  by_cases hb : b < 0
  · rw [if_pos hb, decide_eq_true hb]
    exact .minus
  · rw [if_neg hb, decide_eq_false hb, if_pos rfl]
    exact .none

/-- How the text of a Gaussian integer is cut. -/
theorem cuts_gaussianText (hb : b ≠ 0) : Cuts (gaussianText a b)
    ⟨decide (a < 0), if a = 0 then ['0'] else digits a.natAbs, decide (b < 0),
      coefficientText b⟩ := by
  rw [gaussianText, if_neg hb]
  by_cases ha : a = 0
  · subst ha
    have hcuts := Cuts.alone (sign_imaginarySign b)
      fun c hc => isPartChar_of_mem_coefficientText (b := b) hc
    simpa using hcuts
  · have hsign : ∃ c, imaginarySign a b = [c] ∧ isSign c = true ∧ (c == '-') = decide (b < 0) := by
      unfold imaginarySign
      by_cases hneg : b < 0
      · exact ⟨'-', by rw [if_pos hneg], rfl, by rw [decide_eq_true hneg]; rfl⟩
      · exact ⟨'+', by rw [if_neg hneg, if_neg ha], rfl, by rw [decide_eq_false hneg]; rfl⟩
    obtain ⟨c, hc, hsign, hminus⟩ := hsign
    have hcuts := Cuts.both (sign_minusText (decide (a < 0)))
      (fun _ => isPartChar_of_mem_digits) (digits_ne_nil a.natAbs) hsign
      (fun _ => isPartChar_of_mem_coefficientText (b := b))
    rw [hminus] at hcuts
    rw [if_neg ha, if_neg ha, hc, wholeText]
    simpa using hcuts

/-- The text of an integer is not cut. -/
theorem ofText?_wholeText (n : Int) : Parts.ofText? (wholeText n) = none := by
  rw [Option.eq_none_iff_forall_ne_some]
  intro p hp
  obtain ⟨s, m, inner, -, hsplit, -⟩ := exists_inner hp
  have hunit : 'i' ∈ wholeText n := by
    rw [hsplit]
    simp
  exact (plain_of_mem_wholeText hunit).2 rfl

/-- The digits of a real part are read as its magnitude. -/
theorem readPart_realText (ha : a.natAbs ≤ 2 ^ 53) :
    readPart (if a = 0 then ['0'] else digits a.natAbs) = .ok (ofRat a.natAbs) := by
  rw [← readPart_natAbs ha]
  apply congrArg readPart
  split
  · rename_i hzero
    rw [hzero]
    decide
  · rfl

/-- **The text of a Gaussian integer is read back.** -/
theorem read_gaussianText (ha : a.natAbs ≤ 2 ^ 53) (hb : b.natAbs ≤ 2 ^ 53) :
    read (String.ofList (gaussianText a b)) = .ok ⟨ofInt a, ofInt b⟩ := by
  have hcompact := compact_ofList fun c => isBlank_of_mem_gaussianText (a := a) (b := b) (c := c)
  by_cases hb0 : b = 0
  · subst hb0
    have htext : gaussianText a 0 = wholeText a := if_pos rfl
    have hnone : Parts.ofText? (compact (String.ofList (gaussianText a 0))) = none := by
      rw [hcompact, htext, ofText?_wholeText]
    have hzero : ofInt 0 = .zero := by decide +kernel
    rw [read_of_none hnone, hcompact, htext, readPart_wholeText ha, hzero]
    rfl
  · have hsome := Parts.ofText?_eq_some_iff.2 (cuts_gaussianText (a := a) hb0)
    rw [← hcompact] at hsome
    rw [read_of_some hsome]
    dsimp only
    rw [readPart_realText ha, readPart_coefficientText hb]
    show Except.ok (⟨if decide (a < 0) then -ofRat a.natAbs else ofRat a.natAbs,
      if decide (b < 0) then -ofRat b.natAbs else ofRat b.natAbs⟩ : Complex) = _
    rw [signed_ofRat_natAbs, signed_ofRat_natAbs]

/-- **Gaussian integers survive being written and read**: with parts up to `2 ^ 53`, which are
values of doubles, the text of a Gaussian integer is read back as exactly that number. -/
theorem reads_gaussian_text (ha : a.natAbs ≤ 2 ^ 53) (hb : b.natAbs ≤ 2 ^ 53) :
    ((ofInt a).toRat? = some (a : Rat) ∧ (ofInt b).toRat? = some (b : Rat)) ∧
      ∃ t, text ⟨ofInt a, ofInt b⟩ = .ok t ∧ read t = .ok ⟨ofInt a, ofInt b⟩ :=
  ⟨⟨toRat?_ofInt_of_le ha, toRat?_ofInt_of_le hb⟩, _, text_gaussian ha hb, read_gaussianText ha hb⟩

/-- The theorem for the largest real part and a negative imaginary unit. -/
theorem reads_gaussian_text_largest :
    ((2 ^ 53 : Int).natAbs ≤ 2 ^ 53 ∧ (-1 : Int).natAbs ≤ 2 ^ 53) ∧
      ∃ t, text ⟨ofInt (2 ^ 53), ofInt (-1)⟩ = .ok t ∧
        read t = .ok ⟨ofInt (2 ^ 53), ofInt (-1)⟩ := by
  have hre : (2 ^ 53 : Int).natAbs ≤ 2 ^ 53 := by decide
  have him : (-1 : Int).natAbs ≤ 2 ^ 53 := by decide
  exact ⟨⟨hre, him⟩, (reads_gaussian_text hre him).2⟩

end Complex

end Formula
