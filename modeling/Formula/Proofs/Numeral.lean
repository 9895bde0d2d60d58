/-
# Numerals with a point

A numeral has digits before and behind its point and may have an exponent. It is read as the
decimal that it shows (`numeralValue_text`), and a lexer finds it as a whole where it does not run
on (`realLength_text`).
-/
import Formula.Grammar
import Formula.Pattern
import Formula.Double.Text
import Formula.Proofs.Digits

namespace Formula

/-! ## Characters of numerals -/

/-- What holds of every character of a list. -/
theorem forall_mem_of_all {p : Char → Prop} [DecidablePred p] {cs : List Char}
    (h : cs.all (fun c => decide (p c)) = true) : ∀ c ∈ cs, p c :=
  fun c hc => of_decide_eq_true (List.all_eq_true.1 h c hc)

/-- The ASCII digits. -/
def digitChars : List Char := ['0', '1', '2', '3', '4', '5', '6', '7', '8', '9']

/-- There are no other ASCII digits. -/
theorem mem_of_isDigit {c : Char} (h : c.isDigit = true) :
    c ∈ digitChars := by
  have hc : 48 ≤ c.toNat ∧ c.toNat ≤ 57 := Char.isDigit_iff_toNat.1 h
  have hmem : ∀ n < 58, 48 ≤ n → Char.ofNat n ∈ digitChars := by decide
  rw [← Char.ofNat_toNat c]
  exact hmem c.toNat (by omega) hc.1

/-- Both classes of ASCII digits are one. -/
theorem isAsciiDigit_of_isDigit {c : Char} (h : c.isDigit = true) : isAsciiDigit c = true := by
  -- the list is tried, and not all characters
  have hdigit : ∀ c ∈ digitChars, isAsciiDigit c = true := forall_mem_of_all (by decide)
  exact hdigit c (mem_of_isDigit h)

/-- Whether a character may occur in a numeral. -/
def IsNumeralChar (c : Char) : Prop := c.isDigit = true ∨ c ∈ ['.', 'e', '+', '-']

/-- The characters of numerals are plain: no preparation for reading changes them. -/
theorem IsNumeralChar.plain {c : Char} (h : IsNumeralChar c) :
    c ≠ ',' ∧ c ≠ '_' ∧ asciiDigit c = c ∧ isNumeralBlank c = false := by
  have hdigit : ∀ c ∈ digitChars,
      c ≠ ',' ∧ c ≠ '_' ∧ asciiDigit c = c ∧ isNumeralBlank c = false :=
    forall_mem_of_all (by decide)
  have hmark : ∀ c ∈ ['.', 'e', '+', '-'],
      c ≠ ',' ∧ c ≠ '_' ∧ asciiDigit c = c ∧ isNumeralBlank c = false :=
    forall_mem_of_all (by decide)
  rcases h with h | h
  · exact hdigit c (mem_of_isDigit h)
  · exact hmark c h

/-! ## Rows of characters -/

/-- Characters that all stay as they are. -/
theorem map_eq_self {f : Char → Char} {cs : List Char} (h : ∀ c ∈ cs, f c = c) :
    cs.map f = cs := by
  conv => rhs; rw [← List.map_id cs]
  exact List.map_congr_left h

/-- Nothing is trimmed where nothing can be. -/
theorem trimBoth_eq_self {p : Char → Bool} {cs : List Char} (h : ∀ c ∈ cs, p c = false) :
    trimBoth p cs = cs := by
  have hdrop : ∀ ds : List Char, (∀ c ∈ ds, p c = false) → ds.dropWhile p = ds := by
    intro ds hd
    cases ds with
    | nil => rfl
    | cons d ds => rw [List.dropWhile_cons_of_neg (by simp [hd d])]
  rw [trimBoth, hdrop cs h, hdrop _ fun c hc => h c (List.mem_reverse.1 hc), List.reverse_reverse]

/-- Without underscores, nothing is joined. -/
theorem joinDigits?_eq_some {cs : List Char} : (∀ c ∈ cs, c ≠ '_') →
    ∀ previous, joinDigits? previous cs = some cs := by
  induction cs with
  | nil => exact fun _ _ => rfl
  | cons c cs ih =>
    intro h previous
    have hc := h c List.mem_cons_self
    rw [joinDigits?, ih fun d hd => h d (List.mem_cons_of_mem c hd)]
    · rfl
    · exact fun hu => absurd hu hc

/-- The characters of numerals are read as they stand. -/
theorem joinDigits?_trimBoth {cs : List Char} (h : ∀ c ∈ cs, IsNumeralChar c) :
    joinDigits? none (trimBoth isNumeralBlank cs) = some cs := by
  rw [trimBoth_eq_self fun c hc => (h c hc).plain.2.2.2]
  exact joinDigits?_eq_some (fun c hc => (h c hc).plain.2.1) none

/-- A row of ASCII digits is taken as a whole, up to what is no digit. -/
theorem takeWhile_isAsciiDigit {ds cs : List Char} (hd : ∀ c ∈ ds, c.isDigit = true)
    (hc : ∀ c ∈ cs.head?, isAsciiDigit c = false) :
    (ds ++ cs).takeWhile isAsciiDigit = ds ∧ (ds ++ cs).dropWhile isAsciiDigit = cs := by
  have hall : ∀ c ∈ ds, isAsciiDigit c = true := fun c hc => isAsciiDigit_of_isDigit (hd c hc)
  rw [List.takeWhile_append_of_pos hall, List.dropWhile_append_of_pos hall]
  cases cs with
  | nil => simp
  | cons c cs =>
    have hc := hc c rfl
    simp [hc]

/-- A row of digits in a text is as long as it is, up to what is no digit. -/
theorem run_isDecimalDigit {ds cs : List Char} (hd : ∀ c ∈ ds, c.isDigit = true)
    (hc : ∀ c ∈ cs.head?, isDecimalDigit c = false) :
    Pattern.run isDecimalDigit (ds ++ cs) = ds.length := by
  have hall : ∀ c ∈ ds, isDecimalDigit c = true := fun c hc => isDecimalDigit_of_isDigit (hd c hc)
  rw [Pattern.run, List.takeWhile_append_of_pos hall]
  cases cs with
  | nil => simp
  | cons c cs =>
    have hc := hc c rfl
    simp [hc]

/-! ## Numerals -/

/-- A numeral with a point: the digits before and behind it, and an exponent, if any. -/
structure Numeral where
  whole : List Char
  places : List Char
  exponent? : Option Int

namespace Numeral

/-- Whether the rows of a numeral are digits, and there are some. -/
structure Valid (n : Numeral) : Prop where
  whole_ne_nil : n.whole ≠ []
  places_ne_nil : n.places ≠ []
  isDigit : ∀ c ∈ n.whole ++ n.places, c.isDigit = true

/-- The text of the exponent. -/
def mark (n : Numeral) : List Char := n.exponent?.elim [] exponentMark

/-- **The text of a numeral.** -/
def text (n : Numeral) : List Char := n.whole ++ '.' :: (n.places ++ n.mark)

/-- **The double that a numeral denotes.** -/
def value (n : Numeral) : Double :=
  Double.ofScientific false (digitsValue (n.whole ++ n.places))
    (n.exponent?.getD 0 - n.places.length)

variable {n : Numeral}

/-- Padded digits are digits. -/
theorem isDigit_of_mem_paddedDigits {width k : Nat} {c : Char} (h : c ∈ paddedDigits width k) :
    c.isDigit = true := by
  rcases List.mem_append.1 h with h | h
  · rw [List.eq_of_mem_replicate h]
    rfl
  · exact isDigit_of_mem_digits h

/-- Zeros in front do not count. -/
theorem digitsValue_paddedDigits (width k : Nat) : digitsValue (paddedDigits width k) = k := by
  rw [digitsValue_eq fun c hc => isDigit_of_mem_paddedDigits hc, paddedDigits,
    Nat.ofDigitChars_append, Nat.ofDigitChars_replicate_zero, Nat.mul_zero]
  exact Nat.ofDigitChars_ten_toDigits

/-- There are padded digits. -/
theorem paddedDigits_ne_nil (width k : Nat) : paddedDigits width k ≠ [] := by
  intro h
  exact digits_ne_nil k (List.append_eq_nil_iff.1 h).2

/-- A row of digits is read as its value. -/
theorem readDigits?_paddedDigits (width k : Nat) :
    readDigits? (paddedDigits width k) = some k := by
  have hall : (paddedDigits width k).all isAsciiDigit = true := by
    rw [List.all_eq_true]
    exact fun c hc => isAsciiDigit_of_isDigit (isDigit_of_mem_paddedDigits hc)
  rw [readDigits?, if_pos ⟨paddedDigits_ne_nil width k, hall⟩, digitsValue_paddedDigits]

/-- **An exponent is read back.** -/
theorem readExponent?_mark (n : Numeral) : readExponent? n.mark = some (n.exponent?.getD 0) := by
  unfold mark
  cases n.exponent? with
  | none => rfl
  | some e =>
    simp only [Option.elim, Option.getD, exponentMark]
    by_cases he : e < 0
    · have habs : -(e.natAbs : Int) = e := by omega
      rw [if_pos he, readExponent?, readDigits?_paddedDigits]
      exact congrArg some habs
    · have habs : (e.natAbs : Int) = e := by omega
      rw [if_neg he, readExponent?, readDigits?_paddedDigits]
      exact congrArg some habs

/-- The exponent of a numeral starts with its letter. -/
theorem head?_mark {c : Char} (h : n.mark.head? = some c) : c = 'e' := by
  unfold mark at h
  cases he : n.exponent? with
  | none =>
    rw [he] at h
    cases h
  | some e =>
    rw [he] at h
    exact (Option.some.inj h).symm

/-- The characters of an exponent. -/
theorem isNumeralChar_of_mem_mark {c : Char} (h : c ∈ n.mark) : IsNumeralChar c := by
  unfold mark at h
  cases he : n.exponent? with
  | none =>
    rw [he] at h
    cases h
  | some e =>
    rw [he] at h
    rcases List.mem_cons.1 h with rfl | h
    · exact Or.inr (by decide)
    · rcases List.mem_cons.1 h with rfl | h
      · refine Or.inr ?_
        split <;> decide
      · exact Or.inl (isDigit_of_mem_paddedDigits h)

/-- The characters of a numeral. -/
theorem Valid.isNumeralChar (hn : n.Valid) {c : Char} (h : c ∈ n.text) : IsNumeralChar c := by
  rcases List.mem_append.1 h with h | h
  · exact Or.inl (hn.isDigit c (List.mem_append_left _ h))
  · rcases List.mem_cons.1 h with rfl | h
    · exact Or.inr (by decide)
    · rcases List.mem_append.1 h with h | h
      · exact Or.inl (hn.isDigit c (List.mem_append_right _ h))
      · exact isNumeralChar_of_mem_mark h

/-- A numeral starts with a digit. -/
theorem Valid.head (hn : n.Valid) : ∃ c cs, n.text = c :: cs ∧ c.isDigit = true := by
  obtain ⟨c, cs, hc⟩ := List.exists_cons_of_ne_nil hn.whole_ne_nil
  refine ⟨c, _, by rw [text, hc, List.cons_append], hn.isDigit c ?_⟩
  rw [hc]
  exact List.mem_cons_self

/-! ## Reading numerals -/

/-- **The magnitude of a numeral is read back.** -/
theorem Valid.readMagnitude?_text (hn : n.Valid) : readMagnitude? n.text
    = some (digitsValue (n.whole ++ n.places), n.exponent?.getD 0 - n.places.length) := by
  obtain ⟨hw, hw'⟩ : (n.whole ++ '.' :: (n.places ++ n.mark)).takeWhile isAsciiDigit = n.whole ∧
      (n.whole ++ '.' :: (n.places ++ n.mark)).dropWhile isAsciiDigit
        = '.' :: (n.places ++ n.mark) :=
    takeWhile_isAsciiDigit (fun c hc => hn.isDigit c (List.mem_append_left _ hc)) fun c hc => by
      cases hc
      decide
  obtain ⟨hp, hp'⟩ : (n.places ++ n.mark).takeWhile isAsciiDigit = n.places ∧
      (n.places ++ n.mark).dropWhile isAsciiDigit = n.mark :=
    takeWhile_isAsciiDigit (fun c hc => hn.isDigit c (List.mem_append_right _ hc)) fun c hc => by
      rw [head?_mark hc]
      decide
  rw [text, readMagnitude?, hw, hw']
  simp only [hp, hp', hn.whole_ne_nil, false_and, if_false, readExponent?_mark, Option.map_some]

/-- A numeral is no name. -/
theorem Valid.isNamed (hn : n.Valid) {names : List String}
    (hnames : ∀ w ∈ names, (w.toList.head?.all fun c => !c.isDigit) = true) :
    isNamed names n.text = false := by
  obtain ⟨c, cs, hc, hd⟩ := hn.head
  have hlower : ∀ c ∈ digitChars, c.toLower = c := forall_mem_of_all (by decide)
  rw [Formula.isNamed, hc, List.map_cons, hlower c (mem_of_isDigit hd)]
  rw [← Bool.not_eq_true, List.contains_iff_mem]
  intro h
  have hfirst := hnames _ h
  rw [String.toList_ofList, List.head?_cons, Option.all_some, hd] at hfirst
  cases hfirst

/-- An unsigned numeral is read with either sign. -/
theorem Valid.readUnsigned?_text (hn : n.Valid) (negative : Bool) :
    Double.readUnsigned? negative n.text = some (Double.ofScientific negative
      (digitsValue (n.whole ++ n.places)) (n.exponent?.getD 0 - n.places.length)) := by
  rw [Double.readUnsigned?, hn.isNamed (by decide), hn.isNamed (by decide),
    hn.readMagnitude?_text]
  rfl

/-- **A numeral is read back.** -/
theorem Valid.read?_text (hn : n.Valid) :
    Double.read? (String.ofList n.text) = some n.value := by
  obtain ⟨c, cs, hc, hd⟩ := hn.head
  -- a numeral starts with a digit, so no sign is taken off
  have hsign : ∀ c ∈ digitChars, c ≠ '-' ∧ c ≠ '+' := forall_mem_of_all (by decide)
  obtain ⟨hminus, hplus⟩ := hsign c (mem_of_isDigit hd)
  have hascii : n.text.map asciiDigit = n.text :=
    map_eq_self fun c hc => (hn.isNumeralChar hc).plain.2.2.1
  rw [Double.read?, String.toList_ofList, hascii, joinDigits?_trimBoth fun c => hn.isNumeralChar]
  split
  · rename_i h
    rw [hc] at h
    exact absurd (List.cons.inj (Option.some.inj h)).1 hminus
  · rename_i h
    rw [hc] at h
    exact absurd (List.cons.inj (Option.some.inj h)).1 hplus
  · rename_i h
    rw [← Option.some.inj h, hn.readUnsigned?_text]
    rfl
  · rename_i h
    cases h

/-- A numeral behind a minus sign is read back with this sign. -/
theorem Valid.read?_minus_text (hn : n.Valid) : Double.read? (String.ofList ('-' :: n.text))
    = some (Double.ofScientific true (digitsValue (n.whole ++ n.places))
      (n.exponent?.getD 0 - n.places.length)) := by
  have hchars : ∀ c ∈ '-' :: n.text, IsNumeralChar c := by
    intro c hc
    rcases List.mem_cons.1 hc with rfl | hc
    · exact .inr (by decide)
    · exact hn.isNumeralChar hc
  have hascii : ('-' :: n.text).map asciiDigit = '-' :: n.text :=
    map_eq_self fun c hc => (hchars c hc).plain.2.2.1
  rw [Double.read?, String.toList_ofList, hascii, joinDigits?_trimBoth hchars]
  exact hn.readUnsigned?_text true

/-- **The value of a numeral in an expression is the double that it denotes.** -/
theorem Valid.numeralValue_text (hn : n.Valid) :
    Grammar.numeralValue (String.ofList n.text) = n.value := by
  have hpoint : n.text.map (fun c => if c = ',' then '.' else c) = n.text :=
    map_eq_self fun c hc => if_neg (hn.isNumeralChar hc).plain.1
  rw [Grammar.numeralValue, String.toList_ofList, hpoint, hn.read?_text]
  rfl

/-! ## Finding numerals -/

/-- The exponent of a numeral is found as a whole. -/
theorem exponentLength_mark {cs : List Char}
    (hcs : ∀ c ∈ cs.head?, isDecimalDigit c = false ∧ c ≠ 'e') :
    Pattern.exponentLength (n.mark ++ cs) = n.mark.length := by
  unfold mark
  cases n.exponent? with
  | none =>
    cases cs with
    | nil => rfl
    | cons c cs =>
      have hc := (hcs c rfl).2
      simp [Pattern.exponentLength, hc]
  | some e =>
    have hrun : Pattern.run isDecimalDigit (paddedDigits 2 e.natAbs ++ cs)
        = (paddedDigits 2 e.natAbs).length := run_isDecimalDigit
      (fun c hc => isDigit_of_mem_paddedDigits hc) fun c hc => (hcs c hc).1
    have hlen : (paddedDigits 2 e.natAbs).length ≠ 0 := by
      simpa using paddedDigits_ne_nil 2 e.natAbs
    by_cases he : e < 0
    · simp [exponentMark, he, Pattern.exponentLength, hrun, hlen]
      omega
    · simp [exponentMark, he, Pattern.exponentLength, hrun, hlen]
      omega

/-- **A numeral is found as a whole**, where it does not run on. -/
theorem Valid.realLength_text (hn : n.Valid) {cs : List Char}
    (hcs : ∀ c ∈ cs.head?, isDecimalDigit c = false ∧ c ≠ 'e') :
    Pattern.realLength (n.text ++ cs) = n.text.length := by
  have hw : Pattern.run isDecimalDigit (n.whole ++ '.' :: (n.places ++ (n.mark ++ cs)))
      = n.whole.length :=
    run_isDecimalDigit (fun c hc => hn.isDigit c (List.mem_append_left _ hc)) fun c hc => by
      cases hc
      decide
  have hp : Pattern.run isDecimalDigit (n.places ++ (n.mark ++ cs)) = n.places.length := by
    refine run_isDecimalDigit (fun c hc => hn.isDigit c (List.mem_append_right _ hc)) ?_
    intro c hc
    -- behind the places stands the exponent, or what follows the numeral
    cases hm : n.mark with
    | nil =>
      rw [hm] at hc
      exact (hcs c hc).1
    | cons d ds =>
      rw [hm] at hc
      have he : c = 'e' := head?_mark (n := n) (by rw [hm]; exact hc)
      rw [he]
      decide
  have htext : n.text ++ cs = n.whole ++ '.' :: (n.places ++ (n.mark ++ cs)) := by
    simp [text]
  rw [htext, Pattern.realLength, hw]
  simp only [List.drop_left, hp, exponentLength_mark hcs, text, List.length_append,
    List.length_cons]
  rw [if_neg (by simp [hn.whole_ne_nil, hn.places_ne_nil])]
  omega

end Numeral

end Formula
