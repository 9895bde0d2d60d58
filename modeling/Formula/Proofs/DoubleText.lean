/-
# Doubles in expressions

The text of a finite double without a sign is a numeral with a point, whatever form its size gives
it, and the numeral denotes the double: **a double is read back from its text**
(`exists_numeral`).
-/
import Formula.Expr.Ascii
import Formula.Proofs.Numeral
import Formula.Proofs.ShortestDecimal

namespace Formula

/-! ## Digits and zeros -/

/-- Zeros are digits. -/
theorem isDigit_of_mem_zeros {k : Nat} {c : Char} (h : c ∈ List.replicate k '0') :
    c.isDigit = true := by
  rw [List.eq_of_mem_replicate h]
  rfl

/-- Zeros behind a number multiply it. -/
theorem digitsValue_append_zeros (c k : Nat) :
    digitsValue (digits c ++ List.replicate k '0') = c * 10 ^ k := by
  have hzeros : digitsValue (List.replicate k '0') = 0 := by
    rw [digitsValue_eq fun _ => isDigit_of_mem_zeros, Nat.ofDigitChars_replicate_zero, Nat.mul_zero]
  rw [digitsValue_append, digitsValue_digits, hzeros, List.length_replicate, Nat.add_zero]

/-- Zeros in front of a number do not count. -/
theorem digitsValue_zeros_append (c k : Nat) :
    digitsValue (List.replicate k '0' ++ digits c) = c := by
  have hd : ∀ d ∈ List.replicate k '0' ++ digits c, d.isDigit = true := by
    intro d hd
    rcases List.mem_append.1 hd with hd | hd
    · exact isDigit_of_mem_zeros hd
    · exact isDigit_of_mem_digits hd
  have hc : Nat.ofDigitChars 10 (digits c) 0 = c := Nat.ofDigitChars_ten_toDigits
  rw [digitsValue_eq hd, Nat.ofDigitChars_append, Nat.ofDigitChars_replicate_zero, Nat.mul_zero, hc]

namespace Numeral

/-! ## Numerals of decimals -/

/-- Whether a numeral shows a decimal. -/
structure Shows (n : Numeral) (c : Nat) (p : Int) : Prop where
  valid : n.Valid
  value : n.value = Double.ofScientific false c p

/-- A decimal below one, with the digits behind zeros. -/
theorem shows_fraction {c : Nat} {p : Int} {k : Nat}
    (hp : (k : Int) + (digits c).length = -p) :
    Shows ⟨['0'], List.replicate k '0' ++ digits c, none⟩ c p where
  valid := by
    refine ⟨List.cons_ne_nil _ _, ?_, ?_⟩
    · intro h
      exact digits_ne_nil c (List.append_eq_nil_iff.1 h).2
    · intro d hd
      have hd : d ∈ List.replicate (k + 1) '0' ++ digits c := hd
      rcases List.mem_append.1 hd with hd | hd
      · exact isDigit_of_mem_zeros hd
      · exact isDigit_of_mem_digits hd
  value := by
    have hdigits : digitsValue (['0'] ++ (List.replicate k '0' ++ digits c)) = c := by
      rw [← List.append_assoc]
      exact digitsValue_zeros_append c (k + 1)
    rw [Numeral.value, hdigits]
    congr 1
    simp only [Option.getD, List.length_append, List.length_replicate]
    omega

/-- A whole number, with zeros behind the digits. -/
theorem shows_whole {c : Nat} {p : Int} {k : Nat} (hp : c ≠ 0 → p = k) :
    Shows ⟨digits c ++ List.replicate k '0', ['0'], none⟩ c p where
  valid := by
    refine ⟨?_, List.cons_ne_nil _ _, ?_⟩
    · intro h
      exact digits_ne_nil c (List.append_eq_nil_iff.1 h).1
    · intro d hd
      rcases List.mem_append.1 hd with hd | hd
      · rcases List.mem_append.1 hd with hd | hd
        · exact isDigit_of_mem_digits hd
        · exact isDigit_of_mem_zeros hd
      · rw [List.mem_singleton.1 hd]
        rfl
  value := by
    have hzeros : List.replicate k '0' ++ ['0'] = List.replicate (k + 1) '0' :=
      List.replicate_succ'.symm
    rw [Numeral.value, List.append_assoc, hzeros, digitsValue_append_zeros]
    by_cases hc : c = 0
    · subst hc
      rw [Nat.zero_mul, Double.ofScientific_zero, Double.ofScientific_zero]
    · rw [Double.ofScientific_mul_pow hc, hp hc]
      congr 1
      simp only [Option.getD, List.length_singleton]
      omega

/-- A decimal with a point between its digits. -/
theorem shows_split {c : Nat} {p : Int} (ws ps : List Char) (e? : Option Int) (hw : ws ≠ [])
    (hps : ps ≠ []) (hd : ws ++ ps = digits c) (hp : e?.getD 0 = p + ps.length) :
    Shows ⟨ws, ps, e?⟩ c p where
  valid := by
    refine ⟨hw, hps, ?_⟩
    intro d hd'
    rw [hd] at hd'
    exact isDigit_of_mem_digits hd'
  value := by
    rw [Numeral.value, hd, digitsValue_digits, hp, Int.add_sub_cancel]

/-- A lone digit with an exponent, and a zero behind the point. -/
theorem shows_lone {c : Nat} {p : Int} {d : Char} (hd : digits c = [d]) (hc : c ≠ 0) :
    Shows ⟨[d], ['0'], some p⟩ c p where
  valid := by
    refine ⟨List.cons_ne_nil _ _, List.cons_ne_nil _ _, ?_⟩
    intro d' hd'
    rcases List.mem_cons.1 hd' with rfl | hd'
    · exact isDigit_of_mem_digits (n := c) (by rw [hd]; exact List.mem_singleton_self _)
    · rw [List.mem_singleton.1 hd']
      rfl
  value := by
    have hdigits : digitsValue ([d] ++ ['0']) = c * 10 ^ 1 := by
      rw [← hd]
      exact digitsValue_append_zeros c 1
    rw [Numeral.value, hdigits, Double.ofScientific_mul_pow hc]
    congr 1
    simp only [Option.getD, List.length_singleton]
    omega

end Numeral

namespace Double

/-! ## Texts with a point -/

/-- A text with a point before any exponent. -/
def pointed (cs : List Char) : List Char :=
  cs.takeWhile (· != 'e') ++ (if (cs.takeWhile (· != 'e')).contains '.' then [] else ['.', '0'])
    ++ cs.dropWhile (· != 'e')

/-- A text is cut where its exponent starts. -/
theorem pointed_append {ms es : List Char} (hm : ∀ c ∈ ms, c.isDigit = true ∨ c = '.')
    (he : ∀ c ∈ es.head?, c = 'e') :
    pointed (ms ++ es) = ms ++ (if ms.contains '.' then [] else ['.', '0']) ++ es := by
  have hne : ∀ c ∈ ms, (c != 'e') = true := by
    intro c hc
    have hdigit : ∀ c ∈ digitChars, (c != 'e') = true := forall_mem_of_all (by decide)
    rcases hm c hc with h | rfl
    · exact hdigit c (mem_of_isDigit h)
    · rfl
  have htake : (ms ++ es).takeWhile (· != 'e') = ms := by
    rw [List.takeWhile_append_of_pos hne]
    cases es with
    | nil => simp
    | cons c es => simp [he c rfl]
  have hdrop : (ms ++ es).dropWhile (· != 'e') = es := by
    rw [List.dropWhile_append_of_pos hne]
    cases es with
    | nil => rfl
    | cons c es => simp [he c rfl]
  rw [pointed, htake, hdrop]

/-- A numeral has its point already. -/
theorem pointed_text {n : Numeral} (hn : n.Valid) : pointed n.text = n.text := by
  have htext : n.text = (n.whole ++ '.' :: n.places) ++ n.mark := by simp [Numeral.text]
  rw [htext, pointed_append]
  · simp
  · intro c hc
    rcases List.mem_append.1 hc with hc | hc
    · exact Or.inl (hn.isDigit c (List.mem_append_left _ hc))
    · rcases List.mem_cons.1 hc with rfl | hc
      · exact Or.inr rfl
      · exact Or.inl (hn.isDigit c (List.mem_append_right _ hc))
  · exact fun c hc => Numeral.head?_mark hc

/-- **The positional text of a decimal is a numeral that shows it.** -/
theorem exists_shows_positional {c : Nat} {p e : Int}
    (he : e = if c = 0 then 0 else p + (digits c).length - 1) :
    ∃ n : Numeral, n.Shows c p ∧ positional (digits c) e = n.text := by
  unfold positional
  by_cases h₀ : e < 0
  · have hc : c ≠ 0 := by
      rintro rfl
      rw [if_pos rfl] at he
      omega
    rw [if_neg hc] at he
    rw [if_pos h₀]
    refine ⟨_, Numeral.shows_fraction (k := (-e - 1).toNat) (by omega), ?_⟩
    simp [Numeral.text, Numeral.mark]
  · rw [if_neg h₀]
    simp only
    -- the point stands behind all digits, or between two of them
    by_cases hlen : (digits c).length ≤ e.toNat + 1
    · rw [if_pos hlen]
      refine ⟨_, Numeral.shows_whole (k := e.toNat + 1 - (digits c).length) ?_, ?_⟩
      · intro hc
        rw [if_neg hc] at he
        omega
      · simp [Numeral.text, Numeral.mark]
    · rw [if_neg hlen]
      have hc : c ≠ 0 := by
        rintro rfl
        exact hlen (by simp [digits])
      rw [if_neg hc] at he
      refine ⟨_, Numeral.shows_split ((digits c).take (e.toNat + 1))
        ((digits c).drop (e.toNat + 1)) none ?_ ?_ (List.take_append_drop _ _) ?_, ?_⟩
      · simp [digits_ne_nil]
      · simp
        omega
      · simp only [Option.getD, List.length_drop]
        omega
      · simp [Numeral.text, Numeral.mark]

/-- **The scientific text of a decimal is a numeral that shows it**, once it has a point. -/
theorem exists_shows_scientific {c : Nat} {p : Int} (hc : c ≠ 0) :
    ∃ n : Numeral, n.Shows c p ∧
      pointed (scientific (digits c) (p + (digits c).length - 1)) = n.text := by
  obtain ⟨d, ds, hd, hdigit⟩ := exists_digits_eq_cons c
  rw [hd]
  cases ds with
  | nil =>
    refine ⟨_, Numeral.shows_lone hd hc, ?_⟩
    have hmark : ∀ c ∈ (exponentMark p).head?, c = 'e' :=
      fun c hc => (Option.some.inj hc).symm
    have hd' : ∀ c ∈ [d], c.isDigit = true ∨ c = '.' := by
      intro c hc
      rw [List.mem_singleton.1 hc]
      exact Or.inl hdigit
    have hpoint : [d].contains '.' = false := by
      have hne : ∀ c ∈ digitChars, [c].contains '.' = false := forall_mem_of_all (by decide)
      exact hne d (mem_of_isDigit hdigit)
    have hp : p + ([d].length : Nat) - 1 = p := by
      rw [List.length_singleton]
      omega
    rw [scientific, hp, pointed_append hd' hmark, hpoint]
    simp [Numeral.text, Numeral.mark]
  | cons d' ds =>
    have hshows : Numeral.Shows ⟨[d], d' :: ds, some (p + (digits c).length - 1)⟩ c p := by
      refine Numeral.shows_split _ _ _ (List.cons_ne_nil _ _) (List.cons_ne_nil _ _) hd.symm ?_
      rw [hd]
      simp only [Option.getD, List.length_cons]
      omega
    rw [hd] at hshows
    exact ⟨_, hshows, pointed_text hshows.valid⟩

/-- **The text of a decimal is a numeral that shows it**, once it has a point. -/
theorem exists_shows_magnitudeText (c : Nat) (p : Int) :
    ∃ n : Numeral, n.Shows c p ∧ pointed (magnitudeText c p) = n.text := by
  obtain ⟨e, he⟩ : ∃ e : Int, e = if c = 0 then 0 else p + (digits c).length - 1 := ⟨_, rfl⟩
  have htext : magnitudeText c p = if leastPositional ≤ e ∧ e < leastScientific then
      positional (digits c) e else scientific (digits c) e := by
    rw [he]
    rfl
  rw [htext]
  split
  · obtain ⟨n, hn, hpositional⟩ := exists_shows_positional he
    exact ⟨n, hn, by rw [hpositional, pointed_text hn.valid]⟩
  · rename_i hrange
    -- zero has the exponent zero, which is in the positional range
    have hc : c ≠ 0 := by
      rintro rfl
      rw [if_pos rfl] at he
      exact hrange (by rw [he]; decide)
    rw [if_neg hc] at he
    rw [he]
    exact exists_shows_scientific hc

/-- **The text of a double in an expression is a numeral that denotes it**, for finite doubles
without sign. -/
theorem exists_numeral {x : Double} (hx : x.isFinite = true) (hs : x.signBit = false) :
    ∃ n : Numeral, n.Valid ∧ x.literalText = String.ofList n.text ∧ n.value = x := by
  obtain ⟨d, hd⟩ := exists_toDecimal? hx
  have hread := ofScientific_toDecimal? hs hd
  obtain ⟨n, hn, htext⟩ := exists_shows_magnitudeText d.coefficient d.exponent
  refine ⟨n, hn.valid, ?_, hn.value.trans hread⟩
  match x, hx, hs with
  | finite false r hr, _, _ =>
    have hx : (finite false r hr).text.toList = magnitudeText d.coefficient d.exponent := by
      simp only [Double.text, hd]
      simp
    have hl : (finite false r hr).literalText
        = String.ofList (pointed (finite false r hr).text.toList) := rfl
    rw [hl, hx, htext]

/-- The text of a finite double is that of its magnitude, behind a minus sign if there is one. -/
theorem text_finite (s : Bool) (r : Nat) (hr : r < rankLimit) : (finite s r hr).text.toList
    = (if s then ['-'] else []) ++ (finite false r hr).text.toList := by
  obtain ⟨d, hd⟩ := exists_toDecimal? (x := finite false r hr) rfl
  have hsame : (finite true r hr).toDecimal?
      = (finite false r hr).toDecimal?.map fun d => { d with negative := true } := by
    simp only [toDecimal?]
    split
    · rfl
    · split <;> rfl
  cases s with
  | false => simp
  | true => simp [Double.text, hsame, hd]

/-- The text in an expression has a point. -/
theorem literalText_finite (s : Bool) (r : Nat) (hr : r < rankLimit) :
    (finite s r hr).literalText = String.ofList (pointed (finite s r hr).text.toList) := rfl

/-- The text of a double below zero, or of the negative zero, is that of its magnitude behind a
minus sign. -/
theorem literalText_negative (r : Nat) (hr : r < rankLimit) :
    (finite true r hr).literalText = "-" ++ (finite false r hr).literalText := by
  have hsign : ∀ cs, pointed ('-' :: cs) = '-' :: pointed cs := by
    intro cs
    simp [pointed]
  rw [literalText_finite, literalText_finite, text_finite]
  refine String.toList_inj.1 ?_
  simp [hsign]

/-! ## Texts of different doubles -/

/-- The text of a magnitude starts with a digit. -/
theorem head_text (r : Nat) (hr : r < rankLimit) :
    ∃ c cs, (finite false r hr).text.toList = c :: cs ∧ c.isDigit = true := by
  obtain ⟨n, hn, htext, -⟩ := exists_numeral (x := finite false r hr) rfl rfl
  obtain ⟨c, cs, hc, hdigit⟩ := hn.head
  rw [literalText_finite, String.ofList_inj, hc] at htext
  cases hchars : (finite false r hr).text.toList with
  | nil =>
    rw [hchars] at htext
    cases htext
    cases hdigit
  | cons a as =>
    rw [hchars, pointed] at htext
    by_cases ha : a = 'e'
    · subst ha
      cases htext
      cases hdigit
    · rw [List.takeWhile_cons_of_pos (by simpa using ha)] at htext
      obtain ⟨rfl, -⟩ := List.cons.inj htext
      exact ⟨a, as, rfl, hdigit⟩

/-- The characters of a text of a finite double. -/
theorem isNumeralChar_of_mem_text {x : Double} (hx : x.isFinite = true) {c : Char}
    (h : c ∈ x.text.toList) : IsNumeralChar c := by
  cases x with
  | finite s r hr =>
    rw [text_finite, List.mem_append] at h
    rcases h with h | h
    · cases s with
      | false => cases h
      | true =>
        obtain rfl := List.mem_singleton.1 h
        exact .inr (by decide)
    · obtain ⟨n, hn, htext, -⟩ := exists_numeral (x := finite false r hr) rfl rfl
      rw [literalText_finite, String.ofList_inj] at htext
      refine hn.isNumeralChar ?_
      rw [← htext, pointed, List.append_assoc]
      rw [← List.takeWhile_append_dropWhile (p := (· != 'e')) (l := (finite false r hr).text.toList),
        List.mem_append] at h
      exact List.mem_append.2 (h.imp_right (List.mem_append_right _))
  | _ => cases hx

/-- Magnitudes of one text are the same. -/
theorem eq_of_text_eq_finite {r q : Nat} {hr : r < rankLimit} {hq : q < rankLimit}
    (h : (finite false r hr).text.toList = (finite false q hq).text.toList) : r = q := by
  obtain ⟨n, hn, hntext, hnvalue⟩ := exists_numeral (x := finite false r hr) rfl rfl
  obtain ⟨m, hm, hmtext, hmvalue⟩ := exists_numeral (x := finite false q hq) rfl rfl
  have hread := hn.read?_text
  rw [← hntext, literalText_finite, h, ← literalText_finite, hmtext, hm.read?_text, hmvalue,
    hnvalue] at hread
  cases hread
  rfl

/-- Infinities and what is no number have a letter in their texts. -/
theorem mem_text_of_not_finite {x : Double} (hx : x.isFinite = false) : 'n' ∈ x.text.toList := by
  cases x with
  | nan => decide
  | infinity s => cases s <;> decide
  | finite s r hr => cases hx

/-- What has the text of a finite double is finite. -/
theorem isFinite_of_text_eq {x y : Double} (h : x.text = y.text) (hx : x.isFinite = true) :
    y.isFinite = true := by
  cases hy : y.isFinite with
  | true => rfl
  | false =>
    have hletter := isNumeralChar_of_mem_text hx (h ▸ mem_text_of_not_finite hy)
    rcases hletter with h | h <;> exact absurd h (by decide)

/-- **Different doubles have different texts.** -/
theorem text_injective {x y : Double} (h : x.text = y.text) : x = y := by
  cases hx : x.isFinite with
  | true =>
    have hy := isFinite_of_text_eq h hx
    match x, y, hx, hy with
    | finite s r hr, finite t q hq, _, _ =>
      obtain ⟨a, as, ha, hdigit⟩ := head_text r hr
      obtain ⟨b, bs, hb, hdigit'⟩ := head_text q hq
      have hsign : ¬ '-'.isDigit = true := by decide
      have hlist := congrArg String.toList h
      rw [text_finite, text_finite t] at hlist
      -- a minus sign is no digit
      cases s <;> cases t
      · obtain rfl := eq_of_text_eq_finite hlist
        rfl
      · rw [ha] at hlist
        obtain ⟨rfl, -⟩ := List.cons.inj hlist
        exact absurd hdigit hsign
      · rw [hb] at hlist
        obtain ⟨rfl, -⟩ := List.cons.inj hlist
        exact absurd hdigit' hsign
      · obtain rfl := eq_of_text_eq_finite (List.cons.inj hlist).2
        rfl
  | false =>
    cases hy : y.isFinite with
    | true =>
      rw [isFinite_of_text_eq h.symm hy] at hx
      cases hx
    | false =>
      match x, y, hx, hy with
      | nan, nan, _, _ => rfl
      | nan, infinity t, _, _ => cases t <;> exact absurd h (by decide)
      | infinity s, nan, _, _ => cases s <;> exact absurd h (by decide)
      | infinity s, infinity t, _, _ =>
        cases s <;> cases t <;> first | rfl | exact absurd h (by decide)

end Double

end Formula
