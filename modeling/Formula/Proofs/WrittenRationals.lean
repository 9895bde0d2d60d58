/-
# Written rationals

A rational is written as a whole number or as a quotient of a whole number and a row of digits, with
blanks around the numerals (`Rational.Writes`). **Exactly these texts are read as rationals, unless
the denominator is zero**, and the text of a rational is one of them, so that a printed result can
be bound to a variable again (`Rational.reads_written`).
-/
import Formula.CommandLine.Run
import Formula.Proofs.Numeral
import Formula.Proofs.Trimming
import Mathlib.Data.List.Basic
import Mathlib.Data.List.TakeWhile
import Mathlib.Algebra.Order.Field.Rat
import Mathlib.Tactic.NormNum

namespace Formula

namespace Rational

/-! ## Numerals -/

/-- Whether a text is a row of decimal digits of any script. -/
def IsDigits (ds : List Char) : Prop := ds ≠ [] ∧ ∀ c ∈ ds, isDecimalDigit c = true

/-- Whether a text is a row of blanks, which may be empty. -/
def IsGap (b : List Char) : Prop := ∀ c ∈ b, isBlank c = true

instance (ds : List Char) : Decidable (IsDigits ds) :=
  decidable_of_iff (ds ≠ [] ∧ ds.all isDecimalDigit = true) (and_congr_right' List.all_eq_true)

instance (b : List Char) : Decidable (IsGap b) :=
  decidable_of_iff (b.all isBlank = true) List.all_eq_true

/-- Whether a text is the numeral of a whole number: digits behind an optional minus sign. -/
inductive IsWhole : List Char → Int → Prop where
  | unsigned {ds : List Char} (h : IsDigits ds) : IsWhole ds (digitsValue ds)
  | negative {ds : List Char} (h : IsDigits ds) : IsWhole ('-' :: ds) (-(digitsValue ds : Int))

/-- **How a rational is written**: a numerator, and maybe a slash and a denominator, with blanks
around both. -/
inductive Writes : List Char → Int → Nat → Prop where
  | whole {b cs b' : List Char} {n : Int} (hb : IsGap b) (hn : IsWhole cs n) (hb' : IsGap b') :
    Writes (b ++ cs ++ b') n 1
  | quotient {b cs b₁ b₂ ds b' : List Char} {n : Int} (hb : IsGap b) (hn : IsWhole cs n)
    (hb₁ : IsGap b₁) (hb₂ : IsGap b₂) (hd : IsDigits ds) (hb' : IsGap b') :
    Writes (b ++ (cs ++ b₁ ++ '/' :: (b₂ ++ ds)) ++ b') n (digitsValue ds)

variable {b cs ds : List Char} {n : Int} {d : Nat}

/-- Rows of blanks add up. -/
theorem IsGap.append {b' : List Char} (hb : IsGap b) (hb' : IsGap b') : IsGap (b ++ b') :=
  fun c hc => (List.mem_append.1 hc).elim (hb c) (hb' c)

/-- A blank is no slash. -/
theorem IsGap.ne_slash (hb : IsGap b) : ∀ c ∈ b, (c != '/') = true := by
  intro c hc
  rw [bne_iff_ne]
  rintro rfl
  exact absurd (hb _ hc) (by decide)

/-- A digit is no slash and no minus sign. -/
theorem ne_of_isDecimalDigit {c : Char} (h : isDecimalDigit c = true) : c ≠ '/' ∧ c ≠ '-' := by
  constructor
  · rintro rfl
    exact absurd h (by decide)
  · rintro rfl
    exact absurd h (by decide)

/-- No digit at the end of a row is a blank. -/
theorem IsDigits.getLast? (h : IsDigits ds) : ∀ c ∈ ds.getLast?, isBlank c = false := by
  intro c hc
  exact isBlank_of_isDecimalDigit (h.2 c (List.mem_of_getLast? hc))

/-- A row of digits starts with no blank. -/
theorem IsDigits.head? (h : IsDigits ds) : ∀ c ∈ ds.head?, isBlank c = false := by
  intro c hc
  exact isBlank_of_isDecimalDigit (h.2 c (List.mem_of_mem_head? hc))

/-- The characters of a whole number are digits and minus signs. -/
theorem IsWhole.forall_mem (h : IsWhole cs n) :
    ∀ c ∈ cs, isDecimalDigit c = true ∨ c = '-' := by
  cases h with
  | unsigned hd => exact fun c hc => .inl (hd.2 c hc)
  | negative hd =>
    intro c hc
    rcases List.mem_cons.1 hc with rfl | hc
    · right
      rfl
    · left
      exact hd.2 c hc

/-- A whole number has no blank and no slash. -/
theorem IsWhole.plain (h : IsWhole cs n) : ∀ c ∈ cs, isBlank c = false ∧ (c != '/') = true := by
  intro c hc
  rcases h.forall_mem c hc with hdigit | rfl
  · exact ⟨isBlank_of_isDecimalDigit hdigit, bne_iff_ne.2 (ne_of_isDecimalDigit hdigit).1⟩
  · decide

/-- A whole number has a character. -/
theorem IsWhole.ne_nil (h : IsWhole cs n) : cs ≠ [] := by
  cases h with
  | unsigned hd => exact hd.1
  | negative hd => exact List.cons_ne_nil _ _

/-! ## Reading numerals -/

/-- **A natural number is read** from exactly the rows of digits. -/
theorem readNatural?_eq_some_iff : readNatural? cs = some d ↔ IsDigits cs ∧ d = digitsValue cs := by
  unfold readNatural? IsDigits
  rw [← List.all_eq_true]
  cases cs with
  | nil => simp
  | cons c cs =>
    by_cases h : (c :: cs).all isDecimalDigit = true
    · simp [h, eq_comm]
    · simp [h]

/-- **An integer is read** from exactly the whole numbers. -/
theorem readInteger?_eq_some_iff : readInteger? cs = some n ↔ IsWhole cs n := by
  constructor
  · intro h
    unfold readInteger? at h
    split at h
    · rename_i ds
      obtain ⟨k, hk, rfl⟩ := Option.map_eq_some_iff.1 h
      obtain ⟨m, hm, hcast⟩ := Option.bind_eq_some_iff.1 hk
      obtain rfl := Option.some.inj hcast
      obtain ⟨hd, rfl⟩ := readNatural?_eq_some_iff.1 hm
      exact .negative hd
    · obtain ⟨k, hk, rfl⟩ := Option.map_eq_some_iff.1 h
      obtain ⟨m, hm, hcast⟩ := Option.bind_eq_some_iff.1 hk
      obtain rfl := Option.some.inj hcast
      obtain ⟨hd, rfl⟩ := readNatural?_eq_some_iff.1 hm
      exact .unsigned hd
  · intro h
    cases h with
    | negative hd =>
      rw [readInteger?, readNatural?_eq_some_iff.2 ⟨hd, rfl⟩]
      rfl
    | unsigned hd =>
      rw [readInteger?, readNatural?_eq_some_iff.2 ⟨hd, rfl⟩]
      · rfl
      · rintro rest rfl
        exact absurd (hd.2 '-' List.mem_cons_self) (by decide)

/-! ## Reading quotients -/

/-- A text is cut at its first slash. -/
theorem cut_at_slash {ns : List Char} (ms : List Char) (hns : ∀ c ∈ ns, (c != '/') = true) :
    (ns ++ '/' :: ms).takeWhile (· != '/') = ns ∧
      (ns ++ '/' :: ms).dropWhile (· != '/') = '/' :: ms := by
  rw [List.takeWhile_append_of_pos hns, List.dropWhile_append_of_pos hns]
  simp

/-- What is read without outer blanks is written. -/
theorem writes_of_readQuotient? (h : readQuotient? (trimBoth isBlank cs) = some (n, d)) :
    Writes cs n d := by
  obtain ⟨b, b', hcs, hb, hb'⟩ := exists_trimBoth isBlank cs
  rw [hcs]
  generalize trimBoth isBlank cs = ts at h
  have hcut := List.takeWhile_append_dropWhile (p := (· != '/')) (l := ts)
  simp only [readQuotient?] at h
  split at h
  · rename_i hrest
    rw [hrest, List.append_nil] at hcut
    rw [hcut] at h
    obtain ⟨m, hm, hpair⟩ := Option.map_eq_some_iff.1 h
    cases hpair
    exact .whole hb (readInteger?_eq_some_iff.1 hm) hb'
  · rename_i c ms hrest
    have hc := head?_dropWhile (· != '/') ts
    rw [hrest] at hc hcut
    obtain rfl : c = '/' := by simpa using hc c rfl
    simp only [Option.bind_eq_bind, Option.bind_eq_some_iff, Option.pure_def,
      Option.some.injEq] at h
    obtain ⟨m, hm, e, he, hpair⟩ := h
    cases hpair
    obtain ⟨hdigits, rfl⟩ := readNatural?_eq_some_iff.1 he
    -- the blanks around both numerals are split off
    obtain ⟨b₀, b₁, hnum, hb₀, hb₁⟩ := exists_trimBoth isBlank (ts.takeWhile (· != '/'))
    obtain ⟨b₂, b₃, hden, hb₂, hb₃⟩ := exists_trimBoth isBlank ms
    have hwrites := Writes.quotient (IsGap.append hb hb₀) (readInteger?_eq_some_iff.1 hm) hb₁ hb₂ hdigits
      (IsGap.append hb₃ hb')
    generalize trimBoth isBlank ms = ds at hden hwrites
    rw [← hcut, hnum, hden]
    simpa using hwrites

/-- Blanks around a whole number are trimmed. -/
theorem IsWhole.trimBoth_eq {b' : List Char} (hn : IsWhole cs n) (hb : IsGap b) (hb' : IsGap b') :
    trimBoth isBlank (b ++ cs ++ b') = cs := by
  apply trimBoth_append hb hb'
  · exact fun c hc => (hn.plain c (List.mem_of_mem_head? hc)).1
  · exact fun c hc => (hn.plain c (List.mem_of_getLast? hc)).1

/-- Blanks in front of a row of digits are trimmed. -/
theorem IsDigits.trimBoth_eq (hd : IsDigits ds) (hb : IsGap b) :
    trimBoth isBlank (b ++ ds) = ds := by
  rw [← List.append_nil (b ++ ds)]
  exact trimBoth_append hb (fun c hc => by cases hc) hd.head? hd.getLast?

/-- What is written is read without its outer blanks. -/
theorem readQuotient?_of_writes (h : Writes cs n d) :
    readQuotient? (trimBoth isBlank cs) = some (n, d) := by
  cases h with
  | whole hb hn hb' =>
    rename_i b ns b'
    have htake : ns.takeWhile (· != '/') = ns :=
      List.takeWhile_eq_self_iff.2 fun c hc => (hn.plain c hc).2
    have hdrop : ns.dropWhile (· != '/') = [] :=
      List.dropWhile_eq_nil_iff.2 fun c hc => (hn.plain c hc).2
    simp only [hn.trimBoth_eq hb hb', readQuotient?, htake, hdrop, readInteger?_eq_some_iff.2 hn,
      Option.map_some]
  | quotient hb hn hb₁ hb₂ hd hb' =>
    rename_i b ns b₁ b₂ ds b'
    have htrim : trimBoth isBlank (b ++ (ns ++ b₁ ++ '/' :: (b₂ ++ ds)) ++ b')
        = ns ++ b₁ ++ '/' :: (b₂ ++ ds) := by
      apply trimBoth_append hb hb'
      · obtain ⟨c, rest, rfl⟩ := List.exists_cons_of_ne_nil hn.ne_nil
        rintro a ⟨⟩
        exact (hn.plain c List.mem_cons_self).1
      · intro c hc
        have hsplit : ns ++ b₁ ++ '/' :: (b₂ ++ ds) = (ns ++ b₁ ++ '/' :: b₂) ++ ds := by simp
        rw [hsplit, List.getLast?_append_of_ne_nil _ hd.1] at hc
        exact hd.getLast? c hc
    have hslash : ∀ c ∈ ns ++ b₁, (c != '/') = true := by
      intro c hc
      exact (List.mem_append.1 hc).elim (fun hc => (hn.plain c hc).2) (hb₁.ne_slash c)
    obtain ⟨htake, hdrop⟩ := cut_at_slash (b₂ ++ ds) hslash
    have hnumerator : trimBoth isBlank (ns ++ b₁) = ns :=
      hn.trimBoth_eq (b := []) (fun c hc => by cases hc) hb₁
    simp only [htrim, readQuotient?, htake, hdrop, hnumerator, hd.trimBoth_eq hb₂,
      readInteger?_eq_some_iff.2 hn, readNatural?_eq_some_iff.2 ⟨hd, rfl⟩]
    rfl

/-- **A quotient is read from exactly the texts that write it.** -/
theorem readQuotient?_eq_some_iff :
    readQuotient? (trimBoth isBlank cs) = some (n, d) ↔ Writes cs n d :=
  ⟨writes_of_readQuotient?, readQuotient?_of_writes⟩

/-- A text shows one pair of numbers at most. -/
theorem Writes.unique {m : Int} {e : Nat} (h : Writes cs n d) (h' : Writes cs m e) :
    m = n ∧ e = d := by
  have hpair := (readQuotient?_eq_some_iff.2 h').symm.trans (readQuotient?_eq_some_iff.2 h)
  simpa using hpair

/-! ## Answers -/

/-- What reading answers, by what is written. -/
theorem read_of_writes {s : String} (h : Writes s.toList n d) :
    read s = if d = 0 then .error (.divisionByZero s) else .ok (n / d) := by
  rw [read, readQuotient?_eq_some_iff.2 h]
  cases d with
  | zero => rfl
  | succ d =>
    rw [if_neg d.succ_ne_zero, ← Rat.mkRat_eq_div]
    rfl

/-- A text that writes no rational is refused. -/
theorem read_of_not_writes {s : String} (h : ¬ ∃ n d, Writes s.toList n d) :
    read s = .error (.invalid (.notRationalValue (quoted s))) := by
  have hnone : readQuotient? (trimBoth isBlank s.toList) = none := by
    rw [Option.eq_none_iff_forall_ne_some]
    rintro ⟨n, d⟩ hsome
    exact h ⟨n, d, readQuotient?_eq_some_iff.1 hsome⟩
  rw [read, hnone]

/-- **A rational is read** from exactly the texts that write it with another denominator than
zero. -/
theorem read_eq_ok_iff {s : String} {q : Rat} :
    read s = .ok q ↔ ∃ n d, Writes s.toList n d ∧ d ≠ 0 ∧ q = n / d := by
  constructor
  · intro hq
    by_cases hwrites : ∃ n d, Writes s.toList n d
    · obtain ⟨n, d, h⟩ := hwrites
      rw [read_of_writes h] at hq
      by_cases hd : d = 0
      · rw [if_pos hd] at hq
        cases hq
      · rw [if_neg hd] at hq
        exact ⟨n, d, h, hd, (Except.ok.inj hq).symm⟩
    · rw [read_of_not_writes hwrites] at hq
      cases hq
  · rintro ⟨n, d, h, hd, rfl⟩
    rw [read_of_writes h, if_neg hd]

/-- **A division by zero** is what reading answers exactly for a denominator of zero. -/
theorem read_eq_divisionByZero_iff {s : String} :
    read s = .error (.divisionByZero s) ↔ ∃ n, Writes s.toList n 0 := by
  constructor
  · intro hzero
    by_cases hwrites : ∃ n d, Writes s.toList n d
    · obtain ⟨n, d, h⟩ := hwrites
      rw [read_of_writes h] at hzero
      by_cases hd : d = 0
      · subst hd
        exact ⟨n, h⟩
      · rw [if_neg hd] at hzero
        cases hzero
    · rw [read_of_not_writes hwrites] at hzero
      cases hzero
  · rintro ⟨n, h⟩
    rw [read_of_writes h, if_pos rfl]

/-- **An invalid value** is what reading answers exactly for a text that writes no rational. -/
theorem read_eq_invalid_iff {s : String} :
    read s = .error (.invalid (.notRationalValue (quoted s))) ↔
      ¬ ∃ n d, Writes s.toList n d := by
  constructor
  · rintro hinvalid ⟨n, d, h⟩
    rw [read_of_writes h] at hinvalid
    split at hinvalid
    · cases hinvalid
    · cases hinvalid
  · exact read_of_not_writes

/-! ## Texts of rationals -/

/-- The digits of a number are a row of digits. -/
theorem isDigits_digits (m : Nat) : IsDigits (digits m) :=
  ⟨digits_ne_nil m, fun _ hc => isDecimalDigit_of_isDigit (isDigit_of_mem_digits hc)⟩

/-- The text of an integer is a whole number. -/
theorem isWhole_intText (n : Int) : IsWhole (intText n).toList n := by
  unfold intText
  have hdigits := isDigits_digits n.natAbs
  have hvalue := digitsValue_digits n.natAbs
  by_cases hn : n < 0
  · have hwhole := IsWhole.negative hdigits
    rw [hvalue, show -(n.natAbs : Int) = n from by omega] at hwhole
    rw [if_pos hn]
    simpa using hwhole
  · have hwhole := IsWhole.unsigned hdigits
    rw [hvalue, show (n.natAbs : Int) = n from by omega] at hwhole
    rw [if_neg hn]
    simpa using hwhole

/-- **The text of a rational writes its numerator and its denominator.** -/
theorem writes_ratText (q : Rat) : Writes (ratText q).toList q.num q.den := by
  have hgap : IsGap [] := fun c hc => by cases hc
  unfold ratText
  by_cases hden : q.den = 1
  · have hwrites := Writes.whole hgap (isWhole_intText q.num) hgap
    rw [if_pos hden, hden]
    simpa using hwrites
  · have hwrites :=
      Writes.quotient hgap (isWhole_intText q.num) hgap hgap (isDigits_digits q.den) hgap
    rw [digitsValue_digits] at hwrites
    rw [if_neg hden]
    simpa using hwrites

/-- The text of a rational has no blanks at its ends. -/
theorem trimBlanks_ratText (q : Rat) : trimBlanks (ratText q) = ratText q := by
  have hplain : ∀ c ∈ (ratText q).toList, isBlank c = false := by
    intro c hc
    unfold ratText at hc
    split at hc
    · exact ((isWhole_intText q.num).plain c hc).1
    · simp only [String.toList_append, String.toList_ofList, List.mem_append] at hc
      rcases hc with (hc | hc) | hc
      · exact ((isWhole_intText q.num).plain c hc).1
      · obtain rfl : c = '/' := by simpa using hc
        decide
      · exact isBlank_of_isDecimalDigit ((isDigits_digits q.den).2 c hc)
  rw [trimBlanks, trimBoth_eq_self hplain, String.ofList_toList]

end Rational

/-! ## Bindings -/

/-- An argument binds its name to the text behind the sign of equality. -/
theorem CommandLine.binding?_rational {name : String} (hname : '=' ∉ name.toList)
    (hne : trimBlanks name ≠ "") (t : String) :
    binding? .rational (name ++ "=" ++ t) = some (trimBlanks name, .text (trimBlanks t)) := by
  have hplain : ∀ c ∈ name.toList, (c != '=') = true := by
    intro c hc
    rw [bne_iff_ne]
    rintro rfl
    exact hname hc
  have hitem : (name ++ "=" ++ t).toList = name.toList ++ '=' :: t.toList := by simp
  have htake : (name.toList ++ '=' :: t.toList).takeWhile (· != '=') = name.toList := by
    rw [List.takeWhile_append_of_pos hplain]
    simp
  have hdrop : (name.toList ++ '=' :: t.toList).dropWhile (· != '=') = '=' :: t.toList := by
    rw [List.dropWhile_append_of_pos hplain]
    simp
  simp only [binding?, hitem, htake, hdrop, String.ofList_toList, if_neg hne]
  rfl

/-- A variable that is bound to a text has the rational that the text writes. -/
theorem Expr.exactValue_bound (x t : String) :
    (identifier x).exactValue (.standard [(x, .text t)]) = Rational.read t := by
  have hlookup : (Scope.standard [(x, .text t)]).lookup x = .ok (.text t) := by
    simp [Scope.lookup, Scope.standard]
  rw [exactValue, hlookup]
  rfl

namespace Rational

open CommandLine

/-- **Written rationals are read exactly**: the text of a rational is read back, also where it was
printed as a result and is bound to a variable; a text is read as a rational exactly if it writes
one, as the quotient of the two numbers that it shows; a denominator of zero is a division by zero,
and every other text is an invalid value. -/
theorem reads_written (s : String) (r : Rat) {name : String} (hname : '=' ∉ name.toList)
    (hne : trimBlanks name ≠ "") :
    (read (ratText r) = .ok r ∧
      ∃ t, resultText (.number (.rational r)) = .ok t ∧
        binding? .rational (name ++ "=" ++ t) = some (trimBlanks name, .text t) ∧
        (Expr.identifier (trimBlanks name)).exactValue (.standard [(trimBlanks name, .text t)])
          = .ok r) ∧
    (∀ q, read s = .ok q ↔ ∃ n d, Writes s.toList n d ∧ d ≠ 0 ∧ q = n / d) ∧
    (read s = .error (.divisionByZero s) ↔ ∃ n, Writes s.toList n 0) ∧
    (read s = .error (.invalid (.notRationalValue (quoted s))) ↔
      ¬ ∃ n d, Writes s.toList n d) := by
  have hback : read (ratText r) = .ok r :=
    read_eq_ok_iff.2 ⟨r.num, r.den, writes_ratText r, r.den_ne_zero, (Rat.num_div_den r).symm⟩
  refine ⟨⟨hback, ratText r, rfl, ?_, ?_⟩, fun q => read_eq_ok_iff, read_eq_divisionByZero_iff,
    read_eq_invalid_iff⟩
  · rw [binding?_rational hname hne, trimBlanks_ratText]
  · rw [Expr.exactValue_bound, hback]

/-- The theorem for a quotient with blanks around its numerals. -/
theorem reads_written_blanks :
    ('=' ∉ "x".toList ∧ trimBlanks "x" ≠ "") ∧ read " -6 / 8 " = .ok (-3 / 4) := by
  have hname : '=' ∉ "x".toList ∧ trimBlanks "x" ≠ "" := by decide
  refine ⟨hname, ((reads_written " -6 / 8 " (-3 / 4) hname.1 hname.2).2.1 _).2 ?_⟩
  refine ⟨-6, 8, ?_, by decide, by norm_num⟩
  have hblank : IsGap [' '] := by decide
  have hsix : IsWhole ('-' :: ['6']) (-6) := .negative (by decide)
  have height : IsDigits ['8'] := by decide
  exact .quotient hblank hsix hblank hblank height hblank

end Rational

end Formula
