/-
# Trimmed texts

Trimming takes the characters of a class off both ends of a text and leaves the rest as it is:
**a text is its trimmed part between two rows of such characters** (`exists_trimBoth`), and a part
whose ends are outside the class is found again between any two rows (`trimBoth_append`).
-/
import Formula.Text.Blank
import Formula.Text.Digit

namespace Formula

/-! ## Ends -/

/-- What is left behind a row of characters of a class starts outside the class. -/
theorem head?_dropWhile (p : Char → Bool) (cs : List Char) :
    ∀ c ∈ (cs.dropWhile p).head?, p c = false := by
  intro c hc
  have hne : cs.dropWhile p ≠ [] := by
    intro hnil
    rw [hnil] at hc
    cases hc
  have hhead := List.head_dropWhile_not p hne
  rw [List.head?_eq_some_head hne] at hc
  rwa [Option.some.inj hc] at hhead

/-- A text that starts outside a class has nothing to drop. -/
theorem dropWhile_eq_self {p : Char → Bool} {cs : List Char}
    (h : ∀ c ∈ cs.head?, p c = false) : cs.dropWhile p = cs := by
  cases cs with
  | nil => rfl
  | cons c cs => exact List.dropWhile_cons_of_neg (by simp [h c rfl])

/-- A row of characters of a class is dropped as a whole. -/
theorem dropWhile_append_of_all {p : Char → Bool} {b cs : List Char}
    (hb : ∀ c ∈ b, p c = true) (h : ∀ c ∈ cs.head?, p c = false) :
    (b ++ cs).dropWhile p = cs := by
  rw [List.dropWhile_append_of_pos hb, dropWhile_eq_self h]

/-! ## Both ends -/

/-- **A text is its trimmed part between two rows of the class.** -/
theorem exists_trimBoth (p : Char → Bool) (cs : List Char) :
    ∃ b b', cs = b ++ trimBoth p cs ++ b' ∧ (∀ c ∈ b, p c = true) ∧ ∀ c ∈ b', p c = true := by
  have hfront := List.takeWhile_append_dropWhile (p := p) (l := cs)
  have hback := List.takeWhile_append_dropWhile (p := p) (l := (cs.dropWhile p).reverse)
  refine ⟨cs.takeWhile p, ((cs.dropWhile p).reverse.takeWhile p).reverse, ?_, ?_, ?_⟩
  · rw [trimBoth, List.append_assoc, ← List.reverse_append, hback, List.reverse_reverse, hfront]
  · intro c hc
    exact List.all_eq_true.1 List.all_takeWhile c hc
  · intro c hc
    exact List.all_eq_true.1 List.all_takeWhile c (List.mem_reverse.1 hc)

/-- A trimmed text starts outside the class. -/
theorem head?_trimBoth (p : Char → Bool) (cs : List Char) :
    ∀ c ∈ (trimBoth p cs).head?, p c = false := by
  intro c hc
  -- the trimmed text is what a row of the class leaves of a text that starts outside it
  have hback := List.takeWhile_append_dropWhile (p := p) (l := (cs.dropWhile p).reverse)
  have hsplit : cs.dropWhile p
      = trimBoth p cs ++ ((cs.dropWhile p).reverse.takeWhile p).reverse := by
    rw [trimBoth, ← List.reverse_append, hback, List.reverse_reverse]
  apply head?_dropWhile p cs
  rw [hsplit, List.head?_append, hc]
  rfl

/-- A trimmed text ends outside the class. -/
theorem getLast?_trimBoth (p : Char → Bool) (cs : List Char) :
    ∀ c ∈ (trimBoth p cs).getLast?, p c = false := by
  rw [trimBoth, List.getLast?_reverse]
  exact head?_dropWhile p _

/-- A text whose first character is kept starts with it. -/
theorem head?_filter {p : Char → Bool} {cs : List Char} (h : ∀ c ∈ cs.head?, p c = true) :
    (cs.filter p).head? = cs.head? := by
  cases cs with
  | nil => rfl
  | cons c cs => rw [List.filter_cons_of_pos (h c rfl), List.head?_cons, List.head?_cons]

/-- A text whose last character is kept ends with it. -/
theorem getLast?_filter {p : Char → Bool} {cs : List Char} (h : ∀ c ∈ cs.getLast?, p c = true) :
    (cs.filter p).getLast? = cs.getLast? := by
  rw [← List.head?_reverse, ← List.head?_reverse, ← List.filter_reverse]
  apply head?_filter
  rwa [List.head?_reverse]

/-- **A part whose ends are outside the class** is what trimming leaves of it between two rows. -/
theorem trimBoth_append {p : Char → Bool} {b ds b' : List Char} (hb : ∀ c ∈ b, p c = true)
    (hb' : ∀ c ∈ b', p c = true) (hhead : ∀ c ∈ ds.head?, p c = false)
    (hlast : ∀ c ∈ ds.getLast?, p c = false) : trimBoth p (b ++ ds ++ b') = ds := by
  cases ds with
  | nil =>
    have hall : ∀ c ∈ b ++ b', p c = true := by
      intro c hc
      exact (List.mem_append.1 hc).elim (hb c) (hb' c)
    have hdrop : (b ++ b' ++ []).dropWhile p = [] :=
      dropWhile_append_of_all hall (fun c hc => by cases hc)
    rw [List.append_nil] at hdrop ⊢
    rw [trimBoth, hdrop]
    rfl
  | cons d ds =>
    have hfront : (b ++ (d :: ds) ++ b').dropWhile p = (d :: ds) ++ b' := by
      rw [List.append_assoc]
      exact dropWhile_append_of_all hb hhead
    have hback : ((d :: ds) ++ b').reverse.dropWhile p = (d :: ds).reverse := by
      rw [List.reverse_append]
      apply dropWhile_append_of_all
      · intro c hc
        exact hb' c (List.mem_reverse.1 hc)
      · intro c hc
        rw [List.head?_reverse] at hc
        exact hlast c hc
    rw [trimBoth, hfront, hback, List.reverse_reverse]

/-! ## Blanks and digits -/

/-- No blank is a digit. -/
theorem isDecimalDigit_of_isBlank {c : Char} (h : isBlank c = true) :
    isDecimalDigit c = false := by
  have hcodes : c.toNat ∈ blankRanges.flatMap fun r => List.range' r.1 (r.2 + 1 - r.1) := by
    obtain ⟨r, hr, hc⟩ := List.any_eq_true.1 h
    rw [decide_eq_true_eq] at hc
    exact List.mem_flatMap.2 ⟨r, hr, List.mem_range'_1.2 ⟨hc.1, by omega⟩⟩
  have hall : ∀ n ∈ blankRanges.flatMap fun r => List.range' r.1 (r.2 + 1 - r.1),
      isDecimalDigit (Char.ofNat n) = false := by
    decide
  have hdigit := hall c.toNat hcodes
  rwa [Char.ofNat_toNat] at hdigit

/-- No digit is a blank. -/
theorem isBlank_of_isDecimalDigit {c : Char} (h : isDecimalDigit c = true) :
    isBlank c = false := by
  rw [Bool.eq_false_iff]
  intro hblank
  rw [isDecimalDigit_of_isBlank hblank] at h
  cases h

end Formula
