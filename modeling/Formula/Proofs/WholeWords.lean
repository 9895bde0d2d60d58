/-
# Whole words

A lexicon of whole words finds keywords and names only where they are not followed by a letter, a
digit or an underscore. What it finds there **does not depend on the text behind the word**
(`first?_append`).
-/
import Formula.Proofs.Lexemes

namespace Formula

open Grammar

/-! ## Words -/

/-- Whether a character starts a name. -/
def startsName (c : Char) : Bool := isAsciiLetter c || c == '_' || c == '$'

/-- Whether some characters are a name or a keyword. -/
def IsWord (cs : List Char) : Prop :=
  ∃ c us, cs = c :: us ∧ startsName c = true ∧ us.all isWordChar = true

/-- Whether a text does not go on with a letter, a digit or an underscore. -/
def EndsWord (cs : List Char) : Prop := ∀ c ∈ cs.head?, isWordChar c = false

/-- At a boundary, words end. -/
theorem Grammar.Boundary.endsWord {cs : List Char} (h : Boundary cs) : EndsWord cs := by
  intro c hc
  cases cs with
  | nil => cases hc
  | cons d cs =>
    cases hc
    exact (Lexicon.plain_of_boundary h).2.1

/-- What starts a name is no digit and no blank, and nothing that would lengthen a sign. -/
theorem plain_of_startsName {c : Char} (h : startsName c = true) :
    isDecimalDigit c = false ∧ isBlank c = false ∧ c ≠ '.' ∧ c ≠ '=' ∧ c ≠ '>' ∧ c ≠ '!' := by
  simp only [startsName, Bool.or_eq_true, beq_iff_eq] at h
  rcases h with (h | rfl) | rfl
  · exact Lexicon.plain_of_isAsciiLetter h
  · decide
  · decide

namespace Pattern

/-! ## Patterns of whole words -/

/-- Whether a pattern finds words as a whole, and no other text that starts like one. -/
def keepsWords : Pattern → Bool
  | real | natural | decimalTail | blanks | identifier => true
  | wholeWord ws => ws.all fun w => w.toList.all isWordChar
  | symbol text _ => text.toList.head?.any fun c => !(isWordChar c || startsName c)
  | _ => false

/-- A run stops before a character that does not belong to it. -/
theorem run_append {p : Char → Bool} {us cs : List Char} (h : ∀ c ∈ cs.head?, p c = false) :
    run p (us ++ cs) = run p us := by
  induction us with
  | nil =>
    cases cs with
    | nil => rfl
    | cons c cs => simp [run, h c rfl]
  | cons u us ih =>
    simp only [run] at ih ⊢
    cases hu : p u <;> simp [hu, ih]

/-- A name ends where its word ends. -/
theorem nameLength_append {us cs : List Char} (h : EndsWord cs) :
    nameLength (us ++ cs) = nameLength us := by
  cases us with
  | nil =>
    cases cs with
    | nil => rfl
    | cons c cs =>
      have hc : (isAsciiLetter c || isAsciiDigit c || c == '_') = false := h c rfl
      simp only [Bool.or_eq_false_iff] at hc
      simp [nameLength, hc]
  | cons u us =>
    show (if _ then 1 + run isWordChar (us ++ cs) else 0) = _
    rw [run_append h]
    rfl

/-- Behind a word, a prefix of the text is one of the word. -/
theorem prefix_append_iff {ws us cs : List Char} (hw : ws.all isWordChar = true)
    (h : EndsWord cs) : ws <+: us ++ cs ↔ ws <+: us := by
  constructor
  · intro hp
    rcases List.prefix_or_prefix_of_prefix hp (List.prefix_append us cs) with hp | hu
    · exact hp
    -- the word would go on with a character that ends words
    · obtain ⟨vs, rfl⟩ := hu
      rw [List.prefix_append_right_inj] at hp
      cases vs with
      | nil => exact (List.append_nil us).symm ▸ List.prefix_rfl
      | cons v vs =>
        obtain ⟨cs', rfl⟩ := hp
        have hv : isWordChar v = true := by simp at hw; exact hw.2.1
        rw [h v rfl] at hv
        cases hv
  · exact fun hp => hp.trans (List.prefix_append us cs)

/-- A whole word is found in a word or not at all. -/
theorem wholeWordLength_append {w : String} {us cs : List Char}
    (hw : w.toList.all isWordChar = true) (h : EndsWord cs) :
    wholeWordLength w (us ++ cs) = wholeWordLength w us := by
  have hlength : wordLength w (us ++ cs) = wordLength w us := by
    simp only [wordLength, List.isPrefixOf_iff_prefix, prefix_append_iff hw h]
  have hle := Lexicon.wordLength_le w us
  simp only [wholeWordLength, hlength, List.drop_append_of_le_length hle]
  cases hd : us.drop (wordLength w us) with
  | cons d ds => rfl
  | nil =>
    cases cs with
    | nil => rfl
    | cons c cs => simp [h c rfl]

/-- A whole word is found within the text. -/
theorem wholeWordLength_le (w : String) (cs : List Char) : wholeWordLength w cs ≤ cs.length := by
  have hle := Lexicon.wordLength_le w cs
  rw [wholeWordLength]
  split
  · split <;> omega
  · exact hle

/-- A name is found within the text. -/
theorem nameLength_le (cs : List Char) : nameLength cs ≤ cs.length := by
  cases cs with
  | nil => exact Nat.le_refl 0
  | cons c cs =>
    have hrun : run isWordChar cs ≤ cs.length := (List.takeWhile_prefix _).length_le
    simp only [nameLength, List.length_cons]
    split <;> omega

/-- Behind a dollar sign, a name is found. -/
theorem identifier_length_dollar (cs : List Char) :
    identifier.length ('$' :: cs) = if nameLength cs = 0 then 0 else 1 + nameLength cs := rfl

/-- Without a dollar sign, the text is a name. -/
theorem identifier_length_cons {c : Char} (h : c ≠ '$') (cs : List Char) :
    identifier.length (c :: cs) = nameLength (c :: cs) := by
  simp [length, h]

/-- **Behind a word, a pattern of whole words finds what it finds in the word alone.** -/
theorem length_append {p : Pattern} {us cs : List Char} (hp : p.keepsWords = true)
    (hu : IsWord us) (h : EndsWord cs) :
    p.length (us ++ cs) = p.length us ∧ p.length us ≤ us.length := by
  obtain ⟨c, us, rfl, hc, hus⟩ := hu
  obtain ⟨hdigit, hblank, hpoint, _⟩ := plain_of_startsName hc
  have hnumeral : ∀ ds, realLength (c :: ds) = 0 ∧ run isDecimalDigit (c :: ds) = 0
      ∧ tailLength (c :: ds) = 0 := Lexicon.numeralLength_of_not_digit hdigit hpoint
  -- a pattern that finds nothing behind the first character finds nothing in both texts
  have hzero : (∀ ds, p.length (c :: ds) = 0) →
      p.length (c :: us ++ cs) = p.length (c :: us) ∧ p.length (c :: us) ≤ (c :: us).length := by
    intro h
    rw [List.cons_append, h, h]
    exact ⟨rfl, Nat.zero_le _⟩
  cases p with
  | real => exact hzero fun ds => (hnumeral ds).1
  | natural => exact hzero fun ds => (hnumeral ds).2.1
  | decimalTail => exact hzero fun ds => (hnumeral ds).2.2
  | blanks => exact hzero fun ds => by simp [length, run, hblank]
  | identifier =>
    by_cases hd : c = '$'
    · subst hd
      have hle := nameLength_le us
      rw [List.cons_append, identifier_length_dollar, identifier_length_dollar,
        nameLength_append h]
      refine ⟨rfl, ?_⟩
      rw [List.length_cons]
      split <;> omega
    · rw [List.cons_append, identifier_length_cons hd, identifier_length_cons hd,
        ← List.cons_append, nameLength_append h]
      exact ⟨rfl, nameLength_le _⟩
  | wholeWord ws =>
    refine ⟨?_, Lexicon.firstLength_le ?_⟩
    · show firstLength (ws.map _) = firstLength (ws.map _)
      rw [List.map_congr_left fun w hw =>
        wholeWordLength_append (List.all_eq_true.1 hp w hw) h]
    · intro n hn
      obtain ⟨w, _, rfl⟩ := List.mem_map.1 hn
      exact wholeWordLength_le w _
  | symbol text shown =>
    have hword : (isWordChar c || startsName c) = true := by rw [hc, Bool.or_true]
    exact hzero fun ds => Lexicon.wordLength_of_avoids hp hword
  | spelling ws => cases hp
  | letter => cases hp

end Pattern

namespace Lexicon

/-! ## Lexicons of whole words -/

variable {l : Lexicon} {cs : List Char}

/-- **Behind a word, a lexicon of whole words finds what it finds in the word alone.** -/
theorem first?_append (hl : l.all (·.pattern.keepsWords) = true) {us : List Char}
    (hu : IsWord us) (h : EndsWord cs) (position : Nat) :
    l.first? position (us ++ cs) = l.first? position us := by
  refine first?_congr ?_
  intro d hd
  obtain ⟨hlength, hle⟩ := Pattern.length_append (List.all_eq_true.1 hl d hd) hu h
  exact token?_append hlength hle

/-! ## Names -/

/-- **Whether a lexicon finds a text as a name.** -/
structure IsName (l : Lexicon) (name : String) : Prop where
  word : IsWord name.toList
  first? : l.first? 0 name.toList = some (plainWord .identifier name)

/-- A run takes the characters that belong to it, and the word ends there. -/
theorem take_run (ds : List Char) :
    (ds.take (Pattern.run isWordChar ds)).all isWordChar = true ∧
      EndsWord (ds.drop (Pattern.run isWordChar ds)) := by
  have hcut := List.takeWhile_append_dropWhile (p := isWordChar) (l := ds)
  have htake : (ds.takeWhile isWordChar ++ ds.dropWhile isWordChar).take
      (ds.takeWhile isWordChar).length = ds.takeWhile isWordChar := List.take_left
  have hdrop : (ds.takeWhile isWordChar ++ ds.dropWhile isWordChar).drop
      (ds.takeWhile isWordChar).length = ds.dropWhile isWordChar := List.drop_left
  rw [hcut] at htake hdrop
  rw [Pattern.run, htake, hdrop]
  refine ⟨List.all_takeWhile, ?_⟩
  intro c hc
  have hnot := List.head?_dropWhile_not isWordChar ds
  rw [hc] at hnot
  exact hnot

/-- A name without dollar sign is a word that ends there. -/
theorem isWord_of_nameLength (h : Pattern.nameLength cs ≠ 0) :
    ∃ c us, cs.take (Pattern.nameLength cs) = c :: us ∧ (isAsciiLetter c || c == '_') = true ∧
      us.all isWordChar = true ∧ EndsWord (cs.drop (Pattern.nameLength cs)) := by
  cases cs with
  | nil => exact absurd rfl h
  | cons c ds =>
    rw [Pattern.nameLength] at h ⊢
    by_cases hc : (isAsciiLetter c || c == '_') = true
    · rw [if_pos hc, Nat.add_comm]
      obtain ⟨hall, hend⟩ := take_run ds
      exact ⟨c, _, rfl, hc, hall, hend⟩
    · rw [if_neg hc] at h
      exact absurd rfl h

/-- **What the pattern of names finds is a word** that ends there. -/
theorem isWord_of_identifier (h : Pattern.identifier.length cs ≠ 0) :
    IsWord (cs.take (Pattern.identifier.length cs)) ∧
      EndsWord (cs.drop (Pattern.identifier.length cs)) := by
  cases cs with
  | nil => exact absurd rfl h
  | cons c ds =>
    by_cases hd : c = '$'
    · subst hd
      rw [Pattern.identifier_length_dollar] at h ⊢
      have hn : Pattern.nameLength ds ≠ 0 := by
        intro hn
        rw [if_pos hn] at h
        exact h rfl
      obtain ⟨c, us, htake, hc, hus, hend⟩ := isWord_of_nameLength hn
      rw [if_neg hn, Nat.add_comm]
      refine ⟨⟨'$', c :: us, ?_, rfl, ?_⟩, hend⟩
      · rw [List.take_succ_cons, htake]
      · rw [List.all_cons, hus, Bool.and_true, isWordChar]
        rw [Bool.or_eq_true] at hc
        rcases hc with hc | hc <;> simp [hc]
    · rw [Pattern.identifier_length_cons hd] at h ⊢
      obtain ⟨c, us, htake, hc, hus, hend⟩ := isWord_of_nameLength h
      refine ⟨⟨c, us, htake, ?_, hus⟩, hend⟩
      rw [startsName, hc, Bool.true_or]

end Lexicon

end Formula
