/-
# Finding lexemes

A lexicon finds the first definition that matches. Words that are set off from what follows are
found as a whole: numerals stop at a boundary, blanks stop where something opens, and definitions
that need a second letter skip single letters.
-/
import Formula.Proofs.Numeral
import Formula.Proofs.Printing

namespace Formula

open Grammar

namespace Lexicon

/-! ## The first definition that matches -/

/-- Definitions that do not match may be left out at the front. -/
theorem first?_skip {l₁ l₂ : Lexicon} {position : Nat} {cs : List Char}
    (h : l₁.first? position cs = none) :
    Lexicon.first? (l₁ ++ l₂) position cs = l₂.first? position cs := by
  rw [first?] at h ⊢
  rw [List.findSome?_append, h, Option.none_or]
  rfl

/-- A definition that matches at the front makes the token. -/
theorem first?_cons_of_some {l : Lexicon} {d : Definition} {t : Token} {position : Nat}
    {cs : List Char} (h : d.token? position cs = some t) :
    Lexicon.first? (d :: l) position cs = some t := by
  rw [first?, List.findSome?_cons, h]

/-- A definition that does not match at the front may be left out. -/
theorem first?_cons_of_none {l : Lexicon} {d : Definition} {position : Nat} {cs : List Char}
    (h : d.token? position cs = none) :
    Lexicon.first? (d :: l) position cs = l.first? position cs := by
  rw [first?, List.findSome?_cons, h]
  rfl

/-- When nothing before a definition matches, its token is the first. -/
theorem first?_append_cons {l₁ l₂ : Lexicon} {d : Definition} {t : Token} {position : Nat}
    {cs : List Char} (h : l₁.first? position cs = none) (hd : d.token? position cs = some t) :
    Lexicon.first? (l₁ ++ d :: l₂) position cs = some t :=
  (first?_skip h).trans (first?_cons_of_some hd)

/-- A definition that finds some characters makes a token of them. -/
theorem token?_eq_some {d : Definition} {position : Nat} {ws cs : List Char} (hw : ws ≠ [])
    (h : d.pattern.length (ws ++ cs) = ws.length) :
    d.token? position (ws ++ cs)
      = some ⟨d.kind, d.value.getD (String.ofList ws), String.ofList ws, position⟩ := by
  have hlen : ws.length ≠ 0 := by simpa using hw
  rw [Definition.token?, h]
  simp only [hlen, if_false, List.take_left]

/-- A definition that finds the same characters in a longer text makes the same token. -/
theorem token?_append {d : Definition} {position : Nat} {us cs : List Char}
    (h : d.pattern.length (us ++ cs) = d.pattern.length us)
    (hle : d.pattern.length us ≤ us.length) :
    d.token? position (us ++ cs) = d.token? position us := by
  simp only [Definition.token?, h, List.take_append_of_le_length hle]

/-- A definition that finds nothing makes no token. -/
theorem token?_eq_none {d : Definition} {position : Nat} {cs : List Char}
    (h : d.pattern.length cs = 0) : d.token? position cs = none := by
  rw [Definition.token?, h]
  rfl

/-! ## Boundaries -/

/-- The characters that may stand at a boundary. -/
theorem mem_of_boundary {c : Char} {cs : List Char} (h : Boundary (c :: cs)) :
    c ∈ ',' :: boundaryChars := by
  rcases h with h | ⟨rfl, _⟩
  · exact List.mem_cons_of_mem _ h
  · exact List.mem_cons_self

/-- A boundary goes on with no digit, no letter and no point. -/
theorem plain_of_boundary {c : Char} {cs : List Char} (h : Boundary (c :: cs)) :
    isDecimalDigit c = false ∧ isWordChar c = false ∧ c ≠ '.' := by
  have hall : ∀ c ∈ ',' :: boundaryChars,
      isDecimalDigit c = false ∧ isWordChar c = false ∧ c ≠ '.' :=
    forall_mem_of_all (by decide)
  exact hall c (mem_of_boundary h)

/-- A numeral with a point does not run on over a boundary. -/
theorem head_of_boundary {cs : List Char} (h : Boundary cs) :
    ∀ c ∈ cs.head?, isDecimalDigit c = false ∧ c ≠ 'e' := by
  intro c hc
  cases cs with
  | nil => cases hc
  | cons c' cs =>
    cases hc
    obtain ⟨hd, hw, _⟩ := plain_of_boundary h
    refine ⟨hd, ?_⟩
    rintro rfl
    exact absurd hw (by decide)

/-! ## Numbers -/

/-- Digits before a boundary are no numeral with a point. -/
theorem realLength_digits {n : Nat} {cs : List Char} (h : Boundary cs) :
    Pattern.realLength (digits n ++ cs) = 0 := by
  have hrun : Pattern.run isDecimalDigit (digits n ++ cs) = (digits n).length := run_isDecimalDigit
    (fun c hc => isDigit_of_mem_digits hc) fun c hc => (head_of_boundary h c hc).1
  rw [Pattern.realLength, hrun, List.drop_left]
  cases cs with
  | nil => rfl
  | cons c cs =>
    rcases h with hc | ⟨rfl, hspace⟩
    · have hpoint : ∀ c ∈ boundaryChars, (c == '.' || c == ',') = false :=
        forall_mem_of_all (by decide)
      simp [hpoint c hc]
    · -- the comma has a space behind it, and no digit
      have hplaces : Pattern.run isDecimalDigit cs = 0 := by
        cases cs with
        | nil => rfl
        | cons c cs =>
          cases hspace
          rfl
      simp [hplaces]

/-- The text of a natural number is its digits. -/
theorem intText_natCast (n : Nat) : intText n = String.ofList (digits n) := by
  rw [intText, if_neg (by omega), Int.natAbs_natCast]

/-- The digits of a number are its value as an operand. -/
theorem operand?_natural (n : Nat) :
    operand? (numberWord (.integer n)) = some (.integer n) := by
  simp only [operand?, numberWord, intText_natCast, String.toList_ofList, digitsValue_digits]

/-- A text of digits opens. -/
theorem opens_of_isDigit {c : Char} (h : c.isDigit = true) (cs : List Char) : Opens (c :: cs) := by
  have hall : ∀ c ∈ digitChars, isBlank c = false ∧ c ≠ '=' ∧ c ≠ '>' ∧ c ≠ '!' :=
    forall_mem_of_all (by decide)
  exact ⟨c, rfl, hall c (mem_of_isDigit h)⟩

/-- The text of a natural number opens. -/
theorem opens_natural (n : Nat) : Opens (Number.ascii (.integer n)).toList := by
  obtain ⟨c, cs, hc, hd⟩ := exists_digits_eq_cons n
  rw [Number.ascii, intText_natCast, String.toList_ofList, hc]
  exact opens_of_isDigit hd cs

/-- **A natural number is found** by the numerals. -/
theorem numerals_know_natural (n : Nat) : numerals.Knows (numberWord (.integer n)) where
  lexeme := by
    rw [numberWord, plainWord, word, intText_natCast]
    simpa using digits_ne_nil n
  first? := by
    intro position cs hcs
    have hcs : Boundary cs := hcs
    -- the definition of numerals with a point comes first and finds no point
    have hreal : (⟨.real, .real, none⟩ : Definition).token? position (digits n ++ cs) = none :=
      token?_eq_none (realLength_digits hcs)
    have hnatural : (⟨.natural, .natural, none⟩ : Definition).token? position (digits n ++ cs)
        = some ⟨.natural, String.ofList (digits n), String.ofList (digits n), position⟩ :=
      token?_eq_some (digits_ne_nil n) (run_isDecimalDigit (fun c hc => isDigit_of_mem_digits hc)
        fun c hc => (head_of_boundary hcs c hc).1)
    simp only [numberWord, intText_natCast, String.toList_ofList]
    exact (first?_cons_of_none hreal).trans (first?_cons_of_some hnatural)

/-! ## Blanks -/

/-- **A space is found** behind definitions that do not start with one. -/
theorem knows_space {l₁ l₂ : Lexicon}
    (h : ∀ {position cs}, l₁.first? position (' ' :: cs) = none) :
    Lexicon.Knows (l₁ ++ ⟨.blanks, .blank, none⟩ :: l₂) space where
  lexeme := by decide
  first? := by
    intro position cs hcs
    have hrun : Pattern.run isBlank (' ' :: cs) = 1 := by
      obtain ⟨c, hc, hblank, _⟩ := hcs
      cases cs with
      | nil => cases hc
      | cons c' cs =>
        cases hc
        rw [Pattern.run, List.takeWhile_cons_of_pos rfl,
          List.takeWhile_cons_of_neg (Bool.eq_false_iff.1 hblank)]
        rfl
    have hblank : (⟨.blanks, .blank, none⟩ : Definition).token? position ([' '] ++ cs)
        = some ⟨.blank, " ", " ", position⟩ :=
      token?_eq_some (by simp) hrun
    exact first?_append_cons h hblank

/-! ## Letters -/

/-- An ASCII letter is in one of two ranges. -/
theorem toNat_of_isAsciiLetter {c : Char} (h : isAsciiLetter c = true) :
    65 ≤ c.toNat ∧ c.toNat ≤ 122 := by
  simp only [isAsciiLetter, Bool.or_eq_true, Bool.and_eq_true, decide_eq_true_eq, Char.le_def,
    UInt32.le_iff_toNat_le] at h
  have hlow : 'a'.val.toNat = 97 ∧ 'z'.val.toNat = 122 := by decide
  have hhigh : 'A'.val.toNat = 65 ∧ 'Z'.val.toNat = 90 := by decide
  have hc : c.toNat = c.val.toNat := rfl
  omega

/-- A letter is no digit and no blank, and nothing that would lengthen a sign. -/
theorem plain_of_isAsciiLetter {c : Char} (h : isAsciiLetter c = true) :
    isDecimalDigit c = false ∧ isBlank c = false ∧ c ≠ '.' ∧ c ≠ '=' ∧ c ≠ '>' ∧ c ≠ '!' := by
  obtain ⟨hlow, hhigh⟩ := toNat_of_isAsciiLetter h
  have hall : ∀ n < 123, 65 ≤ n → isDecimalDigit (Char.ofNat n) = false
      ∧ isBlank (Char.ofNat n) = false ∧ Char.ofNat n ≠ '.' ∧ Char.ofNat n ≠ '='
      ∧ Char.ofNat n ≠ '>' ∧ Char.ofNat n ≠ '!' := by
    decide
  have := hall c.toNat (by omega) hlow
  rwa [Char.ofNat_toNat] at this

/-- A letter opens. -/
theorem opens_of_isAsciiLetter {c : Char} (h : isAsciiLetter c = true) (cs : List Char) :
    Opens (c :: cs) := by
  obtain ⟨_, hblank, _, hne⟩ := plain_of_isAsciiLetter h
  exact ⟨c, rfl, hblank, hne⟩

/-- No numeral starts with anything but a digit or a point. -/
theorem numeralLength_of_not_digit {c : Char} (hdigit : isDecimalDigit c = false) (hpoint : c ≠ '.')
    (cs : List Char) : Pattern.realLength (c :: cs) = 0
      ∧ Pattern.run isDecimalDigit (c :: cs) = 0 ∧ Pattern.tailLength (c :: cs) = 0 := by
  have hrun : Pattern.run isDecimalDigit (c :: cs) = 0 := by simp [Pattern.run, hdigit]
  refine ⟨?_, hrun, ?_⟩
  · rw [Pattern.realLength, hrun]
    simp
  · rw [Pattern.tailLength, hrun, List.drop_zero]
    split
    · rename_i heq
      cases heq
      exact absurd rfl hpoint
    · rfl

end Lexicon

/-- Whether a pattern finds nothing that is a single letter. -/
def Pattern.skipsLetters : Pattern → Bool
  | real | natural | decimalTail | blanks => true
  | spelling ws => ws.all fun w =>
    match w.toList with
    | _ :: c :: _ => isWordChar c
    | _ => false
  | symbol text _ => text.toList.head?.any fun c => !isAsciiLetter c
  | _ => false

namespace Lexicon

/-- The first length is one of those given. -/
theorem firstLength_le {ns : List Nat} {m : Nat} (h : ∀ n ∈ ns, n ≤ m) :
    Pattern.firstLength ns ≤ m := by
  rw [Pattern.firstLength]
  cases hfind : ns.find? (· != 0) with
  | none => exact Nat.zero_le m
  | some n => exact h n (List.mem_of_find?_eq_some hfind)

/-- A word is found within the text. -/
theorem wordLength_le (w : String) (cs : List Char) : Pattern.wordLength w cs ≤ cs.length := by
  rw [Pattern.wordLength]
  split
  · rename_i h
    exact (List.isPrefixOf_iff_prefix.1 h).length_le
  · exact Nat.zero_le _

/-- A word is not found where its first character is avoided. -/
theorem wordLength_of_avoids {p : Char → Bool} {w : String} {c : Char} {cs : List Char}
    (hw : (w.toList.head?.any fun c => !p c) = true) (hc : p c = true) :
    Pattern.wordLength w (c :: cs) = 0 := by
  rw [Pattern.wordLength, if_neg]
  cases hl : w.toList with
  | nil => simp [hl] at hw
  | cons a ds =>
    rw [List.isPrefixOf_iff_prefix, List.cons_prefix_cons]
    rintro ⟨rfl, _⟩
    simp [hl, hc] at hw

/-- A word is not found where its second character differs. -/
theorem wordLength_of_ne {w : String} {a b c d : Char} {ds cs : List Char}
    (hw : w.toList = a :: b :: ds) (h : b ≠ d) : Pattern.wordLength w (c :: d :: cs) = 0 := by
  rw [Pattern.wordLength, if_neg]
  rw [hw, List.isPrefixOf_iff_prefix, List.cons_prefix_cons, List.cons_prefix_cons]
  exact fun hprefix => h hprefix.2.1

/-- A word of more than one letter is not found where a single letter stands. -/
theorem wordLength_eq_zero {w : String} {a b c : Char} {ds cs : List Char}
    (hw : w.toList = a :: b :: ds) (hb : isWordChar b = true) (hcs : Boundary cs) :
    Pattern.wordLength w (c :: cs) = 0 := by
  cases cs with
  | nil =>
    rw [Pattern.wordLength, if_neg]
    rw [hw, List.isPrefixOf_iff_prefix, List.cons_prefix_cons]
    rintro ⟨_, hprefix⟩
    cases hprefix.length_le
  | cons d cs =>
    refine wordLength_of_ne hw ?_
    rintro rfl
    rw [(plain_of_boundary hcs).2.1] at hb
    cases hb

/-- **A pattern that skips letters finds nothing** where a letter stands before a boundary. -/
theorem length_of_skipsLetters {p : Pattern} {c : Char} {cs : List Char}
    (hp : p.skipsLetters = true) (hc : isAsciiLetter c = true) (hcs : Boundary cs) :
    p.length (c :: cs) = 0 := by
  obtain ⟨hdigit, hblank, hpoint, _⟩ := plain_of_isAsciiLetter hc
  obtain ⟨hreal, hnatural, htail⟩ := numeralLength_of_not_digit hdigit hpoint cs
  cases p with
  | real => exact hreal
  | natural => exact hnatural
  | decimalTail => exact htail
  | spelling ws =>
    refine Nat.le_zero.1 (firstLength_le ?_)
    intro n hn
    obtain ⟨w, hw, rfl⟩ := List.mem_map.1 hn
    have hskip := List.all_eq_true.1 hp w hw
    split at hskip
    · rename_i heq
      exact Nat.le_of_eq (wordLength_eq_zero heq hskip hcs)
    · cases hskip
  | symbol text shown => exact wordLength_of_avoids hp hc
  | blanks => simp [Pattern.length, Pattern.run, hblank]
  | wholeWord ws => cases hp
  | letter => cases hp
  | identifier => cases hp

/-- Definitions that skip letters make no token of a letter before a boundary. -/
theorem first?_of_skipsLetters {l : Lexicon} {position : Nat} {c : Char} {cs : List Char}
    (hl : l.all (·.pattern.skipsLetters) = true) (hc : isAsciiLetter c = true)
    (hcs : Boundary cs) : l.first? position (c :: cs) = none := by
  rw [first?, List.findSome?_eq_none_iff]
  intro d hd
  exact token?_eq_none (length_of_skipsLetters (List.all_eq_true.1 hl d hd) hc hcs)

/-! ## First characters -/

end Lexicon

/-- Whether a pattern finds only fixed texts that do not start with a character of a class. -/
def Pattern.avoids (p : Char → Bool) : Pattern → Bool
  | spelling ws | wholeWord ws => ws.all fun w => w.toList.head?.any fun c => !p c
  | symbol text _ => text.toList.head?.any fun c => !p c
  | _ => false

/-- A pattern of fixed texts finds nothing where a character stands that they avoid. -/
theorem Pattern.length_of_avoids {p : Char → Bool} {q : Pattern} {c : Char} {cs : List Char}
    (hq : q.avoids p = true) (hc : p c = true) : q.length (c :: cs) = 0 := by
  cases q with
  | spelling ws =>
    refine Nat.le_zero.1 (Lexicon.firstLength_le ?_)
    intro n hn
    obtain ⟨w, hw, rfl⟩ := List.mem_map.1 hn
    exact Nat.le_of_eq (Lexicon.wordLength_of_avoids (List.all_eq_true.1 hq w hw) hc)
  | wholeWord ws =>
    refine Nat.le_zero.1 (Lexicon.firstLength_le ?_)
    intro n hn
    obtain ⟨w, hw, rfl⟩ := List.mem_map.1 hn
    simp [wholeWordLength, Lexicon.wordLength_of_avoids (List.all_eq_true.1 hq w hw) hc]
  | symbol text shown => exact Lexicon.wordLength_of_avoids hq hc
  | _ => cases hq

namespace Lexicon

/-! ## Comparing two texts -/

/-- The place of a token does not change what is found. -/
theorem first?_position (l : Lexicon) (position start : Nat) (cs : List Char) :
    l.first? position cs = (l.first? start cs).map fun t => { t with position := position } := by
  induction l with
  | nil => rfl
  | cons d l ih =>
    have hd : d.token? position cs
        = (d.token? start cs).map fun t => { t with position := position } := by
      simp only [Definition.token?]
      split <;> rfl
    simp only [first?, List.findSome?_cons] at ih ⊢
    rw [hd, ih]
    cases d.token? start cs <;> rfl

/-- Where every definition finds the same token, the first one is the same. -/
theorem first?_congr {l : Lexicon} {position : Nat} {cs ds : List Char}
    (h : ∀ d ∈ l, d.token? position cs = d.token? position ds) :
    l.first? position cs = l.first? position ds := by
  induction l with
  | nil => rfl
  | cons d l ih =>
    simp only [first?, List.findSome?_cons, h d List.mem_cons_self] at ih ⊢
    rw [ih fun d hd => h d (List.mem_cons_of_mem _ hd)]

end Lexicon

end Formula
