/-
# Maximal munch

At each place of a source a lexicon takes the first definition that matches. The built-in lexicons
are ordered so that **the first match is a longest one** (`maximal_munch`): longer words stand
before their beginnings, keywords are found only as whole words, and the numeral with a point stands
before the numeral without. Hence the lexicons of whole words never split a name.

The order is compared once, on the definitions alone (`covers_of_builtin`).
-/
import Formula.Proofs.Conversions
import Formula.Proofs.WholeWords

namespace Formula

namespace Pattern

/-! ## Lengths within the text -/

/-- A run stays within the text. -/
theorem run_le (p : Char → Bool) (cs : List Char) : run p cs ≤ cs.length :=
  (List.takeWhile_prefix p).length_le

/-- An exponent stays within the text. -/
theorem exponentLength_le (cs : List Char) : exponentLength cs ≤ cs.length := by
  by_cases he : ∃ rest, cs = 'e' :: rest
  · obtain ⟨rest, rfl⟩ := he
    obtain ⟨sign, r, rfl, -, hlength⟩ := exponentLength_cons rest
    have hrun : run isDecimalDigit r ≤ r.length := run_le _ r
    rw [hlength, List.length_cons, List.length_append]
    split <;> omega
  · have hnone : exponentLength cs = 0 := by
      unfold exponentLength
      split
      · exact absurd ⟨_, rfl⟩ he
      · rfl
    omega

/-- A numeral with a point stays within the text. -/
theorem realLength_le (cs : List Char) : realLength cs ≤ cs.length := by
  have hrun : run isDecimalDigit cs ≤ cs.length := run_le _ cs
  rw [realLength]
  cases hrest : cs.drop (run isDecimalDigit cs) with
  | nil => exact Nat.zero_le _
  | cons c rest =>
    have hlength : cs.length = run isDecimalDigit cs + (rest.length + 1) := by
      have := congrArg List.length hrest
      rw [List.length_drop, List.length_cons] at this
      omega
    have hplaces : run isDecimalDigit rest ≤ rest.length := run_le _ rest
    have hexponent := exponentLength_le (rest.drop (run isDecimalDigit rest))
    rw [List.length_drop] at hexponent
    dsimp only
    split <;> omega

/-- A decimal tail is a row of digits, a point and two digits. -/
theorem tailLength_eq (cs : List Char) : tailLength cs = 0 ∨
    ∃ a b rest, cs.drop (run isDecimalDigit cs) = '.' :: a :: b :: rest ∧
      isDecimalDigit a = true ∧ isDecimalDigit b = true ∧
      tailLength cs = run isDecimalDigit cs + 3 := by
  rw [tailLength]
  split
  · rename_i a b rest hrest
    by_cases hab : (isDecimalDigit a && isDecimalDigit b) = true
    · obtain ⟨ha, hb⟩ := Bool.and_eq_true_iff.1 hab
      exact Or.inr ⟨a, b, rest, hrest, ha, hb, if_pos hab⟩
    · exact Or.inl (if_neg hab)
  · exact Or.inl rfl

/-- A decimal tail stays within the text. -/
theorem tailLength_le (cs : List Char) : tailLength cs ≤ cs.length := by
  rcases tailLength_eq cs with h | ⟨a, b, rest, hrest, -, -, h⟩
  · omega
  · have hlength := congrArg List.length hrest
    simp only [List.length_drop, List.length_cons] at hlength
    omega

/-- **What a pattern finds stays within the text.** -/
theorem length_le (p : Pattern) (cs : List Char) : p.length cs ≤ cs.length := by
  cases p with
  | real => exact realLength_le cs
  | natural => exact run_le _ cs
  | decimalTail => exact tailLength_le cs
  | spelling ws =>
    refine Lexicon.firstLength_le fun n hn => ?_
    obtain ⟨w, -, rfl⟩ := List.mem_map.1 hn
    exact Lexicon.wordLength_le w cs
  | wholeWord ws =>
    refine Lexicon.firstLength_le fun n hn => ?_
    obtain ⟨w, -, rfl⟩ := List.mem_map.1 hn
    exact wholeWordLength_le w cs
  | symbol text shown => exact Lexicon.wordLength_le text cs
  | blanks => exact run_le _ cs
  | letter =>
    cases cs with
    | nil => exact Nat.le_refl 0
    | cons c cs =>
      simp only [length, List.length_cons]
      split <;> omega
  | identifier =>
    cases cs with
    | nil => exact Nat.le_refl 0
    | cons c cs =>
      by_cases hc : c = '$'
      · subst hc
        have hname := nameLength_le cs
        rw [identifier_length_dollar, List.length_cons]
        split <;> omega
      · rw [identifier_length_cons hc]
        exact nameLength_le _

/-! ## Fixed texts -/

/-- The fixed texts that a pattern looks for, if it looks for nothing else. -/
def words? : Pattern → Option (List String)
  | spelling ws | wholeWord ws => some ws
  | symbol text _ => some [text]
  | _ => none

/-- A first length that is not zero is that of some word. -/
theorem exists_of_firstLength {f : String → Nat} {ws : List String}
    (h : firstLength (ws.map f) ≠ 0) : ∃ w ∈ ws, f w ≠ 0 ∧ firstLength (ws.map f) = f w := by
  rw [firstLength] at h ⊢
  cases hfind : (ws.map f).find? (· != 0) with
  | none =>
    rw [hfind] at h
    exact absurd rfl h
  | some n =>
    obtain ⟨w, hw, rfl⟩ := List.mem_map.1 (List.mem_of_find?_eq_some hfind)
    have hn := List.find?_some hfind
    exact ⟨w, hw, by simpa using hn, rfl⟩

/-- A word that is found is a beginning of the text. -/
theorem prefix_of_wordLength {w : String} {cs : List Char} (h : wordLength w cs ≠ 0) :
    w.toList <+: cs ∧ wordLength w cs = w.toList.length := by
  rw [wordLength] at h ⊢
  by_cases hw : w.toList.isPrefixOf cs = true
  · rw [if_pos hw]
    exact ⟨List.isPrefixOf_iff_prefix.1 hw, String.length_toList.symm⟩
  · rw [if_neg hw] at h
    exact absurd rfl h

/-- A whole word that is found is a beginning of the text, and the text does not go on as a
name. -/
theorem prefix_of_wholeWordLength {w : String} {cs : List Char} (h : wholeWordLength w cs ≠ 0) :
    w.toList <+: cs ∧ EndsWord (cs.drop w.toList.length) ∧
      wholeWordLength w cs = w.toList.length := by
  rw [wholeWordLength] at h ⊢
  cases hrest : cs.drop (wordLength w cs) with
  | nil =>
    rw [hrest] at h
    obtain ⟨hw, hlength⟩ := prefix_of_wordLength h
    refine ⟨hw, ?_, hlength⟩
    rw [← hlength, hrest]
    rintro d ⟨⟩
  | cons c rest =>
    rw [hrest] at h
    by_cases hc : isWordChar c = true
    · exact absurd (if_pos hc) h
    · simp only [hc] at h ⊢
      obtain ⟨hw, hlength⟩ := prefix_of_wordLength h
      refine ⟨hw, ?_, hlength⟩
      rw [← hlength, hrest]
      rintro d ⟨⟩
      exact Bool.eq_false_iff.2 hc

/-- **A pattern of fixed texts finds one of them.** -/
theorem exists_word_of_length {p : Pattern} {ws : List String} {cs : List Char}
    (hp : p.words? = some ws) (h : p.length cs ≠ 0) :
    ∃ w ∈ ws, w.toList <+: cs ∧ p.length cs = w.toList.length := by
  cases p with
  | spelling vs =>
    cases hp
    obtain ⟨w, hw, hne, hlength⟩ := exists_of_firstLength h
    obtain ⟨hstart, hword⟩ := prefix_of_wordLength hne
    exact ⟨w, hw, hstart, hlength.trans hword⟩
  | wholeWord vs =>
    cases hp
    obtain ⟨w, hw, hne, hlength⟩ := exists_of_firstLength h
    obtain ⟨hstart, -, hword⟩ := prefix_of_wholeWordLength hne
    exact ⟨w, hw, hstart, hlength.trans hword⟩
  | symbol text shown =>
    cases hp
    obtain ⟨hstart, hword⟩ := prefix_of_wordLength h
    exact ⟨text, List.mem_singleton.2 rfl, hstart, hword⟩
  | _ => cases hp

/-! ## Comparing two patterns -/

/-- Whether no word of a list is a proper beginning of a word of another one. -/
def keepsShort (ws vs : List String) : Bool :=
  ws.all fun w => vs.all fun v => !w.toList.isPrefixOf v.toList || w == v

/-- Whether some characters are a name or a keyword, as a test. -/
def isWordText (w : String) : Bool := w.toList.head?.any startsName && w.toList.tail.all isWordChar

/-- **Whether a pattern that finds something finds at least as much as another**, in a text that
starts with no numeral and no blank. -/
def covers (p q : Pattern) : Bool :=
  match q with
  | real | natural | decimalTail | blanks | letter => true
  | identifier =>
    match p with
    | real | natural | decimalTail | blanks => true
    | wholeWord ws => ws.all isWordText
    | symbol text _ => text.toList.head?.any fun c => !startsName c
    | _ => false
  | _ =>
    match p, p.words?, q.words? with
    | real, _, _ | natural, _, _ | decimalTail, _, _ | blanks, _, _ => true
    | _, some ws, some vs => keepsShort ws vs
    | _, _, _ => false

/-- The test for names and keywords is right. -/
theorem isWord_of_isWordText {w : String} (h : isWordText w = true) : IsWord w.toList := by
  rw [isWordText, Bool.and_eq_true] at h
  cases hw : w.toList with
  | nil => simp [hw] at h
  | cons c us =>
    rw [hw] at h
    exact ⟨c, us, rfl, by simpa using h.1, h.2⟩

/-- Of two words at the start of a text, neither is longer unless it goes on from the other. -/
theorem length_le_of_keepsShort {ws vs : List String} {w v : String} {cs : List Char}
    (h : keepsShort ws vs = true) (hw : w ∈ ws) (hv : v ∈ vs) (hwc : w.toList <+: cs)
    (hvc : v.toList <+: cs) : v.toList.length ≤ w.toList.length := by
  rcases List.prefix_or_prefix_of_prefix hwc hvc with hwv | hvw
  · have hshort := List.all_eq_true.1 (List.all_eq_true.1 h w hw) v hv
    rw [List.isPrefixOf_iff_prefix.2 hwv, Bool.not_true, Bool.false_or, beq_iff_eq] at hshort
    exact Nat.le_of_eq (by rw [hshort])
  · exact hvw.length_le

/-- No name starts with a character that starts none. -/
theorem identifier_length_eq_zero {c : Char} (h : startsName c = false) (cs : List Char) :
    identifier.length (c :: cs) = 0 := by
  simp only [startsName, Bool.or_eq_false_iff, beq_eq_false_iff_ne] at h
  obtain ⟨⟨hletter, hline⟩, hdollar⟩ := h
  rw [identifier_length_cons hdollar, nameLength, if_neg]
  simp [hletter, hline]

/-- **A keyword that is found is the whole name** at its place. -/
theorem identifier_length_le {ws : List String} {cs : List Char} (hw : ws.all isWordText = true)
    (h : (wholeWord ws).length cs ≠ 0) : identifier.length cs ≤ (wholeWord ws).length cs := by
  obtain ⟨w, hmem, hne, hlength⟩ := exists_of_firstLength h
  obtain ⟨⟨rest, rfl⟩, hend, hword⟩ := prefix_of_wholeWordLength hne
  rw [List.drop_left] at hend
  have hfound : (wholeWord ws).length (w.toList ++ rest) = w.toList.length := hlength.trans hword
  obtain ⟨hsame, hle⟩ := length_append (p := identifier) rfl
    (isWord_of_isWordText (List.all_eq_true.1 hw w hmem)) hend
  rw [hsame, hfound]
  exact hle

variable {c : Char} {cs : List Char}

/-- **What a pattern covers is no longer than what it finds.** -/
theorem length_le_of_covers {p q : Pattern} (hdigit : isDecimalDigit c = false) (hpoint : c ≠ '.')
    (hblank : isBlank c = false) (hpq : p.covers q = true) (h : p.length (c :: cs) ≠ 0) :
    q.length (c :: cs) ≤ p.length (c :: cs) := by
  obtain ⟨hreal, hnatural, htail⟩ := Lexicon.numeralLength_of_not_digit hdigit hpoint cs
  have hblanks : blanks.length (c :: cs) = 0 := by simp [length, run, hblank]
  have hzero : q.length (c :: cs) = 0 → q.length (c :: cs) ≤ p.length (c :: cs) :=
    fun hq => by omega
  -- two fixed texts are compared by the words that they find
  have hfixed : ∀ {ws vs}, p.words? = some ws → q.words? = some vs → keepsShort ws vs = true →
      q.length (c :: cs) ≤ p.length (c :: cs) := by
    intro ws vs hws hvs hshort
    by_cases hq : q.length (c :: cs) = 0
    · exact hzero hq
    · obtain ⟨w, hw, hwc, hwlength⟩ := exists_word_of_length hws h
      obtain ⟨v, hv, hvc, hvlength⟩ := exists_word_of_length hvs hq
      rw [hwlength, hvlength]
      exact length_le_of_keepsShort hshort hw hv hwc hvc
  cases q with
  | real => exact hzero hreal
  | natural => exact hzero hnatural
  | decimalTail => exact hzero htail
  | blanks => exact hzero hblanks
  | letter =>
    show (if isAsciiLetter c then 1 else 0) ≤ _
    split <;> omega
  | identifier =>
    cases p with
    | real => exact absurd hreal h
    | natural => exact absurd hnatural h
    | decimalTail => exact absurd htail h
    | blanks => exact absurd hblanks h
    | wholeWord ws => exact identifier_length_le hpq h
    | symbol text shown =>
      cases hc : startsName c with
      | true => exact absurd (Lexicon.wordLength_of_avoids hpq hc) h
      | false => exact hzero (identifier_length_eq_zero hc cs)
    | _ => cases hpq
  | _ =>
    cases p with
    | real => exact absurd hreal h
    | natural => exact absurd hnatural h
    | decimalTail => exact absurd htail h
    | blanks => exact absurd hblanks h
    | letter => cases hpq
    | identifier => cases hpq
    | _ => exact hfixed rfl rfl hpq

/-! ## Numerals -/

/-- Whether a pattern finds numerals. -/
def isNumeral : Pattern → Bool
  | real | natural | decimalTail => true
  | _ => false

/-- Whether a character starts a numeral. -/
def startsNumeral (c : Char) : Bool := isDecimalDigit c || c == '.'

/-- Whether a pattern finds no text that starts like a numeral. -/
def leavesNumerals : Pattern → Bool
  | real | natural | decimalTail => false
  | blanks | letter | identifier => true
  | q => q.avoids startsNumeral

/-- What starts a numeral starts no name. -/
theorem startsName_of_startsNumeral (h : startsNumeral c = true) : startsName c = false := by
  rw [Bool.eq_false_iff]
  intro hc
  obtain ⟨hdigit, -, hpoint, -⟩ := plain_of_startsName hc
  simp [startsNumeral, hdigit, hpoint] at h

/-- **A pattern that leaves the numerals finds none.** -/
theorem length_of_leavesNumerals {q : Pattern} (hq : q.leavesNumerals = true)
    (hc : startsNumeral c = true) (hblank : isBlank c = false) : q.length (c :: cs) = 0 := by
  have hname := startsName_of_startsNumeral hc
  cases q with
  | real => cases hq
  | natural => cases hq
  | decimalTail => cases hq
  | blanks => simp [length, run, hblank]
  | letter =>
    have hletter : isAsciiLetter c = false := by
      simp only [startsName, Bool.or_eq_false_iff] at hname
      exact hname.1.1
    simp [length, hletter]
  | identifier => exact identifier_length_eq_zero hname cs
  | _ => exact length_of_avoids hq hc

/-- A numeral with a point starts with digits, and has a point and places behind them. -/
theorem run_add_two_le (h : realLength cs ≠ 0) :
    run isDecimalDigit cs ≠ 0 ∧ run isDecimalDigit cs + 2 ≤ realLength cs := by
  rw [realLength] at h ⊢
  cases hrest : cs.drop (run isDecimalDigit cs) with
  | nil =>
    rw [hrest] at h
    exact absurd rfl h
  | cons c rest =>
    rw [hrest] at h
    dsimp only at h ⊢
    split at h
    · exact absurd rfl h
    · rename_i hparts
      rw [if_neg hparts]
      rw [not_or] at hparts
      exact ⟨hparts.1, by omega⟩

/-- **Digits with a decimal tail are a numeral with a point**, which is no shorter. -/
theorem tailLength_le_realLength (h : run isDecimalDigit cs ≠ 0) :
    tailLength cs ≤ realLength cs := by
  rcases tailLength_eq cs with htail | ⟨a, b, rest, hrest, ha, hb, htail⟩
  · omega
  · have hplaces : 2 ≤ run isDecimalDigit (a :: b :: rest) := by
      rw [run, List.takeWhile_cons_of_pos ha, List.takeWhile_cons_of_pos hb]
      simp only [List.length_cons]
      omega
    rw [htail, realLength, hrest]
    dsimp only
    rw [if_neg (by simp; omega)]
    omega

end Pattern

/-! ## Tokens -/

variable {position : Nat} {cs : List Char} {t : Token}

/-- **The token of a definition** has the characters that its pattern finds. -/
theorem Definition.lexeme_of_token? {d : Definition} (h : d.token? position cs = some t) :
    d.pattern.length cs ≠ 0 ∧ t.lexeme.toList = cs.take (d.pattern.length cs) := by
  rw [token?] at h
  split at h
  · cases h
  · rename_i hn
    cases h
    exact ⟨hn, String.toList_ofList⟩

/-- A token is as long as what its pattern finds. -/
theorem Definition.length_lexeme {d : Definition} (h : d.token? position cs = some t) :
    t.lexeme.length = d.pattern.length cs := by
  rw [← String.length_toList, (lexeme_of_token? h).2, List.length_take]
  exact Nat.min_eq_left (d.pattern.length_le cs)

/-- A token stands where it was looked for. -/
theorem Definition.position_of_token? {d : Definition} (h : d.token? position cs = some t) :
    t.position = position := by
  rw [token?] at h
  split at h <;> cases h
  rfl

/-- A definition that finds something makes a token. -/
theorem Definition.exists_token? {d : Definition} (position : Nat)
    (h : d.pattern.length cs ≠ 0) :
    ∃ t, d.token? position cs = some t :=
  ⟨_, if_neg h⟩

/-- A definition that makes no token finds nothing. -/
theorem Definition.length_eq_zero {d : Definition} (h : d.token? position cs = none) :
    d.pattern.length cs = 0 := by
  by_contra hne
  obtain ⟨t, ht⟩ := exists_token? position hne
  rw [h] at ht
  cases ht

namespace Lexicon

/-! ## The first match is a longest one -/

variable {l : Lexicon}

/-- Where a definition finds something, some token is first. -/
theorem exists_first?_of_length {d : Definition} (position : Nat) (hd : d ∈ l)
    (h : d.pattern.length cs ≠ 0) :
    ∃ t, l.first? position cs = some t := by
  rw [← Option.isSome_iff_exists, first?, List.findSome?_isSome_iff]
  exact ⟨d, hd, Option.isSome_iff_exists.2 (Definition.exists_token? position h)⟩

/-- Definitions that find nothing may be left out everywhere. -/
theorem first?_filter {q : Definition → Bool}
    (h : ∀ d ∈ l, q d = false → d.pattern.length cs = 0) :
    Lexicon.first? (l.filter q) position cs = l.first? position cs := by
  induction l with
  | nil => rfl
  | cons d l ih =>
    have ih := ih fun e he => h e (List.mem_cons_of_mem d he)
    cases hq : q d with
    | true =>
      rw [List.filter_cons_of_pos hq]
      simp only [first?, List.findSome?_cons] at ih ⊢
      rw [ih]
    | false =>
      rw [List.filter_cons_of_neg (by simp [hq]), ih]
      exact (first?_cons_of_none (token?_eq_none (h d List.mem_cons_self hq))).symm

/-- **In an order where every definition covers those behind it, the first match is a longest
one.** -/
theorem length_le_of_pairwise
    (hl : l.Pairwise fun d e => d.pattern.length cs ≠ 0 →
      e.pattern.length cs ≤ d.pattern.length cs)
    (h : l.first? position cs = some t) : ∀ d ∈ l, d.pattern.length cs ≤ t.lexeme.length := by
  induction l with
  | nil => cases h
  | cons e l ih =>
    obtain ⟨he, hl⟩ := List.pairwise_cons.1 hl
    cases htoken : e.token? position cs with
    | some u =>
      rw [first?_cons_of_some htoken] at h
      cases h
      have hlength := Definition.length_lexeme htoken
      have hne := (Definition.lexeme_of_token? htoken).1
      rintro d (_ | ⟨_, hd⟩)
      · omega
      · exact hlength ▸ he d hd hne
    | none =>
      have hzero := Definition.length_eq_zero htoken
      rw [first?_cons_of_none htoken] at h
      rintro d (_ | ⟨_, hd⟩)
      · omega
      · exact ih hl h d hd

/-- Of the numerals, the first one that is found is a longest one. -/
theorem length_le_of_numerals (h : numerals.first? position cs = some t) :
    ∀ d ∈ numerals, d.pattern.length cs ≤ t.lexeme.length := by
  have htail : Pattern.run isDecimalDigit cs ≠ 0 → Pattern.tailLength cs ≤ Pattern.realLength cs :=
    Pattern.tailLength_le_realLength
  by_cases hreal : Pattern.realLength cs = 0
  · -- without a numeral with a point, no digits have a decimal tail
    refine length_le_of_pairwise ?_ h
    have hnatural : Pattern.run isDecimalDigit cs ≠ 0 →
        Pattern.tailLength cs ≤ Pattern.run isDecimalDigit cs := by
      intro hne
      have := htail hne
      omega
    simp only [numerals, List.pairwise_cons, List.forall_mem_cons, Pattern.length,
      List.not_mem_nil, false_implies, implies_true, and_true, List.Pairwise.nil]
    exact ⟨⟨fun hne => absurd hreal hne, fun hne => absurd hreal hne⟩, hnatural⟩
  · obtain ⟨u, hu⟩ : ∃ u, (⟨.real, .real, none⟩ : Definition).token? position cs = some u :=
      Definition.exists_token? position hreal
    rw [numerals, first?_cons_of_some hu] at h
    obtain rfl := Option.some.inj h
    have hlength : u.lexeme.length = Pattern.realLength cs := Definition.length_lexeme hu
    obtain ⟨hdigits, hrun⟩ := Pattern.run_add_two_le hreal
    simp only [numerals, List.forall_mem_cons, Pattern.length, hlength, List.not_mem_nil,
      false_implies, implies_true, and_true]
    exact ⟨Nat.le_refl _, by omega, htail hdigits⟩

/-- The definitions of the built-in lexicons cover those behind them. -/
theorem covers_of_builtin : ∀ l ∈ builtin,
    l.Pairwise fun d e => d.pattern.covers e.pattern = true := by
  decide +kernel

set_option maxRecDepth 10000 in
/-- The built-in lexicons have the same numerals, and nothing else that starts like one. -/
theorem numerals_of_builtin : ∀ l ∈ builtin,
    l.filter (·.pattern.isNumeral) = numerals ∧
      ∀ d ∈ l, d.pattern.isNumeral = false → d.pattern.leavesNumerals = true := by
  decide

/-- **What a built-in lexicon finds first is as long as what any of its definitions finds**, where
no blank stands. -/
theorem length_le_of_first? (hl : l ∈ builtin) {c : Char} {cs : List Char}
    (hblank : isBlank c = false) (h : l.first? position (c :: cs) = some t) :
    ∀ d ∈ l, d.pattern.length (c :: cs) ≤ t.lexeme.length := by
  obtain ⟨hnumerals, hothers⟩ := numerals_of_builtin l hl
  by_cases hc : Pattern.startsNumeral c = true
  · -- only the numerals find anything
    have hzero : ∀ d ∈ l, d.pattern.isNumeral = false → d.pattern.length (c :: cs) = 0 :=
      fun d hd hn => Pattern.length_of_leavesNumerals (hothers d hd hn) hc hblank
    rw [← first?_filter hzero, hnumerals] at h
    intro d hd
    cases hn : d.pattern.isNumeral with
    | true => exact length_le_of_numerals h d (hnumerals ▸ List.mem_filter.2 ⟨hd, hn⟩)
    | false =>
      rw [hzero d hd hn]
      exact Nat.zero_le _
  · -- no numeral is found, and the order decides
    simp only [Pattern.startsNumeral, Bool.or_eq_true, beq_iff_eq, not_or,
      Bool.not_eq_true] at hc
    obtain ⟨hdigit, hpoint⟩ := hc
    refine length_le_of_pairwise ((covers_of_builtin l hl).imp ?_) h
    intro d e hde
    exact Pattern.length_le_of_covers hdigit hpoint hblank hde

/-! ## Names -/

/-- The lexicons of whole words. -/
def ofWords : List Lexicon := [logic, pricing]

/-- The lexicons of whole words are built in, find words as a whole, and read names. -/
theorem of_mem_ofWords : ∀ l ∈ ofWords, l ∈ builtin ∧
    l.all (·.pattern.keepsWords) = true ∧ (⟨.identifier, .identifier, none⟩ : Definition) ∈ l := by
  decide

/-- **The first token at a letter or an underscore is the whole run** of letters, digits and
underscores. -/
theorem lexeme_of_name (hl : l ∈ ofWords) {c : Char} (hc : isAsciiLetter c = true ∨ c = '_')
    (position : Nat) (cs : List Char) :
    ∃ t, l.first? position (c :: cs) = some t ∧
      t.lexeme.toList = (c :: cs).takeWhile isWordChar := by
  obtain ⟨hbuiltin, hkeeps, hname⟩ := of_mem_ofWords l hl
  have hstart : startsName c = true := by rcases hc with hc | rfl <;> simp [startsName, *]
  have hword : isWordChar c = true := by rcases hc with hc | rfl <;> simp [isWordChar, *]
  have hdollar : c ≠ '$' := by
    rintro rfl
    cases hword
  -- the pattern of names finds the whole run
  have hidentifier : Pattern.identifier.length (c :: cs) = Pattern.run isWordChar (c :: cs) := by
    have hfirst : (isAsciiLetter c || c == '_') = true := by simpa using hc
    rw [Pattern.identifier_length_cons hdollar, Pattern.nameLength, if_pos hfirst, Pattern.run,
      Pattern.run, List.takeWhile_cons_of_pos hword, List.length_cons, Nat.add_comm]
  have hpos : Pattern.run isWordChar (c :: cs) ≠ 0 := by
    rw [Pattern.run, List.takeWhile_cons_of_pos hword]
    exact Nat.succ_ne_zero _
  obtain ⟨t, ht⟩ := exists_first?_of_length position hname (hidentifier ▸ hpos)
  refine ⟨t, ht, ?_⟩
  -- the first match is no shorter, and no definition finds more than the run
  have hlong := length_le_of_first? hbuiltin (plain_of_startsName hstart).2.1 ht _ hname
  obtain ⟨d, hd, htoken⟩ := List.exists_of_findSome?_eq_some ht
  have hlength := Definition.length_lexeme htoken
  obtain ⟨hall, hend⟩ := take_run (c :: cs)
  have hshort : d.pattern.length (c :: cs) ≤ Pattern.run isWordChar (c :: cs) := by
    have hrun : IsWord ((c :: cs).take (Pattern.run isWordChar (c :: cs))) := by
      rw [Formula.take_run, List.takeWhile_cons_of_pos hword]
      exact ⟨c, _, rfl, hstart, List.all_takeWhile⟩
    obtain ⟨hsame, hle⟩ := Pattern.length_append (List.all_eq_true.1 hkeeps d hd) hrun hend
    rw [List.take_append_drop] at hsame
    rw [hsame]
    exact Nat.le_trans hle (List.length_take_le _ _)
  rw [hidentifier] at hlong
  rw [(Definition.lexeme_of_token? htoken).2, ← Formula.take_run]
  congr 1
  omega

/-- Each token of a text is the first one at its place. -/
theorem first?_of_mem_scan {start : Nat} {ts : List Token} (h : l.scan start cs = .ok ts) :
    ∀ t ∈ ts, start ≤ t.position ∧
      l.first? t.position (cs.drop (t.position - start)) = some t := by
  fun_induction scan l start cs generalizing ts with
  | case1 =>
    cases h
    exact List.forall_mem_nil _
  | case2 => cases h
  | case3 start c rest t ht us hus ih =>
    cases h
    have hplace : t.position = start := by
      obtain ⟨d, -, hd⟩ := List.exists_of_findSome?_eq_some ht
      exact Definition.position_of_token? hd
    refine List.forall_mem_cons.2 ⟨?_, fun u hu => ?_⟩
    · rw [hplace, Nat.sub_self]
      exact ⟨Nat.le_refl _, ht⟩
    · obtain ⟨hle, hu⟩ := ih hus u hu
      rw [List.drop_drop] at hu
      refine ⟨by omega, ?_⟩
      rw [← hu]
      congr 2
      omega
  | case4 => cases h

/-! ## The main result -/

/-- **The first match of a built-in lexicon is a longest one**: at each place of a source that holds
no blank, if any definition matches, then the first one that does finds at least as many characters.
Hence in the lexicons of whole words a token that starts with a letter or an underscore is the whole
run of letters, digits and underscores at its place. -/
theorem maximal_munch :
    (∀ l ∈ builtin, ∀ (source : String) (position : Nat) (c : Char),
      source.toList[position]? = some c → isBlank c = false →
      ∀ d ∈ l, ∀ u, d.tokenAt? source position = some u →
      ∃ t, l.first? position (source.toList.drop position) = some t ∧
        u.lexeme.length ≤ t.lexeme.length) ∧
    (∀ l ∈ ofWords, ∀ (source : String) (ts : List Token), l.tokenize source = .ok ts →
      ∀ t ∈ ts, ∀ c, source.toList[t.position]? = some c → isAsciiLetter c = true ∨ c = '_' →
      t.lexeme.toList = (source.toList.drop t.position).takeWhile isWordChar) := by
  constructor
  · intro l hl source position c hc hblank d hd u hu
    obtain ⟨hlt, hget⟩ := List.getElem?_eq_some_iff.1 hc
    rw [Definition.tokenAt?, List.drop_eq_getElem_cons hlt, hget] at hu
    rw [List.drop_eq_getElem_cons hlt, hget]
    obtain ⟨hne, -⟩ := Definition.lexeme_of_token? hu
    obtain ⟨t, ht⟩ := exists_first?_of_length position hd hne
    refine ⟨t, ht, ?_⟩
    rw [Definition.length_lexeme hu]
    exact length_le_of_first? hl hblank ht d hd
  · intro l hl source ts h t ht c hc hletter
    obtain ⟨hlt, hget⟩ := List.getElem?_eq_some_iff.1 hc
    have hfirst := (first?_of_mem_scan h t ht).2
    rw [Nat.sub_zero, List.drop_eq_getElem_cons hlt, hget] at hfirst
    rw [List.drop_eq_getElem_cons hlt, hget]
    obtain ⟨u, hu, hlexeme⟩ := lexeme_of_name hl hletter t.position _
    rw [hfirst] at hu
    cases hu
    exact hlexeme

/-- In `if_x>=2` the sign `>` is found within a longer token, and `if_x` is one name. -/
theorem maximal_munch_name :
    (∃ t, logic.first? 4 ("if_x>=2".toList.drop 4) = some t ∧ ">".length ≤ t.lexeme.length) ∧
    (Grammar.plainWord .identifier "if_x").lexeme.toList
      = ("if_x>=2".toList.drop 0).takeWhile isWordChar := by
  have hscan : logic.tokenize "if_x>=2" = .ok [⟨.identifier, "if_x", "if_x", 0⟩,
      ⟨.operator .ge, ">=", ">=", 4⟩, ⟨.natural, "2", "2", 6⟩] := by
    decide +kernel
  have hsign : (sign ">" ">" .gt).tokenAt? "if_x>=2" 4 = some ⟨.operator .gt, ">", ">", 4⟩ := by
    decide
  constructor
  · exact maximal_munch.1 logic (by decide) "if_x>=2" 4 '>' rfl rfl (sign ">" ">" .gt) (by decide)
      _ hsign
  · exact maximal_munch.2 logic (by decide) "if_x>=2" _ hscan _ List.mem_cons_self 'i' rfl
      (Or.inl rfl)

end Lexicon

end Formula
