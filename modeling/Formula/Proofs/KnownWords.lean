/-
# Words of the built-in lexicons

A word that a built-in lexicon finds alone, it also finds in front of everything that ends words,
and a symbol in front of everything that does not make it longer. So **each built-in lexicon knows
the words of its own kinds** (`knows_operator`, `knows_natural`), **and every name that
it finds in a text is one of its names** (`names_of_first?`).
-/
import Formula.Proofs.DoubleText
import Formula.Proofs.Rereading
import Formula.Proofs.Spacing

namespace Formula

open Grammar

/-! ## Patterns before the end of a word -/

namespace Pattern

variable {p : Pattern} {a : Char} {us cs more : List Char}

/-- Whether a pattern finds in a word, where the word ends, what it finds in the word alone. -/
def endsWithWords : Pattern → Bool
  | spelling ws => ws.all fun w => w.toList.all isWordChar
  | letter => true
  | p => p.keepsWords

/-- **Before the end of a word, a pattern finds what it finds in the word alone.** -/
theorem length_word (hp : p.endsWithWords = true) (hu : IsWord us) (h : EndsWord cs) :
    p.length (us ++ cs) = p.length us := by
  cases p with
  | spelling ws =>
    have hword : ∀ w ∈ ws, wordLength w (us ++ cs) = wordLength w us := by
      intro w hw
      simp only [wordLength, List.isPrefixOf_iff_prefix,
        prefix_append_iff (List.all_eq_true.1 hp w hw) h]
    show firstLength (ws.map _) = firstLength (ws.map _)
    rw [List.map_congr_left hword]
  | letter =>
    obtain ⟨c, us, rfl, -⟩ := hu
    rfl
  | _ =>
    refine (length_append ?_ hu h).1
    exact hp

/-- Whether a pattern finds, where a symbol stands, what it finds in the symbol alone, unless one of
some characters follows. -/
def settles (a : Char) (us more : List Char) : Pattern → Bool
  | real | natural | decimalTail => !startsNumeral a
  | symbol text _ =>
    !(a :: us).isPrefixOf text.toList
      || (text.toList.drop (us.length + 1)).head?.all more.contains
  | blanks => !isBlank a
  | letter | identifier => !startsName a
  | p => p.avoids (· == a)

/-- Behind a symbol, a longer symbol is found only where its next character follows. -/
theorem wordLength_symbol {text : String}
    (ht : (!(a :: us).isPrefixOf text.toList
      || (text.toList.drop (us.length + 1)).head?.all more.contains) = true)
    (h : ∀ c ∈ cs.head?, c ∉ more) :
    wordLength text (a :: us ++ cs) = wordLength text (a :: us) := by
  have hprefix : text.toList <+: a :: us ++ cs ↔ text.toList <+: a :: us := by
    constructor
    · intro hp
      rcases List.prefix_or_prefix_of_prefix hp (List.prefix_append (a :: us) cs) with hp | hlong
      · exact hp
      · obtain ⟨vs, hvs⟩ := hlong
        rw [← hvs, List.prefix_append_right_inj] at hp
        cases vs with
        | nil =>
          rw [List.append_nil] at hvs
          exact hvs ▸ List.prefix_rfl
        -- the symbol would go on with a character that does not follow
        | cons v vs =>
          obtain ⟨ds, rfl⟩ := hp
          have hnext : v ∉ more := h v rfl
          have hlong : (a :: us).isPrefixOf (a :: us ++ v :: vs) = true :=
            List.isPrefixOf_iff_prefix.2 (List.prefix_append _ _)
          have hlength : us.length + 1 = (a :: us).length := rfl
          rw [← hvs, hlong, hlength, List.drop_left] at ht
          simp [hnext] at ht
    · exact fun hp => hp.trans (List.prefix_append _ _)
  simp only [wordLength, List.isPrefixOf_iff_prefix, hprefix]

/-- **Where a symbol stands, a pattern finds what it finds in the symbol alone**, unless the symbol
goes on. -/
theorem length_symbol (hp : p.settles a us more = true) (h : ∀ c ∈ cs.head?, c ∉ more) :
    p.length (a :: us ++ cs) = p.length (a :: us) := by
  have hnumeral : startsNumeral a = false → ∀ ds, realLength (a :: ds) = 0 ∧
      run isDecimalDigit (a :: ds) = 0 ∧ tailLength (a :: ds) = 0 := by
    intro ha
    simp only [startsNumeral, Bool.or_eq_false_iff, beq_eq_false_iff_ne] at ha
    exact Lexicon.numeralLength_of_not_digit ha.1 ha.2
  -- a pattern that finds nothing behind the first character finds nothing in both texts
  have hzero : (∀ ds, p.length (a :: ds) = 0) → p.length (a :: us ++ cs) = p.length (a :: us) := by
    intro hp
    rw [List.cons_append, hp, hp]
  cases p with
  | real => exact hzero fun ds => (hnumeral (by simpa [settles] using hp) ds).1
  | natural => exact hzero fun ds => (hnumeral (by simpa [settles] using hp) ds).2.1
  | decimalTail => exact hzero fun ds => (hnumeral (by simpa [settles] using hp) ds).2.2
  | spelling ws => exact hzero fun ds => length_of_avoids (p := (· == a)) hp (beq_self_eq_true a)
  | wholeWord ws => exact hzero fun ds => length_of_avoids (p := (· == a)) hp (beq_self_eq_true a)
  | symbol text shown => exact wordLength_symbol hp h
  | blanks =>
    have hblank : isBlank a = false := by simpa [settles] using hp
    exact hzero fun ds => by simp [length, run, hblank]
  | letter =>
    have hname : startsName a = false := by simpa [settles] using hp
    have hletter : isAsciiLetter a = false := by
      simp only [startsName, Bool.or_eq_false_iff] at hname
      exact hname.1.1
    exact hzero fun ds => by simp [length, hletter]
  | identifier =>
    have hname : startsName a = false := by simpa [settles] using hp
    exact hzero (identifier_length_eq_zero hname)

end Pattern

/-- **A pattern of whole words that finds a word finds all of it.** -/
theorem Pattern.endsWord_of_length {p : Pattern} {cs : List Char} (hp : p.keepsWords = true)
    (hne : p.length cs ≠ 0) (hw : IsWord (cs.take (p.length cs))) :
    EndsWord (cs.drop (p.length cs)) := by
  obtain ⟨c, us, hchars, hstarts, -⟩ := hw
  obtain ⟨rest, rfl⟩ : ∃ rest, cs = c :: rest := by
    cases cs with
    | nil =>
      rw [List.take_nil] at hchars
      cases hchars
    | cons d rest =>
      rw [List.take_cons (Nat.pos_of_ne_zero hne)] at hchars
      cases hchars
      exact ⟨rest, rfl⟩
  obtain ⟨hdigit, hblank, hpoint, -⟩ := plain_of_startsName hstarts
  obtain ⟨hreal, hnatural, htail⟩ := Lexicon.numeralLength_of_not_digit hdigit hpoint rest
  cases p with
  | real => exact absurd hreal hne
  | natural => exact absurd hnatural hne
  | decimalTail => exact absurd htail hne
  | blanks => exact absurd (by simp [length, run, hblank]) hne
  | symbol text shown =>
    have hword : (isWordChar c || startsName c) = true := by rw [hstarts, Bool.or_true]
    exact absurd (Lexicon.wordLength_of_avoids hp hword) hne
  | identifier => exact (Lexicon.isWord_of_identifier hne).2
  | wholeWord ws =>
    obtain ⟨w, -, hfound, hlength⟩ := exists_of_firstLength hne
    obtain ⟨-, hend, hword⟩ := prefix_of_wholeWordLength hfound
    have hwhole : (wholeWord ws).length (c :: rest) = w.toList.length := hlength.trans hword
    rwa [hwhole]
  | spelling ws => cases hp
  | letter => cases hp

/-- A token has the kind of its definition. -/
theorem Definition.kind_of_token? {d : Definition} {position : Nat} {cs : List Char} {t : Token}
    (h : d.token? position cs = some t) : t.kind = d.kind := by
  rw [token?] at h
  split at h <;> cases h
  rfl

/-- A token has the canonical value of its definition, if there is one. -/
theorem Definition.value_of_token? {d : Definition} {position : Nat} {cs : List Char} {t : Token}
    (h : d.token? position cs = some t) : t.value = d.value.getD t.lexeme := by
  rw [token?] at h
  split at h <;> cases h
  rfl

/-- A token of a pattern of fixed texts is one of them. -/
theorem Definition.lexeme_mem_words {d : Definition} {ws : List String} {position : Nat}
    {cs : List Char} {t : Token} (hd : d.pattern.words? = some ws)
    (h : d.token? position cs = some t) : t.lexeme ∈ ws := by
  obtain ⟨hne, hlexeme⟩ := lexeme_of_token? h
  obtain ⟨w, hw, hprefix, hlength⟩ := Pattern.exists_word_of_length hd hne
  have htext : t.lexeme = w := by
    refine String.toList_inj.1 ?_
    rw [hlexeme, hlength, ← List.prefix_iff_eq_take.1 hprefix]
  rwa [htext]

namespace Lexicon

variable {l : Lexicon} {a : Char} {us cs more : List Char} {t : Token} {name : String}

/-! ## Words and symbols -/

/-- **A word that is found alone is known** when it stands only where words end. -/
theorem knows_of_word (hl : l.all (·.pattern.endsWithWords) = true) (hu : IsWord t.lexeme.toList)
    (ht : l.first? 0 t.lexeme.toList = some { t with position := 0 })
    (h : ∀ cs, t.Precedes cs → EndsWord cs) : l.Knows t where
  lexeme := by
    intro hempty
    obtain ⟨c, us, hc, -⟩ := hu
    rw [hempty] at hc
    cases hc
  first? := by
    intro position cs hcs
    have hfirst : l.first? position (t.lexeme.toList ++ cs) = l.first? position t.lexeme.toList :=
      first?_congr fun d hd => token?_append
        (Pattern.length_word (List.all_eq_true.1 hl d hd) hu (h cs hcs)) (Pattern.length_le _ _)
    rw [hfirst, first?_position l position 0, ht]
    rfl

/-- Whether a lexicon finds a symbol as if it stood alone, unless one of some characters follows. -/
def settles (l : Lexicon) (symbol : String) (more : List Char) : Bool :=
  match symbol.toList with
  | [] => false
  | a :: us => l.all (·.pattern.settles a us more)

/-- **A symbol is found as if it stood alone** where it does not go on. -/
theorem first?_symbol {symbol : String} (hl : l.settles symbol more = true)
    (h : ∀ c ∈ cs.head?, c ∉ more) (position : Nat) :
    l.first? position (symbol.toList ++ cs) = l.first? position symbol.toList := by
  unfold settles at hl
  split at hl
  · cases hl
  · rename_i hsymbol
    rw [hsymbol]
    exact first?_congr fun d hd => token?_append
      (Pattern.length_symbol (List.all_eq_true.1 hl d hd) h) (Pattern.length_le _ _)

/-- **A symbol that is found alone is known** when it stands only where it does not go on. -/
theorem knows_of_symbol (hl : l.settles t.lexeme more = true)
    (ht : l.first? 0 t.lexeme.toList = some { t with position := 0 })
    (h : ∀ cs, t.Precedes cs → ∀ c ∈ cs.head?, c ∉ more) : l.Knows t where
  lexeme := by
    intro hempty
    rw [hempty] at hl
    cases hl
  first? := by
    intro position cs hcs
    rw [first?_symbol hl (h cs hcs), first?_position l position 0, ht]
    rfl

/-! ## Words with one spelling -/

/-- The kinds of tokens that a lexicon finds. -/
def kinds (l : Lexicon) : List Kind := l.map (·.kind)

/-- In the built-in lexicons, words end with words. -/
theorem endsWithWords_of_builtin :
    ∀ l ∈ builtin, l.all (·.pattern.endsWithWords) = true := by
  decide

/-- The sign of inequality as an exclamation mark spells it in front of an equals sign. -/
def unequalWord : Token := word (.operator .ne) "<>" "!="

/-- The words of the language that are spelled with letters. -/
def keywords : List Token :=
  [booleanWord true, booleanWord false, plainWord .ifWord "if", plainWord .elseWord "else"]

/-- Brackets and the separator of arguments. -/
def punctuation : List Token :=
  [openWord .paren, closeWord .paren, openWord .brace, closeWord .brace, comma]

/-- The words that have one spelling each. -/
def fixedWords : List Token :=
  Operator.all.map operatorWord ++ [unequalWord] ++ keywords ++ punctuation
    ++ ["!", "!!"].map factorialWord

/-- The characters with which a symbol may go on to a longer one. -/
def lengthening (t : Token) : List Char :=
  match t.kind with
  | .operator op => if op.isRelation then ['=', '>'] else []
  | .factorial => ['!', '=']
  | _ => []

/-- **A word with one spelling is found alone**, and the symbols among these words go on with few
characters only. The words are taken together since the kernel runs each lexicon once then. -/
theorem alone_of_fixed : ∀ l ∈ builtin, ∀ t ∈ fixedWords, t.kind ∈ l.kinds →
    l.first? 0 t.lexeme.toList = some { t with position := 0 } ∧
      (Pattern.isWordText t.lexeme = false → l.settles t.lexeme (lengthening t) = true) := by
  decide +kernel

/-- What a word with one spelling needs behind it in order to be found. -/
def Ends (t : Token) (cs : List Char) : Prop :=
  if Pattern.isWordText t.lexeme then EndsWord cs else ∀ c ∈ cs.head?, c ∉ lengthening t

/-- **A built-in lexicon knows a word with one spelling** that ends in front of what it precedes. -/
theorem knows_fixed (hl : l ∈ builtin) (ht : t ∈ fixedWords) (hk : t.kind ∈ l.kinds)
    (h : ∀ cs, t.Precedes cs → Ends t cs) : l.Knows t := by
  obtain ⟨halone, hsettles⟩ := alone_of_fixed l hl t ht hk
  cases hword : Pattern.isWordText t.lexeme with
  | true =>
    refine knows_of_word (endsWithWords_of_builtin l hl) (Pattern.isWord_of_isWordText hword)
      halone fun cs hcs => ?_
    have hends := h cs hcs
    rwa [Ends, if_pos hword] at hends
  | false =>
    refine knows_of_symbol (hsettles hword) halone fun cs hcs => ?_
    have hends := h cs hcs
    rwa [Ends, if_neg (by simp [hword])] at hends

/-! ## Operators and keywords -/

/-- Before a space, words end. -/
theorem endsWord_of_space (h : cs.head? = some ' ') : EndsWord cs := by
  intro c hc
  rw [h] at hc
  cases hc
  rfl

/-- What opens starts with a character that lengthens no relation. -/
theorem exists_of_opens (h : Opens cs) : ∃ c ds, cs = c :: ds ∧ c ≠ '=' ∧ c ≠ '>' := by
  obtain ⟨c, hc, _, heq, hgt, _⟩ := h
  cases cs with
  | nil => cases hc
  | cons d ds =>
    cases hc
    exact ⟨_, ds, rfl, heq, hgt⟩

/-- An operator ends in front of what it precedes if it is a connective exactly where it is spelled
with letters. -/
theorem ends_of_operator {op : Operator} (hk : t.kind = .operator op)
    (hword : Pattern.isWordText t.lexeme = op.isConnective) (h : t.Precedes cs) : Ends t cs := by
  rw [Token.Precedes, hk] at h
  dsimp only at h
  rw [Ends, hword, lengthening, hk]
  dsimp only
  cases hc : op.isConnective with
  | true =>
    rw [hc, if_pos rfl] at h
    exact endsWord_of_space h
  | false =>
    rw [hc, if_neg Bool.false_ne_true] at h
    rw [if_neg Bool.false_ne_true]
    intro c hhead
    cases hr : op.isRelation with
    | false => exact List.not_mem_nil
    | true =>
      obtain ⟨d, ds, rfl, heq, hgt⟩ := exists_of_opens (h hr)
      cases hhead
      simp [heq, hgt]

/-- The words of the operators have one spelling. -/
theorem operatorWord_mem (op : Operator) : operatorWord op ∈ fixedWords := by
  have hop : op ∈ Operator.all := by cases op <;> decide
  simp only [fixedWords, List.mem_append]
  exact .inl (.inl (.inl (.inl (List.mem_map_of_mem hop))))

/-- **A built-in lexicon knows its operators.** -/
theorem knows_operator (hl : l ∈ builtin) {op : Operator} (h : .operator op ∈ l.kinds) :
    l.Knows (operatorWord op) := by
  refine knows_fixed hl (operatorWord_mem op) h fun cs hcs => ends_of_operator rfl ?_ hcs
  cases op <;> decide

/-- **A built-in lexicon with equations reads `!=` as an inequality.** -/
theorem knows_unequalWord (hl : l ∈ builtin) (h : .operator .eq ∈ l.kinds) :
    l.Knows unequalWord := by
  have hkind : ∀ l ∈ builtin, .operator .eq ∈ l.kinds → unequalWord.kind ∈ l.kinds := by decide
  have hmem : unequalWord ∈ fixedWords := by decide
  exact knows_fixed hl hmem (hkind l hl h) fun cs hcs =>
    ends_of_operator rfl (by decide) hcs

/-- Behind keywords, words end. -/
theorem endsWord_of_keyword (ht : t ∈ keywords) (h : t.Precedes cs) : EndsWord cs := by
  simp only [keywords, List.mem_cons, List.not_mem_nil, or_false] at ht
  rcases ht with rfl | rfl | rfl | rfl
  · exact Boundary.endsWord h
  · exact Boundary.endsWord h
  · exact endsWord_of_space h
  · exact endsWord_of_space h

/-- **A built-in lexicon knows its keywords.** -/
theorem knows_keyword (hl : l ∈ builtin) (ht : t ∈ keywords) (hk : t.kind ∈ l.kinds) :
    l.Knows t := by
  have hletters : ∀ t ∈ keywords, Pattern.isWordText t.lexeme = true := by decide
  have hmem : t ∈ fixedWords := by
    simp only [fixedWords, List.mem_append]
    exact .inl (.inl (.inr ht))
  refine knows_fixed hl hmem hk fun cs hcs => ?_
  rw [Ends, if_pos (hletters t ht)]
  exact endsWord_of_keyword ht hcs

/-! ## Punctuation -/

/-- **A built-in lexicon knows brackets and the separator of arguments.** -/
theorem knows_punctuation (hl : l ∈ builtin) (ht : t ∈ punctuation) : l.Knows t := by
  have hkinds : ∀ l ∈ builtin, ∀ t ∈ punctuation, t.kind ∈ l.kinds := by decide
  have hsymbols : ∀ t ∈ punctuation,
      Pattern.isWordText t.lexeme = false ∧ lengthening t = [] := by
    decide
  have hmem : t ∈ fixedWords := by
    simp only [fixedWords, List.mem_append]
    exact .inl (.inr ht)
  refine knows_fixed hl hmem (hkinds l hl t ht) fun cs _ => ?_
  rw [Ends, (hsymbols t ht).1, (hsymbols t ht).2, if_neg Bool.false_ne_true]
  exact fun _ _ => List.not_mem_nil

/-- **A built-in lexicon knows spaces.** -/
theorem knows_blank (hl : l ∈ builtin) : l.Knows space where
  lexeme := by decide
  first? := by
    intro position cs hcs
    have hblanks : Lexicon.Knows ([mark "\n" "\\n" .terminator] ++ ⟨.blanks, .blank, none⟩ :: [])
        space :=
      knows_space rfl
    exact (first?_of_isBlank hl rfl).trans (hblanks.first? hcs)

/-- The built-in lexicons know spaces and parentheses. -/
theorem knowsPunctuation (hl : l ∈ builtin) : l.KnowsPunctuation where
  space := knows_blank hl
  openWord := knows_punctuation hl (by decide)
  closeWord := knows_punctuation hl (by decide)

/-! ## Numerals -/

/-- **The built-in lexicons agree about numerals.** -/
theorem first?_of_startsNumeral (hl : l ∈ builtin) {c : Char} (hc : Pattern.startsNumeral c = true)
    (position : Nat) (cs : List Char) :
    l.first? position (c :: cs) = numerals.first? position (c :: cs) := by
  have hblank : isBlank c = false := by
    rw [Bool.eq_false_iff]
    intro hblank
    obtain ⟨hdigit, hpoint, -⟩ := plain_of_isBlank hblank
    simp [Pattern.startsNumeral, hdigit, hpoint] at hc
  obtain ⟨hnumerals, hothers⟩ := numerals_of_builtin l hl
  rw [← hnumerals, first?_filter]
  exact fun d hd hn => Pattern.length_of_leavesNumerals (hothers d hd hn) hc hblank

/-- **A word that the numerals know is known** by every built-in lexicon. -/
theorem knows_of_numerals (hl : l ∈ builtin) (ht : ∃ c us, t.lexeme.toList = c :: us ∧
    c.isDigit = true) (h : numerals.Knows t) : l.Knows t where
  lexeme := h.lexeme
  first? := by
    intro position cs hcs
    have hfirst : numerals.first? position (t.lexeme.toList ++ cs)
        = some { t with position := position } := h.first? hcs
    obtain ⟨c, us, hc, hdigit⟩ := ht
    have hstarts : Pattern.startsNumeral c = true := by
      simp [Pattern.startsNumeral, isDecimalDigit_of_isDigit hdigit]
    rw [hc, List.cons_append] at hfirst ⊢
    rw [first?_of_startsNumeral hl hstarts]
    exact hfirst

/-- **A built-in lexicon knows natural numbers.** -/
theorem knows_natural (hl : l ∈ builtin) (n : Nat) : l.Knows (numberWord (.integer n)) := by
  obtain ⟨c, us, hc, hdigit⟩ := exists_digits_eq_cons n
  refine knows_of_numerals hl ⟨c, us, ?_, hdigit⟩ (numerals_know_natural n)
  rw [numberWord, intText_natCast, String.toList_ofList, hc]

/-- **A built-in lexicon knows finite doubles without sign.** -/
theorem knows_real (hl : l ∈ builtin) {x : Double} (hx : x.isFinite = true)
    (hs : x.signBit = false) : l.Knows (numberWord (.float x)) := by
  obtain ⟨n, hn, htext, -⟩ := Double.exists_numeral hx hs
  obtain ⟨c, us, hc, hdigit⟩ := hn.head
  have hlexeme : (numberWord (.float x)).lexeme.toList = n.text := by
    rw [numberWord, htext, String.toList_ofList]
  have hne : n.text ≠ [] := by
    rw [hc]
    exact List.cons_ne_nil _ _
  refine knows_of_numerals hl ⟨c, us, hlexeme.trans hc, hdigit⟩ ⟨?_, ?_⟩
  · intro hempty
    rw [hempty] at hlexeme
    exact hne hlexeme.symm
  · intro position cs hcs
    have hreal : (⟨.real, .real, none⟩ : Definition).token? position (n.text ++ cs)
        = some ⟨.real, String.ofList n.text, String.ofList n.text, position⟩ :=
      token?_eq_some hne (hn.realLength_text (head_of_boundary hcs))
    rw [hlexeme, numerals, first?_cons_of_some hreal, numberWord, htext]

/-- A finite double without sign is read back as an operand. -/
theorem operand?_real {x : Double} (hx : x.isFinite = true) (hs : x.signBit = false) :
    operand? (numberWord (.float x)) = some (.float x) ∧
      Opens (Number.ascii (.float x)).toList := by
  obtain ⟨n, hn, htext, hvalue⟩ := Double.exists_numeral hx hs
  obtain ⟨c, ds, hc, hd⟩ := hn.head
  constructor
  · simp only [operand?, numberWord, htext, hn.numeralValue_text, hvalue]
  · rw [Number.ascii, htext, String.toList_ofList, hc]
    exact opens_of_isDigit hd ds

/-! ## Decimal tails -/

/-- Only the pattern of decimal tails finds literal texts. -/
theorem eq_of_literal : ∀ l ∈ builtin, ∀ d ∈ l, d.kind = .literal →
    d = ⟨.decimalTail, .literal, none⟩ := by
  decide

/-- A row of digits is no literal text. -/
theorem kind_of_digits {position : Nat} (hrun : Pattern.run isDecimalDigit cs ≠ 0)
    (h : numerals.first? position cs = some t) : t.kind ≠ .literal := by
  intro hk
  obtain ⟨u, hu⟩ : ∃ u, (⟨.natural, .natural, none⟩ : Definition).token? position cs = some u :=
    Definition.exists_token? position hrun
  cases hreal : (⟨.real, .real, none⟩ : Definition).token? position cs with
  | some v =>
    rw [numerals, first?_cons_of_some hreal] at h
    cases h
    cases (Definition.kind_of_token? hreal).symm.trans hk
  | none =>
    rw [numerals, first?_cons_of_none hreal, first?_cons_of_some hu] at h
    cases h
    cases (Definition.kind_of_token? hu).symm.trans hk

/-- **A literal text is a decimal tail without digits in front.** -/
theorem tail_of_first? (hl : l ∈ builtin) {position : Nat}
    (h : l.first? position cs = some t) (hk : t.kind = .literal) :
    ∃ a b, isDecimalDigit a = true ∧ isDecimalDigit b = true ∧
      t.value = String.ofList ['.', a, b] := by
  obtain ⟨d, hd, htoken⟩ := List.exists_of_findSome?_eq_some h
  obtain rfl := eq_of_literal l hl d hd ((Definition.kind_of_token? htoken).symm.trans hk)
  obtain ⟨hne, hlexeme⟩ := Definition.lexeme_of_token? htoken
  have hne : Pattern.tailLength cs ≠ 0 := hne
  have hrun : Pattern.run isDecimalDigit cs = 0 := by
    by_contra hrun
    obtain ⟨c, us, rfl, hc⟩ : ∃ c us, cs = c :: us ∧ isDecimalDigit c = true := by
      cases cs with
      | nil => exact absurd rfl hrun
      | cons c us =>
        refine ⟨c, us, rfl, ?_⟩
        by_contra hc
        exact hrun (by simp [Pattern.run, hc])
    have hstarts : Pattern.startsNumeral c = true := by simp [Pattern.startsNumeral, hc]
    rw [first?_of_startsNumeral hl hstarts] at h
    exact kind_of_digits hrun h hk
  obtain hzero | ⟨a, b, rest, hdrop, ha, hb, hlength⟩ := Pattern.tailLength_eq cs
  · exact absurd hzero hne
  · rw [hrun] at hdrop hlength
    have hcs : cs = '.' :: a :: b :: rest := hdrop
    have hlength : Pattern.decimalTail.length cs = 0 + 3 := hlength
    have htext : t.lexeme = String.ofList ['.', a, b] := by
      refine String.toList_inj.1 ?_
      rw [hlexeme, hlength, hcs, String.toList_ofList]
      rfl
    exact ⟨a, b, ha, hb, (Definition.value_of_token? htoken).trans htext⟩

/-- **A built-in lexicon knows decimal tails**, whatever follows them. -/
theorem knows_tail (hl : l ∈ builtin) {a b : Char} (ha : isDecimalDigit a = true)
    (hb : isDecimalDigit b = true) : l.Knows (plainWord .literal (String.ofList ['.', a, b])) where
  lexeme := by simp
  first? := by
    intro position cs _
    let ds := ['.', a, b] ++ cs
    have hreal : (⟨.real, .real, none⟩ : Definition).token? position ds = none := by
      refine token?_eq_none ?_
      show Pattern.realLength ('.' :: a :: b :: cs) = 0
      rw [Pattern.realLength]
      rfl
    have hnatural : (⟨.natural, .natural, none⟩ : Definition).token? position ds = none :=
      token?_eq_none rfl
    have htail : (⟨.decimalTail, .literal, none⟩ : Definition).token? position ds
        = some ⟨.literal, String.ofList ['.', a, b], String.ofList ['.', a, b], position⟩ := by
      refine token?_eq_some (List.cons_ne_nil _ _) ?_
      show Pattern.tailLength ('.' :: a :: b :: cs) = 3
      have hrun : Pattern.run isDecimalDigit ('.' :: a :: b :: cs) = 0 := rfl
      simp [Pattern.tailLength, hrun, ha, hb]
    have hfirst : l.first? position ds = numerals.first? position ds :=
      first?_of_startsNumeral hl rfl position _
    rw [String.toList_ofList]
    show l.first? position ds = _
    rw [hfirst, numerals, first?_cons_of_none hreal, first?_cons_of_none hnatural,
      first?_cons_of_some htail]

/-! ## Names -/

/-- **Whether a lexicon finds a text as a name** of some kind. -/
structure Names (l : Lexicon) (kind : Kind) (name : String) : Prop where
  word : IsWord name.toList
  alone : l.first? 0 name.toList = some (plainWord kind name)

/-- Variables are names of their kind. -/
theorem isName_iff : l.IsName name ↔ l.Names .identifier name :=
  ⟨fun h => ⟨h.word, h.first?⟩, fun h => ⟨h.word, h.alone⟩⟩

/-- Where a name of a built-in lexicon always ends its word, the lexicon knows it. -/
theorem Names.knows (hl : l ∈ builtin) {kind : Kind} (h : l.Names kind name)
    (hends : ∀ cs, (plainWord kind name).Precedes cs → EndsWord cs) :
    l.Knows (plainWord kind name) :=
  knows_of_word (endsWithWords_of_builtin l hl) h.word h.alone hends

/-- A built-in lexicon knows the names of its functions. -/
theorem Names.knows_function (hl : l ∈ builtin) (h : l.Names .function name) :
    l.Knows (plainWord .function name) := by
  refine h.knows hl ?_
  rintro cs hcs c hc
  have hcs : cs.head? = some '(' := hcs
  rw [hcs] at hc
  cases hc
  rfl

/-- A name opens. -/
theorem Names.opens {kind : Kind} (h : l.Names kind name) : Opens name.toList := by
  obtain ⟨c, us, hname, hc, -⟩ := h.word
  obtain ⟨-, hblank, -, hne⟩ := plain_of_startsName hc
  exact ⟨c, by rw [hname]; rfl, hblank, hne⟩

/-- A name is no mark. -/
theorem Names.not_mark {kind : Kind} (h : l.Names kind name) : ¬(name = "!" ∨ name = "!!") := by
  obtain ⟨c, us, hname, hc, -⟩ := h.word
  obtain ⟨-, -, -, -, -, hne⟩ := plain_of_startsName hc
  rintro (rfl | rfl) <;> cases hname <;> exact hne rfl

/-- The built-in lexicons of single letters look for no whole words. -/
theorem isWhole_of_builtin : ∀ l ∈ builtin, l ∈ ofWords ∨ l.all (!·.pattern.isWhole) = true := by
  decide

/-- **A word that is found in a text is found alone.** -/
theorem first?_lexeme (hl : l ∈ builtin) {position : Nat} (h : l.first? position cs = some t)
    (hword : IsWord t.lexeme.toList) : l.first? position t.lexeme.toList = some t := by
  obtain ⟨d, hd, htoken⟩ := List.exists_of_findSome?_eq_some h
  obtain ⟨hne, hlexeme⟩ := Definition.lexeme_of_token? htoken
  obtain ⟨c, us, hchars, hstarts, -⟩ := id hword
  have hcut : t.lexeme.toList ++ cs.drop (d.pattern.length cs) = cs := by
    rw [hlexeme, List.take_append_drop]
  obtain hwords | hletters := isWhole_of_builtin l hl
  · -- a whole word ends where its pattern does
    obtain ⟨-, hkeeps, -⟩ := of_mem_ofWords l hwords
    have hend : EndsWord (cs.drop (d.pattern.length cs)) :=
      Pattern.endsWord_of_length (List.all_eq_true.1 hkeeps d hd) hne (hlexeme ▸ hword)
    rw [← first?_append hkeeps hword hend, hcut, h]
  · -- other patterns look no further than the token, since none finds more than the first one
    rw [← hcut] at h
    rw [← h]
    refine (first?_congr fun e he => token?_append ?_ (Pattern.length_le _ _)).symm
    refine Pattern.length_of_le (by simpa using List.all_eq_true.1 hletters e he) ?_ ?_
    · rw [hchars]
      exact List.cons_ne_nil c us
    · rw [String.length_toList, hchars]
      rw [hchars] at h
      exact length_le_of_first? hl (plain_of_startsName hstarts).2.1 h e he

/-- The kinds of names. -/
def namingKinds : List Kind := [.constant, .identifier, .function]

/-- The patterns of names find words. -/
theorem words_of_names : ∀ l ∈ builtin, ∀ d ∈ l, d.kind ∈ namingKinds →
    d.pattern = .letter ∨ d.pattern = .identifier ∨
      d.pattern.words?.any (·.all Pattern.isWordText) = true := by
  decide

/-- The canonical values of names are found as names. -/
theorem alone_of_canonical : ∀ l ∈ builtin, ∀ d ∈ l, d.kind ∈ namingKinds →
    d.value.all (fun name => Pattern.isWordText name &&
      l.first? 0 name.toList == some (plainWord d.kind name)) = true := by
  decide +kernel

/-- A name is spelled as a word. -/
theorem isWord_of_token? (hl : l ∈ builtin) {d : Definition} {position : Nat} (hd : d ∈ l)
    (hk : d.kind ∈ namingKinds) (h : d.token? position cs = some t) : IsWord t.lexeme.toList := by
  obtain ⟨hne, hlexeme⟩ := Definition.lexeme_of_token? h
  obtain hletter | hidentifier | hwords := words_of_names l hl d hd hk
  · rw [hletter] at hne hlexeme
    cases cs with
    | nil => exact absurd rfl hne
    | cons c cs =>
      have hc : isAsciiLetter c = true := by
        by_contra hc
        exact hne (by simp [Pattern.length, hc])
      have hlength : Pattern.letter.length (c :: cs) = 1 := by simp [Pattern.length, hc]
      rw [hlexeme, hlength]
      exact ⟨c, [], rfl, by simp [startsName, hc], rfl⟩
  · rw [hidentifier] at hne hlexeme
    rw [hlexeme]
    exact (isWord_of_identifier hne).1
  · rw [Option.any_eq_true] at hwords
    obtain ⟨ws, hws, hall⟩ := hwords
    exact Pattern.isWord_of_isWordText
      (List.all_eq_true.1 hall _ (Definition.lexeme_mem_words hws h))

/-- **The name of a token that a built-in lexicon finds is one of its names.** -/
theorem names_of_first? (hl : l ∈ builtin) {position : Nat} (h : l.first? position cs = some t)
    (hk : t.kind ∈ namingKinds) : l.Names t.kind t.value := by
  obtain ⟨d, hd, htoken⟩ := List.exists_of_findSome?_eq_some h
  have hkind := Definition.kind_of_token? htoken
  have hvalue := Definition.value_of_token? htoken
  rw [hkind] at hk
  cases hcanonical : d.value with
  | none =>
    rw [hcanonical, Option.getD_none] at hvalue
    have hword := isWord_of_token? hl hd hk htoken
    refine ⟨hvalue ▸ hword, ?_⟩
    rw [hvalue, first?_position l 0 position, first?_lexeme hl h hword, Option.map_some, hvalue]
  | some name =>
    rw [hcanonical, Option.getD_some] at hvalue
    have halone := alone_of_canonical l hl d hd hk
    rw [hcanonical, Option.all_some, Bool.and_eq_true, beq_iff_eq] at halone
    rw [hkind, hvalue]
    exact ⟨Pattern.isWord_of_isWordText halone.1, halone.2⟩

/-- **A built-in lexicon has names for infinity and for what is no number.** -/
theorem names_of_notFinite : ∀ l ∈ builtin, ∀ name ∈ ["INF", "NAN"],
    l.Names .constant name ∨ l.Names .identifier name := by
  have hfound : ∀ l ∈ builtin, ∀ name ∈ ["INF", "NAN"], Pattern.isWordText name = true ∧
      (l.first? 0 name.toList = some (plainWord .constant name) ∨
        l.first? 0 name.toList = some (plainWord .identifier name)) := by
    decide +kernel
  intro l hl name hname
  obtain ⟨hword, halone⟩ := hfound l hl name hname
  exact halone.imp (⟨Pattern.isWord_of_isWordText hword, ·⟩)
    (⟨Pattern.isWord_of_isWordText hword, ·⟩)

/-! ## Marks -/

/-- Marks are found by their definitions only. -/
theorem eq_of_isFactorial : ∀ l ∈ builtin, ∀ d ∈ l, d.kind.isFactorial = true →
    d = mark "!!" "!!" .semiFactorial ∨ d = mark "!" "!" .factorial := by
  decide

/-- **A mark in a text is one of the two.** -/
theorem mark_of_first? (hl : l ∈ builtin) {position : Nat} (h : l.first? position cs = some t)
    (hk : t.kind.isFactorial = true) :
    (t.value = "!" ∨ t.value = "!!") ∧ (factorialWord t.value).kind ∈ l.kinds := by
  obtain ⟨d, hd, htoken⟩ := List.exists_of_findSome?_eq_some h
  have hkind := Definition.kind_of_token? htoken
  have hvalue := Definition.value_of_token? htoken
  have hmem : d.kind ∈ l.kinds := List.mem_map_of_mem hd
  have hlexeme : ∀ {text shown : String} {kind : Kind},
      (mark text shown kind).token? position cs = some t → t.lexeme = text :=
    fun hmark => List.mem_singleton.1 (Definition.lexeme_mem_words rfl hmark)
  rw [hkind] at hk
  obtain rfl | rfl := eq_of_isFactorial l hl d hd hk
  · rw [hvalue, hlexeme htoken]
    exact ⟨Or.inr rfl, hmem⟩
  · rw [hvalue, hlexeme htoken]
    exact ⟨Or.inl rfl, hmem⟩

/-- **Behind an operand, a mark is found** where it is not doubled and no relation. -/
theorem first?_factorialWord (hl : l ∈ builtin) {name : String} (hname : name = "!" ∨ name = "!!")
    (hk : (factorialWord name).kind ∈ l.kinds)
    (h : name = "!" → ∀ c ∈ cs.head?, c ≠ '!' ∧ c ≠ '=') (position : Nat) :
    l.first? position (name.toList ++ cs)
      = some { factorialWord name with position := position } := by
  have hsymbol : Pattern.isWordText name = false ∧
      lengthening (factorialWord name) = if name = "!" then ['!', '='] else [] := by
    rcases hname with rfl | rfl <;> decide
  have hmem : factorialWord name ∈ fixedWords := by
    simp only [fixedWords, List.mem_append]
    exact .inr (List.mem_map_of_mem (by simpa using hname))
  obtain ⟨halone, hsettles⟩ := alone_of_fixed l hl _ hmem hk
  have halone : l.first? 0 name.toList = some (factorialWord name) := halone
  have hsettles : l.settles name (lengthening (factorialWord name)) = true := hsettles hsymbol.1
  rw [first?_symbol hsettles ?_, first?_position l position 0, halone]
  · rfl
  · rw [hsymbol.2]
    intro c hc
    split
    · rename_i hmark
      simpa using h hmark c hc
    · exact List.not_mem_nil

end Lexicon

end Formula
