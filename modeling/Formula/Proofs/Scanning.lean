/-
# Scanning separated words

A text is often made by writing words one after the other. Its tokens are these words again when
each word is set off from what follows: a numeral may not run on, a mark may not be doubled by the
next one, and a keyword may not be the beginning of a name. **Words that a lexicon finds again in
their text are scanned as themselves** (`tokenize_of_recovers`), up to their places; separated words
that it knows are (`tokenize_of_separated`).
-/
import Formula.Lexicon
import Formula.Proofs.Respelling

namespace Formula

/-! ## Texts of words -/

namespace Grammar

/-- The text of some words. -/
def textOf (ws : List Token) : List Char := ws.flatMap (·.lexeme.toList)

/-- The text of words one after the other. -/
@[simp] theorem textOf_append (us vs : List Token) : textOf (us ++ vs) = textOf us ++ textOf vs :=
  List.flatMap_append

/-- The text of a word and the words behind it. -/
@[simp] theorem textOf_cons (t : Token) (us : List Token) :
    textOf (t :: us) = t.lexeme.toList ++ textOf us := List.flatMap_cons

/-- No words have no text. -/
@[simp] theorem textOf_nil : textOf [] = [] := rfl

/-! ## Where words end -/

/-- The characters that end a numeral and a name. -/
def boundaryChars : List Char := ['+', '-', '*', '/', '^', '=', '<', '>', ' ', ')', '\x7d', '!']

/-- Whether a text ends numerals and names before it: a comma does so with a space behind it. -/
def Boundary : List Char → Prop
  | [] => True
  | c :: cs => c ∈ boundaryChars ∨ c = ',' ∧ cs.head? = some ' '

/-- Whether a text may stand behind an operator or a space: it starts with no blank, and with
nothing that would lengthen a sign. -/
def Opens (cs : List Char) : Prop :=
  ∃ c, cs.head? = some c ∧ isBlank c = false ∧ c ≠ '=' ∧ c ≠ '>' ∧ c ≠ '!'

/-- What opens keeps opening when it goes on. -/
theorem Opens.append {cs ds : List Char} (h : Opens cs) : Opens (cs ++ ds) := by
  obtain ⟨c, hc, h⟩ := h
  exact ⟨c, by rw [List.head?_append, hc, Option.some_or], h⟩

end Grammar

open Grammar

/-- **Whether a token is set off from the text behind it.** -/
def Token.Precedes (t : Token) (cs : List Char) : Prop :=
  match t.kind with
  | .natural | .real | .boolean | .constant | .identifier => Boundary cs
  | .function => cs.head? = some '('
  | .factorial => cs.head? ≠ some '!'
  | .ifWord | .elseWord => cs.head? = some ' '
  | .operator op =>
    if op.isConnective then cs.head? = some ' ' else op.isRelation = true → Opens cs
  | .blank => Opens cs
  | _ => True

namespace Grammar

/-- Whether words are set off from each other, and the last one from the text behind it. -/
def Separated : List Token → List Char → Prop
  | [], _ => True
  | t :: ts, cs => t.Precedes (textOf ts ++ cs) ∧ Separated ts cs

/-- Words are separated when both parts of them are. -/
theorem separated_append {us vs : List Token} {cs : List Char} :
    Separated (us ++ vs) cs ↔ Separated us (textOf vs ++ cs) ∧ Separated vs cs := by
  induction us with
  | nil => simp [Separated]
  | cons t us ih => simp [Separated, ih, and_assoc]

end Grammar

/-! ## Scanning -/

namespace Lexicon

/-- **Whether a lexicon knows a word**: wherever the word is set off from what follows, the lexicon
finds it. -/
structure Knows (l : Lexicon) (t : Token) : Prop where
  lexeme : t.lexeme ≠ ""
  first? : ∀ {position cs}, t.Precedes cs →
    l.first? position (t.lexeme.toList ++ cs) = some { t with position := position }

/-- A text that starts with a token is scanned token by token. -/
theorem scan_of_first? {l : Lexicon} {position : Nat} {t : Token} {cs : List Char}
    (ht : t.lexeme ≠ "") (h : l.first? position (t.lexeme.toList ++ cs) = some t) :
    l.scan position (t.lexeme.toList ++ cs)
      = (l.scan (position + t.lexeme.length) cs).map (t :: ·) := by
  obtain ⟨c, ds, hcs⟩ : ∃ c ds, t.lexeme.toList = c :: ds := by
    cases hl : t.lexeme.toList with
    | nil => exact absurd (String.toList_eq_nil_iff.1 hl) ht
    | cons c ds => exact ⟨c, ds, rfl⟩
  have hdrop : (t.lexeme.toList ++ cs).drop t.lexeme.length = cs := by
    rw [← String.length_toList, List.drop_left]
  rw [hcs, List.cons_append] at h hdrop ⊢
  rw [scan]
  split
  · rename_i h'
    rw [h] at h'
    cases h'
  · rename_i u h'
    rw [h] at h'
    cases h'
    rw [hdrop]
    cases scan l (position + t.lexeme.length) cs <;> rfl

/-- Every token of a text is the first one found somewhere. -/
theorem exists_first?_of_scan {l : Lexicon} {position : Nat} {cs : List Char} {ts : List Token}
    (h : l.scan position cs = .ok ts) : ∀ t ∈ ts, ∃ position cs, l.first? position cs = some t := by
  fun_induction scan l position cs generalizing ts with
  | case1 =>
    cases h
    exact nofun
  | case2 => cases h
  | case3 position c rest t ht us hus ih =>
    cases h
    exact List.forall_mem_cons.2 ⟨⟨_, _, ht⟩, ih hus⟩
  | case4 => cases h

/-! ## Words that are found again -/

/-- **Whether a lexicon finds a word** in front of some text. -/
structure Finds (l : Lexicon) (t : Token) (cs : List Char) : Prop where
  lexeme : t.lexeme ≠ ""
  first? : ∀ position, l.first? position (t.lexeme.toList ++ cs)
    = some { t with position := position }

/-- A word that is known is found where it is set off. -/
theorem Knows.finds {l : Lexicon} {t : Token} {cs : List Char} (h : l.Knows t)
    (hcs : t.Precedes cs) : l.Finds t cs where
  lexeme := h.lexeme
  first? := fun _ => h.first? hcs

/-- **Whether a lexicon finds words again** in their text, in front of some other text. -/
def Recovers (l : Lexicon) : List Token → List Char → Prop
  | [], _ => True
  | t :: ts, cs => l.Finds t (textOf ts ++ cs) ∧ l.Recovers ts cs

/-- Words are found again when both parts of them are. -/
theorem recovers_append {l : Lexicon} {us vs : List Token} {cs : List Char} :
    l.Recovers (us ++ vs) cs ↔ l.Recovers us (textOf vs ++ cs) ∧ l.Recovers vs cs := by
  induction us with
  | nil => simp [Recovers]
  | cons t us ih => simp [Recovers, ih, and_assoc]

/-- Separated words that a lexicon knows are found again. -/
theorem recovers_of_separated {l : Lexicon} {ws : List Token} {cs : List Char}
    (hk : ∀ t ∈ ws, l.Knows t) (hs : Separated ws cs) : l.Recovers ws cs := by
  induction ws with
  | nil => trivial
  | cons t ws ih =>
    obtain ⟨ht, hs⟩ := hs
    obtain ⟨hkt, hk⟩ := List.forall_mem_cons.1 hk
    exact ⟨hkt.finds ht, ih hk hs⟩

/-- Words that are found again are scanned from every place. -/
theorem scan_of_recovers {l : Lexicon} {ws : List Token} :
    l.Recovers ws [] → ∀ position, ∃ ts, l.scan position (textOf ws) = .ok ts ∧ Respelled ws ts := by
  induction ws with
  | nil =>
    intro _ position
    exact ⟨[], by rw [textOf_nil, scan], .nil⟩
  | cons t ws ih =>
    rintro ⟨ht, hs⟩ position
    rw [List.append_nil] at ht
    obtain ⟨ts, hts, hr⟩ := ih hs (position + t.lexeme.length)
    refine ⟨{ t with position := position } :: ts, ?_, .cons ⟨rfl, rfl⟩ hr⟩
    have hscan := scan_of_first? (t := { t with position := position }) ht.lexeme
      (ht.first? position)
    rw [textOf_cons, hscan, hts]
    rfl

/-- **Words that are found again are the tokens of their text**, up to their places. -/
theorem tokenize_of_recovers {l : Lexicon} {ws : List Token} {text : String}
    (h : l.Recovers ws []) (ht : textOf ws = text.toList) :
    ∃ ts, l.tokenize text = .ok ts ∧ Respelled ws ts := by
  rw [tokenize, ← ht]
  exact scan_of_recovers h 0

/-- **Separated words are the tokens of their text**, up to their places. -/
theorem tokenize_of_separated {l : Lexicon} {ws : List Token} {text : String}
    (hk : ∀ t ∈ ws, l.Knows t) (hs : Separated ws []) (ht : textOf ws = text.toList) :
    ∃ ts, l.tokenize text = .ok ts ∧ Respelled ws ts :=
  tokenize_of_recovers (recovers_of_separated hk hs) ht

end Lexicon

end Formula
