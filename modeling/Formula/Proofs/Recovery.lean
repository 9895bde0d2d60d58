/-
# Texts that are read again

Each word of a plain text is found again in its place by a built-in lexicon, with **one exception:
an exclamation mark in front of an equals sign**. There the logic lexicon finds an inequality, and
the operand of the mark becomes its left side. So a text either can be read wherever an operand may
stand, or it ends with a mark and can be read without it, too (`Rereads`). Such texts are closed
under the ways in which expressions are written, and **each of them is cut and parsed**
(`Rereads.parse`).
-/
import Formula.Proofs.KnownWords

namespace Formula

open Grammar

namespace Grammar

/-- A closing bracket is no mark and no equals sign. -/
theorem head_closeWord (b : Bracket) (cs : List Char) :
    ∀ c ∈ ((closeWord b).lexeme.toList ++ cs).head?, c ∉ ['!', '='] := by
  cases b <;> rintro c ⟨⟩ <;> decide

namespace Layout

/-! ## Layouts that are printed -/

/-- **Whether the words of a layout are found again** in a text, in front of everything that ends
numerals and names and does not start with a barred character. -/
structure PrintedAs (p : Layout) (l : Lexicon) (barred : List Char) (text : String) : Prop where
  text : textOf p.words = text.toList
  opens : Opens (textOf p.words)
  recovers : ∀ {cs}, Boundary cs → (∀ c ∈ cs.head?, c ∉ barred) → l.Recovers p.words cs
  written : p.Written

/-- **Whether a token stands for an operator** between operands, behind everything that bars some
characters. -/
structure Between (l : Lexicon) (barred : List Char) (op : Operator) (t : Token)
    (symbol : String) : Prop where
  kind : t.kind = .operator op
  text : textOf (spaced op t) = symbol.toList
  boundary : ∀ cs, Boundary (symbol.toList ++ cs)
  head : ∀ cs, ∀ c ∈ (symbol.toList ++ cs).head?, c ∉ barred
  recovers : ∀ {cs}, Opens cs → l.Recovers (spaced op t) cs

namespace PrintedAs

variable {l : Lexicon} {p q r : Layout} {barred barred' : List Char} {a b c : String}

/-- **A text that is found again is cut and parsed** as its layout is read, with implicit products or
without. -/
theorem parse (h : p.PrintedAs l barred a) : ∃ ts, l.tokenize a = .ok ts ∧
    ∀ o : Options, o.simplify = false → Formula.parse o ts = .ok p.reading := by
  have hrecovers : l.Recovers p.words [] := h.recovers trivial nofun
  obtain ⟨ts, hts, hr⟩ := Lexicon.tokenize_of_recovers hrecovers h.text
  exact ⟨ts, hts, fun o ho => parse_of_respelled hr (h.written.parse ho)⟩

/-- More characters may be barred. -/
theorem mono (h : p.PrintedAs l barred a) (hb : barred ⊆ barred') : p.PrintedAs l barred' a where
  text := h.text
  opens := h.opens
  recovers := fun hcs hhead => h.recovers hcs fun c hc hmem => hhead c hc (hb hmem)
  written := h.written

/-- A word that stands for an operand is printed as itself. -/
theorem word {t : Token} {e : Expr} (ht : operand? t = some e) (hk : l.Knows t)
    (hp : ∀ cs, Boundary cs → t.Precedes cs) (ho : Opens t.lexeme.toList) :
    (unit [t] e).PrintedAs l [] t.lexeme where
  text := by simp [words]
  opens := by simpa [words] using ho
  recovers := fun hcs _ => ⟨hk.finds (hp _ hcs), trivial⟩
  written := .of_operand? ht

/-- A minus sign is printed in front. -/
theorem minus (hl : l ∈ Lexicon.builtin) (h : p.PrintedAs l barred a) :
    (signed .minus (operatorWord .sub) p).PrintedAs l barred ("-" ++ a) where
  text := by simp [words, h.text, operatorWord, spelling, Operator.symbol]
  opens := ⟨_, rfl, by decide⟩
  recovers := by
    intro cs hcs hhead
    have hsub : ∀ l ∈ Lexicon.builtin, .operator .sub ∈ l.kinds := by decide
    refine ⟨(Lexicon.knows_operator hl (hsub l hl)).finds ?_, h.recovers hcs hhead⟩
    intro hrelation
    cases hrelation
  written := h.written.signed

/-- An operator is printed between its operands. -/
theorem joined {op : Operator} {t : Token} (hn : op ≠ .not) (hp : p.PrintedAs l barred a)
    (ht : Between l barred op t b) (hq : q.PrintedAs l barred' c) :
    (joined op t p q).PrintedAs l barred' (a ++ b ++ c) where
  text := by simp [words, hp.text, ht.text, hq.text]
  opens := by
    rw [words, List.append_assoc, textOf_append]
    exact hp.opens.append
  recovers := by
    intro cs hcs hhead
    rw [words, Lexicon.recovers_append, Lexicon.recovers_append]
    refine ⟨⟨?_, ht.recovers hq.opens.append⟩, hq.recovers hcs hhead⟩
    rw [ht.text]
    exact hp.recovers (ht.boundary _) (ht.head _)
  written := .joined hn ht.kind hp.written hq.written

section Closed

variable (hl : l ∈ Lexicon.builtin) (h : p.PrintedAs l ['!', '='] a)
include hl h

/-- What stands in brackets is found again in front of everything. -/
theorem recovers_enclosed (b : Bracket) (cs : List Char) : l.Recovers (p.enclosed b) cs := by
  have hbrackets : openWord b ∈ Lexicon.punctuation ∧ closeWord b ∈ Lexicon.punctuation := by
    cases b <;> decide
  refine ⟨(Lexicon.knows_punctuation hl hbrackets.1).finds trivial, Lexicon.recovers_append.2
    ⟨?_, (Lexicon.knows_punctuation hl hbrackets.2).finds trivial, trivial⟩⟩
  simpa using h.recovers (boundary_closeWord b cs).1 (head_closeWord b cs)

/-- Parentheses are printed around a layout. -/
theorem parenthesized :
    (unit (p.enclosed .paren) p.reading).PrintedAs l [] ("(" ++ a ++ ")") where
  text := by simp [words, textOf_enclosed, h.text, Bracket.opening, Bracket.closing]
  opens := Clear.opens_enclosed p .paren
  recovers := fun _ _ => h.recovers_enclosed hl .paren _
  written := h.written.bracketed true

/-- A denial is printed in front of parentheses. -/
theorem denial (hop : .operator .not ∈ l.kinds) :
    (signed .denial (operatorWord .not) (unit (space :: p.enclosed .paren) p.reading)).PrintedAs l
      [] ("NOT (" ++ a ++ ")") where
  text := by
    simp [words, textOf_enclosed, h.text, operatorWord, spelling, space, Bracket.opening,
      Bracket.closing]
  opens := ⟨_, rfl, by decide⟩
  recovers := by
    intro cs _ _
    have hspace : l.Finds space (textOf (p.enclosed .paren) ++ cs) :=
      (Lexicon.knows_blank hl).finds (Clear.opens_enclosed p .paren).append
    exact ⟨(Lexicon.knows_operator hl hop).finds rfl, hspace, h.recovers_enclosed hl .paren cs⟩
  written :=
    have hparen : (unit (space :: p.enclosed .paren) p.reading).Written :=
      ⟨h.written.valid.enclosed, h.written.tidy_enclosed .paren⟩
    .signed hparen

/-- A function is printed in front of its argument. -/
theorem application {name : String} (hname : l.Names .function name)
    (he : name ≠ Expr.endingName) :
    (unit (plainWord .function name :: p.enclosed .paren) (.call name p.reading)).PrintedAs l []
      (name ++ "(" ++ a ++ ")") where
  text := by simp [words, textOf_enclosed, h.text, Bracket.opening, Bracket.closing]
  opens := by
    rw [words, textOf_cons]
    exact hname.opens.append
  recovers := fun _ _ => ⟨(hname.knows_function hl).finds rfl, h.recovers_enclosed hl .paren _⟩
  written := .application he h.written

/-- A price ending is printed with both arguments. -/
theorem ending (hname : l.Names .function Expr.endingName) (hq : q.PrintedAs l ['!', '='] b) :
    (unit (plainWord .function Expr.endingName :: openWord .paren
      :: (p.words ++ comma :: space :: q.words ++ [closeWord .paren]))
      (.ending p.reading q.reading)).PrintedAs l []
      (Expr.endingName ++ "(" ++ a ++ ", " ++ b ++ ")") where
  text := by
    simp [words, openWord, closeWord, comma, space, h.text, hq.text, Bracket.opening,
      Bracket.closing]
  opens := by
    rw [words, textOf_cons]
    exact hname.opens.append
  recovers := by
    intro cs _ _
    have hpunctuation : ∀ t ∈ Lexicon.punctuation, l.Knows t :=
      fun t ht => Lexicon.knows_punctuation hl ht
    refine ⟨(hname.knows_function hl).finds rfl, (hpunctuation _ (by decide)).finds trivial, ?_⟩
    rw [Lexicon.recovers_append]
    refine ⟨Lexicon.recovers_append.2 ⟨?_, (hpunctuation _ (by decide)).finds trivial, ?_, ?_⟩,
      (hpunctuation _ (by decide)).finds trivial, trivial⟩
    · exact h.recovers (Or.inr ⟨rfl, rfl⟩) (by rintro c ⟨⟩; decide)
    · exact (Lexicon.knows_blank hl).finds hq.opens.append
    · simpa using hq.recovers (boundary_closeWord .paren cs).1 (head_closeWord .paren cs)
  written := .ending h.written hq.written

/-- A conditional is printed with its parts in brackets. -/
theorem conditional (hk : .ifWord ∈ l.kinds) (hq : q.PrintedAs l ['!', '='] b)
    (hr : r.PrintedAs l ['!', '='] c) :
    (unit (plainWord .ifWord "if" :: space :: (p.enclosed .paren ++ space :: (q.enclosed .brace
        ++ space :: plainWord .elseWord "else" :: space :: r.enclosed .brace)))
      (.conditional p.reading q.reading r.reading)).PrintedAs l []
      ("if (" ++ a ++ ") \x7b" ++ b ++ "\x7d else \x7b" ++ c ++ "\x7d") where
  text := by
    simp [words, textOf_enclosed, h.text, hq.text, hr.text, space, Bracket.opening,
      Bracket.closing]
  opens := ⟨_, rfl, by decide⟩
  recovers := by
    intro cs _ _
    have hboth : ∀ l ∈ Lexicon.builtin, .ifWord ∈ l.kinds → .elseWord ∈ l.kinds := by decide
    have hspace := Lexicon.knows_blank hl
    have hif := Lexicon.knows_keyword hl (t := plainWord .ifWord "if") (by decide) hk
    have helse := Lexicon.knows_keyword hl (t := plainWord .elseWord "else") (by decide)
      (hboth l hl hk)
    refine ⟨hif.finds rfl, hspace.finds ?_, Lexicon.recovers_append.2
      ⟨h.recovers_enclosed hl .paren _, hspace.finds ?_, Lexicon.recovers_append.2
        ⟨hq.recovers_enclosed hl .brace _, hspace.finds ⟨_, rfl, by decide⟩, helse.finds rfl,
          hspace.finds ?_, hr.recovers_enclosed hl .brace cs⟩⟩⟩
    · rw [textOf_append, List.append_assoc]
      exact (Clear.opens_enclosed p .paren).append
    · rw [textOf_append, List.append_assoc]
      exact (Clear.opens_enclosed q .brace).append
    · exact (Clear.opens_enclosed r .brace).append
  written := .conditional h.written hq.written hr.written

end Closed

/-- **A mark is printed behind its operand.** The simple mark bars a second one and an equals
sign. -/
theorem factorial (hl : l ∈ Lexicon.builtin) {ws : List Token} {e : Expr} {name : String}
    (hname : name = "!" ∨ name = "!!") (hk : (factorialWord name).kind ∈ l.kinds)
    (h : (unit ws e).PrintedAs l [] a)
    (hr : ∀ ts, Reads false .primary (dropBlanks ws ++ ts) [e] ts) :
    (unit (ws ++ [factorialWord name]) (.call name e)).PrintedAs l
      (if name = "!" then ['!', '='] else []) (a ++ name) where
  text := by
    have htext : textOf ws = a.toList := h.text
    simp [words, htext, factorialWord]
  opens := by
    rw [words, textOf_append]
    exact h.opens.append
  recovers := by
    intro cs _ hhead
    have hmark : ∀ ds, Boundary (name.toList ++ ds) := by
      intro ds
      rcases hname with rfl | rfl <;> exact Or.inl (by decide)
    have hmarks : name = "!" → ∀ c ∈ cs.head?, c ≠ '!' ∧ c ≠ '=' := by
      intro hsimple c hc
      simpa [hsimple] using hhead c hc
    refine Lexicon.recovers_append.2 ⟨h.recovers ?_ fun _ _ => List.not_mem_nil, ⟨?_, ?_⟩, trivial⟩
    · simpa [factorialWord] using hmark cs
    · rcases hname with rfl | rfl <;> decide
    · exact Lexicon.first?_factorialWord hl hname hk hmarks
  written := .factorial hname h.written.valid.unsigned hr h.written.tidy

end PrintedAs

/-! ## Operators between operands -/

namespace Between

variable {l : Lexicon} {op : Operator}

/-- An operator stands between its operands. Only an equals sign may not follow a mark. -/
theorem operatorWord (hl : l ∈ Lexicon.builtin) (hop : .operator op ∈ l.kinds) (hn : op ≠ .not) :
    Between l (if op = .eq then ['!'] else ['!', '=']) op (operatorWord op) (infixText op) where
  kind := rfl
  text := textOf_spaced hn
  boundary := fun cs => (boundary_infixText hn cs).1
  head := by
    intro cs
    cases op <;> first
      | exact absurd rfl hn
      | rintro c ⟨⟩; decide
  recovers := by
    intro cs hcs
    refine Lexicon.recovers_of_separated ?_ (separated_spaced hcs)
    unfold spaced
    split <;> simp [Lexicon.knows_operator hl hop, Lexicon.knows_blank hl]

/-- **A mark in front of an equals sign is an inequality** behind the operand of the mark. -/
theorem unequalWord (hl : l ∈ Lexicon.builtin) (hop : .operator .eq ∈ l.kinds) :
    Between l [] .ne Lexicon.unequalWord "!=" where
  kind := rfl
  text := rfl
  boundary := fun _ => Or.inl (by decide)
  head := fun _ _ _ => List.not_mem_nil
  recovers := fun hcs => ⟨(Lexicon.knows_unequalWord hl hop).finds fun _ => hcs, trivial⟩

end Between

end Layout

end Grammar

namespace Lexicon

/-! ## Texts that are read again -/

/-- **Whether a text can be read** with a lexicon wherever an operand may stand. A text that ends
with a mark can be read without the mark, too. -/
inductive Rereads (l : Lexicon) : String → Prop where
  | plain {p : Layout} {a : String} (h : p.PrintedAs l ['!'] a) : Rereads l a
  | marked {p q : Layout} {a : String} (hp : p.PrintedAs l ['!', '='] (a ++ "!"))
      (hq : q.PrintedAs l [] a) : Rereads l (a ++ "!")

namespace Rereads

variable {l : Lexicon} {a b c : String} {op : Operator}

/-- A text that is found again in front of everything can be read. -/
theorem of_printedAs {p : Layout} (h : p.PrintedAs l [] a) : l.Rereads a :=
  .plain (h.mono (List.nil_subset _))

/-- A text that can be read is that of a layout. -/
theorem exists_printedAs (h : l.Rereads a) : ∃ p : Layout, p.PrintedAs l ['!', '='] a := by
  cases h with
  | plain h => exact ⟨_, h.mono (by decide)⟩
  | marked hp _ => exact ⟨_, hp⟩

/-- **A text that can be read is cut and parsed**, with implicit products or without. -/
theorem parse (h : l.Rereads a) : ∃ ts e, l.tokenize a = .ok ts ∧
    ∀ o : Options, o.simplify = false → Formula.parse o ts = .ok e := by
  obtain ⟨p, hp⟩ := h.exists_printedAs
  obtain ⟨ts, hts, hparse⟩ := hp.parse
  exact ⟨ts, p.reading, hts, hparse⟩

variable (hl : l ∈ builtin)
include hl

/-- Parentheses keep a text readable. -/
theorem bracketed (h : l.Rereads a) (needed : Bool) : l.Rereads (Expr.bracketed needed a) := by
  cases needed with
  | false => exact h
  | true =>
    obtain ⟨p, hp⟩ := h.exists_printedAs
    exact .of_printedAs (hp.parenthesized hl)

/-- A minus sign may stand in front of a readable text. -/
theorem minus (h : l.Rereads a) : l.Rereads ("-" ++ a) := by
  cases h with
  | plain h => exact .plain (h.minus hl)
  | @marked p q a hp hq =>
    have hp := hp.minus hl
    rw [← String.append_assoc] at hp ⊢
    exact .marked hp (hq.minus hl)

/-- **What a readable text and an operator behind it are read as**: the two of them, or the operand
of a mark and an inequality. -/
theorem exists_between (hop : .operator op ∈ l.kinds) (hn : op ≠ .not) (h : l.Rereads a) :
    ∃ (p : Layout) (barred : List Char) (op' : Operator) (t : Token) (b symbol : String),
      op' ≠ .not ∧ p.PrintedAs l barred b ∧ Layout.Between l barred op' t symbol ∧
      b ++ symbol = a ++ infixText op := by
  have hbetween := Layout.Between.operatorWord hl hop hn
  by_cases heq : op = .eq
  · rw [if_pos heq] at hbetween
    cases h with
    | plain h => exact ⟨_, _, _, _, _, _, hn, h, hbetween, rfl⟩
    | @marked p q a hp hq =>
      subst heq
      refine ⟨q, [], .ne, unequalWord, a, "!=", by decide, hq, .unequalWord hl hop, ?_⟩
      rw [String.append_assoc]
      rfl
  · rw [if_neg heq] at hbetween
    obtain ⟨p, hp⟩ := h.exists_printedAs
    exact ⟨p, _, op, _, a, _, hn, hp, hbetween, rfl⟩

/-- **An operator may stand between readable texts.** -/
theorem joined (hop : .operator op ∈ l.kinds) (hn : op ≠ .not) (ha : l.Rereads a)
    (hb : l.Rereads b) : l.Rereads (a ++ infixText op ++ b) := by
  obtain ⟨p, barred, op', t, d, symbol, hn', hp, ht, htext⟩ := ha.exists_between hl hop hn
  rw [← htext]
  cases hb with
  | plain hb => exact .plain (hp.joined hn' ht hb)
  | @marked q r b hq hr =>
    -- a mark at the end of the right operand is one of the whole text
    have hq := hp.joined hn' ht hq
    rw [← String.append_assoc] at hq ⊢
    exact .marked hq (hp.joined hn' ht hr)

/-- A denial may stand in front of a readable text in parentheses. -/
theorem denial (hop : .operator .not ∈ l.kinds) (h : l.Rereads a) :
    l.Rereads ("NOT (" ++ a ++ ")") := by
  obtain ⟨p, hp⟩ := h.exists_printedAs
  exact .of_printedAs (hp.denial hl hop)

/-- A function may be applied to a readable text. -/
theorem application {name : String} (hname : l.Names .function name) (he : name ≠ Expr.endingName)
    (h : l.Rereads a) : l.Rereads (name ++ "(" ++ a ++ ")") := by
  obtain ⟨p, hp⟩ := h.exists_printedAs
  exact .of_printedAs (hp.application hl hname he)

/-- A price ending may be made of readable texts. -/
theorem ending (hname : l.Names .function Expr.endingName) (ha : l.Rereads a) (hb : l.Rereads b) :
    l.Rereads (Expr.endingName ++ "(" ++ a ++ ", " ++ b ++ ")") := by
  obtain ⟨p, hp⟩ := ha.exists_printedAs
  obtain ⟨q, hq⟩ := hb.exists_printedAs
  exact .of_printedAs (hp.ending hl hname hq)

/-- A conditional may be made of readable texts. -/
theorem conditional (hk : .ifWord ∈ l.kinds) (ha : l.Rereads a) (hb : l.Rereads b)
    (hc : l.Rereads c) :
    l.Rereads ("if (" ++ a ++ ") \x7b" ++ b ++ "\x7d else \x7b" ++ c ++ "\x7d") := by
  obtain ⟨p, hp⟩ := ha.exists_printedAs
  obtain ⟨q, hq⟩ := hb.exists_printedAs
  obtain ⟨r, hr⟩ := hc.exists_printedAs
  exact .of_printedAs (hp.conditional hl hk hq hr)

/-- **A mark may stand behind an operand.** -/
theorem factorial {ws : List Token} {e : Expr} {name : String} (hname : name = "!" ∨ name = "!!")
    (hk : (factorialWord name).kind ∈ l.kinds) (h : (Layout.unit ws e).PrintedAs l [] a)
    (hr : ∀ ts, Reads false .primary (dropBlanks ws ++ ts) [e] ts) : l.Rereads (a ++ name) := by
  have hmark := h.factorial hl hname hk hr
  rcases hname with rfl | rfl
  · exact .marked hmark h
  · exact .of_printedAs hmark

end Rereads

end Lexicon

end Formula
