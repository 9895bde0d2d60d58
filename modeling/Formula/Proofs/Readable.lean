/-
# Readable texts

The plain text of a parsed expression spells numbers with signs and divisions, infinities as
constants and negative zeros without brackets, and a mark may stand in front of an equals sign.
Nevertheless **it is a text of the same lexicon**: it is cut into tokens and parsed, with implicit
products or without (`reads_printed`).
-/
import Formula.Proofs.Arithmetic
import Formula.Proofs.Complete
import Formula.Proofs.Recovery
import Formula.Proofs.Vocabulary

namespace Formula

open Grammar

namespace Lexicon

variable {l : Lexicon} {a b name : String}

/-! ## Single words -/

/-- **Whether a text is one word that stands for an operand.** -/
structure OperandWord (l : Lexicon) (text : String) (t : Token) (e : Expr) : Prop where
  operand : operand? t = some e
  knows : l.Knows t
  precedes : ∀ cs, Boundary cs → t.Precedes cs
  opens : Opens text.toList
  lexeme : t.lexeme = text

namespace OperandWord

variable {t : Token} {e : Expr}

/-- A word is found again in front of everything. -/
theorem printedAs (h : l.OperandWord a t e) : (Layout.unit [t] e).PrintedAs l [] a := by
  obtain ⟨hoperand, hknows, hprecedes, hopens, rfl⟩ := h
  exact .word hoperand hknows hprecedes hopens

/-- A word is read as an operand that a mark may follow. -/
theorem primary (h : l.OperandWord a t e) (ts : List Token) :
    Reads false .primary (dropBlanks [t] ++ ts) [e] ts := by
  rw [dropBlanks_operand h.operand]
  exact .operand h.operand

end OperandWord

/-- A natural number is a word. -/
theorem operandWord_natural (hl : l ∈ builtin) (n : Nat) :
    l.OperandWord (intText n) (numberWord (.integer n)) (.integer n) where
  operand := operand?_natural n
  knows := knows_natural hl n
  precedes := fun _ hcs => hcs
  opens := opens_natural n
  lexeme := rfl

/-- A name that stands for an operand is a word. -/
theorem operandWord_name (hl : l ∈ builtin)
    (h : l.Names .constant name ∨ l.Names .identifier name) :
    l.OperandWord name (plainWord .constant name) (.constant name) ∨
      l.OperandWord name (plainWord .identifier name) (.identifier name) := by
  rcases h with h | h
  · exact .inl ⟨rfl, h.knows hl fun _ hcs => Boundary.endsWord hcs, fun _ hcs => hcs, h.opens, rfl⟩
  · exact .inr ⟨rfl, h.knows hl fun _ hcs => Boundary.endsWord hcs, fun _ hcs => hcs, h.opens, rfl⟩

/-- A finite double without sign is a word. -/
theorem operandWord_real (hl : l ∈ builtin) {x : Double} (hx : x.isFinite = true)
    (hs : x.signBit = false) :
    l.OperandWord x.literalText (numberWord (.float x)) (.float x) where
  operand := (operand?_real hx hs).1
  knows := knows_real hl hx hs
  precedes := fun _ hcs => hcs
  opens := (operand?_real hx hs).2
  lexeme := rfl

/-- A truth value is a word. -/
theorem operandWord_boolean (hl : l ∈ builtin) (h : .boolean ∈ l.kinds) (b : Bool) :
    l.OperandWord (Expr.boolean b).ascii (booleanWord b) (.boolean b) where
  operand := Expr.operand?_booleanWord b
  knows := knows_keyword hl (by cases b <;> decide) (by cases b <;> exact h)
  precedes := by cases b <;> exact fun _ hcs => hcs
  opens := by cases b <;> exact ⟨_, rfl, by decide⟩
  lexeme := by cases b <;> rfl

/-- A decimal tail is a word. -/
theorem operandWord_tail (hl : l ∈ builtin) {c d : Char} (hc : isDecimalDigit c = true)
    (hd : isDecimalDigit d = true) : l.OperandWord (String.ofList ['.', c, d])
      (plainWord .literal (String.ofList ['.', c, d])) (.literal (String.ofList ['.', c, d])) where
  operand := rfl
  knows := knows_tail hl hc hd
  precedes := fun _ _ => trivial
  opens := by
    rw [String.toList_ofList]
    exact ⟨'.', rfl, by decide⟩
  lexeme := rfl

/-! ## Words with signs -/

/-- **Whether a text is one word that stands for an operand**, behind minus signs. -/
inductive SignedWord (l : Lexicon) : String → Prop where
  | word {a : String} {t : Token} {e : Expr} (h : l.OperandWord a t e) : SignedWord l a
  | minus {a : String} (h : SignedWord l a) : SignedWord l ("-" ++ a)

namespace SignedWord

/-- A minus sign may be there or not. -/
theorem minusIf (negative : Bool) (h : l.SignedWord a) :
    l.SignedWord (if negative then "-" ++ a else a) := by
  cases negative with
  | false => exact h
  | true => exact h.minus

/-- A word with signs is found again in front of everything. -/
theorem exists_printedAs (hl : l ∈ builtin) (h : l.SignedWord a) :
    ∃ p : Layout, p.PrintedAs l [] a := by
  induction h with
  | word h => exact ⟨_, h.printedAs⟩
  | minus _ ih =>
    obtain ⟨p, hp⟩ := ih
    exact ⟨_, hp.minus hl⟩

/-- A word with signs can be read. -/
theorem rereads (hl : l ∈ builtin) (h : l.SignedWord a) : l.Rereads a := by
  obtain ⟨p, hp⟩ := h.exists_printedAs hl
  exact .of_printedAs hp

/-- **A mark behind a word with signs can be read**: it belongs to the word alone. -/
theorem factorial (hl : l ∈ builtin) (h : l.SignedWord a) (hname : name = "!" ∨ name = "!!")
    (hk : (factorialWord name).kind ∈ l.kinds) : l.Rereads (a ++ name) := by
  induction h with
  | word h => exact .factorial hl hname hk h.printedAs h.primary
  | minus _ ih =>
    rw [String.append_assoc]
    exact ih.minus hl

end SignedWord

/-! ## Operands -/

/-- An integer is a word with its sign. -/
theorem signedWord_integer (hl : l ∈ builtin) (n : Int) : l.SignedWord (intText n) := by
  rw [Expr.intText_eq]
  exact (SignedWord.word (operandWord_natural hl n.natAbs)).minusIf _

/-- A name that stands for an operand is a word. -/
theorem signedWord_name (hl : l ∈ builtin)
    (h : l.Names .constant name ∨ l.Names .identifier name) : l.SignedWord name := by
  rcases operandWord_name hl h with h | h
  · exact .word h
  · exact .word h

/-- **A double is a word with its sign**, infinities and what is no number included. -/
theorem signedWord_double (hl : l ∈ builtin) (x : Double) : l.SignedWord x.literalText := by
  have hinfinity : l.SignedWord "INF" :=
    signedWord_name hl (names_of_notFinite l hl "INF" (by decide))
  match x with
  | .nan => exact signedWord_name hl (names_of_notFinite l hl "NAN" (by decide))
  | .infinity false => exact hinfinity
  | .infinity true => exact hinfinity.minus
  | .finite false r hr => exact .word (operandWord_real hl rfl rfl)
  | .finite true r hr =>
    rw [Double.literalText_negative]
    exact (SignedWord.word (operandWord_real hl (x := .finite false r hr) rfl rfl)).minus

/-- **A rational can be read**: as an integer, or as a division with its sign. -/
theorem rereads_rational (hl : l ∈ builtin) (q : Rat) : l.Rereads (ratText q) := by
  unfold ratText
  split
  · exact (signedWord_integer hl q.num).rereads hl
  · have hdiv : ∀ l ∈ builtin, .operator .div ∈ l.kinds := by decide
    rw [← intText_natCast]
    exact ((signedWord_integer hl q.num).rereads hl).joined hl (hdiv l hl) (by decide)
      ((SignedWord.word (operandWord_natural hl q.den)).rereads hl)

/-- A number can be read. -/
theorem rereads_number (hl : l ∈ builtin) (n : Number) : l.Rereads n.ascii := by
  cases n with
  | integer n => exact (signedWord_integer hl n).rereads hl
  | rational q => exact rereads_rational hl q
  | float x => exact (signedWord_double hl x).rereads hl

/-! ## Expressions -/

/-- **An operand that a mark follows without brackets is one word** with its signs. -/
theorem Worded.signedWord (hl : l ∈ builtin) {e : Expr} (h : l.Worded e)
    (hn : e.needsFactorialBrackets = false) : l.SignedWord e.ascii := by
  cases h with
  | number n =>
    cases n with
    | integer n => exact signedWord_integer hl n
    | rational q => simp [Expr.needsFactorialBrackets] at hn
    | float x => exact signedWord_double hl x
  | constant h => exact signedWord_name hl (Or.inl h)
  | identifier h => exact signedWord_name hl (Or.inr h)
  | _ => cases hn

/-- **The plain text of a worded expression can be read.** -/
theorem Worded.rereads (hl : l ∈ builtin) {e : Expr} (h : l.Worded e) : l.Rereads e.ascii := by
  induction h with
  | number n => exact rereads_number hl n
  | boolean h b => exact .of_printedAs (operandWord_boolean hl h b).printedAs
  | constant h => exact (signedWord_name hl (Or.inl h)).rereads hl
  | identifier h => exact (signedWord_name hl (Or.inr h)).rereads hl
  | literal ha hb => exact .of_printedAs (operandWord_tail hl ha hb).printedAs
  | operation hop hn _ hy ihx ihy =>
    rw [Expr.ascii_operation hn hy.isHole_eq_false]
    exact (ihx.bracketed hl _).joined hl hop hn (ihy.bracketed hl _)
  | negated _ _ ih => exact (ih.bracketed hl _).minus hl
  | denied hop _ ih => exact ih.denial hl hop
  | conditional hk _ _ _ ihc ihx ihy => exact ihc.conditional hl hk ihx ihy
  | @factorial name x hname hk hx ih =>
    rw [Expr.ascii_mark hname]
    cases hn : x.needsFactorialBrackets with
    | false => exact (hx.signedWord hl hn).factorial hl hname hk
    | true =>
      obtain ⟨p, hp⟩ := ih.exists_printedAs
      exact .factorial hl hname hk (hp.parenthesized hl) fun ts => hp.written.valid.primary ts
  | @application name x hname he _ ih =>
    rw [Expr.ascii_application hname.not_mark]
    exact ih.application hl hname he
  | ending hname _ _ ihx ihy => exact ihx.ending hl hname ihy

/-! ## The main result -/

/-- **What is read from the plain text of an expression** is the reading of a layout that is printed
so. -/
theorem reread_of_printedAs {p : Layout} {barred : List Char} {o : Options} {e : Expr}
    (he : e.Complete) (ho : o.simplify = false) (hp : p.PrintedAs l barred e.ascii) :
    l.reread o e = .ok p.reading := by
  obtain ⟨ts, hts, hparse⟩ := hp.parse
  rw [reread, he.ascii?]
  show (l.tokenize e.ascii).bind (parse o) = _
  rw [hts]
  exact hparse o ho

/-- **Plain text is always readable again.** Whatever a built-in lexicon cuts and the parser
accepts, simplifying or not, has a plain text that the same lexicon cuts and the parser accepts
without simplifying, with implicit products or without. -/
theorem reads_printed (hl : l ∈ builtin) {o : Options} {source : String} {ts : List Token}
    {e : Expr} (ht : l.tokenize source = .ok ts) (h : parse o ts = .ok e) :
    ∃ text us e', e.ascii? = .ok text ∧ l.tokenize text = .ok us ∧
      ∀ o' : Options, o'.simplify = false → parse o' us = .ok e' := by
  have hworded := worded_of_parse hl ht h
  obtain ⟨us, e', hus, he'⟩ := (hworded.rereads hl).parse
  exact ⟨e.ascii, us, e', (complete_of_parse h).ascii?, hus, he'⟩

/-- A mark in front of an equals sign is read again as an inequality, and a negative zero as a
signed one. -/
theorem reads_printed_mark :
    let product : Expr := .operation .mul (.integer 2) (.identifier "y")
    let below (zero : Expr) : Expr := .operation .gt (.literal ".50") zero
    let zero (negative : Bool) : Expr := .float (.finite negative 0 rankLimit_pos)
    let e : Expr := .operation .or
      (.operation .eq (.call "!" (.identifier "x")) product) (below (zero true))
    let e' : Expr := .operation .or
      (.operation .ne (.identifier "x") product) (below (.negated (zero false)))
    (logic.tokenize "x! = 2y OR .50 > -0.0").bind (parse ⟨true, true, false⟩) = .ok e ∧
      e.ascii? = .ok "x!=2*y OR .50>-0.0" ∧
      ∃ us, logic.tokenize "x!=2*y OR .50>-0.0" = .ok us ∧
        ∀ o' : Options, o'.simplify = false → parse o' us = .ok e' := by
  intro product below zero e e'
  have hread : (logic.tokenize "x! = 2y OR .50 > -0.0").bind (parse ⟨true, true, false⟩) = .ok e := by
    decide +kernel
  have htext : e.ascii? = .ok "x!=2*y OR .50>-0.0" := by decide +kernel
  have hagain : (logic.tokenize "x!=2*y OR .50>-0.0").bind (parse ⟨false, false, false⟩) = .ok e' := by
    decide +kernel
  obtain ⟨ts, hts, hparse⟩ := bind_eq_ok.1 hread
  obtain ⟨text, us, d, hascii, hus, hd⟩ := reads_printed (l := logic) (by decide) hts hparse
  cases hascii.symm.trans htext
  refine ⟨hread, htext, us, hus, ?_⟩
  -- what is read does not depend on the option of implicit products
  obtain ⟨us', hus', hsame⟩ := bind_eq_ok.1 hagain
  cases hus.symm.trans hus'
  have heq : d = e' := Except.ok.inj ((hd ⟨false, false, false⟩ rfl).symm.trans hsame)
  rwa [heq] at hd

end Lexicon

end Formula
