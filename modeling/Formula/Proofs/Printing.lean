/-
# Printed expressions as layouts

The plain text of an expression is written word by word: each operand is spelled out, and brackets
stand where the printer puts them. **The words of a layout spell the plain text** (`textOf_layout`),
and each of them is set off from what follows (`clear_layout`).
-/
import Formula.Expr.Ascii
import Formula.Proofs.Layout
import Formula.Proofs.Scanning

namespace Formula

open Grammar

/-! ## Words -/

namespace Grammar

/-- A word of a text: a token without a place. -/
abbrev word (kind : Kind) (value lexeme : String) : Token := ⟨kind, value, lexeme, 0⟩

/-- A word that is its own value. -/
abbrev plainWord (kind : Kind) (lexeme : String) : Token := word kind lexeme lexeme

/-- A space. -/
def space : Token := plainWord .blank " "

/-- An opening bracket. -/
def openWord (b : Bracket) : Token := plainWord (.opening b) b.opening

/-- A closing bracket. -/
def closeWord (b : Bracket) : Token := plainWord (.closing b) b.closing

/-- The separator of arguments. -/
def comma : Token := plainWord .terminator ","

/-- The spelling of an operator in plain text. -/
def spelling : Operator → String
  | .and => "AND"
  | .or => "OR"
  | .not => "NOT"
  | op => op.symbol

/-- An operator. -/
def operatorWord (op : Operator) : Token := word (.operator op) op.symbol (spelling op)

/-- A number. -/
def numberWord : Number → Token
  | .integer n => plainWord .natural (intText n)
  | .rational q => plainWord .natural (ratText q)
  | .float x => plainWord .real x.literalText

/-- A truth value. -/
def booleanWord (b : Bool) : Token :=
  word .boolean (if b then "true" else "false") (if b then "TRUE" else "FALSE")

/-- A mark after an operand. -/
def factorialWord (name : String) : Token :=
  plainWord (if name = "!" then .factorial else .semiFactorial) name

namespace Layout

/-- An operator as it stands between its operands: connectives are set off by spaces. -/
def spaced (op : Operator) (t : Token) : List Token :=
  if op.isConnective then [space, t, space] else [t]

/-- The words of a layout, blanks included. -/
def words : Layout → List Token
  | unit ws _ => ws
  | signed _ t p => t :: p.words
  | joined op t l r => l.words ++ spaced op t ++ r.words

/-- The words of a layout in brackets. -/
def enclosed (b : Bracket) (p : Layout) : List Token := openWord b :: (p.words ++ [closeWord b])

/-- A layout in parentheses, when they are needed. -/
def bracketed (needed : Bool) (p : Layout) : Layout :=
  if needed then unit (enclosed .paren p) p.reading else p

end Layout

end Grammar

/-! ## Layouts of expressions -/

namespace Expr

/-- Whether the left operand of an operator stands in brackets. -/
def bracketsLeft (op : Operator) (l : Expr) : Bool :=
  match op with
  | .mul | .div => l.needsBrackets op false
  | .pow => l.needsBrackets op true
  | _ => false

/-- Whether the right operand of an operator stands in brackets. -/
def bracketsRight (op : Operator) (r : Expr) : Bool :=
  match op with
  | .mul | .div => r.needsBrackets op true
  | _ => r.needsBrackets op false

/-- **The layout that the printer gives to an expression.** -/
def layout : Expr → Layout
  | number n => .unit [numberWord n] (number n)
  | boolean b => .unit [booleanWord b] (boolean b)
  | constant name => .unit [plainWord .constant name] (constant name)
  | identifier name => .unit [plainWord .identifier name] (identifier name)
  | operation op l r =>
    if op = .not then
      .signed .denial (operatorWord .not)
        (.unit (space :: l.layout.enclosed .paren) l.layout.reading)
    else if op = .sub ∧ r.isHole then
      .signed .minus (operatorWord .sub) (l.layout.bracketed (l.needsBrackets .sub false))
    else
      .joined op (operatorWord op) (l.layout.bracketed (bracketsLeft op l))
        (r.layout.bracketed (bracketsRight op r))
  | conditional c t e =>
    .unit (plainWord .ifWord "if" :: space :: (c.layout.enclosed .paren
        ++ space :: (t.layout.enclosed .brace
        ++ space :: plainWord .elseWord "else" :: space :: e.layout.enclosed .brace)))
      (conditional c.layout.reading t.layout.reading e.layout.reading)
  | call name a =>
    if name = "!" ∨ name = "!!" then
      .unit ((a.layout.bracketed a.needsFactorialBrackets).words ++ [factorialWord name])
        (call name a.layout.reading)
    else .unit (plainWord .function name :: a.layout.enclosed .paren) (call name a.layout.reading)
  | ending p t =>
    .unit (plainWord .function endingName :: openWord .paren
        :: (p.layout.words ++ comma :: space :: t.layout.words ++ [closeWord .paren]))
      (ending p.layout.reading t.layout.reading)
  | e => .unit [] e

end Expr

/-! ## Printable expressions -/

namespace Expr

/-- **Whether an expression can be read from its plain text**: its operands can be read word by
word, and holes stand only behind a minus and a denial. -/
def Printable : Expr → Prop
  | number n => operand? (numberWord n) = some (number n) ∧ Opens n.ascii.toList
  | boolean _ => True
  | constant name => Opens name.toList
  | identifier name => Opens name.toList
  | operation op l r =>
    if op = .not ∨ op = .sub ∧ r.isHole then r = hole ∧ l.Printable
    else l.Printable ∧ r.Printable
  | conditional c t e => c.Printable ∧ t.Printable ∧ e.Printable
  | call name a =>
    name ≠ endingName ∧ (name = "!" ∨ name = "!!" ∨ Opens name.toList) ∧ a.Printable
  | ending p t => p.Printable ∧ t.Printable
  | _ => False

variable {op : Operator} {l r : Expr}

/-- A printable operation has one operand, behind a denial or a minus, or two. -/
theorem Printable.operation_cases (h : (operation op l r).Printable) :
    (r = hole ∧ (op = .not ∨ op = .sub) ∧ l.Printable) ∨
      (r.isHole = false ∧ op ≠ .not ∧ l.Printable ∧ r.Printable) := by
  rw [Printable] at h
  by_cases hs : op = .not ∨ op = .sub ∧ r.isHole = true
  · rw [if_pos hs] at h
    exact Or.inl ⟨h.1, hs.imp_right And.left, h.2⟩
  · rw [if_neg hs] at h
    have hr : r.isHole = false := by
      cases r with
      | hole => exact h.2.elim
      | _ => rfl
    exact Or.inr ⟨hr, fun hn => hs (Or.inl hn), h⟩

/-- The layout of an operation with two operands. -/
theorem layout_operation (hn : op ≠ .not) (hr : r.isHole = false) :
    (operation op l r).layout = .joined op (operatorWord op)
      (l.layout.bracketed (bracketsLeft op l)) (r.layout.bracketed (bracketsRight op r)) := by
  rw [layout, if_neg hn, if_neg (by simp [hr])]

end Expr

/-! ## The text of the words -/

namespace Grammar

/-- The text of a layout in brackets. -/
theorem textOf_enclosed (b : Bracket) (p : Layout) :
    textOf (p.enclosed b) = b.opening.toList ++ textOf p.words ++ b.closing.toList := by
  simp [Layout.enclosed, openWord, closeWord]

/-- The text of a layout in parentheses, when they are needed. -/
theorem textOf_bracketed {needed : Bool} {p : Layout} {text : String}
    (h : textOf p.words = text.toList) :
    textOf (p.bracketed needed).words = (Expr.bracketed needed text).toList := by
  cases needed with
  | false => exact h
  | true =>
    show textOf (p.enclosed .paren) = _
    rw [textOf_enclosed, h]
    simp [Expr.bracketed, Bracket.opening, Bracket.closing]

/-- The text of an operator between its operands. -/
def infixText : Operator → String
  | .and => " AND "
  | .or => " OR "
  | op => op.symbol

/-- A connective is set off by spaces. -/
theorem textOf_spaced {op : Operator} (hn : op ≠ .not) :
    textOf (Layout.spaced op (operatorWord op)) = (infixText op).toList := by
  cases op <;> first | rfl | exact absurd rfl hn

end Grammar

namespace Expr

/-- The plain text of a number. -/
theorem lexeme_numberWord (n : Number) : (numberWord n).lexeme = n.ascii := by
  cases n <;> rfl

/-- **The plain text of an operation** with two operands. -/
theorem ascii_operation {op : Operator} {l r : Expr} (hn : op ≠ .not) (hr : r.isHole = false) :
    (operation op l r).ascii = bracketed (bracketsLeft op l) l.ascii ++ infixText op
      ++ bracketed (bracketsRight op r) r.ascii := by
  cases op with
  | not => exact absurd rfl hn
  | sub =>
    rw [ascii, hr]
    rfl
  | _ => rfl

/-- The text of an application of a function that is no mark. -/
theorem ascii_application {name : String} {a : Expr} (h : ¬ (name = "!" ∨ name = "!!")) :
    (call name a).ascii = name ++ "(" ++ a.ascii ++ ")" := by
  rw [ascii, if_neg h]

/-- The text of a mark behind an operand. -/
theorem ascii_mark {name : String} {a : Expr} (h : name = "!" ∨ name = "!!") :
    (call name a).ascii = bracketed a.needsFactorialBrackets a.ascii ++ name := by
  rw [ascii, if_pos h]

/-- **The words of a layout spell the plain text.** -/
theorem textOf_layout {e : Expr} (h : e.Printable) : textOf e.layout.words = e.ascii.toList := by
  induction e with
  | number n => simp [layout, Layout.words, lexeme_numberWord, ascii]
  | boolean b => cases b <;> rfl
  | constant name => simp [layout, Layout.words, ascii]
  | identifier name => simp [layout, Layout.words, ascii]
  | operation op l r ihl ihr =>
    rcases h.operation_cases with ⟨rfl, rfl | rfl, hl⟩ | ⟨hr, hn, hpl, hpr⟩
    · simp [layout, Layout.words, textOf_enclosed, ihl hl, ascii, operatorWord, spelling, space,
        Bracket.opening, Bracket.closing]
    · simp [layout, isHole, Layout.words, textOf_bracketed (ihl hl), ascii, operatorWord, spelling,
        Operator.symbol]
    · rw [layout_operation hn hr, ascii_operation hn hr]
      simp [Layout.words, textOf_bracketed (ihl hpl), textOf_bracketed (ihr hpr), textOf_spaced hn]
  | conditional c t e ihc iht ihe =>
    obtain ⟨hc, ht, he⟩ := h
    simp [layout, Layout.words, textOf_enclosed, ihc hc, iht ht, ihe he, ascii, space,
      Bracket.opening, Bracket.closing]
  | call name a ih =>
    have ha := ih h.2.2
    rw [layout, ascii]
    split
    · simp [Layout.words, textOf_bracketed ha, factorialWord]
    · simp [Layout.words, textOf_enclosed, ha, Bracket.opening, Bracket.closing]
  | ending p t ihp iht =>
    obtain ⟨hp, ht⟩ := h
    simp [layout, Layout.words, openWord, closeWord, comma, space, ihp hp, iht ht, ascii,
      Bracket.opening, Bracket.closing]
  | _ => exact h.elim

end Expr

/-! ## Words that are set off -/

namespace Grammar

/-- A closing bracket ends numerals and names, and is no mark. -/
theorem boundary_closeWord (b : Bracket) (cs : List Char) :
    Boundary ((closeWord b).lexeme.toList ++ cs) ∧
      ((closeWord b).lexeme.toList ++ cs).head? ≠ some '!' := by
  cases b <;> simp [closeWord, Bracket.closing, Boundary, boundaryChars]

/-- An operator ends numerals and names, and is no mark. -/
theorem boundary_infixText {op : Operator} (hn : op ≠ .not) (cs : List Char) :
    Boundary ((infixText op).toList ++ cs) ∧ ((infixText op).toList ++ cs).head? ≠ some '!' := by
  cases op <;> first
    | exact absurd rfl hn
    | simp [infixText, Operator.symbol, Boundary, boundaryChars]

/-- An operator is set off from an operand behind it. -/
theorem separated_spaced {op : Operator} {cs : List Char} (hc : Opens cs) :
    Separated (Layout.spaced op (operatorWord op)) cs := by
  unfold Layout.spaced
  split
  · rename_i hop
    refine ⟨?_, ?_, hc, trivial⟩
    · show Opens (textOf [operatorWord op, space] ++ cs)
      cases op <;> first | exact ⟨_, rfl, by decide⟩ | cases hop
    · show (if op.isConnective then _ else _)
      rw [if_pos hop]
      rfl
  · rename_i hop
    refine ⟨?_, trivial⟩
    show (if op.isConnective then _ else _)
    rw [if_neg hop]
    exact fun _ => hc

namespace Layout

/-- Whether the words of a layout are set off wherever an operand may stand. -/
structure Clear (p : Layout) : Prop where
  opens : Opens (textOf p.words)
  separated : ∀ {cs}, Boundary cs → cs.head? ≠ some '!' → Separated p.words cs

namespace Clear

variable {p : Layout}

/-- What stands in brackets is set off from everything. -/
theorem enclosed (h : p.Clear) (b : Bracket) (cs : List Char) : Separated (p.enclosed b) cs := by
  obtain ⟨hb, hm⟩ := boundary_closeWord b cs
  refine ⟨trivial, separated_append.2 ⟨?_, trivial, trivial⟩⟩
  simpa using h.separated hb hm

/-- Brackets open. -/
theorem opens_enclosed (p : Layout) (b : Bracket) : Opens (textOf (p.enclosed b)) := by
  cases b <;> exact ⟨_, rfl, by decide⟩

/-- Parentheses keep a layout clear. -/
theorem bracketed (h : p.Clear) (needed : Bool) : (p.bracketed needed).Clear := by
  cases needed with
  | false => exact h
  | true => exact ⟨opens_enclosed p .paren, fun _ _ => h.enclosed .paren _⟩

/-- A word that stands for an operand is clear. -/
theorem leaf {t : Token} {e : Expr} (ht : ∀ cs, Boundary cs → t.Precedes cs)
    (ho : Opens t.lexeme.toList) : (unit [t] e).Clear := by
  refine ⟨?_, ?_⟩
  · simpa [words] using ho
  · intro cs hb _
    exact ⟨ht cs hb, trivial⟩

/-- An operator between clear layouts is clear. -/
theorem joined {op : Operator} {l r : Layout} (hn : op ≠ .not) (hl : l.Clear) (hr : r.Clear) :
    (joined op (operatorWord op) l r).Clear := by
  refine ⟨?_, ?_⟩
  · rw [words, List.append_assoc, textOf_append]
    exact hl.opens.append
  -- the left operand is followed by the operator, the right one by what follows the whole
  · intro cs hb hm
    rw [words, List.append_assoc, separated_append, separated_append]
    refine ⟨?_, separated_spaced hr.opens.append, hr.separated hb hm⟩
    rw [textOf_append, textOf_spaced hn, List.append_assoc]
    obtain ⟨hb', hm'⟩ := boundary_infixText hn (textOf r.words ++ cs)
    exact hl.separated hb' hm'

/-- A minus in front of a clear layout is clear. -/
theorem minus (h : p.Clear) : (signed .minus (operatorWord .sub) p).Clear := by
  refine ⟨⟨_, rfl, by decide⟩, ?_⟩
  intro cs hb hm
  refine ⟨?_, h.separated hb hm⟩
  intro hrelation
  cases hrelation

/-- A denial in front of a clear layout in parentheses is clear. -/
theorem denial {e : Expr} (h : p.Clear) :
    (signed .denial (operatorWord .not) (unit (space :: p.enclosed .paren) e)).Clear := by
  refine ⟨⟨_, rfl, by decide⟩, ?_⟩
  intro cs _ _
  exact ⟨rfl, (opens_enclosed p .paren).append, h.enclosed .paren cs⟩

/-- A function of one argument is clear. -/
theorem application {name : String} {e : Expr} (ho : Opens name.toList) (h : p.Clear) :
    (unit (plainWord .function name :: p.enclosed .paren) e).Clear := by
  refine ⟨?_, ?_⟩
  · rw [words, textOf_cons]
    exact ho.append
  · intro cs _ _
    exact ⟨rfl, h.enclosed .paren cs⟩

/-- A price ending is clear. -/
theorem ending {q : Layout} {e : Expr} (hp : p.Clear) (hq : q.Clear) :
    (unit (plainWord .function Expr.endingName :: openWord .paren
      :: (p.words ++ comma :: space :: q.words ++ [closeWord .paren])) e).Clear := by
  refine ⟨⟨_, rfl, by decide⟩, ?_⟩
  intro cs _ _
  refine ⟨rfl, trivial, ?_⟩
  rw [List.append_assoc, List.cons_append, List.cons_append, separated_append]
  obtain ⟨hb, hm⟩ := boundary_closeWord .paren cs
  refine ⟨?_, trivial, ?_, separated_append.2 ⟨?_, trivial, trivial⟩⟩
  · exact hp.separated (Or.inr ⟨rfl, rfl⟩) (by simp [comma])
  · show Opens (textOf (q.words ++ [closeWord .paren]) ++ cs)
    rw [textOf_append, List.append_assoc]
    exact hq.opens.append
  · simpa using hq.separated hb hm

/-- A mark behind words that are set off is clear. -/
theorem factorial {ws : List Token} {e : Expr} {name : String}
    (hname : name = "!" ∨ name = "!!") (ho : Opens (textOf ws))
    (hs : ∀ {cs}, Boundary cs → Separated ws cs) : (unit (ws ++ [factorialWord name]) e).Clear := by
  refine ⟨?_, ?_⟩
  · rw [words, textOf_append]
    exact ho.append
  · intro cs _ hm
    rw [words, separated_append]
    rcases hname with rfl | rfl
    · exact ⟨hs (by simp [factorialWord, Boundary, boundaryChars]), hm, trivial⟩
    · exact ⟨hs (by simp [factorialWord, Boundary, boundaryChars]), trivial, trivial⟩

/-- A conditional of clear parts is clear. -/
theorem conditional {t u : Layout} {e : Expr} (hp : p.Clear) (ht : t.Clear) (hu : u.Clear) :
    (unit (plainWord .ifWord "if" :: space :: (p.enclosed .paren ++ space :: (t.enclosed .brace
        ++ space :: plainWord .elseWord "else" :: space :: u.enclosed .brace))) e).Clear := by
  refine ⟨⟨_, rfl, by decide⟩, ?_⟩
  intro cs _ _
  refine ⟨rfl, ?_, separated_append.2 ⟨hp.enclosed .paren _, ?_, separated_append.2
    ⟨ht.enclosed .brace _, ?_, rfl, ?_, hu.enclosed .brace cs⟩⟩⟩
  · rw [textOf_append, List.append_assoc]
    exact (opens_enclosed p .paren).append
  · rw [textOf_append, List.append_assoc]
    exact (opens_enclosed t .brace).append
  · exact ⟨_, rfl, by decide⟩
  · exact (opens_enclosed u .brace).append

end Clear

end Layout

end Grammar

namespace Expr

/-- The operand of a mark is set off from the mark. -/
theorem separated_factorialOperand {a : Expr} (ha : a.layout.Clear) {cs : List Char}
    (hb : Boundary cs) :
    Separated (a.layout.bracketed a.needsFactorialBrackets).words cs := by
  cases hn : a.needsFactorialBrackets with
  | true => exact ha.enclosed .paren cs
  | false =>
    -- the printer leaves out parentheses only around single words
    match a, hn with
    | number n, _ => exact ⟨by cases n <;> exact hb, trivial⟩
    | constant name, _ => exact ⟨hb, trivial⟩
    | identifier name, _ => exact ⟨hb, trivial⟩

/-- **The words of a printable expression are set off from each other.** -/
theorem clear_layout {e : Expr} (h : e.Printable) : e.layout.Clear := by
  induction e with
  | number n =>
    refine .leaf (fun cs hb => ?_) ?_
    · cases n <;> exact hb
    · rw [lexeme_numberWord]
      exact h.2
  | boolean b => cases b <;> exact .leaf (fun _ hb => hb) ⟨_, rfl, by decide⟩
  | constant name => exact .leaf (fun _ hb => hb) h
  | identifier name => exact .leaf (fun _ hb => hb) h
  | operation op l r ihl ihr =>
    rcases h.operation_cases with ⟨rfl, rfl | rfl, hl⟩ | ⟨hr, hn, hpl, hpr⟩
    · exact .denial (ihl hl)
    · exact .minus ((ihl hl).bracketed _)
    · rw [layout_operation hn hr]
      exact .joined hn ((ihl hpl).bracketed _) ((ihr hpr).bracketed _)
  | conditional c t e ihc iht ihe => exact .conditional (ihc h.1) (iht h.2.1) (ihe h.2.2)
  | call name a ih =>
    have ha := ih h.2.2
    rw [layout]
    split
    · rename_i hname
      exact .factorial hname (ha.bracketed _).opens (separated_factorialOperand ha)
    · rename_i hname
      rw [not_or] at hname
      exact .application (by simpa [hname] using h.2.1) ha
  | ending p t ihp iht => exact .ending (ihp h.1) (iht h.2)
  | _ => exact h.elim

end Expr

end Formula
