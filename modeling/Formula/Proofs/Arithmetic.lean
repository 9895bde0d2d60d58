/-
# Exact arithmetic from plain text

Arithmetic expressions are built from integers and rationals of either sign, single letters, the
five operations, minus signs and functions. The plain text spells a negative number with a minus
sign and a fraction as a division, and leaves chains of sums and of products without brackets, so it
need not read back as the expression. **What it reads back as has the same exact value, or meets the
same error** (`exactValue_of_reread`).
-/
import Formula.Proofs.Absorb
import Formula.Proofs.Canonical
import Formula.Proofs.Complete

namespace Formula

open Grammar Lexicon

namespace Expr

/-! ## Arithmetic expressions -/

/-- **The arithmetic expressions over the rationals.** -/
inductive Arithmetic : Expr → Prop where
  | integer (n : Int) : Arithmetic (integer n)
  | rational (q : Rat) : Arithmetic (rational q)
  | letter {c : Char} (hc : isAsciiLetter c = true) (he : c ≠ 'e') :
    Arithmetic (identifier (String.singleton c))
  | negated {e : Expr} (h : Arithmetic e) : Arithmetic (negated e)
  | operation {op : Operator} {l r : Expr} (hop : op ∈ arithmeticOperators) (hl : Arithmetic l)
    (hr : Arithmetic r) : Arithmetic (operation op l r)
  | factorial {name : String} {a : Expr} (hn : name = "!" ∨ name = "!!") (h : Arithmetic a) :
    Arithmetic (call name a)
  | call {name : String} {a : Expr} (hn : name ∈ functionNames) (he : name ≠ endingName)
    (h : Arithmetic a) : Arithmetic (call name a)
  | ending {p t : Expr} (hp : Arithmetic p) (ht : Arithmetic t) : Arithmetic (ending p t)

/-- An arithmetic expression is complete. -/
theorem Arithmetic.complete {e : Expr} (h : e.Arithmetic) : e.Complete := by
  induction h with
  | integer n => exact .number _
  | rational q => exact .number _
  | letter _ _ => exact .identifier _
  | negated _ ih => exact .negated ih
  | operation hop _ _ ihl ihr => exact .operation (ne_not_of_arithmetic hop) ihl ihr
  | factorial hn _ ih =>
    refine .call ?_ ih
    rcases hn with rfl | rfl <;> decide
  | call _ he _ ih => exact .call he ih
  | ending _ _ ihp iht => exact .ending ihp iht

/-- An arithmetic expression is there. -/
theorem Arithmetic.isHole_eq_false {e : Expr} (h : e.Arithmetic) : e.isHole = false :=
  h.complete.isHole_eq_false

/-! ## Spelled expressions -/

/-- A natural number as it is spelled. -/
def spelledNatural (n : Nat) : Layout := .unit [numberWord (.integer n)] (integer n)

/-- A minus sign in front of a layout, when there is one. -/
def minusIf (negative : Bool) (p : Layout) : Layout :=
  if negative then .signed .minus (operatorWord .sub) p else p

/-- An integer as it is spelled. -/
def spelledInteger (n : Int) : Layout := minusIf (n < 0) (spelledNatural n.natAbs)

/-- A rational as it is spelled: as a division, unless it is whole. -/
def spelledRational (q : Rat) : Layout :=
  if q.den = 1 then spelledInteger q.num
  else minusIf (q.num < 0) <|
    .joined .div (operatorWord .div) (spelledNatural q.num.natAbs) (spelledNatural q.den)

/-- **The layout of the plain text, grouped as it is read.** -/
def spelled : Expr → Layout
  | number (.integer n) => spelledInteger n
  | number (.rational q) => spelledRational q
  | identifier name => .unit [plainWord .identifier name] (identifier name)
  | operation op l r =>
    if op = .sub ∧ r.isHole then
      minusIf true (l.spelled.bracketed (l.needsBrackets .sub false))
    else
      .absorb op (operatorWord op) (l.spelled.bracketed (bracketsLeft op l))
        (r.spelled.bracketed (bracketsRight op r))
  | call name a =>
    if name = "!" ∨ name = "!!" then
      .unit ((a.spelled.bracketed a.needsFactorialBrackets).words ++ [factorialWord name])
        (call name a.spelled.reading)
    else
      .unit (plainWord .function name :: a.spelled.enclosed .paren) (call name a.spelled.reading)
  | ending p t =>
    .unit (plainWord .function endingName :: openWord .paren
        :: (p.spelled.words ++ comma :: space :: t.spelled.words ++ [closeWord .paren]))
      (ending p.spelled.reading t.spelled.reading)
  | e => .unit [] e

/-- The layout of an operation with two operands. -/
theorem spelled_operation {op : Operator} {l r : Expr} (hr : r.isHole = false) :
    (operation op l r).spelled = .absorb op (operatorWord op)
      (l.spelled.bracketed (bracketsLeft op l)) (r.spelled.bracketed (bracketsRight op r)) := by
  rw [spelled, if_neg (by simp [hr])]

end Expr

/-! ## The words of a text -/

namespace Grammar.Layout

/-- What holds of single operands holds of a layout that stands in parentheses, or that it holds
of. -/
theorem of_bracketed {P : Layout → Prop} {p : Layout} {needed : Bool}
    (hu : ∀ ws e, P (unit ws e)) (hp : needed = false → P p) : P (p.bracketed needed) := by
  cases needed with
  | false => exact hp rfl
  | true => exact hu _ _

/-- **Whether the words of a layout spell a text** of the standard lexicon. -/
structure SpelledAs (p : Layout) (text : String) : Prop where
  text : textOf p.words = text.toList
  clear : p.Clear
  written : p.Written
  known : ∀ t ∈ p.words, standard.Knows t

namespace SpelledAs

variable {p q : Layout} {a b : String}

/-- A word that stands for an operand spells itself. -/
theorem word {t : Token} {e : Expr} (ht : operand? t = some e)
    (hp : ∀ cs, Boundary cs → t.Precedes cs) (ho : Opens t.lexeme.toList)
    (hk : standard.Knows t) : (unit [t] e).SpelledAs t.lexeme where
  text := by simp [words]
  clear := .leaf hp ho
  written := .of_operand? ht
  known := by simpa [words] using hk

/-- Parentheses are spelled where they are needed. -/
theorem bracketed (h : p.SpelledAs a) (needed : Bool) :
    (p.bracketed needed).SpelledAs (Expr.bracketed needed a) where
  text := textOf_bracketed h.text
  clear := h.clear.bracketed needed
  written := h.written.bracketed needed
  known := Expr.knows_bracketed knowsPunctuation_standard needed h.known

/-- A minus sign is spelled in front. -/
theorem minus (h : p.SpelledAs a) :
    (signed .minus (operatorWord .sub) p).SpelledAs ("-" ++ a) where
  text := by simp [words, h.text, operatorWord, spelling, Operator.symbol]
  clear := h.clear.minus
  written := h.written.signed
  known := by
    simp only [words, List.forall_mem_cons]
    exact ⟨knows_operatorWord (by decide), h.known⟩

/-- An operator is spelled between its operands. -/
theorem joined {op : Operator} (hop : op ∈ arithmeticOperators) (hp : p.SpelledAs a)
    (hq : q.SpelledAs b) :
    (joined op (operatorWord op) p q).SpelledAs (a ++ infixText op ++ b) := by
  have hn := ne_not_of_arithmetic hop
  refine ⟨?_, .joined hn hp.clear hq.clear, .joined hn rfl hp.written hq.written, ?_⟩
  · simp [words, hp.text, hq.text, textOf_spaced hn]
  · have hspaced : ∀ t ∈ spaced op (operatorWord op), standard.Knows t := by
      unfold spaced
      split <;> simp [knows_operatorWord hop, knowsPunctuation_standard.space]
    simp only [words, List.forall_mem_append]
    exact ⟨⟨hp.known, hspaced⟩, hq.known⟩

/-- Absorbing does not change what is spelled. -/
theorem absorb {op : Operator} {t : Token} (h : (Layout.joined op t p q).SpelledAs a) :
    (Layout.absorb op t p q).SpelledAs a where
  text := by rw [words_absorb, h.text]
  clear := h.clear.absorb
  written := h.written.absorb
  known := by
    rw [words_absorb]
    exact h.known

/-- A function is spelled in front of its argument. -/
theorem application {name : String} (hn : name ∈ functionNames) (he : name ≠ Expr.endingName)
    (h : p.SpelledAs a) :
    (unit (plainWord .function name :: p.enclosed .paren) (.call name p.reading)).SpelledAs
      (name ++ "(" ++ a ++ ")") where
  text := by simp [words, textOf_enclosed, h.text, Bracket.opening, Bracket.closing]
  clear := .application (opens_function hn) h.clear
  written := .application he h.written
  known := by
    simp only [words, List.forall_mem_cons]
    exact ⟨knows_function hn, Expr.knows_enclosed h.known knowsPunctuation_standard.openWord
      knowsPunctuation_standard.closeWord⟩

/-- A price ending is spelled with both arguments. -/
theorem ending (hp : p.SpelledAs a) (hq : q.SpelledAs b) :
    (unit (plainWord .function Expr.endingName :: openWord .paren
      :: (p.words ++ comma :: space :: q.words ++ [closeWord .paren]))
      (.ending p.reading q.reading)).SpelledAs
      (Expr.endingName ++ "(" ++ a ++ ", " ++ b ++ ")") where
  text := by
    simp [words, openWord, closeWord, comma, space, hp.text, hq.text, Bracket.opening,
      Bracket.closing]
  clear := .ending hp.clear hq.clear
  written := .ending hp.written hq.written
  known := by
    simp only [words, List.forall_mem_cons, List.forall_mem_append]
    exact ⟨knows_function (by decide), knowsPunctuation_standard.openWord,
      ⟨hp.known, knows_comma, knowsPunctuation_standard.space, hq.known⟩,
      knowsPunctuation_standard.closeWord, fun t ht => by cases ht⟩

/-- A mark is spelled behind its operand, which is a single word or stands in parentheses. -/
theorem factorial {name : String} {needed : Bool} (hn : name = "!" ∨ name = "!!")
    (h : p.SpelledAs a)
    (hw : needed = false → ∃ t e, p = unit [t] e ∧ operand? t = some e ∧
      ∀ cs, Boundary cs → t.Precedes cs) :
    (unit ((p.bracketed needed).words ++ [factorialWord name]) (.call name p.reading)).SpelledAs
      (Expr.bracketed needed a ++ name) := by
  have hb := h.bracketed needed
  have hseparated : ∀ {cs}, Boundary cs → Separated (p.bracketed needed).words cs := by
    intro cs hcs
    cases needed with
    | true => exact h.clear.enclosed .paren cs
    | false =>
      obtain ⟨t, e, rfl, _, hprecedes⟩ := hw rfl
      exact ⟨hprecedes cs hcs, trivial⟩
  have hprimary : (∀ ts, startsAny isSign (dropBlanks (p.bracketed needed).words ++ ts) = false) ∧
      ∀ ts, Reads false .primary (dropBlanks (p.bracketed needed).words ++ ts) [p.reading] ts := by
    cases needed with
    | true => exact ⟨h.written.valid.enclosed.unsigned, h.written.valid.primary⟩
    | false =>
      obtain ⟨t, e, rfl, ht, _⟩ := hw rfl
      show (∀ ts, startsAny isSign (dropBlanks [t] ++ ts) = false) ∧
        ∀ ts, Reads false .primary (dropBlanks [t] ++ ts) [e] ts
      rw [dropBlanks_operand ht]
      exact ⟨(spellsOperand_of_operand? ht).unsigned, fun ts => .operand ht⟩
  refine ⟨?_, .factorial hn hb.clear.opens hseparated, ?_, ?_⟩
  · simp [words, hb.text, factorialWord]
  · refine .factorial hn hprimary.1 hprimary.2 ?_
    rw [hb.written.valid.dropBlanks_words]
    exact hb.written.tidy
  · simp only [words, List.forall_mem_append]
    exact ⟨hb.known, by simpa using knows_factorialWord hn⟩

end SpelledAs

end Grammar.Layout

namespace Expr

/-- A natural number is spelled by its digits. -/
theorem spelledAs_natural (n : Nat) : (spelledNatural n).SpelledAs (intText n) :=
  .word (operand?_natural n) (fun _ hb => hb) (opens_natural n)
    (knows_natural (by decide) n)

/-- A sign is spelled when there is one. -/
theorem spelledAs_minusIf {p : Layout} {a : String} (h : p.SpelledAs a) (negative : Bool) :
    (minusIf negative p).SpelledAs (if negative then "-" ++ a else a) := by
  cases negative with
  | false => exact h
  | true => exact h.minus

/-- The text of an integer is its sign and the text of its magnitude. -/
theorem intText_eq (n : Int) :
    intText n = if decide (n < 0) then "-" ++ intText n.natAbs else intText n.natAbs := by
  rw [intText_natCast, intText]
  simp

/-- An integer is spelled by its text. -/
theorem spelledAs_integer (n : Int) : (spelledInteger n).SpelledAs (intText n) := by
  rw [intText_eq]
  exact spelledAs_minusIf (spelledAs_natural n.natAbs) _

/-- A rational is spelled by its text. -/
theorem spelledAs_rational (q : Rat) : (spelledRational q).SpelledAs (ratText q) := by
  unfold spelledRational ratText
  split
  · exact spelledAs_integer q.num
  · have hquotient : (Layout.joined .div (operatorWord .div) (spelledNatural q.num.natAbs)
        (spelledNatural q.den)).SpelledAs (intText q.num.natAbs ++ "/" ++ intText q.den) :=
      (spelledAs_natural _).joined (by decide) (spelledAs_natural _)
    have h := spelledAs_minusIf hquotient (q.num < 0)
    rw [← intText_natCast, intText_eq q.num]
    split
    · rename_i hneg
      rw [hneg] at h ⊢
      simpa [String.append_assoc] using h
    · rename_i hneg
      rw [Bool.eq_false_iff.2 hneg] at h ⊢
      exact h

/-- An operand that a mark may follow is a single word. -/
theorem Arithmetic.word {a : Expr} (h : a.Arithmetic) (hn : a.needsFactorialBrackets = false) :
    ∃ t e, a.spelled = .unit [t] e ∧ operand? t = some e ∧
      ∀ cs, Boundary cs → t.Precedes cs := by
  cases h with
  | integer n =>
    have hneg : decide (n < 0) = false := by
      simpa [needsFactorialBrackets, Number.isNegative] using hn
    refine ⟨numberWord (.integer n.natAbs), Expr.integer n.natAbs, ?_, operand?_natural _,
      fun _ hb => hb⟩
    rw [spelled, spelledInteger, hneg]
    rfl
  | rational q => simp [needsFactorialBrackets] at hn
  | letter hc he => exact ⟨_, _, rfl, rfl, fun _ hb => hb⟩
  | _ => cases hn

/-- **The layout of an arithmetic expression spells its plain text.** -/
theorem Arithmetic.spelledAs {e : Expr} (h : e.Arithmetic) : e.spelled.SpelledAs e.ascii := by
  induction h with
  | integer n => exact spelledAs_integer n
  | rational q => exact spelledAs_rational q
  | letter hc he => exact .word rfl (fun _ hb => hb) (opens_letter hc) (knows_letter hc he)
  | negated _ ih => exact (ih.bracketed _).minus
  | @operation op l r hop _ hr ihl ihr =>
    have hn := ne_not_of_arithmetic hop
    rw [spelled_operation hr.isHole_eq_false, ascii_operation hn hr.isHole_eq_false]
    exact ((ihl.bracketed _).joined hop (ihr.bracketed _)).absorb
  | factorial hn ha ih =>
    rw [spelled, if_pos hn, ascii_mark hn]
    exact ih.factorial hn ha.word
  | call hn he _ ih =>
    rw [spelled, if_neg (Canonical.not_mark hn), ascii_application (Canonical.not_mark hn)]
    exact ih.application hn he
  | ending _ _ ihp iht => exact ihp.ending iht

/-! ## Where layouts stand -/

/-- **Whether a layout stands wherever an expression does**: where the printer sets no brackets
around the expression, the layout keeps together or regroups. -/
structure Placed (e : Expr) (p : Layout) : Prop where
  fits : p.Fits 0
  full : p.Full
  closes : ∀ op ∈ arithmeticOperators, bracketsLeft op e = false → p.ClosesBefore op
  goesOn : ∀ op ∈ arithmeticOperators, bracketsRight op e = false → p.GoesOn op
  /-- Where it leads a chain, the chain goes on behind an operator. -/
  leads : ∀ op op', op.absorbs op' = true → bracketsLeft op' e = false → p.GoesOn op

/-- **Whether a layout stands for an expression**: wherever the expression stands, and with the same
exact value. -/
structure KeptBy (e : Expr) (p : Layout) : Prop extends Placed e p where
  value : ∀ s, p.expr.exactValue s = e.exactValue s

/-- Whether an operand always stands in brackets beside a product or a power. -/
def IsLoose (e : Expr) : Prop :=
  ∀ op ∈ [Operator.mul, .div, .pow], ∀ strict, e.needsBrackets op strict = true

/-- A loose operand without brackets stands beside a sum. -/
theorem IsLoose.level_le {e : Expr} (h : e.IsLoose) {op : Operator}
    (hop : op ∈ arithmeticOperators) (hb : bracketsLeft op e = false ∨ bracketsRight op e = false) :
    op.level = 3 ∧ op.rightLevel = minusLevel := by
  simp only [arithmeticOperators, List.mem_cons, List.not_mem_nil, or_false] at hop
  rcases hop with rfl | rfl | rfl | rfl | rfl
  · exact ⟨rfl, rfl⟩
  · exact ⟨rfl, rfl⟩
  all_goals
    refine absurd hb ?_
    simp [bracketsLeft, bracketsRight, h .mul (by decide), h .div (by decide),
      h .pow (by decide)]

namespace Placed

variable {e l r : Expr} {p q : Layout}

/-- A single operand stands everywhere. -/
theorem of_unit {ws : List Token} {a : Expr} (hh : a.isHole = false) : Placed e (.unit ws a) where
  fits := trivial
  full := hh
  closes := fun _ _ _ => trivial
  goesOn := fun _ _ _ => trivial
  leads := fun _ _ _ _ => trivial

/-- A layout at the level of a minus sign goes on behind a sum. -/
theorem goesOn_of_standsAt {op : Operator} (hs : p.StandsAt minusLevel)
    (hop : op.rightLevel = minusLevel) : p.GoesOn op := by
  cases p with
  | unit ws e => trivial
  | signed σ t p => exact Nat.le_trans (Nat.le_of_eq hop) hs
  | joined op' t a b => exact Or.inr (Nat.le_trans (Nat.le_of_eq hop) hs)

/-- A layout at the level of a minus sign closes before a sum. -/
theorem closesBefore_of_standsAt {op : Operator} (hs : p.StandsAt minusLevel)
    (hop : op.level = 3) : p.ClosesBefore op := by
  have hlt : op.level < minusLevel := by rw [hop]; decide
  cases p with
  | unit ws e => trivial
  | signed σ t p => exact Nat.lt_of_lt_of_le hlt hs
  | joined op' t a b =>
    exact Nat.lt_of_lt_of_le hlt (Nat.le_trans hs (Spine.level_le_rightLevel op'))

/-- **A layout at the level of a minus sign stands for a loose operand.** -/
theorem of_isLoose (hl : e.IsLoose) (hf : p.Fits 0) (hs : p.StandsAt minusLevel)
    (hfull : p.Full) : Placed e p where
  fits := hf
  full := hfull
  closes := fun op hop hb => closesBefore_of_standsAt hs (hl.level_le hop (Or.inl hb)).1
  goesOn := fun op hop hb => goesOn_of_standsAt hs (hl.level_le hop (Or.inr hb)).2
  leads := by
    intro op op' ha hb
    have hop : op' ∈ arithmeticOperators := by
      revert ha
      cases op <;> cases op' <;> decide
    obtain ⟨hlevel, hright⟩ := hl.level_le hop (Or.inl hb)
    obtain ⟨_, hright', hside⟩ := Operator.level_of_absorbs ha
    exact goesOn_of_standsAt hs (hside.trans (hright'.symm.trans hright))

/-- Behind a minus sign, an operand without brackets stands at the level of the sign. -/
theorem standsAt (h : Placed e p) (hb : e.needsBrackets .sub false = false) :
    p.StandsAt minusLevel := by
  have hg : p.GoesOn .sub := h.goesOn .sub (by decide) hb
  cases p with
  | unit ws e => trivial
  | signed σ t p => exact hg
  | joined op t a b =>
    rcases hg with ⟨ha, _⟩ | hlevel
    · cases op <;> cases ha
    · exact hlevel

/-- What is read from the layout is its expression. -/
theorem reading (h : Placed e p) : p.reading = p.expr := Layout.reading_eq_expr h.fits

/-- An operand in parentheses or without is there. -/
theorem full_bracketed (h : Placed e p) (needed : Bool) : (p.bracketed needed).Full := by
  cases needed with
  | false => exact h.full
  | true =>
    show p.reading.isHole = false
    rw [h.reading]
    exact h.full.isHole_expr

/-- A minus sign stands where its operand does. -/
theorem negated (h : Placed e p) :
    Placed (negated e) (minusIf true (p.bracketed (e.needsBrackets .sub false))) := by
  refine .of_isLoose (fun op hop strict => ?_) ?_ (Nat.le_refl _) (h.full_bracketed _)
  · rfl
  · refine h.fits.bracketed _ ?_
    cases hb : e.needsBrackets .sub false with
    | true => exact Or.inl rfl
    | false => exact Or.inr (h.standsAt hb)

end Placed

/-- An expression that is spelled as one operand is kept. -/
theorem KeptBy.of_unit {e a : Expr} {ws : List Token} (hh : a.isHole = false)
    (hv : ∀ s, a.exactValue s = e.exactValue s) : KeptBy e (.unit ws a) := ⟨.of_unit hh, hv⟩

/-- An operand in parentheses or without keeps its value. -/
theorem KeptBy.value_bracketed {e : Expr} {p : Layout} (h : KeptBy e p) (needed : Bool)
    (s : Scope) : (p.bracketed needed).expr.exactValue s = e.exactValue s := by
  rw [h.fits.expr_bracketed, h.value]

/-! ## Values -/

/-- The exact value behind a minus sign. -/
theorem exactValue_negated {s : Scope} {e : Expr} (hh : e.isHole = false) :
    (negated e).exactValue s = (e.exactValue s).map (- ·) := by
  have hlack : lacksOperand .sub e hole = false := by
    rw [lacksOperand, hh]
    rfl
  rw [exactValue, hlack]
  rfl

/-- A minus sign is kept when its operand is. -/
theorem KeptBy.negated {e : Expr} {p : Layout} (hh : e.isHole = false) (h : KeptBy e p) :
    KeptBy (negated e) (minusIf true (p.bracketed (e.needsBrackets .sub false))) := by
  refine ⟨h.toPlaced.negated, fun s => ?_⟩
  show (Expr.negated (p.bracketed (e.needsBrackets .sub false)).expr).exactValue s = _
  rw [exactValue_negated (h.full_bracketed _).isHole_expr, exactValue_negated hh,
    h.value_bracketed]

/-- A one-sided minus before a natural number has the value of the negative integer. -/
theorem exactValue_minusIf {s : Scope} {p : Layout} {negative : Bool} {v : Rat}
    (hh : p.expr.isHole = false) (hv : p.expr.exactValue s = .ok v) :
    (minusIf negative p).expr.exactValue s = .ok (if negative then -v else v) := by
  cases negative with
  | false => exact hv
  | true =>
    show (Expr.negated p.expr).exactValue s = _
    rw [exactValue_negated hh, hv]
    rfl

/-- The magnitude of an integer with its sign. -/
theorem natAbs_eq (n : Int) :
    (if decide (n < 0) then -((n.natAbs : Int) : Rat) else ((n.natAbs : Int) : Rat)) = n := by
  split
  · rename_i h
    have hn : (n.natAbs : Int) = -n := by
      have : n < 0 := of_decide_eq_true h
      omega
    rw [hn, Int.cast_neg, neg_neg]
  · rename_i h
    have hn : (n.natAbs : Int) = n := by
      have : ¬ n < 0 := fun hlt => h (decide_eq_true hlt)
      omega
    rw [hn]

/-- An integer keeps its value when it is spelled. -/
theorem exactValue_spelledInteger (s : Scope) (n : Int) :
    (spelledInteger n).expr.exactValue s = .ok (n : Rat) := by
  rw [spelledInteger, exactValue_minusIf (v := ((n.natAbs : Int) : Rat)) rfl rfl, natAbs_eq]

/-- A rational keeps its value when it is spelled. -/
theorem exactValue_spelledRational (s : Scope) (q : Rat) :
    (spelledRational q).expr.exactValue s = .ok q := by
  unfold spelledRational
  split
  · rename_i hd
    rw [exactValue_spelledInteger]
    exact congrArg Except.ok (Rat.ext rfl hd.symm)
  · have hd : ((q.den : Int) : Rat) ≠ 0 := by exact_mod_cast q.den_nz
    have hquotient : (Layout.joined .div (operatorWord .div) (spelledNatural q.num.natAbs)
        (spelledNatural q.den)).expr.exactValue s
        = .ok (((q.num.natAbs : Int) : Rat) / ((q.den : Int) : Rat)) := by
      show (operation .div (integer q.num.natAbs) (integer q.den)).exactValue s = _
      rw [exactValue_twoSided rfl rfl rfl]
      exact if_neg hd
    rw [exactValue_minusIf rfl hquotient, ← neg_div, ← ite_div, natAbs_eq, Int.cast_natCast,
      Rat.num_div_den]

/-! ## Numbers -/

/-- A natural number with or without a sign is kept, if the sign brings brackets. -/
theorem keptBy_minusIf_natural {e : Expr} {n : Nat} {negative : Bool}
    (hl : negative = true → e.IsLoose)
    (hv : ∀ s, (minusIf negative (spelledNatural n)).expr.exactValue s = e.exactValue s) :
    KeptBy e (minusIf negative (spelledNatural n)) := by
  cases negative with
  | false => exact .of_unit rfl hv
  | true => exact ⟨.of_isLoose (hl rfl) trivial (Nat.le_refl _) rfl, hv⟩

/-- An integer is kept by the layout that spells it. -/
theorem keptBy_integer (n : Int) : KeptBy (integer n) (spelledInteger n) := by
  refine keptBy_minusIf_natural (fun hneg op _ strict => ?_) fun s => exactValue_spelledInteger s n
  simp only [needsBrackets, Number.isNegative, hneg, Bool.true_or]

/-- A negative whole rational counts as negative: it is no less than one in magnitude. -/
theorem isNegative_of_den_eq_one {q : Rat} (hd : q.den = 1) (hq : q.num < 0) :
    (Number.rational q).isNegative = true := by
  have hneg : decide (q < 0) = true := decide_eq_true (Rat.num_neg.1 hq)
  rw [Number.isNegative, Double.ofRat, hneg]
  refine Double.lt_zero_ofUnits q.den_pos ?_
  rw [hd]
  have hpos : ∀ k, 0 < q.num.natAbs * 2 ^ k :=
    fun k => Nat.mul_pos (Int.natAbs_pos.2 hq.ne) (Nat.two_pow_pos k)
  have hunits := hpos 1074
  generalize q.num.natAbs * 2 ^ 1074 = n at hunits ⊢
  omega

/-- A fraction in lowest terms with a denominator is loose. -/
theorem isLoose_rational {q : Rat} (hd : q.den ≠ 1) : (rational q).IsLoose := by
  intro op hop strict
  have hyields : Operator.div.yieldsTo op = true := by
    revert op
    decide
  simp [needsBrackets, hd, hyields]

/-- A rational is kept by the layout that spells it. -/
theorem keptBy_rational (q : Rat) : KeptBy (rational q) (spelledRational q) := by
  have hv : ∀ s, (spelledRational q).expr.exactValue s = (rational q).exactValue s :=
    fun s => exactValue_spelledRational s q
  unfold spelledRational at hv ⊢
  split at hv
  · rename_i hd
    rw [if_pos hd]
    refine keptBy_minusIf_natural (fun hneg op _ strict => ?_) hv
    rw [needsBrackets, isNegative_of_den_eq_one hd (of_decide_eq_true hneg), Bool.true_or]
  · rename_i hd
    rw [if_neg hd]
    refine ⟨.of_isLoose (isLoose_rational hd) ?_ ?_ ?_, hv⟩
    · cases decide (q.num < 0) <;> exact ⟨by decide, trivial, trivial, trivial⟩
    · cases decide (q.num < 0) <;> exact Nat.le_refl 4
    · cases decide (q.num < 0) <;> exact ⟨rfl, rfl⟩

/-! ## Operations -/

/-- Operations with two operands at one level stand in brackets alike. -/
theorem needsBrackets_operation_congr {op op' : Operator} {l l' r r' : Expr}
    (hr : r.isHole = false) (hr' : r'.isHole = false) (hlevel : op'.level = op.level)
    (hright : op'.rightLevel = op.rightLevel) (outer : Operator) (strict : Bool) :
    (operation op' l' r').needsBrackets outer strict
      = (operation op l r).needsBrackets outer strict := by
  have hnegation : ∀ {op : Operator} {l r : Expr}, r.isHole = false →
      (operation op l r).isNegation = false := by
    intro op l r hr
    cases op <;> cases r <;> first | rfl | cases hr
  have hpow : (op' == .pow) = (op == .pow) ∧ op'.isRightAssociative = op.isRightAssociative := by
    revert hlevel hright
    cases op <;> cases op' <;> decide
  simp only [needsBrackets, hnegation hr, hnegation hr', Operator.yieldsTo, hlevel, hpow.1, hpow.2]

/-- The brackets around the operand of an operator do not depend on what the operand is made of. -/
theorem brackets_operation {op op' : Operator} {l r : Expr} (hr : r.isHole = false) :
    bracketsLeft op (operation op' l r) = bracketsLeft op (operation op' (integer 0) (integer 0)) ∧
      bracketsRight op (operation op' l r)
        = bracketsRight op (operation op' (integer 0) (integer 0)) := by
  have hsame : ∀ outer strict, (operation op' l r).needsBrackets outer strict
      = (operation op' (integer 0) (integer 0)).needsBrackets outer strict :=
    needsBrackets_operation_congr rfl hr rfl rfl
  constructor
  all_goals cases op <;> first | rfl | exact hsame _ _

/-- Without brackets before an operator, an operation ends before it. -/
theorem level_lt_of_bracketsLeft : ∀ op ∈ arithmeticOperators, ∀ op' ∈ arithmeticOperators,
    bracketsLeft op (operation op' (integer 0) (integer 0)) = false → op.level < op'.rightLevel := by
  decide

/-- Without brackets behind an operator, an operation regroups or binds more tightly. -/
theorem absorbs_or_le_of_bracketsRight : ∀ op ∈ arithmeticOperators, ∀ op' ∈ arithmeticOperators,
    bracketsRight op (operation op' (integer 0) (integer 0)) = false →
      op.absorbs op' = true ∨ op.rightLevel ≤ op'.level := by
  decide

/-- Without brackets before an operator that regroups, an operation regroups, too, or binds more
tightly. -/
theorem absorbs_or_le_of_bracketsLeft : ∀ op ∈ arithmeticOperators, ∀ op₁ ∈ arithmeticOperators,
    ∀ op' ∈ arithmeticOperators, op.absorbs op₁ = true →
      bracketsLeft op₁ (operation op' (integer 0) (integer 0)) = false →
        op.absorbs op' = true ∨ op.rightLevel ≤ op'.level := by
  decide

/-- Operators that regroup are arithmetic. -/
theorem mem_arithmeticOperators_of_absorbs {op op' : Operator} (h : op.absorbs op' = true) :
    op ∈ arithmeticOperators ∧ op' ∈ arithmeticOperators := by
  revert h
  cases op <;> cases op' <;> decide

/-- **An operation stands where its operands do**, when the operator is absorbed. -/
theorem Placed.operation {op : Operator} {l r : Expr} {p q : Layout}
    (hop : op ∈ arithmeticOperators) (hr : r.isHole = false) (hp : Placed l p) (hq : Placed r q) :
    Placed (operation op l r) (.absorb op (operatorWord op) (p.bracketed (bracketsLeft op l))
      (q.bracketed (bracketsRight op r))) := by
  have hcp : (p.bracketed (bracketsLeft op l)).ClosesBefore op :=
    Layout.of_bracketed (fun _ _ => trivial) (hp.closes op hop)
  have hfp : (p.bracketed (bracketsLeft op l)).Fits op.level :=
    Layout.of_bracketed (fun _ _ => trivial)
      fun hb => hp.fits.at (standsAt_of_closesBefore (hp.closes op hop hb))
  have hlead : ∀ op', op'.absorbs op = true → (p.bracketed (bracketsLeft op l)).GoesOn op' :=
    fun op' ha => Layout.of_bracketed (fun _ _ => trivial) (hp.leads op' op ha)
  have hgq : (q.bracketed (bracketsRight op r)).GoesOn op :=
    Layout.of_bracketed (fun _ _ => trivial) (hq.goesOn op hop)
  have hfq : (q.bracketed (bracketsRight op r)).Fits 0 :=
    Layout.of_bracketed (fun _ _ => trivial) fun _ => hq.fits
  -- behind an operator, the operation regroups with it or binds more tightly
  have hgoes : ∀ {op'}, op'.absorbs op = true ∨ op'.rightLevel ≤ op.level →
      (Layout.absorb op (operatorWord op) (p.bracketed (bracketsLeft op l))
        (q.bracketed (bracketsRight op r))).GoesOn op' := by
    rintro op' (ha | hlevel)
    · exact .absorb ha (hlead op' ha)
    · exact .absorb_of_le hlevel
  refine ⟨.mono (Nat.zero_le _) (.absorb hfp hcp hfq hgq),
    .absorb (hp.full_bracketed _) (hq.full_bracketed _), ?_, ?_, ?_⟩
  · intro op' hop' hb
    rw [(brackets_operation hr).1] at hb
    exact .absorb (level_lt_of_bracketsLeft op' hop' op hop hb)
  · intro op' hop' hb
    rw [(brackets_operation hr).2] at hb
    exact hgoes (absorbs_or_le_of_bracketsRight op' hop' op hop hb)
  · intro op₁ op₂ ha hb
    obtain ⟨h₁, h₂⟩ := mem_arithmeticOperators_of_absorbs ha
    rw [(brackets_operation hr).1] at hb
    exact hgoes (absorbs_or_le_of_bracketsLeft op₁ h₁ op₂ h₂ op hop ha hb)

/-- **An operation is kept when its operands are.** -/
theorem KeptBy.operation {op : Operator} {l r : Expr} {p q : Layout}
    (hop : op ∈ arithmeticOperators) (hl : l.isHole = false) (hr : r.isHole = false)
    (hp : KeptBy l p) (hq : KeptBy r q) :
    KeptBy (operation op l r) (.absorb op (operatorWord op) (p.bracketed (bracketsLeft op l))
      (q.bracketed (bracketsRight op r))) := by
  have hlogical : op.isLogical = false := by
    revert op
    decide
  refine ⟨hp.toPlaced.operation hop hr hq.toPlaced, fun s => ?_⟩
  rw [Layout.exactValue_absorb (hp.full_bracketed _) (hq.full_bracketed _)]
  exact exactValue_operation_congr hlogical hl hr (hp.full_bracketed _).isHole_expr
    (hq.full_bracketed _).isHole_expr (hp.value_bracketed _ s) (hq.value_bracketed _ s)

/-- What is read from the layout has the value of the expression. -/
theorem KeptBy.value_reading {e : Expr} {p : Layout} (h : KeptBy e p) (s : Scope) :
    p.reading.exactValue s = e.exactValue s := by
  rw [h.reading, h.value]

/-- **An arithmetic expression is kept by its layout.** -/
theorem Arithmetic.keptBy {e : Expr} (h : e.Arithmetic) : KeptBy e e.spelled := by
  induction h with
  | integer n => exact keptBy_integer n
  | rational q => exact keptBy_rational q
  | letter hc he => exact .of_unit rfl fun _ => rfl
  | negated he ih => exact ih.negated he.isHole_eq_false
  | @operation op l r hop hl hr ihl ihr =>
    rw [spelled_operation hr.isHole_eq_false]
    exact .operation hop hl.isHole_eq_false hr.isHole_eq_false ihl ihr
  | factorial hn _ ih =>
    rw [spelled, if_pos hn]
    exact .of_unit rfl fun s => by rw [exactValue, exactValue, ih.value_reading]
  | call hn he _ ih =>
    rw [spelled, if_neg (Canonical.not_mark hn)]
    exact .of_unit rfl fun s => by rw [exactValue, exactValue, ih.value_reading]
  | ending _ _ ihp iht =>
    exact .of_unit rfl fun s => by
      rw [exactValue, exactValue, ihp.value_reading, iht.value_reading]

/-! ## The round trip -/

/-- **The plain text of an arithmetic expression reads back as an expression with its exact value**,
or with its error, under every binding. -/
theorem exactValue_of_reread {e : Expr} {o : Options} (h : e.Arithmetic)
    (ho : o.simplify = false) :
    ∃ e', standard.reread o e = .ok e' ∧ ∀ s, e'.exactValue s = e.exactValue s := by
  have hs := h.spelledAs
  exact ⟨e.spelled.reading,
    reread_of_layout ho h.complete.ascii? hs.text hs.clear hs.written hs.known, h.keptBy.value_reading⟩

/-- Sums and products to the right are read to the left, and negative fractions as signed
divisions. -/
theorem exactValue_of_reread_chains :
    let x : Expr := identifier (String.singleton 'x')
    let product : Expr := operation .mul x (operation .div (integer (-3)) (rational (3 / 4)))
    let e : Expr := operation .add (rational (-1 / 2)) (operation .sub product (integer 2))
    let fraction (n d : Int) : Expr := operation .div (integer n) (integer d)
    let product' : Expr :=
      operation .div (operation .mul x (negated (integer 3))) (fraction 3 4)
    let again : Expr :=
      operation .sub (operation .add (negated (fraction 1 2)) product') (integer 2)
    let s : Scope := .standard [("x", .rational (5 / 2))]
    e.Arithmetic ∧ e.ascii? = .ok "-1/2+x*(-3)/(3/4)-2" ∧
      standard.reread ⟨true, false, false⟩ e = .ok again ∧ again ≠ e ∧
        again.exactValue s = e.exactValue s ∧ e.exactValue s = .ok (-25 / 2) := by
  intro x product e fraction product' again s
  have hx : x.Arithmetic := .letter (by decide) (by decide)
  have hproduct : product.Arithmetic :=
    .operation (by decide) hx (.operation (by decide) (.integer _) (.rational _))
  have h : e.Arithmetic :=
    .operation (by decide) (.rational _) (.operation (by decide) hproduct (.integer _))
  have hread : standard.reread ⟨true, false, false⟩ e = .ok again := by decide +kernel
  obtain ⟨e', he', hvalue⟩ := exactValue_of_reread (o := ⟨true, false, false⟩) h rfl
  cases he'.symm.trans hread
  exact ⟨h, by decide +kernel, hread, by decide +kernel, hvalue s, by decide +kernel⟩

end Expr

end Formula
