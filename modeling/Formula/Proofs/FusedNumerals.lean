/-
# Numerals that run together

The factors of a product are written next to each other without a sign unless the left one is an
application, or the right one is a number, a one-sided minus or an operation on a number. That rule
looks no deeper into the right factor than one level, whereas the operand with which its text starts
may lie at any depth. So the last digits of the left factor run into those of the right one
**exactly if the trailing operand of the one and the leading operand of the other are numerals**
(`fuses_of_parse`), as they are in `2*3!` and `2*(3*x*y)`, which come out as `23!` and `23xy`.
-/
import Formula.Proofs.LatexFactors

namespace Formula

/-! ## Texts that run together -/

/-- Whether the last character of a text is a digit. -/
def endsInDigit (text : String) : Bool := text.toList.getLast?.any isDecimalDigit

/-- Whether the first character of a text is a digit or a point. -/
def startsNumerically (text : String) : Bool :=
  text.toList.head?.any fun c => isDecimalDigit c || c == '.'

/-- **Whether two texts in a row read as one longer number.** -/
def fuses (left right : String) : Bool := endsInDigit left && startsNumerically right

namespace Expr

/-! ## Factors that end or start in a numeral -/

/-- Whether an operand is written as a numeral: as a number or as a decimal tail. -/
def isNumeral : Expr → Bool
  | number n => n.numeralSign?.isSome
  | literal _ => true
  | _ => false

/-- Whether an operand is written as a numeral without sign. -/
def isUnsignedNumeral : Expr → Bool
  | number n => n.numeralSign? == some false
  | literal _ => true
  | _ => false

/-- **Whether a left factor ends in a numeral**: it has no brackets, and its trailing operand is
one. -/
def endsInNumeral (x : Expr) : Bool := !x.needsBrackets .mul false && x.trailing.isNumeral

/-- **Whether a right factor starts with a numeral**: it has no brackets, and its leading operand is
one without sign. -/
def startsWithNumeral (y : Expr) : Bool :=
  !y.needsBrackets .mul false && y.leading.isUnsignedNumeral

end Expr

namespace Lexicon

open Formula.Expr

variable {l : Lexicon} {x y e : Expr}

/-! ## The characters at the ends of operands -/

/-- A numeric text starts with a digit and ends with one. -/
theorem digits_of_isNumeric {cs : List Char} (h : IsNumeric cs) :
    cs.head?.any isDecimalDigit = true ∧ ∀ us, (us ++ cs).getLast?.any isDecimalDigit = true := by
  obtain ⟨⟨c, hhead, hc⟩, ⟨d, hlast, hd⟩, -⟩ := h
  refine ⟨?_, fun us => ?_⟩
  · rw [hhead]
    exact isDecimalDigit_of_isDigit hc
  · rw [List.getLast?_append, hlast]
    exact isDecimalDigit_of_isDigit hd

/-- The variables of the standard lexicon are single letters. -/
theorem exists_letter {name : String} (h : standard.Names .identifier name) :
    ∃ c, name.toList = [c] ∧ isAsciiLetter c = true := by
  have hletter : ∀ d ∈ standard, d.kind = .identifier → d.pattern = .letter := by decide
  obtain ⟨d, hd, hk, htoken⟩ := h.exists_token?
  obtain ⟨hne, hlexeme⟩ := Definition.lexeme_of_token? htoken
  have hlexeme : name.toList = name.toList.take (d.pattern.length name.toList) := hlexeme
  rw [hletter d hd hk] at hne hlexeme
  cases hcs : name.toList with
  | nil =>
    rw [hcs] at hne
    exact absurd rfl hne
  | cons c cs =>
    rw [hcs] at hne hlexeme
    have hc : isAsciiLetter c = true := by
      by_contra hc
      exact hne (by simp [Pattern.length, hc])
    have hlength : Pattern.letter.length (c :: cs) = 1 := by simp [Pattern.length, hc]
    rw [hlength] at hlexeme
    exact ⟨c, hlexeme, hc⟩

/-- **An operand ends in a digit exactly if it is a numeral.** -/
theorem endsInDigit_atom (h : standard.Worded e) (ha : e.isAtom = true) :
    endsInDigit e.latex = e.isNumeral := by
  cases h with
  | number n =>
    show n.latex.toList.getLast?.any isDecimalDigit = n.numeralSign?.isSome
    cases hs : n.numeralSign? with
    | some s =>
      obtain ⟨cs, hcs, htext⟩ := Number.isNumeric_latex hs
      rw [htext]
      exact (digits_of_isNumeric hcs).2 _
    | none =>
      rcases (Number.latex_of_numeralSign? hs).2 with hbrace | ⟨s, rfl⟩
      · rw [hbrace]
        decide
      · cases s <;> decide
  | boolean hk b => cases b <;> decide
  | constant hname =>
    have hnames : ∀ name ∈ Expr.constantNames, endsInDigit (latexConstant name) = false := by
      decide
    rw [latex_constant]
    exact hnames _ (hname.mem_constantNames (by decide))
  | @identifier name hname =>
    obtain ⟨c, hc, hletter⟩ := exists_letter hname
    have hdollar : (c == '$') = false := by
      rw [beq_eq_false_iff_ne]
      rintro rfl
      cases hletter
    rw [endsInDigit, toList_latex_identifier, hc, List.dropWhile_cons_of_neg (by simp [hdollar])]
    exact (plain_of_isAsciiLetter hletter).1
  | literal ha hb =>
    rw [endsInDigit, toList_latex_literal]
    exact hb
  | _ => cases ha

/-- **An operand starts with a digit or a point exactly if it is a numeral without sign.** -/
theorem startsNumerically_atom (hl : l ∈ builtin) (h : l.Worded e) (ha : e.isAtom = true) :
    startsNumerically e.latex = e.isUnsignedNumeral := by
  cases h with
  | number n =>
    show (n.latex.toList.head?.any fun c => isDecimalDigit c || c == '.')
      = (n.numeralSign? == some false)
    cases hs : n.numeralSign? with
    | some s =>
      obtain ⟨cs, hcs, htext⟩ := Number.isNumeric_latex hs
      rw [htext]
      cases s with
      | true => rfl
      | false =>
        obtain ⟨c, hc, hdigit⟩ := hcs.head
        simp [hc, isDecimalDigit_of_isDigit hdigit]
    | none =>
      rcases (Number.latex_of_numeralSign? hs).1 with hhead | hhead <;> rw [hhead] <;> decide
  | boolean hk b => cases b <;> decide
  | constant hname =>
    have hnames : ∀ name ∈ Expr.constantNames, startsNumerically (latexConstant name) = false := by
      decide
    rw [latex_constant]
    exact hnames _ (hname.mem_constantNames hl)
  | identifier hname =>
    obtain ⟨c, us, htext, hc, -⟩ := hname.dropWhile_dollar hl
    have hplain : isDecimalDigit c = false ∧ c ≠ '.' := by
      rcases hc with hc | rfl
      · obtain ⟨hdigit, -, hpoint, -⟩ := plain_of_isAsciiLetter hc
        exact ⟨hdigit, hpoint⟩
      · decide
    rw [startsNumerically, toList_latex_identifier, htext]
    simp [hplain, isUnsignedNumeral]
  | literal =>
    rw [startsNumerically, toList_latex_literal]
    rfl
  | _ => cases ha

/-! ## Factors -/

/-- A numeral has no parts. -/
theorem isNumeral_eq_false (h : e.isAtom = false) : e.isNumeral = false := by
  cases e <;> first | rfl | cases h

/-- A numeral without sign has no parts. -/
theorem isUnsignedNumeral_eq_false (h : e.isAtom = false) : e.isUnsignedNumeral = false := by
  cases e <;> first | rfl | cases h

/-- **A left factor ends in a digit exactly if it ends in a numeral.** -/
theorem endsInDigit_leftFactor (h : standard.Worded x) :
    endsInDigit x.leftFactor = x.endsInNumeral := by
  have hclosing : ∀ c ∈ [')', '\x7d', ' ', '!'], isDecimalDigit c = false :=
    forall_mem_of_all (by decide)
  rw [endsInDigit, getLast?_leftFactor hclosing (by decide) h, endsInNumeral]
  cases hatom : x.trailing.isAtom with
  | true => exact congrArg _ (endsInDigit_atom (worded_trailing h) hatom)
  | false => rw [isNumeral_eq_false hatom, Bool.false_and]

/-- **A right factor starts with a digit or a point exactly if it starts with a numeral.** -/
theorem startsNumerically_rightFactor (hl : l ∈ builtin) (h : l.Worded y) :
    startsNumerically y.rightFactor = y.startsWithNumeral := by
  have hopening : ∀ c ∈ ['(', '\\'], (isDecimalDigit c || c == '.') = false :=
    forall_mem_of_all (by decide)
  rw [startsNumerically, head?_rightFactor hopening hl h, startsWithNumeral]
  cases hatom : y.leading.isAtom with
  | true => exact congrArg _ (startsNumerically_atom hl (worded_leading h) hatom)
  | false => rw [isUnsignedNumeral_eq_false hatom, Bool.false_and]

/-! ## Products without a sign -/

/-- **What the rule for signs does not see**: a factor starts with a numeral though it is no number,
and though its left operand is none. -/
def HidesNumeral (y : Expr) : Prop :=
  (∃ text, y = literal text) ∨ (∃ name n, y = call name (integer n)) ∨
    ∃ op a b, y = operation op a b ∧ (op = .mul ∨ op = .pow) ∧ a.isNumber = false ∧
      a.startsWithNumeral = true

/-- A right factor that starts with a numeral behind no sign hides the numeral: it is a decimal
tail, a mark behind an integer, or a product or a power whose first operand starts with it. -/
theorem hidesNumeral_of_startsWithNumeral (hy : y.startsWithNumeral = true)
    (hsign : needsProductSign x y = false) : HidesNumeral y := by
  rw [startsWithNumeral, Bool.and_eq_true, Bool.not_eq_true'] at hy
  obtain ⟨hb, hleading⟩ := hy
  simp only [needsProductSign, Bool.or_eq_false_iff] at hsign
  obtain ⟨⟨⟨-, hnumber⟩, -⟩, hleft⟩ := hsign
  have hstarts : ∀ {a : Expr}, a.needsBrackets .mul false = false →
      a.leading.isUnsignedNumeral = true → a.startsWithNumeral = true := by
    intro a ha hunsigned
    rw [startsWithNumeral, ha, hunsigned]
    rfl
  cases y with
  | number n => cases hnumber
  | literal text => exact .inl ⟨text, rfl⟩
  | operation op a b =>
    cases op with
    | mul =>
      rw [leading] at hleading
      split at hleading
      · cases hleading
      · rename_i ha
        exact .inr (.inr ⟨.mul, a, b, rfl, .inl rfl, hleft,
          hstarts (Bool.eq_false_iff.2 ha) hleading⟩)
    | pow =>
      rw [leading] at hleading
      split at hleading
      · cases hleading
      · rename_i ha
        exact .inr (.inr ⟨.pow, a, b, rfl, .inr rfl, hleft,
          hstarts (needsBrackets_mul_of_pow (Bool.eq_false_iff.2 ha)) hleading⟩)
    | _ => cases hleading
  | call name a =>
    rw [leading] at hleading
    split at hleading
    · rename_i ha
      have hbrackets := ha.2
      unfold needsLatexFactorialBrackets at hbrackets
      split at hbrackets
      · exact .inr (.inl ⟨name, _, rfl⟩)
      · cases hleading
      · cases hleading
      · cases hbrackets
    · cases hleading
  | _ => cases hleading

/-- **Two factors without a sign in between run together exactly if the left one ends in a numeral
and the right one starts with one**, in every expression of a text; the right one hides it then. The
LaTeX of the expression is there. -/
theorem fuses_of_parse {o : Options} {source : String} {ts : List Token}
    (ht : standard.tokenize source = .ok ts) (h : parse o ts = .ok e) :
    e.latex? = .ok e.latex ∧
      ∀ x y, operation .mul x y ∈ e.parts → needsProductSign x y = false →
        (operation .mul x y).latex = x.leftFactor ++ y.rightFactor ∧
          (fuses x.leftFactor y.rightFactor = true ↔
            x.endsInNumeral = true ∧ y.startsWithNumeral = true) ∧
            (y.startsWithNumeral = true → HidesNumeral y) := by
  have hl : standard ∈ builtin := by decide
  have hworded := worded_of_parse hl ht h
  refine ⟨(complete_of_parse h).latex?, fun x y hp hsign =>
    ⟨?_, ?_, fun hy => hidesNumeral_of_startsWithNumeral hy hsign⟩⟩
  · simp [latex_product, hsign]
  · obtain ⟨hx, hy⟩ := worded_of_product hworded hp
    rw [fuses, Bool.and_eq_true, endsInDigit_leftFactor hx, startsNumerically_rightFactor hl hy]

/-- Behind a letter, a number needs no sign in front of the letter. -/
theorem fuses_of_parse_letter :
    let o : Options := ⟨true, false, false⟩
    let y : Expr := operation .mul (identifier "x") (integer 3)
    ∃ ts, standard.tokenize "2*(x*3)" = .ok ts ∧ parse o ts = .ok (operation .mul (integer 2) y) ∧
      (operation .mul (integer 2) y).latex? = .ok "2x\\cdot 3" ∧
        fuses (integer 2).leftFactor y.rightFactor = false := by
  intro o y
  obtain ⟨ts, hts⟩ : ∃ ts, ts = (standard.tokenize "2*(x*3)").toOption.getD [] := ⟨_, rfl⟩
  have htokens : standard.tokenize "2*(x*3)" = .ok ts := by
    rw [hts]
    decide +kernel
  have hparse : parse o ts = .ok (operation .mul (integer 2) y) := by
    rw [hts]
    decide +kernel
  obtain ⟨hlatex, hproducts⟩ := fuses_of_parse htokens hparse
  obtain ⟨-, hfuses, -⟩ := hproducts (integer 2) y (mem_parts_self _) (by decide)
  refine ⟨ts, htokens, hparse, by rw [hlatex]; decide +kernel, ?_⟩
  rw [Bool.eq_false_iff, ne_eq, hfuses]
  decide

/-- **In front of a factorial, and of a product that starts with a product, numerals run
together.** -/
theorem fuses_factorial :
    let o : Options := ⟨true, false, false⟩
    let x : Expr := identifier "x"
    let y : Expr := call "!" (integer 3)
    let z : Expr := operation .mul (operation .mul (integer 3) x) (identifier "y")
    (standard.tokenize "2*3!").bind (parse o) = .ok (operation .mul (integer 2) y) ∧
      needsProductSign (integer 2) y = false ∧
      fuses (integer 2).leftFactor y.rightFactor = true ∧
      (operation .mul (integer 2) y).latex? = .ok "23!" ∧
      (standard.tokenize "2*(3*x*y)").bind (parse o) = .ok (operation .mul (integer 2) z) ∧
      needsProductSign (integer 2) z = false ∧
      fuses (integer 2).leftFactor z.rightFactor = true ∧
      (operation .mul (integer 2) z).latex? = .ok "23xy" := by
  decide +kernel

end Lexicon

end Formula
