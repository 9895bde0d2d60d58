/-
# The LaTeX of expressions

What the LaTeX of each kind of expression looks like: numbers are numerals or control words, names
have no other characters than those of words, operations and applications are put together from the
texts of their operands. Hence **everything that is worded has a text** (`latex_ne_nil`), and the
LaTeX of a complete expression is there.
-/
import Formula.Expr.Latex
import Formula.Expr.Refusal
import Formula.Proofs.Complete
import Formula.Proofs.Vocabulary

namespace Formula

open Grammar

/-! ## Numerals -/

/-- **Whether characters are the text of a number without sign**: it starts and ends with a digit,
and has no other characters than digits, a point and an exponent. -/
structure IsNumeric (cs : List Char) : Prop where
  head : ∃ c, cs.head? = some c ∧ c.isDigit = true
  last : ∃ c, cs.getLast? = some c ∧ c.isDigit = true
  chars : ∀ c ∈ cs, c.isDigit = true ∨ c ∈ ['.', 'e', '+', '-']

section IsNumeric

variable {us ms vs : List Char}

/-- A row of digits is numeric. -/
theorem isNumeric_of_digits (hne : us ≠ []) (h : ∀ c ∈ us, c.isDigit = true) : IsNumeric us where
  head := ⟨us.head hne, List.head?_eq_some_head hne, h _ (List.head_mem hne)⟩
  last := ⟨us.getLast hne, List.getLast?_eq_some_getLast hne, h _ (List.getLast_mem hne)⟩
  chars := fun c hc => .inl (h c hc)

/-- Numeric texts with a point or the sign of an exponent between them are numeric. -/
theorem IsNumeric.append (hu : IsNumeric us) (hm : ∀ c ∈ ms, c ∈ ['.', 'e', '+', '-'])
    (hv : IsNumeric vs) : IsNumeric (us ++ ms ++ vs) where
  head := by
    obtain ⟨c, hc, hdigit⟩ := hu.head
    exact ⟨c, by simp [List.head?_append, hc], hdigit⟩
  last := by
    obtain ⟨c, hc, hdigit⟩ := hv.last
    exact ⟨c, by simp [List.getLast?_append, hc], hdigit⟩
  chars := by
    intro c hc
    rcases List.mem_append.1 hc with hc | hc
    · rcases List.mem_append.1 hc with hc | hc
      · exact hu.chars c hc
      · exact .inr (hm c hc)
    · exact hv.chars c hc

/-- The digits of a number are numeric. -/
theorem isNumeric_digits (n : Nat) : IsNumeric (digits n) :=
  isNumeric_of_digits (digits_ne_nil n) fun _ => isDigit_of_mem_digits

end IsNumeric

namespace Double

/-- The positional text of a decimal is numeric. -/
theorem isNumeric_positional (n : Nat) (e : Int) : IsNumeric (positional (digits n) e) := by
  have hzeros : ∀ {k : Nat} {cs : List Char}, (∀ c ∈ cs, c.isDigit = true) →
      ∀ c ∈ List.replicate k '0' ++ cs, c.isDigit = true := by
    intro k cs hcs c hc
    rcases List.mem_append.1 hc with hc | hc
    · exact isDigit_of_mem_zeros hc
    · exact hcs c hc
  have hzero : IsNumeric ['0'] :=
    isNumeric_of_digits (List.cons_ne_nil _ _) (forall_mem_of_all (by decide))
  have hpoint : ∀ c ∈ ['.'], c ∈ ['.', 'e', '+', '-'] := forall_mem_of_all (by decide)
  have hdigits : ∀ c ∈ digits n, c.isDigit = true := fun c => isDigit_of_mem_digits
  unfold positional
  split
  · refine hzero.append hpoint (isNumeric_of_digits ?_ (hzeros hdigits))
    simp [digits_ne_nil]
  · dsimp only
    split
    · rw [← List.singleton_append, ← List.append_assoc]
      refine IsNumeric.append (isNumeric_of_digits ?_ ?_) hpoint hzero
      · simp [digits_ne_nil]
      · intro c hc
        rcases List.mem_append.1 hc with hc | hc
        · exact hdigits c hc
        · exact isDigit_of_mem_zeros hc
    · rename_i hlong
      rw [← List.singleton_append, ← List.append_assoc]
      refine IsNumeric.append (isNumeric_of_digits ?_ fun c hc => ?_) hpoint
        (isNumeric_of_digits ?_ fun c hc => ?_)
      · simp [digits_ne_nil]
      · exact hdigits c (List.mem_of_mem_take hc)
      · simp only [ne_eq, List.drop_eq_nil_iff]
        omega
      · exact hdigits c (List.mem_of_mem_drop hc)

/-- The scientific text of a decimal is numeric. -/
theorem isNumeric_scientific (n : Nat) (e : Int) : IsNumeric (scientific (digits n) e) := by
  have hexponent : ∀ {us : List Char}, IsNumeric us → IsNumeric (us ++ exponentMark e) := by
    intro us hu
    have hpadded : IsNumeric (paddedDigits 2 e.natAbs) := by
      refine isNumeric_of_digits ?_ ?_
      · simp [paddedDigits, digits_ne_nil]
      · intro c hc
        rcases List.mem_append.1 hc with hc | hc
        · exact isDigit_of_mem_zeros hc
        · exact isDigit_of_mem_digits hc
    have hsign : ∀ c ∈ ['e', if e < 0 then '-' else '+'], c ∈ ['.', 'e', '+', '-'] := by
      split <;> exact forall_mem_of_all (by decide)
    have hmark : us ++ exponentMark e
        = us ++ ['e', if e < 0 then '-' else '+'] ++ paddedDigits 2 e.natAbs := by
      simp [exponentMark]
    rw [hmark]
    exact hu.append hsign hpadded
  have hdigits : ∀ c ∈ digits n, c.isDigit = true := fun c => isDigit_of_mem_digits
  obtain ⟨d, ds, hd, -⟩ := exists_digits_eq_cons n
  rw [hd] at hdigits ⊢
  obtain ⟨hfirst, hrest⟩ := List.forall_mem_cons.1 hdigits
  have hsingle : IsNumeric [d] :=
    isNumeric_of_digits (List.cons_ne_nil _ _) (List.forall_mem_singleton.2 hfirst)
  cases ds with
  | nil => exact hexponent hsingle
  | cons d' ds =>
    have hpoint : ∀ c ∈ ['.'], c ∈ ['.', 'e', '+', '-'] := forall_mem_of_all (by decide)
    exact hexponent (hsingle.append hpoint (isNumeric_of_digits (List.cons_ne_nil _ _) hrest))

/-- The text of a magnitude is numeric. -/
theorem isNumeric_magnitudeText (c : Nat) (p : Int) : IsNumeric (magnitudeText c p) := by
  obtain ⟨e, he⟩ : ∃ e : Int, e = if c = 0 then 0 else p + (digits c).length - 1 := ⟨_, rfl⟩
  have htext : magnitudeText c p = if leastPositional ≤ e ∧ e < leastScientific then
      positional (digits c) e else scientific (digits c) e := by
    rw [he]
    rfl
  rw [htext]
  split
  · exact isNumeric_positional _ _
  · exact isNumeric_scientific _ _

/-- **The text of a finite double is numeric** behind its sign. -/
theorem isNumeric_text (s : Bool) {r : Nat} (hr : r < rankLimit) :
    ∃ cs, IsNumeric cs ∧ (finite s r hr).text.toList = (if s then ['-'] else []) ++ cs := by
  obtain ⟨d, hd⟩ := exists_toDecimal? (x := finite s r hr) rfl
  exact ⟨_, isNumeric_magnitudeText d.coefficient d.exponent, by simp [Double.text, hd]⟩

end Double

namespace Number

/-- Whether a number that is written as a numeral has a minus sign; fractions, infinities and NaN
are written with control words. -/
def numeralSign? : Number → Option Bool
  | integer n => some (decide (n < 0))
  | rational q => if q.den = 1 then some (decide (q.num < 0)) else none
  | float (.finite s _ _) => some s
  | float _ => none

/-- The text of an integer is numeric behind its sign. -/
theorem isNumeric_intText (n : Int) : ∃ cs, IsNumeric cs ∧
    (intText n).toList = (if decide (n < 0) then ['-'] else []) ++ cs := by
  refine ⟨_, isNumeric_digits n.natAbs, ?_⟩
  unfold intText
  by_cases hn : n < 0 <;> simp [hn]

/-- The text of a finite double in LaTeX is its shortest one. -/
theorem latex_finite (s : Bool) {r : Nat} (hr : r < rankLimit) :
    (float (.finite s r hr)).latex = (Double.finite s r hr).text := by
  rw [latex] <;> nofun

/-- **What is written as a numeral is numeric** behind its sign. -/
theorem isNumeric_latex {n : Number} {s : Bool} (h : n.numeralSign? = some s) :
    ∃ cs, IsNumeric cs ∧ n.latex.toList = (if s then ['-'] else []) ++ cs := by
  match n with
  | integer n =>
    obtain rfl : decide (n < 0) = s := Option.some.inj h
    exact isNumeric_intText n
  | rational q =>
    by_cases hq : q.den = 1
    · simp only [numeralSign?, if_pos hq, Option.some.injEq] at h
      rw [latex, if_pos hq, ← h]
      exact isNumeric_intText q.num
    · simp only [numeralSign?, if_neg hq] at h
      cases h
  | float (.finite s' r hr) =>
    obtain rfl : s' = s := Option.some.inj h
    rw [latex_finite]
    exact Double.isNumeric_text s' hr
  | float .nan => cases h
  | float (.infinity s') => cases h

/-- **What is no numeral is written with a control word**, behind its sign: it is a fraction or NaN,
which end with a brace, or infinite. -/
theorem latex_of_numeralSign? {n : Number} (h : n.numeralSign? = none) :
    (n.latex.toList.head? = some '-' ∨ n.latex.toList.head? = some '\\') ∧
      (n.latex.toList.getLast? = some '\x7d' ∨ ∃ s, n = float (.infinity s)) := by
  match n with
  | integer n => cases h
  | rational q =>
    by_cases hq : q.den = 1
    · simp only [numeralSign?, if_pos hq] at h
      cases h
    · rw [latex, if_neg hq]
      by_cases hn : q.num < 0 <;> simp [hn, inBraces, List.getLast?_cons, List.getLast?_append]
  | float (.finite s r hr) => cases h
  | float .nan => exact ⟨.inr rfl, .inl rfl⟩
  | float (.infinity s) =>
    refine ⟨?_, .inr ⟨s, rfl⟩⟩
    cases s with
    | true => exact .inl rfl
    | false => exact .inr rfl

/-- Every number has a text. -/
theorem latex_ne_nil (n : Number) : n.latex.toList ≠ [] := by
  intro hnil
  cases hs : n.numeralSign? with
  | some s =>
    obtain ⟨cs, hcs, htext⟩ := isNumeric_latex hs
    obtain ⟨c, hc, -⟩ := hcs.head
    rw [hnil] at htext
    rw [(List.append_eq_nil_iff.1 htext.symm).2] at hc
    cases hc
  | none =>
    rcases (latex_of_numeralSign? hs).1 with h | h <;> rw [hnil] at h <;> cases h

end Number

/-! ## Names -/

namespace Lexicon

variable {l : Lexicon} {name : String}

/-- A name is found by a definition of its kind. -/
theorem Names.exists_token? {kind : Kind} (h : l.Names kind name) :
    ∃ d ∈ l, d.kind = kind ∧ d.token? 0 name.toList = some (plainWord kind name) := by
  obtain ⟨d, hd, htoken⟩ := List.exists_of_findSome?_eq_some h.alone
  exact ⟨d, hd, (Definition.kind_of_token? htoken).symm, htoken⟩

/-- **There are five constants.** -/
theorem Names.mem_constantNames (hl : l ∈ builtin) (h : l.Names .constant name) :
    name ∈ Expr.constantNames := by
  have hwords : ∀ l ∈ builtin, ∀ d ∈ l, d.kind = .constant →
      ∃ w ∈ Expr.constantNames, d.pattern.words? = some [w] := by
    decide
  obtain ⟨d, hd, hk, htoken⟩ := h.exists_token?
  obtain ⟨w, hw, hpattern⟩ := hwords l hl d hd hk
  have hname : name ∈ [w] := Definition.lexeme_mem_words hpattern htoken
  rwa [List.mem_singleton.1 hname]

/-- Variables are found as letters or as identifiers. -/
theorem pattern_of_identifier : ∀ l ∈ builtin, ∀ d ∈ l, d.kind = .identifier →
    d.pattern = .letter ∨ d.pattern = .identifier := by
  decide

/-- **A variable without its dollar sign** starts with a letter or an underscore. -/
theorem Names.dropWhile_dollar (hl : l ∈ builtin) (h : l.Names .identifier name) :
    ∃ c us, name.toList.dropWhile (· == '$') = c :: us ∧
      (isAsciiLetter c = true ∨ c = '_') ∧ us.all isWordChar = true := by
  have hkeep : ∀ {c : Char} {us : List Char}, isAsciiLetter c = true ∨ c = '_' →
      (c :: us).dropWhile (· == '$') = c :: us := by
    intro c us hc
    refine List.dropWhile_cons_of_neg ?_
    rw [beq_iff_eq]
    rintro rfl
    revert hc
    decide
  obtain ⟨c, us, hname, hstarts, hus⟩ := h.word
  simp only [startsName, Bool.or_eq_true, beq_iff_eq] at hstarts
  rw [hname]
  rcases hstarts with hc | rfl
  · exact ⟨c, us, hkeep hc, hc, hus⟩
  -- behind a dollar sign there is a name, which is what the pattern looks for
  · obtain ⟨d, hd, hk, htoken⟩ := h.exists_token?
    have hne := (Definition.lexeme_of_token? htoken).1
    rw [hname] at hne
    rcases pattern_of_identifier l hl d hd hk with hpattern | hpattern
    · rw [hpattern] at hne
      exact absurd rfl hne
    · rw [hpattern] at hne
      cases us with
      | nil => exact absurd rfl hne
      | cons c us =>
        have hc : isAsciiLetter c = true ∨ c = '_' := by
          by_contra hc
          refine hne ?_
          simp [Pattern.length, Pattern.nameLength, not_or.1 hc]
        rw [List.all_cons, Bool.and_eq_true] at hus
        exact ⟨c, us, (List.dropWhile_cons_of_pos rfl).trans (hkeep hc), hc, hus.2⟩

/-- A name has no other characters than letters, digits, underscores and dollar signs. -/
theorem Names.chars {kind : Kind} (h : l.Names kind name) {c : Char} (hc : c ∈ name.toList) :
    isWordChar c = true ∨ c = '$' := by
  obtain ⟨d, us, hname, hd, hus⟩ := h.word
  rw [hname] at hc
  rcases List.mem_cons.1 hc with rfl | hc
  · simp only [startsName, Bool.or_eq_true, beq_iff_eq] at hd
    simp only [isWordChar, Bool.or_eq_true, beq_iff_eq]
    tauto
  · exact .inl (List.all_eq_true.1 hus c hc)

end Lexicon

/-! ## Expressions -/

namespace Expr

/-! ### Operations and applications -/

variable {x y : Expr}

/-- The LaTeX of a product. -/
theorem latex_mul : (operation .mul x y).latex = bracketed (x.needsBrackets .mul false) x.latex
    ++ (if needsProductSign x y then "\\cdot " else "")
    ++ bracketed (y.needsBrackets .mul true) y.latex := rfl

/-- The LaTeX of a quotient. -/
theorem latex_div :
    (operation .div x y).latex = "\\frac" ++ inBraces x.latex ++ inBraces y.latex := rfl

/-- The LaTeX of a power. -/
theorem latex_pow : (operation .pow x y).latex
    = bracketed (x.needsBrackets .pow true) x.latex ++ "^"
      ++ (if y.isShortExponent y.latex then y.latex else inBraces y.latex) := rfl

/-- The LaTeX of a one-sided minus. -/
theorem latex_negated :
    (negated x).latex = "-" ++ bracketed (x.needsBrackets .sub false) x.latex := rfl

/-- The LaTeX of a denial. -/
theorem latex_denied : (denied x).latex = "\\neg (" ++ x.latex ++ ")" := rfl

/-- Other operations are written with a sign between their operands. -/
theorem latex_operation {op : Operator} (hy : y.isHole = false) (hn : op ≠ .not) (hmul : op ≠ .mul)
    (hdiv : op ≠ .div) (hpow : op ≠ .pow) : (operation op x y).latex
      = x.latex ++ latexSign op ++ bracketed (y.needsBrackets op false) y.latex := by
  cases op with
  | not => exact absurd rfl hn
  | mul => exact absurd rfl hmul
  | div => exact absurd rfl hdiv
  | pow => exact absurd rfl hpow
  | sub => exact if_neg (by rw [hy]; exact Bool.false_ne_true)
  | _ => rfl

/-- The LaTeX of a conditional. -/
theorem latex_conditional {c : Expr} : (conditional c x y).latex
    = "\\begin\x7bcases\x7d " ++ x.latex ++ " & \\text\x7bif \x7d " ++ c.latex ++ " \\\\ "
      ++ y.latex ++ " & \\text\x7botherwise\x7d \\end\x7bcases\x7d" := rfl

/-- The LaTeX of a mark behind its operand. -/
theorem latex_marked {name : String} (h : name = "!" ∨ name = "!!") : (call name x).latex
    = bracketed x.needsLatexFactorialBrackets x.latex ++ name := if_pos h

/-- The LaTeX of an application. -/
theorem latex_call {name : String} (h : ¬(name = "!" ∨ name = "!!")) :
    (call name x).latex = latexCall name x.latex := if_neg h

/-- The LaTeX of a price ending. -/
theorem latex_ending : (ending x y).latex = latexCall endingName (x.latex ++ ", " ++ y.latex) := rfl

/-- The LaTeX of a constant. -/
theorem latex_constant {name : String} : (constant name).latex = latexConstant name := rfl

/-- The LaTeX of a variable. -/
theorem toList_latex_identifier {name : String} :
    (identifier name).latex.toList = name.toList.dropWhile (· == '$') :=
  String.toList_ofList

/-- The LaTeX of a literal text. -/
theorem toList_latex_literal {cs : List Char} : (literal (String.ofList cs)).latex.toList = cs :=
  String.toList_ofList

/-- What the functions with control words of their own write around their arguments. -/
def callFrames : List (String × String) :=
  [("\\sqrt\x7b", "\x7d"), ("\\lvert ", "\\rvert "), ("\\log_\x7b10\x7d(", ")")]
    ++ latexFunctions.map fun name => ("\\" ++ name ++ "(", ")")

/-- **The LaTeX of an application** surrounds the arguments with one of the frames, or names the
function. -/
theorem latexCall_eq (name arguments : String) :
    (∃ f ∈ callFrames, latexCall name arguments = f.1 ++ arguments ++ f.2) ∨
      latexCall name arguments = "\\operatorname\x7b" ++ name ++ "\x7d(" ++ arguments ++ ")" := by
  unfold latexCall
  split
  · refine .inl ⟨_, List.mem_cons_self, String.toList_inj.1 ?_⟩
    simp [inBraces]
  · exact .inl ⟨_, List.mem_cons_of_mem _ List.mem_cons_self, rfl⟩
  · refine .inl ⟨("\\log_\x7b10\x7d(", ")"), by simp [callFrames], String.toList_inj.1 ?_⟩
    simp [inBraces]
  · split
    · rename_i hname
      have hmem := List.mem_map_of_mem (f := fun name => ("\\" ++ name ++ "(", ")"))
        (List.contains_iff_mem.1 hname)
      exact .inl ⟨_, List.mem_append_right _ hmem, rfl⟩
    · refine .inr (String.toList_inj.1 ?_)
      simp [inBraces]

/-- An application ends with a bracket, with a brace or with the space behind a bar. -/
theorem getLast?_latexCall (name arguments : String) :
    ∃ c ∈ [')', '\x7d', ' '], (latexCall name arguments).toList.getLast? = some c := by
  have hframes : ∀ f ∈ callFrames, f.2.toList.getLast? ∈ [')', '\x7d', ' '].map some := by
    decide
  rcases latexCall_eq name arguments with ⟨f, hf, htext⟩ | htext
  · obtain ⟨c, hc, hlast⟩ := List.mem_map.1 (hframes f hf)
    exact ⟨c, hc, by simp [htext, List.getLast?_append, ← hlast]⟩
  · exact ⟨')', by decide, by simp [htext, List.getLast?_cons, List.getLast?_append]⟩

/-- An application starts with a control word. -/
theorem head?_latexCall (name arguments : String) :
    (latexCall name arguments).toList.head? = some '\\' := by
  have hframes : ∀ f ∈ callFrames, f.1.toList.head? = some '\\' := by decide
  rcases latexCall_eq name arguments with ⟨f, hf, htext⟩ | htext
  · simp [htext, List.head?_append, hframes f hf]
  · simp [htext]

/-- An application has a text. -/
theorem latexCall_ne_nil (name arguments : String) : (latexCall name arguments).toList ≠ [] := by
  intro hnil
  have hhead := head?_latexCall name arguments
  rw [hnil] at hhead
  cases hhead

/-! ### Texts that are not empty -/

variable {l : Lexicon} {e : Expr}

/-- Some text is around brackets. -/
theorem toList_bracketed_true (text : String) :
    (bracketed true text).toList = '(' :: (text.toList ++ [')']) := by
  simp [bracketed]

/-- A text in brackets is not empty if the text is not. -/
theorem toList_bracketed_ne_nil {needed : Bool} {text : String} (h : text.toList ≠ []) :
    (bracketed needed text).toList ≠ [] := by
  cases needed with
  | true => simp [bracketed]
  | false => exact h

/-- **Whatever is worded has a text.** -/
theorem latex_ne_nil (hl : l ∈ Lexicon.builtin) (h : l.Worded e) : e.latex.toList ≠ [] := by
  induction h with
  | number n => exact n.latex_ne_nil
  | boolean h b => cases b <;> decide
  | constant h =>
    have hnames : ∀ name ∈ constantNames, (latexConstant name).toList ≠ [] := by decide
    rw [latex_constant]
    exact hnames _ (h.mem_constantNames hl)
  | identifier h =>
    obtain ⟨c, us, htext, -⟩ := h.dropWhile_dollar hl
    rw [toList_latex_identifier, htext]
    exact List.cons_ne_nil c us
  | literal =>
    rw [toList_latex_literal]
    exact List.cons_ne_nil _ _
  | @operation op x y hop hn hx hy ihx ihy =>
    cases op with
    | mul =>
      simp only [latex_mul, String.toList_append, ne_eq, List.append_eq_nil_iff, not_and_or]
      exact .inl (.inl (toList_bracketed_ne_nil ihx))
    | div => simp [latex_div]
    | pow => simp [latex_pow]
    | not => exact absurd rfl hn
    | _ =>
      rw [latex_operation hy.isHole_eq_false hn nofun nofun nofun, String.toList_append,
        String.toList_append]
      simp [ihx]
  | negated => simp [latex_negated]
  | denied => simp [latex_denied]
  | conditional => simp [latex_conditional]
  | factorial hname =>
    rw [latex_marked hname]
    rcases hname with rfl | rfl <;> simp
  | application hname =>
    rw [latex_call hname.not_mark]
    exact latexCall_ne_nil _ _
  | ending =>
    rw [latex_ending]
    exact latexCall_ne_nil _ _

/-- **The LaTeX of a complete expression** is there. -/
theorem Complete.latex? (h : e.Complete) : e.latex? = .ok e.latex := by
  have hready : e.latexReady = true := by
    induction h with
    | @operation op x y hn hx hy ihx ihy =>
      cases op <;> simp [latexReady, ihx, ihy, hx.isHole_eq_false, hy.isHole_eq_false]
    | negated hx ih => simp [latexReady, ih, isHole]
    | denied hx ih => simp [latexReady, ih, hx.isHole_eq_false]
    | conditional hc ht he ihc iht ihe =>
      simp [latexReady, ihc, iht, ihe, hc.isHole_eq_false, ht.isHole_eq_false, he.isHole_eq_false]
    | call _ ha ih => simp [latexReady, ih, ha.isHole_eq_false]
    | ending hp ht ihp iht => simp [latexReady, ihp, iht, hp.isHole_eq_false, ht.isHole_eq_false]
    | _ => rfl
  rw [Expr.latex?, h.isHole_eq_false, hready]
  rfl

end Expr

end Formula
