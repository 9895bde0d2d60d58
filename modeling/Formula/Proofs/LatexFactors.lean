/-
# Where the LaTeX of an expression starts and ends

The LaTeX of a product or a power starts with that of its first operand and may end with that of its
last one, unless brackets or braces stand in between; the same holds of the marks behind operands.
So **the first and the last character are those of two operands** (`head?_latex`,
`getLast?_latex`), however deep in the tree these are.
-/
import Formula.Proofs.LatexText
import Formula.Proofs.WellFormed

namespace Formula

namespace Expr

/-! ## Operands at the ends -/

/-- **The operand whose text starts the text of a factor**: brackets hide what they surround. -/
def leading : Expr → Expr
  | operation .mul x y => if x.needsBrackets .mul false then operation .mul x y else x.leading
  | operation .pow x y => if x.needsBrackets .pow true then operation .pow x y else x.leading
  | call name x =>
    if (name = "!" ∨ name = "!!") ∧ x.needsLatexFactorialBrackets = false then x else call name x
  | e => e

/-- **The operand whose text ends the text of a factor**: brackets and braces hide what they
surround. -/
def trailing : Expr → Expr
  | operation .mul x y => if y.needsBrackets .mul true then operation .mul x y else y.trailing
  | operation .pow x y => if y.isShortExponent y.latex then y else operation .pow x y
  | e => e

/-- The text of a call ends with its own end. -/
theorem trailing_call {name : String} {x : Expr} : (call name x).trailing = call name x := rfl

variable {l : Lexicon} {x y e : Expr}

/-! ### Brackets -/

/-- Around factors, the strict rule makes no difference. -/
theorem needsBrackets_mul (e : Expr) (strict : Bool) :
    e.needsBrackets .mul strict = e.needsBrackets .mul false := by
  cases e with
  | operation op x y =>
    have hdiv : (Operator.mul == Operator.div) = false := by decide
    have hpow : (Operator.mul == Operator.pow) = false := by decide
    simp [needsBrackets, hdiv, hpow]
  | _ => rfl

/-- What stands without brackets as a base also does as a factor. -/
theorem needsBrackets_mul_of_pow {e : Expr} (h : e.needsBrackets .pow true = false) :
    e.needsBrackets .mul false = false := by
  cases e with
  | operation op x y =>
    simp only [needsBrackets, Bool.or_eq_false_iff, decide_eq_false_iff_not] at h ⊢
    have hlevel : Operator.mul.level < Operator.pow.level := by decide
    refine ⟨⟨⟨⟨h.1.1.1.1, rfl⟩, rfl⟩, rfl⟩, ?_⟩
    omega
  | number n =>
    have hdiv : Operator.div.yieldsTo .mul = Operator.div.yieldsTo .pow := by decide
    simpa only [needsBrackets, hdiv] using h
  | conditional c x y => exact h
  | _ => rfl

/-! ### The ends of texts -/

/-- **The text of a factor starts with that of its leading operand.** -/
theorem latex_leading_prefix (e : Expr) : e.leading.latex.toList <+: e.latex.toList := by
  induction e with
  | operation op x y ihx ihy =>
    cases op with
    | mul =>
      rw [leading]
      split
      · exact List.prefix_rfl
      · rename_i hb
        rw [latex_mul, Bool.eq_false_iff.2 hb, String.toList_append, String.toList_append,
          List.append_assoc]
        exact ihx.trans (List.prefix_append _ _)
    | pow =>
      rw [leading]
      split
      · exact List.prefix_rfl
      · rename_i hb
        rw [latex_pow, Bool.eq_false_iff.2 hb, String.toList_append, String.toList_append,
          List.append_assoc]
        exact ihx.trans (List.prefix_append _ _)
    | _ => exact List.prefix_rfl
  | call name x ih =>
    rw [leading]
    split
    · rename_i hb
      rw [latex_marked hb.1, hb.2, String.toList_append]
      exact List.prefix_append _ _
    · exact List.prefix_rfl
  | _ => exact List.prefix_rfl

/-- **The text of a factor ends with that of its trailing operand.** -/
theorem latex_trailing_suffix (e : Expr) : e.trailing.latex.toList <:+ e.latex.toList := by
  induction e with
  | operation op x y ihx ihy =>
    cases op with
    | mul =>
      rw [trailing]
      split
      · exact List.suffix_rfl
      · rename_i hb
        rw [latex_mul, Bool.eq_false_iff.2 hb, String.toList_append]
        exact ihy.trans (List.suffix_append _ _)
    | pow =>
      rw [trailing]
      split
      · rename_i hb
        rw [latex_pow, if_pos hb, String.toList_append]
        exact List.suffix_append _ _
      · exact List.suffix_rfl
    | _ => exact List.suffix_rfl
  | _ => exact List.suffix_rfl

/-- The operand at the start of a worded expression is worded. -/
theorem worded_leading (h : l.Worded e) : l.Worded e.leading := by
  induction e with
  | operation op x y ihx ihy =>
    cases op with
    | mul =>
      rw [leading]
      split
      · exact h
      · exact ihx h.left
    | pow =>
      rw [leading]
      split
      · exact h
      · exact ihx h.left
    | _ => exact h
  | call name x ih =>
    rw [leading]
    split
    · cases h with
      | factorial _ _ hx => exact hx
      | application _ _ hx => exact hx
    · exact h
  | _ => exact h

/-- The operand at the end of a worded expression is worded. -/
theorem worded_trailing (h : l.Worded e) : l.Worded e.trailing := by
  induction e with
  | operation op x y ihx ihy =>
    cases op with
    | mul =>
      cases h with
      | operation hop hn hx hy =>
        rw [trailing]
        split
        · exact .operation hop hn hx hy
        · exact ihy hy
    | pow =>
      cases h with
      | operation hop hn hx hy =>
        rw [trailing]
        split
        · exact hy
        · exact .operation hop hn hx hy
    | _ => exact h
  | _ => exact h

/-- **The first character of a factor** is that of its leading operand. -/
theorem head?_latex (hl : l ∈ Lexicon.builtin) (h : l.Worded e) :
    e.latex.toList.head? = e.leading.latex.toList.head? := by
  obtain ⟨us, hus⟩ := e.latex_leading_prefix
  rw [← hus]
  exact List.head?_append_of_ne_nil _ (latex_ne_nil hl (worded_leading h))

/-- **The last character of a factor** is that of its trailing operand. -/
theorem getLast?_latex (hl : l ∈ Lexicon.builtin) (h : l.Worded e) :
    e.latex.toList.getLast? = e.trailing.latex.toList.getLast? := by
  obtain ⟨us, hus⟩ := e.latex_trailing_suffix
  rw [← hus]
  exact List.getLast?_append_of_ne_nil _ (latex_ne_nil hl (worded_trailing h))

/-! ### Operands at the ends of bare factors -/

/-- Whether an operand has no parts. -/
def isAtom : Expr → Bool
  | number _ | boolean _ | constant _ | identifier _ | literal _ => true
  | _ => false

/-- What stands without brackets in front of a mark is an atom. -/
theorem isAtom_of_needsLatexFactorialBrackets (h : x.needsLatexFactorialBrackets = false) :
    x.isAtom = true := by
  unfold needsLatexFactorialBrackets at h
  split at h <;> first | rfl | cases h

/-- A short exponent is an atom. -/
theorem isAtom_of_isShortExponent {text : String} (h : x.isShortExponent text = true) :
    x.isAtom = true := by
  unfold isShortExponent at h
  split at h <;> first | rfl | cases h

/-- Sums, differences, relations and connectives stand in brackets as factors. -/
theorem needsBrackets_mul_of_level {op : Operator} (h : op.level < Operator.mul.level) :
    (operation op x y).needsBrackets .mul false = true := by
  simp [needsBrackets, h]

/-- **A factor without brackets starts with an atom**, with a bracket or with a control word. -/
theorem leading_cases (h : l.Worded e) (hb : e.needsBrackets .mul false = false) :
    e.leading.isAtom = true ∨
      ∃ c ∈ ['(', '\\'], e.leading.latex.toList.head? = some c := by
  induction h with
  | @operation op x y hop hn hx hy ihx ihy =>
    cases op with
    | mul =>
      rw [leading]
      split
      · rename_i hx
        exact .inr ⟨'(', by decide, by simp [latex_mul, hx, toList_bracketed_true]⟩
      · rename_i hx
        exact ihx (Bool.eq_false_iff.2 hx)
    | pow =>
      rw [leading]
      split
      · rename_i hx
        exact .inr ⟨'(', by decide, by simp [latex_pow, hx, toList_bracketed_true]⟩
      · rename_i hx
        exact ihx (needsBrackets_mul_of_pow (Bool.eq_false_iff.2 hx))
    | div => exact .inr ⟨'\\', by decide, by simp [leading, latex_div]⟩
    | not => exact absurd rfl hn
    | _ =>
      rw [needsBrackets_mul_of_level (by decide)] at hb
      cases hb
  | negated => cases hb
  | denied =>
    rw [needsBrackets_mul_of_level (by decide)] at hb
    cases hb
  | conditional => cases hb
  | @factorial name x hname hk hx ih =>
    rw [leading]
    split
    · rename_i hx
      exact .inl (isAtom_of_needsLatexFactorialBrackets hx.2)
    · rename_i hx
      have hbrackets : x.needsLatexFactorialBrackets = true := by
        rw [← Bool.not_eq_false]
        exact fun hnone => hx ⟨hname, hnone⟩
      exact .inr ⟨'(', by decide, by simp [latex_marked hname, hbrackets, toList_bracketed_true]⟩
  | @application name x hname he hx ih =>
    rw [leading, if_neg fun hb => hname.not_mark hb.1, latex_call hname.not_mark]
    exact .inr ⟨'\\', by decide, head?_latexCall _ _⟩
  | ending => exact .inr ⟨'\\', by decide, head?_latexCall _ _⟩
  | _ => exact .inl rfl

/-- **A factor without brackets ends with an atom**, or with a bracket, a brace, a mark or a
space. -/
theorem trailing_cases (h : l.Worded e) (hb : e.needsBrackets .mul false = false) :
    e.trailing.isAtom = true ∨
      ∃ c ∈ [')', '\x7d', ' ', '!'], e.trailing.latex.toList.getLast? = some c := by
  induction h with
  | @operation op x y hop hn hx hy ihx ihy =>
    cases op with
    | mul =>
      rw [trailing]
      split
      · rename_i hy
        refine .inr ⟨')', by decide, ?_⟩
        simp [latex_mul, hy, toList_bracketed_true, List.getLast?_append, List.getLast?_cons]
      · rename_i hy
        rw [needsBrackets_mul] at hy
        exact ihy (Bool.eq_false_iff.2 hy)
    | pow =>
      rw [trailing]
      split
      · rename_i hy
        exact .inl (isAtom_of_isShortExponent hy)
      · rename_i hy
        refine .inr ⟨'\x7d', by decide, ?_⟩
        simp [latex_pow, hy, inBraces, List.getLast?_append, List.getLast?_cons]
    | div =>
      refine .inr ⟨'\x7d', by decide, ?_⟩
      simp [trailing, latex_div, inBraces, List.getLast?_append, List.getLast?_cons]
    | not => exact absurd rfl hn
    | _ =>
      rw [needsBrackets_mul_of_level (by decide)] at hb
      cases hb
  | negated => cases hb
  | denied =>
    rw [needsBrackets_mul_of_level (by decide)] at hb
    cases hb
  | conditional => cases hb
  | @factorial name x hname hk hx ih =>
    refine .inr ⟨'!', by decide, ?_⟩
    rw [trailing_call, latex_marked hname]
    rcases hname with rfl | rfl <;> simp [List.getLast?_append]
  | @application name x hname he hx ih =>
    obtain ⟨c, hc, hlast⟩ := getLast?_latexCall name x.latex
    refine .inr ⟨c, List.mem_append_left ['!'] hc, ?_⟩
    rw [trailing_call, latex_call hname.not_mark]
    exact hlast
  | @ending x y hname hx hy =>
    obtain ⟨c, hc, hlast⟩ := getLast?_latexCall endingName (x.latex ++ ", " ++ y.latex)
    exact .inr ⟨c, List.mem_append_left ['!'] hc, hlast⟩
  | _ => exact .inl rfl

/-! ## Factors of products -/

/-- The text of the left factor of a product. -/
def leftFactor (x : Expr) : String := bracketed (x.needsBrackets .mul false) x.latex

/-- The text of the right factor of a product. -/
def rightFactor (y : Expr) : String := bracketed (y.needsBrackets .mul false) y.latex

/-- **How a right factor starts** is decided by its leading operand, as far as other characters than
a bracket and a backslash are concerned. -/
theorem head?_rightFactor {p : Char → Bool} (hp : ∀ c ∈ ['(', '\\'], p c = false)
    (hl : l ∈ Lexicon.builtin) (h : l.Worded y) :
    y.rightFactor.toList.head?.any p = (!y.needsBrackets .mul false &&
      (y.leading.isAtom && y.leading.latex.toList.head?.any p)) := by
  unfold rightFactor
  cases hb : y.needsBrackets .mul false with
  | true =>
    rw [toList_bracketed_true]
    exact hp '(' (by decide)
  | false =>
    show y.latex.toList.head?.any p = (y.leading.isAtom && _)
    rw [head?_latex hl h]
    cases hatom : y.leading.isAtom with
    | true => rfl
    | false =>
      obtain ⟨c, hc, hchar⟩ := (leading_cases h hb).resolve_left (by simp [hatom])
      rw [hchar]
      exact hp c hc

/-- **How a left factor ends** is decided by its trailing operand, as far as other characters than
those are concerned that end an operand with parts. -/
theorem getLast?_leftFactor {p : Char → Bool} (hp : ∀ c ∈ [')', '\x7d', ' ', '!'], p c = false)
    (hl : l ∈ Lexicon.builtin) (h : l.Worded x) :
    x.leftFactor.toList.getLast?.any p = (!x.needsBrackets .mul false &&
      (x.trailing.isAtom && x.trailing.latex.toList.getLast?.any p)) := by
  unfold leftFactor
  cases hb : x.needsBrackets .mul false with
  | true =>
    rw [toList_bracketed_true, ← List.cons_append, List.getLast?_concat]
    exact hp ')' (by decide)
  | false =>
    show x.latex.toList.getLast?.any p = (x.trailing.isAtom && _)
    rw [getLast?_latex hl h]
    cases hatom : x.trailing.isAtom with
    | true => rfl
    | false =>
      obtain ⟨c, hc, hchar⟩ := (trailing_cases h hb).resolve_left (by simp [hatom])
      rw [hchar]
      exact hp c hc

/-- **A product is written without a sign**, or with one. -/
theorem latex_product : (operation .mul x y).latex
    = x.leftFactor ++ (if needsProductSign x y then "\\cdot " else "") ++ y.rightFactor := by
  rw [latex_mul, needsBrackets_mul y true]
  rfl

/-- The parts of a worded expression are worded, but for missing operands. -/
theorem worded_of_mem_parts (h : l.Worded e) : ∀ p ∈ e.parts, p = hole ∨ l.Worded p := by
  induction h with
  | number n => exact List.forall_mem_singleton.2 (.inr (.number n))
  | boolean hk b => exact List.forall_mem_singleton.2 (.inr (.boolean hk b))
  | constant hname => exact List.forall_mem_singleton.2 (.inr (.constant hname))
  | identifier hname => exact List.forall_mem_singleton.2 (.inr (.identifier hname))
  | literal ha hb => exact List.forall_mem_singleton.2 (.inr (.literal ha hb))
  | operation hop hn hx hy ihx ihy =>
    exact List.forall_mem_cons.2 ⟨.inr (.operation hop hn hx hy),
      List.forall_mem_append.2 ⟨ihx, ihy⟩⟩
  | negated hop hx ih =>
    exact List.forall_mem_cons.2 ⟨.inr (.negated hop hx),
      List.forall_mem_append.2 ⟨ih, List.forall_mem_singleton.2 (.inl rfl)⟩⟩
  | denied hop hx ih =>
    exact List.forall_mem_cons.2 ⟨.inr (.denied hop hx),
      List.forall_mem_append.2 ⟨ih, List.forall_mem_singleton.2 (.inl rfl)⟩⟩
  | conditional hk hc hx hy ihc ihx ihy =>
    exact List.forall_mem_cons.2 ⟨.inr (.conditional hk hc hx hy),
      List.forall_mem_append.2 ⟨List.forall_mem_append.2 ⟨ihc, ihx⟩, ihy⟩⟩
  | factorial hname hk hx ih =>
    exact List.forall_mem_cons.2 ⟨.inr (.factorial hname hk hx), ih⟩
  | application hname he hx ih =>
    exact List.forall_mem_cons.2 ⟨.inr (.application hname he hx), ih⟩
  | ending hname hx hy ihx ihy =>
    exact List.forall_mem_cons.2 ⟨.inr (.ending hname hx hy),
      List.forall_mem_append.2 ⟨ihx, ihy⟩⟩

/-- The factors of a product in a worded expression are worded. -/
theorem worded_of_product (h : l.Worded e) (hp : operation .mul x y ∈ e.parts) :
    l.Worded x ∧ l.Worded y := by
  rcases worded_of_mem_parts h _ hp with hhole | hworded
  · cases hhole
  · cases hworded with
    | operation _ _ hx hy => exact ⟨hx, hy⟩

end Expr

end Formula
