/-
# Glued factors

Most control words are printed with a brace, a bracket or a space behind them; only those of pi and
of infinity have an open end. So **the LaTeX of an expression consists of known control words
exactly if no product glues a factor that starts with a letter to one that ends in pi or infinity**
(`intact_of_parse`), as `pi*x` does, which comes out as `\pix`.
-/
import Formula.Proofs.ControlWords
import Formula.Proofs.LatexFactors

namespace Formula

/-! ## Factors that glue -/

namespace Expr

/-- Whether an operand is written as a control word with an open end: as pi or as infinity. -/
def isOpenWord : Expr → Bool
  | constant name => name == "pi" || name == "INF"
  | number (.float (.infinity _)) => true
  | _ => false

/-- Whether the text of an operand starts with a letter: it is a variable that does not start with
an underscore, or a constant without a control word. -/
def startsAsLetter : Expr → Bool
  | identifier name => (name.toList.dropWhile (· == '$')).head? != some '_'
  | constant name => name == "e" || name == "i"
  | _ => false

/-- **Whether a left factor ends in an open control word**: it has no brackets, and its trailing
operand is written as one. -/
def endsInWord (x : Expr) : Bool := !x.needsBrackets .mul false && x.trailing.isOpenWord

/-- **Whether a right factor starts with a letter**: it has no brackets, and its leading operand
does. -/
def startsWithLetter (y : Expr) : Bool := !y.needsBrackets .mul false && y.leading.startsAsLetter

/-- **Whether a product glues its factors**: a letter follows a control word directly. -/
def glues (x y : Expr) : Bool := !needsProductSign x y && (x.endsInWord && y.startsWithLetter)

/-- Whether no product of an expression glues its factors. -/
def GlueFree (e : Expr) : Prop := ∀ x y, operation .mul x y ∈ e.parts → glues x y = false

end Expr

namespace Lexicon

open Formula.Expr

variable {l : Lexicon} {x y e : Expr} {name : String}

/-! ### Operands -/

/-- A numeric text behind a sign has no backslash. -/
theorem no_backslash_of_isNumeric {cs : List Char} (h : IsNumeric cs) (s : Bool) :
    '\\' ∉ (if s then ['-'] else []) ++ cs := by
  intro hmem
  rcases List.mem_append.1 hmem with hmem | hmem
  · cases s <;> simp at hmem
  · rcases h.chars _ hmem with hdigit | hmem
    · cases hdigit
    · revert hmem
      decide

/-- A name has no backslash. -/
theorem no_backslash_of_names {kind : Kind} (h : l.Names kind name) : '\\' ∉ name.toList := by
  intro hmem
  rcases h.chars hmem with hword | hdollar
  · cases hword
  · cases hdollar

/-- A digit is no letter. -/
theorem isAsciiLetter_of_isDigit {c : Char} (h : c.isDigit = true) : isAsciiLetter c = false := by
  rw [Bool.eq_false_iff]
  intro hletter
  have hdigit := isDecimalDigit_of_isDigit h
  rw [(plain_of_isAsciiLetter hletter).1] at hdigit
  cases hdigit

/-- A fraction is sealed. -/
theorem sealed_fraction {q : Rat} (hq : q.den ≠ 1) : Sealed (Number.rational q).latex := by
  have hdigits : ∀ n, Intact (String.ofList (digits n)) := by
    intro n
    refine (sealed_of_no_backslash ?_).intact
    rw [String.toList_ofList]
    exact no_backslash_of_isNumeric (isNumeric_digits n) false
  have hfrac : Intact ((if q.num < 0 then "-" else "") ++ "\\frac") := by
    have hsigns : ∀ sign ∈ ["-", ""], ∀ w ∈ controlWords (sign ++ "\\frac").toList,
        String.ofList w ∈ knownWords := by
      decide
    split
    · exact hsigns _ (by decide)
    · exact hsigns _ (by decide)
  rw [Number.latex, if_neg hq]
  exact (hfrac.inBraces (hdigits q.num.natAbs)).intact.inBraces (hdigits q.den)

/-- A number is intact, and sealed unless it is infinite. -/
theorem sealed_number (n : Number) :
    Intact n.latex ∧ ((number n).isOpenWord = false → Sealed n.latex) := by
  cases hs : n.numeralSign? with
  | some s =>
    obtain ⟨cs, hcs, htext⟩ := Number.isNumeric_latex hs
    have hsealed : Sealed n.latex := by
      refine sealed_of_no_backslash ?_
      rw [htext]
      exact no_backslash_of_isNumeric hcs s
    exact ⟨hsealed.intact, fun _ => hsealed⟩
  | none =>
    cases n with
    | integer n => cases hs
    | rational q =>
      have hden : q.den ≠ 1 := by
        intro hden
        simp [Number.numeralSign?, hden] at hs
      exact ⟨(sealed_fraction hden).intact, fun _ => sealed_fraction hden⟩
    | float x =>
      cases x with
      | finite s r hr => cases hs
      | nan =>
        have hsealed : Sealed "\\mathrm\x7bNaN\x7d" := sealed_of_separates (by decide)
        exact ⟨hsealed.intact, fun _ => hsealed⟩
      | infinity s =>
        have hwords : ∀ text ∈ ["-\\infty", "\\infty"], ∀ w ∈ controlWords text.toList,
            String.ofList w ∈ knownWords := by
          decide
        refine ⟨?_, fun hopen => by cases hopen⟩
        cases s with
        | true => exact hwords _ (by decide)
        | false => exact hwords _ (by decide)

/-- **An operand is intact**, and sealed unless it is an open control word. -/
theorem sealed_atom (hl : l ∈ builtin) (h : l.Worded e) (ha : e.isAtom = true) :
    Intact e.latex ∧ (e.isOpenWord = false → Sealed e.latex) := by
  have hboth : Sealed e.latex → Intact e.latex ∧ (e.isOpenWord = false → Sealed e.latex) :=
    fun hsealed => ⟨hsealed.intact, fun _ => hsealed⟩
  cases h with
  | number n => exact sealed_number n
  | boolean hk b =>
    refine hboth (sealed_of_separates ?_)
    cases b <;> decide
  | constant hname =>
    have hnames : ∀ name ∈ Expr.constantNames,
        (∀ w ∈ controlWords (latexConstant name).toList, String.ofList w ∈ knownWords) ∧
          ((Expr.constant name).isOpenWord = true ∨ separates (latexConstant name) = true ∨
            '\\' ∉ (latexConstant name).toList) := by
      decide
    obtain ⟨hwords, hend⟩ := hnames _ (hname.mem_constantNames hl)
    rw [latex_constant]
    refine ⟨hwords, fun hopen => ?_⟩
    rcases hend with hend | hend | hend
    · rw [hopen] at hend
      cases hend
    · exact sealed_of_separates hend
    · exact sealed_of_no_backslash hend
  | @identifier name hname =>
    refine hboth (sealed_of_no_backslash fun hmem => no_backslash_of_names hname ?_)
    rw [toList_latex_identifier] at hmem
    exact (List.dropWhile_sublist _).mem hmem
  | @literal a b hdigit hdigit' =>
    have hne : ∀ c, isDecimalDigit c = true → '\\' ≠ c := by
      rintro _ hc rfl
      revert hc
      decide
    refine hboth (sealed_of_no_backslash ?_)
    rw [toList_latex_literal]
    simp [hne a hdigit, hne b hdigit']
  | _ => cases ha

/-- **An operand starts with a letter** exactly if it is a variable or a constant that does. -/
theorem startsAsLetter_atom (hl : l ∈ builtin) (h : l.Worded e) (ha : e.isAtom = true) :
    e.latex.toList.head?.any isAsciiLetter = e.startsAsLetter := by
  cases h with
  | number n =>
    show n.latex.toList.head?.any isAsciiLetter = false
    cases hs : n.numeralSign? with
    | some s =>
      obtain ⟨cs, hcs, htext⟩ := Number.isNumeric_latex hs
      obtain ⟨c, hc, hdigit⟩ := hcs.head
      rw [htext]
      cases s with
      | true => rfl
      | false => simp [hc, isAsciiLetter_of_isDigit hdigit]
    | none =>
      rcases (Number.latex_of_numeralSign? hs).1 with hhead | hhead <;> rw [hhead] <;> rfl
  | boolean hk b => cases b <;> decide
  | constant hname =>
    have hnames : ∀ name ∈ Expr.constantNames,
        (latexConstant name).toList.head?.any isAsciiLetter
          = (Expr.constant name).startsAsLetter := by
      decide
    rw [latex_constant]
    exact hnames _ (hname.mem_constantNames hl)
  | @identifier name hname =>
    obtain ⟨c, us, htext, hc, -⟩ := hname.dropWhile_dollar hl
    rw [toList_latex_identifier, startsAsLetter, htext]
    rcases hc with hc | rfl
    · have hne : c ≠ '_' := by
        rintro rfl
        cases hc
      simp [hc, hne]
    · rfl
  | literal =>
    rw [toList_latex_literal]
    rfl
  | _ => cases ha

/-! ### Factors -/

/-- What has parts starts with no letter of its own. -/
theorem startsAsLetter_eq_false (h : e.isAtom = false) : e.startsAsLetter = false := by
  cases e <;> first | rfl | cases h

/-- **A right factor starts with a letter exactly if its leading operand does.** -/
theorem startsWithLetter_rightFactor (hl : l ∈ builtin) (h : l.Worded y) :
    y.rightFactor.toList.head?.any isAsciiLetter = y.startsWithLetter := by
  have hopening : ∀ c ∈ ['(', '\\'], isAsciiLetter c = false := forall_mem_of_all (by decide)
  rw [head?_rightFactor hopening hl h, startsWithLetter]
  cases hatom : y.leading.isAtom with
  | true => exact congrArg _ (startsAsLetter_atom hl (worded_leading h) hatom)
  | false => rw [startsAsLetter_eq_false hatom, Bool.false_and]

/-- A factor without brackets ends within no control word unless it ends with an operand. -/
theorem not_dangles_of_isAtom (hl : l ∈ builtin) (h : l.Worded e)
    (hb : e.needsBrackets .mul false = false) (hatom : e.trailing.isAtom = false) :
    ¬Dangles e.latex.toList := by
  obtain ⟨c, hc, hchar⟩ := (trailing_cases h hb).resolve_left (by simp [hatom])
  have hclosing : ∀ c ∈ [')', '\x7d', ' ', '!'], isAsciiLetter c = false ∧ c ≠ '\\' :=
    forall_mem_of_all (by decide)
  rw [← getLast?_latex hl h] at hchar
  exact not_dangles_of_getLast? hchar (hclosing c hc).1 (hclosing c hc).2

/-- Brackets end within no control word. -/
theorem not_dangles_bracketed (text : String) : ¬Dangles (bracketed true text).toList := by
  refine not_dangles_of_getLast? (c := ')') ?_ (by decide) (by decide)
  rw [toList_bracketed_true, ← List.cons_append, List.getLast?_concat]

/-- **Where a product does not glue its factors**, no letter follows a control word: the left factor
ends within none, or the right one starts with no letter. -/
theorem seam_of_glues (hl : l ∈ builtin) (hy : l.Worded y) (hsign : needsProductSign x y = false)
    (hglues : glues x y = false)
    (hx : x.needsBrackets .mul false = false → x.trailing.isOpenWord = false →
      ¬Dangles x.latex.toList) :
    ¬Dangles x.leftFactor.toList ∨ ∀ c ∈ y.rightFactor.toList.head?, isAsciiLetter c = false := by
  rw [glues, hsign, Bool.not_false, Bool.true_and, Bool.and_eq_false_iff] at hglues
  rcases hglues with hword | hletter
  · refine .inl ?_
    unfold leftFactor
    cases hb : x.needsBrackets .mul false with
    | true => exact not_dangles_bracketed _
    | false =>
      rw [endsInWord, hb] at hword
      exact hx hb hword
  · refine .inr fun c hc => ?_
    rw [← startsWithLetter_rightFactor hl hy, Option.any_eq_false] at hletter
    simpa using hletter c hc

/-- What is part of an expression without glued factors has none. -/
theorem glueFree_of_parts {p : Expr} (h : GlueFree e) (hp : ∀ q ∈ p.parts, q ∈ e.parts) :
    GlueFree p := fun a b hmem => h a b (hp _ hmem)

/-- The operands of an operation without glued factors have none. -/
theorem glueFree_operation {op : Operator} (h : GlueFree (operation op x y)) :
    GlueFree x ∧ GlueFree y ∧ (op = .mul → glues x y = false) := by
  refine ⟨glueFree_of_parts h fun q hq => ?_, glueFree_of_parts h fun q hq => ?_, ?_⟩
  · exact List.mem_cons_of_mem _ (List.mem_append_left _ hq)
  · exact List.mem_cons_of_mem _ (List.mem_append_right _ hq)
  · rintro rfl
    exact h x y List.mem_cons_self

/-- A product without brackets around its right factor ends within a control word only if that
factor does. -/
theorem not_dangles_product (hl : l ∈ builtin) (hy : l.Worded y) (hglues : glues x y = false)
    (hbrackets : y.needsBrackets .mul false = false)
    (hx : x.needsBrackets .mul false = false → x.trailing.isOpenWord = false →
      ¬Dangles x.latex.toList)
    (hclosed : ¬Dangles y.latex.toList) : ¬Dangles (operation .mul x y).latex.toList := by
  have hright : y.rightFactor = y.latex := by rw [rightFactor, hbrackets]; rfl
  have hseam : ¬Dangles (x.leftFactor ++ if needsProductSign x y then "\\cdot " else "").toList ∨
      ∀ c ∈ y.latex.toList.head?, isAsciiLetter c = false := by
    cases hsign : needsProductSign x y with
    | true =>
      refine .inl (not_dangles_of_getLast? (c := ' ') ?_ (by decide) (by decide))
      simp [List.getLast?_append]
    | false =>
      have hseam := seam_of_glues hl hy hsign hglues hx
      rw [hright] at hseam
      simpa using hseam
  intro hdangles
  rw [latex_product, hright, String.toList_append] at hdangles
  exact hclosed (hdangles.of_append (latex_ne_nil hl hy) hseam)

/-- A power with a short exponent ends within a control word only if the exponent does. -/
theorem not_dangles_power (hl : l ∈ builtin) (hy : l.Worded y)
    (hshort : y.isShortExponent y.latex = true) (hclosed : ¬Dangles y.latex.toList) :
    ¬Dangles (operation .pow x y).latex.toList := by
  intro hdangles
  rw [latex_pow, if_pos hshort, String.toList_append] at hdangles
  refine hclosed (hdangles.of_append (latex_ne_nil hl hy) (.inl ?_))
  refine not_dangles_of_getLast? (c := '^') ?_ (by decide) (by decide)
  simp [List.getLast?_append]

/-- **A factor ends within a control word only if its trailing operand is an open one.** -/
theorem not_dangles (hl : l ∈ builtin) (h : l.Worded e) (hfree : GlueFree e)
    (hb : e.needsBrackets .mul false = false) (hopen : e.trailing.isOpenWord = false) :
    ¬Dangles e.latex.toList := by
  induction h with
  | @operation op x y hop hn hx hy ihx ihy =>
    obtain ⟨hfreex, hfreey, hglues⟩ := glueFree_operation hfree
    cases hatom : (Expr.operation op x y).trailing.isAtom with
    | false => exact not_dangles_of_isAtom hl (.operation hop hn hx hy) hb hatom
    | true =>
      cases op with
      | mul =>
        rw [trailing] at hatom hopen
        split at hatom
        · cases hatom
        · rename_i hbrackets
          rw [if_neg hbrackets] at hopen
          rw [needsBrackets_mul, Bool.not_eq_true] at hbrackets
          exact not_dangles_product hl hy (hglues rfl) hbrackets (ihx hfreex)
            (ihy hfreey hbrackets hopen)
      | pow =>
        rw [trailing] at hatom hopen
        split at hatom
        · rename_i hshort
          rw [if_pos hshort] at hopen
          exact not_dangles_power hl hy hshort ((sealed_atom hl hy hatom).2 hopen).closed
        · cases hatom
      | _ => cases hatom
  | negated => cases hb
  | denied =>
    rw [needsBrackets_mul_of_level (by decide)] at hb
    cases hb
  | conditional => cases hb
  | factorial hname hk hx => exact not_dangles_of_isAtom hl (.factorial hname hk hx) hb rfl
  | application hname he hx => exact not_dangles_of_isAtom hl (.application hname he hx) hb rfl
  | ending hname hx hy => exact not_dangles_of_isAtom hl (.ending hname hx hy) hb rfl
  | number n => exact ((sealed_number n).2 hopen).closed
  | boolean hk b => exact ((sealed_atom hl (.boolean hk b) rfl).2 hopen).closed
  | constant hname => exact ((sealed_atom hl (.constant hname) rfl).2 hopen).closed
  | identifier hname => exact ((sealed_atom hl (.identifier hname) rfl).2 hopen).closed
  | literal ha hb' => exact ((sealed_atom hl (.literal ha hb') rfl).2 hopen).closed

/-! ## Intact expressions -/

/-- An application of a named function to intact arguments is intact. -/
theorem intact_latexCall {arguments : String} (hname : '\\' ∉ name.toList)
    (h : Intact arguments) : Intact (latexCall name arguments) := by
  have hframes : ∀ f ∈ callFrames, separates f.1 = true ∧ separates f.2 = true := by decide
  rcases latexCall_eq name arguments with ⟨f, hf, htext⟩ | htext
  · obtain ⟨hfront, hback⟩ := hframes f hf
    rw [htext]
    exact (((sealed_of_separates hfront).append h).closedBy hback).intact
  · have hopen : Sealed "\\operatorname\x7b" := sealed_of_separates (by decide)
    have hargument : Sealed ("\\operatorname\x7b" ++ name ++ "\x7d(") :=
      (hopen.append (sealed_of_no_backslash hname).intact).closedBy (by decide)
    rw [htext]
    exact ((hargument.append h).closedBy (by decide)).intact

/-- A product of intact factors is intact if no letter follows a control word directly. -/
theorem intact_product (hseam : needsProductSign x y = false →
      ¬Dangles x.leftFactor.toList ∨ ∀ c ∈ y.rightFactor.toList.head?, isAsciiLetter c = false)
    (hleft : Intact x.latex) (hright : Intact y.latex) : Intact (operation .mul x y).latex := by
  rw [latex_product]
  cases hsign : needsProductSign x y with
  | true => exact (hleft.bracketed.closedBy (by decide)).append hright.bracketed
  | false =>
    have hproduct : Intact (x.leftFactor ++ y.rightFactor) :=
      hleft.bracketed.append hright.bracketed (hseam hsign)
    simpa using hproduct

/-- Another operation of intact operands is intact. -/
theorem intact_operation {op : Operator} (hmul : op ≠ .mul) (hn : op ≠ .not)
    (hy : y.isHole = false) (hleft : Intact x.latex) (hright : Intact y.latex) :
    Intact (operation op x y).latex := by
  cases op with
  | mul => exact absurd rfl hmul
  | div =>
    have hfrac : Intact "\\frac" := by
      show ∀ w ∈ controlWords "\\frac".toList, String.ofList w ∈ knownWords
      decide
    rw [latex_div]
    exact ((hfrac.inBraces hleft).intact.inBraces hright).intact
  | pow =>
    have hbase : Sealed (bracketed (x.needsBrackets .pow true) x.latex ++ "^") :=
      hleft.bracketed.closedBy (by decide)
    rw [latex_pow]
    split
    · exact hbase.append hright
    · exact (hbase.intact.inBraces hright).intact
  | not => exact absurd rfl hn
  | _ =>
    rw [latex_operation hy hn nofun nofun nofun]
    exact (hleft.closedBy (by decide)).append hright.bracketed

/-- A conditional of intact parts is intact. -/
theorem intact_conditional {c : Expr} (hc : Intact c.latex) (hx : Intact x.latex)
    (hy : Intact y.latex) : Intact (conditional c x y).latex := by
  have hbegin : Sealed "\\begin\x7bcases\x7d " := sealed_of_separates (by decide)
  rw [latex_conditional]
  exact ((((((hbegin.append hx).closedBy (by decide)).append hc).closedBy (by decide)).append
    hy).closedBy (by decide)).intact

/-- **An expression without glued factors is intact.** -/
theorem intact_of_glueFree (hl : l ∈ builtin) (h : l.Worded e) (hfree : GlueFree e) :
    Intact e.latex := by
  induction h with
  | @operation op x y hop hn hx hy ihx ihy =>
    obtain ⟨hfreex, hfreey, hglues⟩ := glueFree_operation hfree
    have hleft := ihx hfreex
    have hright := ihy hfreey
    by_cases hmul : op = .mul
    · obtain rfl := hmul
      exact intact_product (fun hsign => seam_of_glues hl hy hsign (hglues rfl)
        (not_dangles hl hx hfreex)) hleft hright
    · exact intact_operation hmul hn hy.isHole_eq_false hleft hright
  | negated hop hx ih =>
    have hminus : Sealed "-" := sealed_of_separates (by decide)
    exact hminus.append (ih (glueFree_operation hfree).1).bracketed
  | denied hop hx ih =>
    have hdenial : Sealed "\\neg (" := sealed_of_separates (by decide)
    exact ((hdenial.append (ih (glueFree_operation hfree).1)).closedBy (by decide)).intact
  | @conditional c x y hk hc hx hy ihc ihx ihy =>
    have hpart : ∀ q ∈ c.parts ++ x.parts ++ y.parts, q ∈ (Expr.conditional c x y).parts :=
      fun q hq => List.mem_cons_of_mem _ hq
    exact intact_conditional
      (ihc (glueFree_of_parts hfree fun q hq =>
        hpart q (List.mem_append_left _ (List.mem_append_left _ hq))))
      (ihx (glueFree_of_parts hfree fun q hq =>
        hpart q (List.mem_append_left _ (List.mem_append_right _ hq))))
      (ihy (glueFree_of_parts hfree fun q hq => hpart q (List.mem_append_right _ hq)))
  | factorial hname hk hx ih =>
    have hoperand := ih (glueFree_of_parts hfree fun q hq => List.mem_cons_of_mem _ hq)
    rw [latex_marked hname]
    rcases hname with rfl | rfl
    · exact (hoperand.bracketed.closedBy (by decide)).intact
    · exact (hoperand.bracketed.closedBy (by decide)).intact
  | application hname he hx ih =>
    rw [latex_call hname.not_mark]
    exact intact_latexCall (no_backslash_of_names hname)
      (ih (glueFree_of_parts hfree fun q hq => List.mem_cons_of_mem _ hq))
  | @ending x y hname hx hy ihx ihy =>
    have hprice := ihx (glueFree_of_parts hfree fun q hq =>
      List.mem_cons_of_mem _ (List.mem_append_left _ hq))
    have htail := ihy (glueFree_of_parts hfree fun q hq =>
      List.mem_cons_of_mem _ (List.mem_append_right _ hq))
    rw [latex_ending]
    exact intact_latexCall (no_backslash_of_names hname)
      ((hprice.closedBy (by decide)).append htail)
  | number n => exact (sealed_number n).1
  | boolean hk b => exact (sealed_atom hl (.boolean hk b) rfl).1
  | constant hname => exact (sealed_atom hl (.constant hname) rfl).1
  | identifier hname => exact (sealed_atom hl (.identifier hname) rfl).1
  | literal ha hb => exact (sealed_atom hl (.literal ha hb) rfl).1

/-! ## Glued factors -/

/-- An open control word at the end of an operand. -/
theorem exists_openWord (h : e.isOpenWord = true) :
    ∃ us, ∃ w ∈ openWords, e.latex.toList = us ++ '\\' :: w := by
  unfold isOpenWord at h
  split at h
  · rename_i name
    rw [Bool.or_eq_true, beq_iff_eq, beq_iff_eq] at h
    rcases h with rfl | rfl
    · exact ⟨[], "pi".toList, by decide, rfl⟩
    · exact ⟨[], "infty".toList, by decide, rfl⟩
  · rename_i s
    cases s with
    | true => exact ⟨['-'], "infty".toList, by decide, rfl⟩
    | false => exact ⟨[], "infty".toList, by decide, rfl⟩
  · cases h

/-- **Glued factors spoil a control word.** -/
theorem spoiled_of_glues (hl : l ∈ builtin) (hy : l.Worded y) (h : glues x y = true) :
    Spoiled (operation .mul x y).latex.toList := by
  simp only [glues, endsInWord, Bool.and_eq_true, Bool.not_eq_true'] at h
  obtain ⟨hsign, ⟨hb, hopen⟩, hletter⟩ := h
  obtain ⟨us, w, hw, hword⟩ := exists_openWord hopen
  obtain ⟨ps, hps⟩ := x.latex_trailing_suffix
  rw [← startsWithLetter_rightFactor hl hy, Option.any_eq_true] at hletter
  obtain ⟨c, hfirst, hc⟩ := hletter
  obtain ⟨vs, hvs⟩ := List.head?_eq_some_iff.1 hfirst
  have hleft : x.leftFactor = x.latex := by rw [leftFactor, hb]; rfl
  refine ⟨ps ++ us, w, c, vs, ?_, hw, hc⟩
  rw [latex_product, hsign, hleft]
  simp [hvs, ← hps, hword]

/-- What is within the first of two texts is within both. -/
theorem infix_append_left {us : List Char} {s t : String} (h : us <:+: s.toList) :
    us <:+: (s ++ t).toList := by
  rw [String.toList_append]
  exact h.trans (List.prefix_append _ _).isInfix

/-- What is within the second of two texts is within both. -/
theorem infix_append_right {us : List Char} {s t : String} (h : us <:+: t.toList) :
    us <:+: (s ++ t).toList := by
  rw [String.toList_append]
  exact h.trans (List.suffix_append _ _).isInfix

/-- Brackets keep what is within a text. -/
theorem infix_bracketed {us : List Char} {needed : Bool} {text : String}
    (h : us <:+: text.toList) : us <:+: (bracketed needed text).toList := by
  cases needed with
  | true => exact infix_append_left (infix_append_right h)
  | false => exact h

/-- The arguments are within an application. -/
theorem infix_latexCall {us : List Char} {arguments : String} (h : us <:+: arguments.toList) :
    us <:+: (latexCall name arguments).toList := by
  rcases latexCall_eq name arguments with ⟨f, -, htext⟩ | htext
  · rw [htext]
    exact infix_append_left (infix_append_right h)
  · rw [htext]
    exact infix_append_left (infix_append_right h)

/-- The texts of the operands are within that of an operation. -/
theorem infix_operation {op : Operator} (hn : op ≠ .not) (hy : y.isHole = false) :
    x.latex.toList <:+: (operation op x y).latex.toList ∧
      y.latex.toList <:+: (operation op x y).latex.toList := by
  cases op with
  | mul =>
    rw [latex_mul]
    exact ⟨infix_append_left (infix_append_left (infix_bracketed List.infix_rfl)),
      infix_append_right (infix_bracketed List.infix_rfl)⟩
  | div =>
    rw [latex_div]
    exact ⟨infix_append_left (infix_append_right (infix_append_left (infix_append_right
        List.infix_rfl))),
      infix_append_right (infix_append_left (infix_append_right List.infix_rfl))⟩
  | pow =>
    rw [latex_pow]
    refine ⟨infix_append_left (infix_append_left (infix_bracketed List.infix_rfl)),
      infix_append_right ?_⟩
    split
    · exact List.infix_rfl
    · exact infix_append_left (infix_append_right List.infix_rfl)
  | not => exact absurd rfl hn
  | _ =>
    rw [latex_operation hy hn nofun nofun nofun]
    exact ⟨infix_append_left (infix_append_left List.infix_rfl),
      infix_append_right (infix_bracketed List.infix_rfl)⟩

/-- **The text of a part is within the text of the whole.** -/
theorem latex_infix_of_mem_parts (h : l.Worded e) :
    ∀ p ∈ e.parts, p.latex.toList <:+: e.latex.toList := by
  have hhole : ∀ us : List Char, ∀ p ∈ hole.parts, p.latex.toList <:+: us := by
    intro us p hp
    rw [List.mem_singleton.1 hp]
    exact List.nil_infix
  induction h with
  | operation hop hn hx hy ihx ihy =>
    obtain ⟨hleft, hright⟩ := infix_operation hn hy.isHole_eq_false
    exact List.forall_mem_cons.2 ⟨List.infix_rfl, List.forall_mem_append.2
      ⟨fun p hp => (ihx p hp).trans hleft, fun p hp => (ihy p hp).trans hright⟩⟩
  | negated hop hx ih =>
    refine List.forall_mem_cons.2 ⟨List.infix_rfl, List.forall_mem_append.2
      ⟨fun p hp => ?_, hhole _⟩⟩
    rw [latex_negated]
    exact infix_append_right (infix_bracketed (ih p hp))
  | denied hop hx ih =>
    refine List.forall_mem_cons.2 ⟨List.infix_rfl, List.forall_mem_append.2
      ⟨fun p hp => ?_, hhole _⟩⟩
    rw [latex_denied]
    exact infix_append_left (infix_append_right (ih p hp))
  | conditional hk hc hx hy ihc ihx ihy =>
    refine List.forall_mem_cons.2 ⟨List.infix_rfl, List.forall_mem_append.2
      ⟨List.forall_mem_append.2 ⟨fun p hp => ?_, fun p hp => ?_⟩, fun p hp => ?_⟩⟩
    · rw [latex_conditional]
      exact infix_append_left (infix_append_left (infix_append_left
        (infix_append_right (ihc p hp))))
    · rw [latex_conditional]
      exact infix_append_left (infix_append_left (infix_append_left (infix_append_left
        (infix_append_left (infix_append_right (ihx p hp))))))
    · rw [latex_conditional]
      exact infix_append_left (infix_append_right (ihy p hp))
  | factorial hname hk hx ih =>
    refine List.forall_mem_cons.2 ⟨List.infix_rfl, fun p hp => ?_⟩
    rw [latex_marked hname]
    exact infix_append_left (infix_bracketed (ih p hp))
  | application hname he hx ih =>
    refine List.forall_mem_cons.2 ⟨List.infix_rfl, fun p hp => ?_⟩
    rw [latex_call hname.not_mark]
    exact infix_latexCall (ih p hp)
  | ending hname hx hy ihx ihy =>
    refine List.forall_mem_cons.2 ⟨List.infix_rfl, List.forall_mem_append.2
      ⟨fun p hp => ?_, fun p hp => ?_⟩⟩
    · rw [latex_ending]
      exact infix_latexCall (infix_append_left (infix_append_left (ihx p hp)))
    · rw [latex_ending]
      exact infix_latexCall (infix_append_right (ihy p hp))
  | _ => exact List.forall_mem_singleton.2 List.infix_rfl

/-- **An intact expression has no glued factors.** -/
theorem glueFree_of_intact (hl : l ∈ builtin) (h : l.Worded e) (hintact : Intact e.latex) :
    GlueFree e := by
  intro x y hp
  rw [← Bool.not_eq_true]
  intro hglues
  have hspoiled := (spoiled_of_glues hl (worded_of_product h hp).2 hglues).of_part
    (latex_infix_of_mem_parts h _ hp)
  exact not_intact_of_spoiled hspoiled hintact

/-- **The LaTeX of an expression of a text consists of known control words exactly if no product
glues its factors.** The LaTeX is there. -/
theorem intact_of_parse (hl : l ∈ builtin) {o : Options} {source : String} {ts : List Token}
    (ht : l.tokenize source = .ok ts) (h : parse o ts = .ok e) :
    e.latex? = .ok e.latex ∧
      ((∀ w ∈ controlWords e.latex.toList, String.ofList w ∈ knownWords) ↔
        ∀ x y, operation .mul x y ∈ e.parts → glues x y = false) := by
  have hworded := worded_of_parse hl ht h
  exact ⟨(complete_of_parse h).latex?, glueFree_of_intact hl hworded,
    intact_of_glueFree hl hworded⟩

/-- In front of a sum, pi is followed by no letter. -/
theorem intact_of_parse_sum :
    let o : Options := ⟨true, false, false⟩
    let e : Expr := operation .add (operation .mul (identifier "x") (Expr.constant "pi"))
      (identifier "y")
    ∃ ts, standard.tokenize "x*pi+y" = .ok ts ∧ parse o ts = .ok e ∧
      e.latex? = .ok "x\\pi+y" ∧
        ∀ w ∈ controlWords e.latex.toList, String.ofList w ∈ knownWords := by
  intro o e
  obtain ⟨ts, hts⟩ : ∃ ts, ts = (standard.tokenize "x*pi+y").toOption.getD [] := ⟨_, rfl⟩
  have htokens : standard.tokenize "x*pi+y" = .ok ts := by
    rw [hts]
    decide +kernel
  have hparse : parse o ts = .ok e := by
    rw [hts]
    decide +kernel
  obtain ⟨hlatex, hintact⟩ := intact_of_parse (by decide) htokens hparse
  refine ⟨ts, htokens, hparse, by rw [hlatex]; decide +kernel, hintact.2 fun a b hp => ?_⟩
  simp only [e, parts, List.cons_append, List.nil_append, List.mem_cons, operation.injEq,
    reduceCtorEq, false_and, or_false, false_or, true_and, List.not_mem_nil] at hp
  obtain ⟨rfl, rfl⟩ := hp
  decide

/-- **In front of a letter, the control words of pi and of infinity are spoiled.** -/
theorem controlWords_pi :
    let o : Options := ⟨true, false, false⟩
    let x : Expr := identifier "x"
    (standard.tokenize "pi*x").bind (parse o) = .ok (operation .mul (Expr.constant "pi") x) ∧
      (operation .mul (Expr.constant "pi") x).latex? = .ok "\\pix" ∧
      controlWords "\\pix".toList = ["pix".toList] ∧ "pix" ∉ knownWords ∧
      (standard.tokenize "INF*x").bind (parse o) = .ok (operation .mul (Expr.constant "INF") x) ∧
      (operation .mul (Expr.constant "INF") x).latex? = .ok "\\inftyx" ∧
      controlWords "\\inftyx".toList = ["inftyx".toList] ∧ "inftyx" ∉ knownWords := by
  decide +kernel

end Lexicon

end Formula
