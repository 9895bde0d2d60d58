/-
# Spellings of conditionals

A conditional is written with keywords, with blocks in braces, or as a list in parentheses. **All
spellings are parsed as the same conditional** (`parse_of_spelled`), for all token lists of its
parts that are expressions on their own; the parts may hold conditionals, blocks and lists of
arguments themselves. A chain of `else if` is parsed as the blocks nested in each other.
-/
import Formula.Proofs.Locality
import Formula.Proofs.Simplification
import Formula.Proofs.Simplified

namespace Formula

open Grammar

/-! ## Preparing longer token lists -/

/-- What is inserted behind a token in front of a list, when the list does not multiply with what
comes before it. -/
theorem insertProductsAfter_append {us vs : List Token} : ∀ {t : Token},
    (∀ v ∈ vs.head?, v.kind.startsFactor = false) →
      insertProductsAfter t (us ++ vs) = insertProductsAfter t us ++ insertProducts vs := by
  induction us with
  | nil =>
    intro t h
    cases vs with
    | nil => rfl
    | cons v vs =>
      have hv := Apart.multiplies_of_startsFactor (t := t) (h v rfl)
      show insertProductsAfter t (v :: vs) = insertProducts (v :: vs)
      rw [insertProductsAfter, hv, if_neg Bool.false_ne_true]
      rfl
  | cons u us ih =>
    intro t h
    rw [List.cons_append, insertProductsAfter, insertProductsAfter, ih h]
    split <;> rfl

/-- Implicit products of two lists, when the second starts no factor. -/
theorem insertProducts_append {us vs : List Token}
    (h : ∀ v ∈ vs.head?, v.kind.startsFactor = false) :
    insertProducts (us ++ vs) = insertProducts us ++ insertProducts vs := by
  cases us with
  | nil => rfl
  | cons u us =>
    rw [List.cons_append, insertProducts, insertProductsAfter_append h]
    rfl

/-- Implicit products behind a token that ends no factor. -/
theorem insertProducts_cons {t : Token} {us : List Token} (h : t.kind.endsFactor = false) :
    insertProducts (t :: us) = t :: insertProducts us := by
  cases us with
  | nil => rfl
  | cons u us =>
    rw [insertProducts, insertProductsAfter, Apart.multiplies_of_endsFactor h,
      if_neg Bool.false_ne_true]
    rfl

/-- Implicit products change no brackets. -/
theorem closeBrackets_insertProducts (stack : List (Bracket × String)) (ts : List Token) :
    closeBrackets stack (insertProducts ts) = closeBrackets stack ts := by
  have hafter : ∀ (ts : List Token) (t : Token) (stack : List (Bracket × String)),
      closeBrackets stack (insertProductsAfter t ts) = closeBrackets stack ts := by
    intro ts
    induction ts with
    | nil => exact fun _ _ => rfl
    | cons u ts ih =>
      intro t stack
      have hu : closeBrackets stack (u :: insertProductsAfter u ts)
          = closeBrackets stack (u :: ts) := by
        cases stack <;> simp only [closeBrackets, ih]
      rw [insertProductsAfter]
      split
      · have hsign : ∀ us, closeBrackets stack (productSign u :: us) = closeBrackets stack us := by
          intro us
          cases stack <;> rfl
        rw [hsign, hu]
      · exact hu
  cases ts with
  | nil => rfl
  | cons t ts =>
    cases stack <;> simp only [insertProducts, closeBrackets, hafter]

namespace Parse

variable {o : Options} {us vs : List Token} {t : Token}

/-- Preparing a list in two parts, where the second one starts no factor. -/
theorem prepare_append (hb : t.kind ≠ .blank) (hs : t.kind.startsFactor = false) :
    prepare o (us ++ t :: vs) = prepare o us ++ prepare o (t :: vs) := by
  have hhead : ∀ v ∈ (dropBlanks (t :: vs)).head?, v.kind.startsFactor = false := by
    rw [dropBlanks_cons hb]
    rintro v ⟨⟩
    exact hs
  rw [prepare, prepare, prepare, dropBlanks_append, insertProducts_append hhead]
  split <;> rfl

/-- Preparing a list behind a token that ends no factor. -/
theorem prepare_cons (hb : t.kind ≠ .blank) (he : t.kind.endsFactor = false) :
    prepare o (t :: us) = t :: prepare o us := by
  rw [prepare, prepare, dropBlanks_cons hb, insertProducts_cons he]
  split <;> rfl

/-- Preparing an empty list. -/
@[simp] theorem prepare_nil : prepare o [] = [] := by
  rw [prepare, dropBlanks_nil]
  exact ite_self _

/-- Blanks are dropped before anything else. -/
theorem prepare_dropBlanks (ts : List Token) : prepare o (dropBlanks ts) = prepare o ts := by
  rw [prepare, prepare, dropBlanks, dropBlanks, List.filter_filter]
  simp only [Bool.and_self]

end Parse

/-- **What derives an expression is parsed as it**, folded when the parse simplifies. -/
theorem parse_of_reads {o : Options} {ts : List Token} {e : Expr}
    (h : Reads false (.expression 0) (Parse.prepare o ts) [e] []) :
    parse o ts = if o.simplify then e.simplified else .ok e := by
  have hbrackets : checkBrackets (dropBlanks ts) = .ok () := by
    obtain ⟨ws, hws, hbalanced, -⟩ := h.consumes trivial
    rw [List.append_nil] at hws
    rw [← hbalanced.checkBrackets, ← hws, Parse.prepare]
    split
    · exact (closeBrackets_insertProducts [] (dropBlanks ts)).symm
    · rfl
  have hsome : (Parse.prepare o ts).all (·.kind == .terminator) = false := by
    obtain ⟨t, us, hts, ht, -⟩ := h.head
    rw [hts, List.all_cons, beq_false_of_ne ht, Bool.false_and]
  have hplain : parse { o with simplify := false } ts = .ok e :=
    parse_eq_ok_iff.2 ⟨hbrackets, hsome, [], h, rfl⟩
  obtain ⟨products, simplify, debug⟩ := o
  cases simplify with
  | false => exact hplain
  | true => exact parse_simplified hplain

/-! ## The spellings -/

namespace Grammar

/-- The words of conditionals. -/
def ifToken : Token := word .ifWord "if" "IF"

/-- The word in front of the first branch. -/
def thenToken : Token := word .thenWord "then" "THEN"

/-- The word between the branches. -/
def elseToken : Token := word .elseWord "else" "ELSE"

/-- The word in front of the value of a block. -/
def returnToken : Token := plainWord .returnWord "return"

/-- The separator of statements. -/
def semicolon : Token := plainWord .terminator ";"

/-- How a block is written: with some terminators, a `return` or none, and terminators behind. -/
structure BlockForm where
  before : Nat
  returns : Bool
  behind : Nat

namespace BlockForm

/-- The block that holds its value only. -/
def plain : BlockForm := ⟨0, false, 0⟩

/-- The block that returns its value. -/
def returning : BlockForm := ⟨0, true, 1⟩

/-- The tokens in front of the value of a block. -/
def opening (f : BlockForm) : List Token :=
  openWord .brace :: (List.replicate f.before semicolon ++ if f.returns then [returnToken] else [])

/-- The tokens behind the value of a block. -/
def closing (f : BlockForm) : List Token :=
  List.replicate f.behind semicolon ++ [closeWord .brace]

/-- The tokens of a block. -/
def tokens (f : BlockForm) (body : List Token) : List Token := f.opening ++ (body ++ f.closing)

end BlockForm

/-- The condition of a conditional in front of its branches. -/
def conditioned (c rest : List Token) : List Token :=
  ifToken :: openWord .paren :: (c ++ closeWord .paren :: rest)

/-- A spelling of conditionals. -/
inductive Spelling where
  /-- `IF (c) THEN t ELSE e` -/
  | keywords
  /-- `if (c) { t } else { e }`, with blocks of the given forms -/
  | blocks (yes no : BlockForm)
  /-- `IF(c; t; e)` -/
  | list

/-- **The tokens of a conditional** in a spelling. -/
def Spelling.tokens (σ : Spelling) (c t e : List Token) : List Token :=
  match σ with
  | keywords => conditioned c (thenToken :: (t ++ elseToken :: e))
  | blocks yes no => conditioned c (yes.tokens t ++ elseToken :: no.tokens e)
  | list => ifToken :: openWord .paren ::
      (c ++ semicolon :: (t ++ semicolon :: (e ++ [closeWord .paren])))

/-! ## Preparing spellings -/

section Prepare

variable {o : Options} {us vs : List Token}

/-- Whether a token is part of no factor and no blank. -/
def isSeparate (t : Token) : Bool :=
  t.kind != .blank && !t.kind.startsFactor && !t.kind.endsFactor

/-- Separate tokens are prepared as they are. -/
theorem prepare_separate {ws : List Token} (h : ∀ t ∈ ws, isSeparate t = true) :
    Parse.prepare o (ws ++ vs) = ws ++ Parse.prepare o vs := by
  induction ws with
  | nil => rfl
  | cons t ws ih =>
    have ht := h t List.mem_cons_self
    simp only [isSeparate, Bool.and_eq_true, bne_iff_ne, Bool.not_eq_true'] at ht
    rw [List.cons_append, Parse.prepare_cons ht.1.1 ht.2,
      ih fun u hu => h u (List.mem_cons_of_mem t hu), List.cons_append]

/-- Lists around separate tokens are prepared on their own. -/
theorem prepare_around {ws : List Token} (hne : ws ≠ []) (h : ∀ t ∈ ws, isSeparate t = true) :
    Parse.prepare o (us ++ (ws ++ vs)) = Parse.prepare o us ++ (ws ++ Parse.prepare o vs) := by
  obtain ⟨t, ws, rfl⟩ := List.exists_cons_of_ne_nil hne
  have ht := h t List.mem_cons_self
  simp only [isSeparate, Bool.and_eq_true, bne_iff_ne, Bool.not_eq_true'] at ht
  rw [List.cons_append, Parse.prepare_append ht.1.1 ht.1.2, ← List.cons_append,
    prepare_separate h]

/-- Lists around one separate token are prepared on their own. -/
theorem prepare_between {t : Token} (h : isSeparate t = true) :
    Parse.prepare o (us ++ t :: vs) = Parse.prepare o us ++ t :: Parse.prepare o vs :=
  prepare_around (List.cons_ne_nil t []) (List.forall_mem_singleton.2 h)

/-- The tokens around the value of a block are separate. -/
theorem isSeparate_of_block (f : BlockForm) :
    (∀ t ∈ f.opening, isSeparate t = true) ∧ ∀ t ∈ f.closing, isSeparate t = true := by
  have hsemicolons : ∀ n, ∀ t ∈ List.replicate n semicolon, isSeparate t = true := by
    intro n t ht
    rw [List.eq_of_mem_replicate ht]
    rfl
  constructor
  · intro t ht
    rcases List.mem_cons.1 ht with rfl | ht
    · rfl
    rcases List.mem_append.1 ht with ht | ht
    · exact hsemicolons _ t ht
    · split at ht
      · rw [List.mem_singleton.1 ht]
        rfl
      · cases ht
  · intro t ht
    rcases List.mem_append.1 ht with ht | ht
    · exact hsemicolons _ t ht
    · rw [List.mem_singleton.1 ht]
      rfl

/-- The value of a block is prepared on its own. -/
theorem prepare_block (f : BlockForm) (body : List Token) :
    Parse.prepare o (f.tokens body ++ vs)
      = f.tokens (Parse.prepare o body) ++ Parse.prepare o vs := by
  obtain ⟨hopening, hclosing⟩ := isSeparate_of_block f
  have hne : f.closing ≠ [] := List.append_ne_nil_of_right_ne_nil _ (List.cons_ne_nil _ _)
  rw [BlockForm.tokens, List.append_assoc, prepare_separate hopening, List.append_assoc,
    prepare_around hne hclosing, BlockForm.tokens]
  simp only [List.append_assoc]

/-- A block is prepared by its value. -/
theorem prepare_block_end (f : BlockForm) (body : List Token) :
    Parse.prepare o (f.tokens body) = f.tokens (Parse.prepare o body) := by
  have h : Parse.prepare o (f.tokens body ++ [])
      = f.tokens (Parse.prepare o body) ++ Parse.prepare o [] := prepare_block f body
  rwa [List.append_nil, Parse.prepare_nil, List.append_nil] at h

/-- The condition is prepared on its own. -/
theorem prepare_conditioned {t : Token} (c rest : List Token) (h : isSeparate t = true) :
    Parse.prepare o (conditioned c (t :: rest))
      = conditioned (Parse.prepare o c) (Parse.prepare o (t :: rest)) := by
  have hclose : Parse.prepare o (closeWord .paren :: t :: rest)
      = closeWord .paren :: Parse.prepare o (t :: rest) := by
    have hone : Parse.prepare o [closeWord .paren] = [closeWord .paren] := by
      rw [Parse.prepare]
      exact ite_self _
    have hrest : Parse.prepare o ([t] ++ rest) = [t] ++ Parse.prepare o rest :=
      prepare_separate (List.forall_mem_singleton.2 h)
    have hsplit : Parse.prepare o ([closeWord .paren] ++ t :: rest)
        = Parse.prepare o [closeWord .paren] ++ t :: Parse.prepare o rest := prepare_between h
    rw [hone] at hsplit
    rw [List.singleton_append] at hrest
    rw [hrest]
    exact hsplit
  rw [conditioned, Parse.prepare_cons (by decide) rfl, Parse.prepare_cons (by decide) rfl,
    Parse.prepare_append (by decide) rfl, hclose, conditioned]

/-- **The parts of a conditional are prepared on their own.** -/
theorem Spelling.prepare (σ : Spelling) (c t e : List Token) :
    Parse.prepare o (σ.tokens c t e)
      = σ.tokens (Parse.prepare o c) (Parse.prepare o t) (Parse.prepare o e) := by
  cases σ with
  | keywords =>
    rw [tokens, prepare_conditioned _ _ rfl, Parse.prepare_cons (by decide) rfl,
      prepare_between rfl, tokens]
  | blocks yes no =>
    have hcondition : Parse.prepare o (conditioned c (yes.tokens t ++ elseToken :: no.tokens e))
        = conditioned (Parse.prepare o c)
          (Parse.prepare o (yes.tokens t ++ elseToken :: no.tokens e)) :=
      prepare_conditioned _ _ rfl
    rw [tokens, hcondition, prepare_block, Parse.prepare_cons (by decide) rfl, prepare_block_end,
      tokens]
  | list =>
    have hend : Parse.prepare o (e ++ [closeWord .paren])
        = Parse.prepare o e ++ [closeWord .paren] := by
      rw [Parse.prepare_append (by decide) rfl]
      exact congrArg _ (ite_self _)
    rw [tokens, Parse.prepare_cons (by decide) rfl, Parse.prepare_cons (by decide) rfl,
      prepare_between rfl, prepare_between rfl, hend, tokens]

end Prepare

/-! ## Reading spellings -/

variable {s : Bool} {c t e : Expr} {cs ts es us : List Token}

/-- A token that is no operator and no factorial closes what comes before it. -/
theorem closes_cons {t : Token} (h : t.kind.binary? = none ∧ t.kind.isFactorial = false) :
    Closes (t :: us) := by
  rintro u ⟨⟩
  exact h

/-- Nothing behind closes what comes before. -/
theorem closes_nil : Closes [] := nofun

/-- An expression is read up to a token that closes it. -/
theorem Reads.before {u : Token} (h : Reads s (.expression 0) ts [t] [])
    (hu : u.kind.binary? = none ∧ u.kind.isFactorial = false) :
    Reads s (.expression 0) (ts ++ u :: us) [t] (u :: us) :=
  h.extend (closes_cons hu) trivial fun _ => rfl

/-- A conditional is an expression. -/
theorem Reads.of_alternatives {u : Token} (hu : u.kind = .ifWord)
    (h : Reads s .alternatives (u :: ts) [e] us) (hus : Closes us) :
    Reads s (.expression 0) (u :: ts) [e] us := by
  have hsign : startsAny isSign (u :: ts) = false := by rw [startsAny, hu]; rfl
  have hfactorial : startsAny Kind.isFactorial us = false := by
    cases us with
    | nil => rfl
    | cons v us => exact (hus v rfl).2
  have hstops : Stops 0 ([] ++ us) := stops_append trivial hus
  exact .expression (.unsigned hsign (.postfixed (.ifWord hu h) (.factorialsEnd hfactorial)))
    (.chainEnd hstops)

/-- A condition in parentheses is read up to the branches. -/
theorem Reads.condition {u : Token} (h : Reads s (.expression 0) cs [c] [])
    (hu : u.kind.binary? = none ∧ u.kind.isFactorial = false) (us : List Token) :
    Reads s (.expression 0) (openWord .paren :: (cs ++ closeWord .paren :: u :: us)) [c]
      (u :: us) := by
  have hinside : Reads s (.expression 0) (cs ++ closeWord .paren :: u :: us) [c]
      (closeWord .paren :: u :: us) := h.before ⟨rfl, rfl⟩
  exact .expression (.unsigned rfl (.postfixed (.paren rfl hinside rfl) (.factorialsEnd hu.2)))
    (.chainEnd (stops_of_binary? hu.1))

/-- Terminators in front are skipped. -/
theorem afterTerminators_replicate (n : Nat) (ws : List Token) :
    afterTerminators (List.replicate n semicolon ++ ws) = afterTerminators ws := by
  induction n with
  | zero => rfl
  | succ n ih =>
    rw [List.replicate_succ, List.cons_append]
    exact ih

/-- Behind its value, a block goes on with a token that closes the value. -/
theorem BlockForm.exists_closing (f : BlockForm) (us : List Token) :
    ∃ v ws, f.closing ++ us = v :: ws ∧ v.kind.binary? = none ∧ v.kind.isFactorial = false := by
  rw [closing]
  cases f.behind with
  | zero => exact ⟨closeWord .brace, us, rfl, rfl, rfl⟩
  | succ n => exact ⟨semicolon, _, rfl, rfl, rfl⟩

/-- What comes before the value of a block is skipped. -/
theorem BlockForm.skip_opening (f : BlockForm) {u : Token} (ht : u.kind ≠ .terminator)
    (hr : u.kind ≠ .returnWord) (ws : List Token) :
    Outcome.afterReturn (afterTerminators (f.opening.tail ++ u :: ws)) = u :: ws := by
  rw [opening, List.tail_cons, List.append_assoc, afterTerminators_replicate]
  cases f.returns with
  | true => rfl
  | false =>
    have hhead : afterTerminators (u :: ws) = u :: ws :=
      List.dropWhile_cons_of_neg (by simpa using ht)
    show Outcome.afterReturn (afterTerminators (u :: ws)) = _
    rw [hhead, Outcome.afterReturn, if_neg hr]

/-- **A block is read as its value.** -/
theorem Reads.block_tokens (f : BlockForm) (h : Reads s (.expression 0) ts [t] []) :
    Reads s .block (f.tokens ts ++ us) [t] us := by
  obtain ⟨u, vs, rfl, hterminator, hreturn, -⟩ := h.head
  obtain ⟨v, ws, hv, hvk⟩ := f.exists_closing us
  have hvalue : Reads s (.expression 0) (u :: vs ++ v :: ws) [t] (v :: ws) := h.before hvk
  have hbehind : afterTerminators (v :: ws) = closeWord .brace :: us := by
    rw [← hv, BlockForm.closing, List.append_assoc, afterTerminators_replicate]
    rfl
  have hbody : Reads s (.expression 0) (Outcome.afterReturn (afterTerminators
      (f.opening.tail ++ u :: (vs ++ v :: ws)))) [t] (v :: ws) := by
    rw [f.skip_opening hterminator hreturn]
    exact hvalue
  have htokens : f.tokens (u :: vs) ++ us
      = openWord .brace :: (f.opening.tail ++ u :: (vs ++ v :: ws)) := by
    rw [← hv]
    simp [BlockForm.tokens, BlockForm.opening]
  rw [htokens]
  exact .block rfl hbody hbehind rfl

/-- A block at the end is read as its value. -/
theorem Reads.block_end (f : BlockForm) (h : Reads s (.expression 0) ts [t] []) :
    Reads s .block (f.tokens ts) [t] [] := by
  have hblock : Reads s .block (f.tokens ts ++ []) [t] [] := h.block_tokens f
  rwa [List.append_nil] at hblock

/-- A condition in parentheses is no list of arguments, and one with a separator behind it is. -/
theorem Reads.startsList_condition (h : Reads s (.expression 0) cs [c] []) (us : List Token) :
    startsList (openWord .paren :: (cs ++ closeWord .paren :: us)) = false ∧
      startsList (openWord .paren :: (cs ++ semicolon :: us)) = true := by
  obtain ⟨ws, hws, -, hquiet⟩ := h.consumes trivial
  rw [List.append_nil] at hws
  rw [startsList, startsList, hws, hquiet 1 (Nat.le_refl 1), hquiet 1 (Nat.le_refl 1)]
  exact ⟨rfl, rfl⟩

/-- **A conditional is read in every spelling.** -/
theorem Spelling.reads (σ : Spelling) (hc : Reads s (.expression 0) cs [c] [])
    (ht : Reads s (.expression 0) ts [t] []) (he : Reads s (.expression 0) es [e] []) :
    Reads s (.expression 0) (σ.tokens cs ts es) [select s c t e] [] := by
  have hend : ∀ {rest}, Reads s .alternatives (ifToken :: rest) [select s c t e] [] →
      Reads s (.expression 0) (ifToken :: rest) [select s c t e] [] :=
    fun h => .of_alternatives rfl h closes_nil
  cases σ with
  | keywords =>
    have hcondition := hc.condition (u := thenToken) ⟨rfl, rfl⟩ (ts ++ elseToken :: es)
    have hyes : Reads s (.expression 0) (ts ++ elseToken :: es) [t] (elseToken :: es) :=
      ht.before ⟨rfl, rfl⟩
    exact hend (.conditioned (hc.startsList_condition _).1 hcondition (.words rfl hyes rfl he))
  | blocks yes no =>
    have hcondition := hc.condition (u := openWord .brace) ⟨rfl, rfl⟩
      (yes.tokens ts ++ elseToken :: no.tokens es).tail
    have hyes : Reads s .block (yes.tokens ts ++ elseToken :: no.tokens es) [t]
        (elseToken :: no.tokens es) := ht.block_tokens yes
    exact hend (.conditioned (hc.startsList_condition _).1 hcondition
      (.blocks rfl hyes rfl rfl (he.block_end no)))
  | list =>
    have hyes : Reads s (.expression 0) (ts ++ semicolon :: (es ++ [closeWord .paren])) [t]
        (semicolon :: (es ++ [closeWord .paren])) := ht.before ⟨rfl, rfl⟩
    exact hend (.listed (hc.startsList_condition _).2 (.list rfl (hc.before ⟨rfl, rfl⟩) rfl hyes
      rfl (he.before ⟨rfl, rfl⟩) rfl))

/-! ## Chains of conditionals -/

/-- A condition with the block of its branch. -/
structure Branch where
  condition : List Token
  body : List Token
  form : BlockForm

namespace Branch

/-- A branch in front of what is written behind its `else`. -/
def before (b : Branch) (rest : List Token) : List Token :=
  conditioned b.condition (b.form.tokens b.body ++ elseToken :: rest)

/-- A branch with its parts prepared. -/
def prepared (o : Options) (b : Branch) : Branch :=
  { b with condition := Parse.prepare o b.condition, body := Parse.prepare o b.body }

/-- Whether the parts of a branch are read as two expressions. -/
structure ReadsAs (s : Bool) (b : Branch) (v : Expr × Expr) : Prop where
  condition : Reads s (.expression 0) b.condition [v.1] []
  body : Reads s (.expression 0) b.body [v.2] []

/-- The parts of a branch are prepared on their own. -/
theorem prepare_before {o : Options} (b : Branch) (rest : List Token) :
    Parse.prepare o (b.before rest) = (b.prepared o).before (Parse.prepare o rest) := by
  have hcondition : Parse.prepare o (b.before rest) = conditioned (Parse.prepare o b.condition)
      (Parse.prepare o (b.form.tokens b.body ++ elseToken :: rest)) := prepare_conditioned _ _ rfl
  rw [hcondition, prepare_block, Parse.prepare_cons (by decide) rfl]
  rfl

end Branch

/-- What is written behind the last `else` of a chain in front of which branches stand, each behind
the `else` of the one before. -/
def elseIfs (branches : List Branch) (last : List Token) : List Token :=
  branches.foldr Branch.before last

/-- The same with each branch in a block of its own. -/
def elseBlocks (f : BlockForm) (branches : List Branch) (last : List Token) : List Token :=
  branches.foldr (fun b rest => f.tokens (b.before rest)) last

/-- Whether an expression is read behind `else`, as a block or as another conditional. -/
def ReadsElse (s : Bool) (ts : List Token) (e : Expr) : Prop :=
  (startsWith .ifWord ts = true ∧ Reads s .alternatives ts [e] []) ∨
    (startsWith .ifWord ts = false ∧ Reads s .block ts [e] [])

/-- **A branch is read with what is read behind its `else`.** -/
theorem Branch.ReadsAs.before {b : Branch} {v : Expr × Expr} (hb : b.ReadsAs s v)
    (he : ReadsElse s es e) :
    Reads s .alternatives (b.before es) [select s v.1 v.2 e] [] := by
  obtain ⟨hc, ht⟩ := hb
  have hcondition := hc.condition (u := openWord .brace) ⟨rfl, rfl⟩
    (b.form.tokens b.body ++ elseToken :: es).tail
  have hyes : Reads s .block (b.form.tokens b.body ++ elseToken :: es) [v.2]
      (elseToken :: es) := ht.block_tokens b.form
  rcases he with ⟨hstart, he⟩ | ⟨hstart, he⟩
  · exact .conditioned (hc.startsList_condition _).1 hcondition
      (.blockElseIf rfl hyes rfl hstart he)
  · exact .conditioned (hc.startsList_condition _).1 hcondition (.blocks rfl hyes rfl hstart he)

/-- The expression of a chain of branches. -/
def chainExpr (s : Bool) (vs : List (Expr × Expr)) (e : Expr) : Expr :=
  vs.foldr (fun v rest => select s v.1 v.2 rest) e

/-- **A chain is read branch by branch**, each behind the `else` of the one before. -/
theorem reads_elseIfs {bs : List Branch} {vs : List (Expr × Expr)}
    (h : List.Forall₂ (Branch.ReadsAs s) bs vs) (he : ReadsElse s es e) :
    ReadsElse s (elseIfs bs es) (chainExpr s vs e) := by
  induction h with
  | nil => exact he
  | cons hb _ ih => exact Or.inl ⟨rfl, hb.before ih⟩

/-- **A chain is read block by block**, each inside the block behind the `else` before it. -/
theorem reads_elseBlocks (f : BlockForm) {bs : List Branch} {vs : List (Expr × Expr)}
    (h : List.Forall₂ (Branch.ReadsAs s) bs vs) (he : ReadsElse s es e) :
    ReadsElse s (elseBlocks f bs es) (chainExpr s vs e) := by
  induction h with
  | nil => exact he
  | cons hb _ ih =>
    have hinside := Reads.of_alternatives (u := ifToken) rfl (hb.before ih) closes_nil
    exact Or.inr ⟨rfl, hinside.block_end f⟩

end Grammar

/-! ## Parsing spellings -/

variable {o : Options} {cs ts es ws : List Token}

/-- Whether a token list is an expression on its own: the reader of expressions takes all of it. -/
def IsExpression (o : Options) (ts : List Token) : Prop :=
  ∃ s e, (Grammar.expression s [] 0 (Parse.prepare o ts)).result = .ok (e, [])

/-- Whether a token list is the plain text of an expression, up to its end. -/
def IsTextOf (o : Options) (ts : List Token) (e : Expr) : Prop :=
  (Grammar.expression false [] 0 (Parse.prepare o ts)).result = .ok (e, [])

/-- Whether the parts of a branch are the plain texts of two expressions. -/
structure Grammar.Branch.IsTextOf (o : Options) (b : Branch) (v : Expr × Expr) : Prop where
  condition : Formula.IsTextOf o b.condition v.1
  body : Formula.IsTextOf o b.body v.2

/-- An expression on its own is the plain text of one. -/
theorem IsExpression.exists_isTextOf (h : IsExpression o ts) : ∃ e, IsTextOf o ts e := by
  obtain ⟨s, e, he⟩ := h
  cases s with
  | false => exact ⟨e, he⟩
  | true =>
    -- beside a simplified derivation there is a plain one
    obtain ⟨e', he', -⟩ := ((result_expression_eq_ok.1 he).mirrored (s := .standard [])).one rfl
    exact ⟨e', result_expression_eq_ok.2 he'⟩

/-- Whether a token list consists of some words, up to blanks and the way in which the words are
spelled. -/
def Writes (ts ws : List Token) : Prop := Respelled (dropBlanks ws) (dropBlanks ts)

/-- **What writes the words of an expression is parsed as it.** -/
theorem parse_of_writes {e : Expr} (h : Writes ts ws)
    (hr : Reads false (.expression 0) (Parse.prepare o ws) [e] []) :
    parse o ts = if o.simplify then e.simplified else .ok e := by
  have hprepare : Respelled (Parse.prepare o ws) (Parse.prepare o ts) := by
    have hdropped := Respelled.prepare h o
    rwa [Parse.prepare_dropBlanks, Parse.prepare_dropBlanks] at hdropped
  obtain ⟨rest, hrest, hnil⟩ := hr.respelled hprepare
  obtain rfl := List.forall₂_nil_left_iff.1 hnil
  exact parse_of_reads hrest

/-- The branches of a chain are texts of expressions when their parts are. -/
theorem exists_values {bs : List Branch}
    (h : ∀ b ∈ bs, IsExpression o b.condition ∧ IsExpression o b.body) :
    ∃ vs, List.Forall₂ (Branch.IsTextOf o) bs vs := by
  induction bs with
  | nil => exact ⟨[], .nil⟩
  | cons b bs ih =>
    obtain ⟨⟨hc, ht⟩, hbs⟩ := List.forall_mem_cons.1 h
    obtain ⟨c, hc⟩ := hc.exists_isTextOf
    obtain ⟨t, ht⟩ := ht.exists_isTextOf
    obtain ⟨vs, hvs⟩ := ih hbs
    exact ⟨(c, t) :: vs, .cons ⟨hc, ht⟩ hvs⟩

/-- Prepared branches are read as what their parts are texts of. -/
theorem reads_prepared {bs : List Branch} {vs : List (Expr × Expr)}
    (h : List.Forall₂ (Branch.IsTextOf o) bs vs) :
    List.Forall₂ (Branch.ReadsAs false) (bs.map (·.prepared o)) vs := by
  induction h with
  | nil => exact .nil
  | cons hb _ ih =>
    exact .cons ⟨result_expression_eq_ok.1 hb.condition, result_expression_eq_ok.1 hb.body⟩ ih

/-- A chain is prepared part by part. -/
theorem prepare_elseIfs (bs : List Branch) (last : List Token) :
    Parse.prepare o (elseIfs bs last)
      = elseIfs (bs.map (·.prepared o)) (Parse.prepare o last) := by
  induction bs with
  | nil => rfl
  | cons b bs ih =>
    show Parse.prepare o (b.before (elseIfs bs last)) = _
    rw [Branch.prepare_before, ih]
    rfl

/-- Nested blocks are prepared part by part. -/
theorem prepare_elseBlocks (f : BlockForm) (bs : List Branch) (last : List Token) :
    Parse.prepare o (elseBlocks f bs last)
      = elseBlocks f (bs.map (·.prepared o)) (Parse.prepare o last) := by
  induction bs with
  | nil => rfl
  | cons b bs ih =>
    show Parse.prepare o (f.tokens (b.before (elseBlocks f bs last))) = _
    rw [prepare_block_end, Branch.prepare_before, ih]
    rfl

/-- **All spellings of a conditional mean the same.** Of token lists that are expressions on their
own, every spelling is parsed as the same conditional, with any options: as the plain one, or as
what simplification makes of it, an expression or an error. And a chain of `else if` is parsed as
the conditionals in blocks nested behind each `else`. -/
theorem parse_of_spelled (o : Options) :
    (∀ cs ts es, IsExpression o cs → IsExpression o ts → IsExpression o es →
      ∃ c t e, IsTextOf o cs c ∧ IsTextOf o ts t ∧ IsTextOf o es e ∧
        ∀ (σ : Spelling) (ws : List Token), Writes ws (σ.tokens cs ts es) →
          parse o ws = if o.simplify then (Expr.conditional c t e).simplified
            else .ok (.conditional c t e)) ∧
    (∀ (b : Branch) (bs : List Branch) (es : List Token) (f g : BlockForm),
      (∀ d ∈ b :: bs, IsExpression o d.condition ∧ IsExpression o d.body) → IsExpression o es →
      ∃ vs e, List.Forall₂ (Branch.IsTextOf o) (b :: bs) vs ∧ IsTextOf o es e ∧
        let whole := vs.foldr (fun v rest => Expr.conditional v.1 v.2 rest) e
        ∀ ws, Writes ws (b.before (elseIfs bs (f.tokens es))) ∨
            Writes ws (b.before (elseBlocks g bs (f.tokens es))) →
          parse o ws = if o.simplify then whole.simplified else .ok whole) := by
  constructor
  · intro cs ts es hc ht he
    obtain ⟨c, hc⟩ := hc.exists_isTextOf
    obtain ⟨t, ht⟩ := ht.exists_isTextOf
    obtain ⟨e, he⟩ := he.exists_isTextOf
    refine ⟨c, t, e, hc, ht, he, fun σ ws hws => parse_of_writes hws ?_⟩
    rw [σ.prepare]
    exact σ.reads (result_expression_eq_ok.1 hc) (result_expression_eq_ok.1 ht)
      (result_expression_eq_ok.1 he)
  · intro b bs es f g hbs he
    obtain ⟨vs, hvs⟩ := exists_values hbs
    obtain ⟨e, he⟩ := he.exists_isTextOf
    refine ⟨vs, e, hvs, he, ?_⟩
    intro whole ws hws
    have hlast : ReadsElse false (f.tokens (Parse.prepare o es)) e :=
      Or.inr ⟨rfl, (result_expression_eq_ok.1 he).block_end f⟩
    cases reads_prepared hvs with | cons hb hrest =>
    have hread : ∀ {rest e'}, ReadsElse false rest e' →
        Reads false (.expression 0) ((b.prepared o).before rest) [.conditional _ _ e'] [] :=
      fun h => .of_alternatives (u := ifToken) rfl (hb.before h) closes_nil
    rcases hws with hws | hws
    · refine parse_of_writes hws ?_
      rw [Branch.prepare_before, prepare_elseIfs, prepare_block_end]
      exact hread (reads_elseIfs hrest hlast)
    · refine parse_of_writes hws ?_
      rw [Branch.prepare_before, prepare_elseBlocks, prepare_block_end]
      exact hread (reads_elseBlocks g hrest hlast)

/-- Every token list writes its own words. -/
theorem writes_self (ws : List Token) : Writes ws ws :=
  List.forall₂_same.2 fun _ _ => ⟨rfl, rfl⟩

/-- A conditional with an implicit product and another conditional in its branches, in four
spellings, and a chain of three branches. -/
theorem parse_of_spelled_nested :
    let c := [plainWord .identifier "x", operatorWord .gt, plainWord .natural "0"]
    let t := [plainWord .natural "2", plainWord .identifier "x"]
    let e := [ifToken, openWord .paren, plainWord .identifier "y", semicolon,
      plainWord .natural "1", semicolon, plainWord .natural "3", closeWord .paren]
    let b : Branch := ⟨c, t, .returning⟩
    parse {} (Spelling.keywords.tokens c t e) = parse {} (Spelling.list.tokens c t e) ∧
      parse {} ((Spelling.blocks .returning .returning).tokens c t e)
        = parse {} ((Spelling.blocks .plain .plain).tokens c t e) ∧
      parse {} (Spelling.keywords.tokens c t e)
        = parse {} ((Spelling.blocks .plain .plain).tokens c t e) ∧
      parse {} (b.before (elseIfs [b, b] (BlockForm.plain.tokens e)))
        = parse {} (b.before (elseBlocks .plain [b, b] (BlockForm.plain.tokens e))) := by
  intro c t e b
  have hc : IsExpression {} c :=
    ⟨false, .operation .gt (.identifier "x") (.integer 0), by cbv⟩
  have ht : IsExpression {} t :=
    ⟨false, .operation .mul (.integer 2) (.identifier "x"), by cbv⟩
  have he : IsExpression {} e :=
    ⟨false, .conditional (.identifier "y") (.integer 1) (.integer 3), by cbv⟩
  obtain ⟨_, _, _, -, -, -, hparse⟩ := (parse_of_spelled {}).1 c t e hc ht he
  have hbranches : ∀ d ∈ [b, b, b], IsExpression {} d.condition ∧ IsExpression {} d.body := by
    intro d hd
    simp only [List.mem_cons, List.not_mem_nil, or_false, or_self] at hd
    subst hd
    exact ⟨hc, ht⟩
  obtain ⟨_, _, -, -, hchain⟩ := (parse_of_spelled {}).2 b [b, b] e .plain .plain hbranches he
  refine ⟨?_, ?_, ?_, ?_⟩
  · rw [hparse .keywords _ (writes_self _), hparse .list _ (writes_self _)]
  · rw [hparse (.blocks .returning .returning) _ (writes_self _),
      hparse (.blocks .plain .plain) _ (writes_self _)]
  · rw [hparse .keywords _ (writes_self _), hparse (.blocks .plain .plain) _ (writes_self _)]
  · rw [hchain _ (Or.inl (writes_self _)), hchain _ (Or.inr (writes_self _))]

end Formula
