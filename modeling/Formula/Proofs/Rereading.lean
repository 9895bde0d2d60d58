/-
# Rereading printed expressions

The words of a printed expression can be read (`written_layout`), and **what is read from the plain
text is the reading of its layout** (`reread_eq_regrouped`): the expression itself where the layout
fits.
-/
import Formula.Proofs.Printing
import Formula.Proofs.Tidy

namespace Formula

open Grammar

/-! ## Reading the words -/

/-- Blanks are dropped from both parts of a list. -/
@[simp] theorem dropBlanks_append (us vs : List Token) :
    dropBlanks (us ++ vs) = dropBlanks us ++ dropBlanks vs := List.filter_append us vs

/-- A word that is no blank stays. -/
theorem dropBlanks_cons {t : Token} (h : t.kind ≠ .blank) (us : List Token) :
    dropBlanks (t :: us) = t :: dropBlanks us := List.filter_cons_of_pos (by simpa using h)

/-- A space is dropped. -/
@[simp] theorem dropBlanks_space (us : List Token) :
    dropBlanks (space :: us) = dropBlanks us := rfl

/-- Without words, there is nothing to drop. -/
@[simp] theorem dropBlanks_nil : dropBlanks [] = [] := rfl

namespace Grammar

/-- An expression starts with a token that may start an operand. -/
theorem Reads.head {s : Bool} {least : Nat} {ts rest : List Token} {es : List Expr}
    (h : Reads s (.expression least) ts es rest) : ∃ t us, ts = t :: us ∧
      t.kind ≠ .terminator ∧ t.kind ≠ .returnWord ∧ t.kind ≠ .closing .paren := by
  cases h with | expression hu _ =>
  cases hu with
  | plus hk => exact ⟨_, _, rfl, by simp [hk]⟩
  | minus hk => exact ⟨_, _, rfl, by simp [hk]⟩
  | not hk => exact ⟨_, _, rfl, by simp [hk]⟩
  | unsigned _ hp =>
    cases hp with | postfixed hp _ =>
    cases hp with
    | @operand t _ _ ho =>
      refine ⟨_, _, rfl, ?_⟩
      unfold operand? at ho
      cases hk : t.kind <;> simp [hk] at ho ⊢
    | paren hk => exact ⟨_, _, rfl, by simp [hk]⟩
    | braces hk => exact ⟨_, _, rfl, by simp [hk]⟩
    | function hk => exact ⟨_, _, rfl, by simp [hk]⟩
    | ifWord hk => exact ⟨_, _, rfl, by simp [hk]⟩

namespace Layout

variable {p : Layout}

/-- **Without blanks, the words of a layout are its tokens.** -/
theorem Valid.dropBlanks_words (h : p.Valid) : dropBlanks p.words = p.tokens := by
  induction p with
  | unit ws e => rfl
  | signed σ t p ih =>
    obtain ⟨ht, hp⟩ := h
    rw [words, dropBlanks_cons (by simp [ht]), ih hp, tokens]
  | joined op t l r ihl ihr =>
    obtain ⟨ht, hl, hr⟩ := h
    have hk : t.kind ≠ .blank := by
      intro hk
      rw [hk] at ht
      cases ht
    have hs : dropBlanks (spaced op t) = [t] := by
      unfold spaced
      split <;> simp [dropBlanks_cons hk]
    rw [words, dropBlanks_append, dropBlanks_append, ihl hl, ihr hr, hs, tokens]
    simp

/-- Brackets put tokens around the tokens of a layout. -/
theorem Valid.dropBlanks_enclosed (h : p.Valid) (b : Bracket) :
    dropBlanks (p.enclosed b) = openWord b :: (p.tokens ++ [closeWord b]) := by
  rw [enclosed, dropBlanks_cons (by simp [openWord]), dropBlanks_append, h.dropBlanks_words,
    dropBlanks_cons (by simp [closeWord]), dropBlanks_nil]

/-- A spelled operand is read as itself. -/
@[simp] theorem reading_unit (ws : List Token) (e : Expr) : (unit ws e).reading = e := rfl

/-- Parentheses do not change what is read. -/
@[simp] theorem reading_bracketed (needed : Bool) (p : Layout) :
    (p.bracketed needed).reading = p.reading := by
  cases needed <;> rfl

/-- A layout is read up to a closing bracket. -/
theorem Valid.reads_closed (h : p.Valid) (b : Bracket) (ts : List Token) :
    Reads false (.expression 0) (p.tokens ++ closeWord b :: ts) [p.reading]
      (closeWord b :: ts) :=
  Layout.reads h rfl (stops_of_binary? rfl)

/-- A layout in parentheses is an operand. -/
theorem Valid.primary (h : p.Valid) (ts : List Token) :
    Reads false .primary (dropBlanks (p.enclosed .paren) ++ ts) [p.reading] ts := by
  rw [h.dropBlanks_enclosed, List.cons_append, List.append_assoc, List.singleton_append]
  exact .paren rfl (h.reads_closed .paren ts) rfl

/-- **A layout in parentheses spells what is read.** -/
theorem Valid.enclosed (h : p.Valid) :
    SpellsOperand (dropBlanks (p.enclosed .paren)) p.reading where
  unsigned := fun ts => by rw [h.dropBlanks_enclosed]; rfl
  reads := fun hf => .postfixed (h.primary _) (.factorialsEnd hf)

/-- Parentheses keep a layout valid. -/
theorem Valid.bracketed (h : p.Valid) (needed : Bool) : (p.bracketed needed).Valid := by
  cases needed with
  | false => exact h
  | true => exact h.enclosed

/-- A layout in braces is a block. -/
theorem Valid.block (h : p.Valid) (ts : List Token) :
    Reads false .block (dropBlanks (p.enclosed .brace) ++ ts) [p.reading] ts := by
  have hr : Reads false (.expression 0) (p.tokens ++ closeWord .brace :: ts) [p.reading]
      (closeWord .brace :: ts) := h.reads_closed .brace ts
  obtain ⟨t, us, hus, ht, hreturn, _⟩ := hr.head
  -- nothing is skipped, since an expression starts with no terminator and no return
  have hskip : Outcome.afterReturn (afterTerminators (p.tokens ++ closeWord .brace :: ts))
      = p.tokens ++ closeWord .brace :: ts := by
    rw [hus, afterTerminators, List.dropWhile_cons_of_neg (by simpa using ht),
      Outcome.afterReturn, if_neg hreturn]
  rw [h.dropBlanks_enclosed, List.cons_append, List.append_assoc, List.singleton_append]
  rw [← hskip] at hr
  exact .block rfl hr rfl rfl

end Layout

/-! ## Written layouts -/

namespace Layout

/-- Whether a layout can be read inside brackets. -/
structure Written (p : Layout) : Prop where
  valid : p.Valid
  tidy : Tidy 1 p.tokens

namespace Written

variable {p : Layout}

/-- Brackets keep a layout tidy. -/
theorem tidy_enclosed (h : p.Written) (b : Bracket) : Tidy 1 (dropBlanks (p.enclosed b)) := by
  rw [h.valid.dropBlanks_enclosed]
  exact .wrap rfl rfl (h.tidy.mono (by decide))

/-- Parentheses keep a layout written. -/
theorem bracketed (h : p.Written) (needed : Bool) : (p.bracketed needed).Written := by
  refine ⟨h.valid.bracketed needed, ?_⟩
  cases needed with
  | false => exact h.tidy
  | true => exact h.tidy_enclosed .paren

/-- A word that stands for an operand is written. -/
theorem of_operand? {t : Token} {e : Expr} (h : operand? t = some e) :
    (unit [t] e).Written := by
  obtain ⟨_, hterminator, hbracket⟩ := plain_of_operand? h
  have hd := dropBlanks_operand h
  refine ⟨?_, ?_⟩
  · rw [Valid, hd]
    exact spellsOperand_of_operand? h
  · rw [tokens, hd]
    exact .single hbracket fun hk => absurd hk hterminator

/-- An operator between written layouts is written, however it is spelled. -/
theorem joined {op : Operator} {t : Token} {l r : Layout} (hn : op ≠ .not)
    (ht : t.kind = .operator op) (hl : l.Written) (hr : r.Written) :
    (joined op t l r).Written := by
  have hk : t.kind.binary? = some op := by
    rw [ht]
    cases op <;> first | rfl | exact absurd rfl hn
  have hfactor : t.kind.endsFactor = false ∧ t.kind.startsFactor = false := by
    rw [ht]
    exact ⟨rfl, rfl⟩
  refine ⟨⟨hk, hl.valid, hr.valid⟩, ?_⟩
  exact hl.tidy.join (.single (by simp [ht]) (by simp [ht])) hfactor.1 hfactor.2 hr.tidy

/-- A sign in front of a written layout is written. -/
theorem signed {σ : Sign} (h : p.Written) :
    (signed σ (operatorWord σ.operator) p).Written := by
  refine ⟨⟨rfl, h.valid⟩, ?_⟩
  exact .cons (.single (by simp [operatorWord]) (by simp [operatorWord])) rfl h.tidy

/-- A function of one argument is written. -/
theorem application {name : String} (hname : name ≠ Expr.endingName) (h : p.Written) :
    (unit (plainWord .function name :: p.enclosed .paren) (.call name p.reading)).Written := by
  have hf : dropBlanks (plainWord .function name :: p.enclosed .paren)
      = plainWord .function name :: openWord .paren :: (p.tokens ++ [closeWord .paren]) := by
    rw [dropBlanks_cons (by simp), h.valid.dropBlanks_enclosed]
  refine ⟨⟨fun ts => by rw [hf]; rfl, ?_⟩, ?_⟩
  · intro ts hts
    have hr := h.valid.reads_closed .paren ts
    obtain ⟨t, us, hus, _, _, hclose⟩ := hr.head
    -- an expression does not start with the parenthesis that would end an empty list
    have harguments : Reads false .arguments (p.tokens ++ closeWord .paren :: ts) [p.reading]
        (closeWord .paren :: ts) :=
      .someArguments (by rw [hus]; simpa [startsWith] using hclose) hr (.lastArgument rfl)
    rw [hf, List.cons_append, List.cons_append, List.append_assoc, List.singleton_append]
    refine .postfixed (.function rfl ?_) (.factorialsEnd hts)
    exact .application rfl harguments rfl (by simp [Expr.ofCall, hname])
  · rw [tokens, hf]
    have htidy := h.tidy_enclosed .paren
    rw [h.valid.dropBlanks_enclosed] at htidy
    exact .apply rfl rfl htidy

/-- A price ending is written. -/
theorem ending {q : Layout} (hp : p.Written) (hq : q.Written) :
    (unit (plainWord .function Expr.endingName :: openWord .paren
      :: (p.words ++ comma :: space :: q.words ++ [closeWord .paren]))
      (.ending p.reading q.reading)).Written := by
  have hf : dropBlanks (plainWord .function Expr.endingName :: openWord .paren
      :: (p.words ++ comma :: space :: q.words ++ [closeWord .paren]))
      = plainWord .function Expr.endingName :: openWord .paren
        :: ((p.tokens ++ comma :: q.tokens) ++ [closeWord .paren]) := by
    rw [dropBlanks_cons (by simp), dropBlanks_cons (by simp [openWord]), dropBlanks_append,
      dropBlanks_append, hp.valid.dropBlanks_words, dropBlanks_cons (by simp [comma]),
      dropBlanks_space, hq.valid.dropBlanks_words, dropBlanks_cons (by simp [closeWord]),
      dropBlanks_nil]
  refine ⟨⟨fun ts => by rw [hf]; rfl, ?_⟩, ?_⟩
  · intro ts hts
    have hrq := hq.valid.reads_closed .paren ts
    have hrp : Reads false (.expression 0)
        (p.tokens ++ comma :: (q.tokens ++ closeWord .paren :: ts)) [p.reading]
        (comma :: (q.tokens ++ closeWord .paren :: ts)) :=
      Layout.reads hp.valid rfl (stops_of_binary? rfl)
    obtain ⟨t, us, hus, _, _, hclose⟩ := hrp.head
    have harguments : Reads false .arguments
        (p.tokens ++ comma :: (q.tokens ++ closeWord .paren :: ts)) [p.reading, q.reading]
        (closeWord .paren :: ts) := by
      refine .someArguments ?_ hrp (.nextArgument rfl hrq (.lastArgument rfl))
      rw [hus]
      simpa [startsWith] using hclose
    rw [hf, List.cons_append, List.cons_append, List.append_assoc, List.singleton_append,
      List.append_assoc, List.cons_append]
    refine .postfixed (.function rfl ?_) (.factorialsEnd hts)
    exact .application rfl harguments rfl rfl
  · rw [tokens, hf]
    refine .apply rfl rfl (.wrap rfl rfl ?_)
    exact (hp.tidy.mono (by decide)).join (.single (by simp [comma]) (by simp)) rfl rfl
      (hq.tidy.mono (by decide))

/-- An operand with a mark behind it is written. -/
theorem factorial {ws : List Token} {e : Expr} {name : String} (hname : name = "!" ∨ name = "!!")
    (hs : ∀ ts, startsAny isSign (dropBlanks ws ++ ts) = false)
    (hr : ∀ ts, Reads false .primary (dropBlanks ws ++ ts) [e] ts) (ht : Tidy 1 (dropBlanks ws)) :
    (unit (ws ++ [factorialWord name]) (.call name e)).Written := by
  have hk : (factorialWord name).kind.isFactorial = true
      ∧ (factorialWord name).kind.startsFactor = false ∧ (factorialWord name).kind ≠ .blank
      ∧ (factorialWord name).kind ≠ .terminator
      ∧ ∀ b, (factorialWord name).kind ≠ .opening b ∧ (factorialWord name).kind ≠ .closing b := by
    rcases hname with rfl | rfl <;> simp [factorialWord] <;> decide
  obtain ⟨hfact, hstarts, hblank, hterminator, hbracket⟩ := hk
  have hf : dropBlanks (ws ++ [factorialWord name]) = dropBlanks ws ++ [factorialWord name] := by
    rw [dropBlanks_append, dropBlanks_cons hblank, dropBlanks_nil]
  refine ⟨⟨fun ts => ?_, ?_⟩, ?_⟩
  · rw [hf, List.append_assoc]
    exact hs _
  · intro ts hts
    rw [hf, List.append_assoc]
    refine .postfixed (hr _) (.factorialsStep hfact ?_ (.factorialsEnd hts))
    rcases hname with rfl | rfl <;> rfl
  · rw [tokens, hf]
    refine ht.append (.single hbracket fun h => absurd h hterminator) (Or.inr ?_)
    intro t ht
    cases ht
    exact hstarts

/-- A conditional of written parts is written. -/
theorem conditional {t e : Layout} (hp : p.Written) (ht : t.Written) (he : e.Written) :
    (unit (plainWord .ifWord "if" :: space :: (p.enclosed .paren ++ space :: (t.enclosed .brace
        ++ space :: plainWord .elseWord "else" :: space :: e.enclosed .brace)))
      (.conditional p.reading t.reading e.reading)).Written := by
  have hf : dropBlanks (plainWord .ifWord "if" :: space :: (p.enclosed .paren ++ space
        :: (t.enclosed .brace
        ++ space :: plainWord .elseWord "else" :: space :: e.enclosed .brace)))
      = plainWord .ifWord "if" :: (dropBlanks (p.enclosed .paren) ++ (dropBlanks (t.enclosed .brace)
        ++ plainWord .elseWord "else" :: dropBlanks (e.enclosed .brace))) := by
    rw [dropBlanks_cons (by simp), dropBlanks_space, dropBlanks_append, dropBlanks_space,
      dropBlanks_append, dropBlanks_space, dropBlanks_cons (by simp), dropBlanks_space]
  refine ⟨⟨fun ts => by rw [hf]; rfl, ?_⟩, ?_⟩
  · intro ts hts
    rw [hf]
    simp only [List.cons_append, List.append_assoc]
    generalize hrest : dropBlanks (t.enclosed .brace)
      ++ plainWord .elseWord "else" :: (dropBlanks (e.enclosed .brace) ++ ts) = rest
    obtain ⟨us, hbrace⟩ : ∃ us, rest = openWord .brace :: us := by
      rw [← hrest, ht.valid.dropBlanks_enclosed]
      exact ⟨_, rfl⟩
    have hc : Reads false (.expression 0) (dropBlanks (p.enclosed .paren) ++ rest) [p.reading]
        rest := by
      refine Layout.reads (p := unit (p.enclosed .paren) p.reading) hp.valid.enclosed ?_ ?_
      · rw [hbrace]
        rfl
      · rw [hbrace]
        exact stops_of_binary? rfl
    -- the condition in parentheses is no list of three arguments
    have hlist : startsList (dropBlanks (p.enclosed .paren) ++ rest) = false := by
      rw [hp.valid.dropBlanks_enclosed, List.cons_append, List.append_assoc]
      exact (hp.tidy.quiet 1 (Nat.le_refl 1) _).trans rfl
    have hbranches : Reads false (.branches p.reading) rest
        [.conditional p.reading t.reading e.reading] ts := by
      have hyes := ht.valid.block
        (plainWord .elseWord "else" :: (dropBlanks (e.enclosed .brace) ++ ts))
      rw [hrest, hbrace] at hyes
      rw [hbrace]
      refine .blocks rfl hyes rfl ?_ (he.valid.block ts)
      rw [he.valid.dropBlanks_enclosed]
      rfl
    exact .postfixed (.ifWord rfl (.conditioned hlist hc hbranches)) (.factorialsEnd hts)
  · rw [tokens, hf]
    have hbrace : ∀ u ∈ (dropBlanks (t.enclosed .brace)
        ++ plainWord .elseWord "else" :: dropBlanks (e.enclosed .brace)).head?,
        u.kind.startsFactor = false := by
      rw [ht.valid.dropBlanks_enclosed]
      intro u hu
      cases hu
      rfl
    refine .cons (.single (by simp) (by simp)) rfl ?_
    refine (hp.tidy_enclosed .paren).append ?_ (Or.inr hbrace)
    exact (ht.tidy_enclosed .brace).join (.single (by simp) (by simp)) rfl rfl
      (he.tidy_enclosed .brace)

end Written

end Layout

end Grammar

/-! ## Printed expressions -/

namespace Expr

/-- The word of a truth value stands for it. -/
theorem operand?_booleanWord (b : Bool) : operand? (booleanWord b) = some (boolean b) := by
  cases b <;> decide +kernel

/-- The operand of a mark is read before the mark. -/
theorem primary_factorialOperand {a : Expr} (h : a.Printable) (hl : a.layout.Written) :
    (∀ ts, startsAny isSign
      (dropBlanks (a.layout.bracketed a.needsFactorialBrackets).words ++ ts) = false) ∧
    ∀ ts, Reads false .primary
      (dropBlanks (a.layout.bracketed a.needsFactorialBrackets).words ++ ts) [a.layout.reading]
      ts := by
  cases hb : a.needsFactorialBrackets with
  | true => exact ⟨hl.valid.enclosed.unsigned, hl.valid.primary⟩
  | false =>
    -- without parentheses, the operand is one word
    have hword : ∀ {t : Token}, operand? t = some a →
        (∀ ts, startsAny isSign (dropBlanks [t] ++ ts) = false) ∧
          ∀ ts, Reads false .primary (dropBlanks [t] ++ ts) [a] ts := by
      intro t ht
      rw [dropBlanks_operand ht]
      exact ⟨(spellsOperand_of_operand? ht).unsigned, fun ts => .operand ht⟩
    match a, hb with
    | number n, _ => exact hword h.1
    | constant name, _ => exact hword rfl
    | identifier name, _ => exact hword rfl

/-- **The layout of a printable expression can be read.** -/
theorem written_layout {e : Expr} (h : e.Printable) : e.layout.Written := by
  induction e with
  | number n => exact .of_operand? h.1
  | boolean b => exact .of_operand? (operand?_booleanWord b)
  | constant name => exact .of_operand? rfl
  | identifier name => exact .of_operand? rfl
  | operation op l r ihl ihr =>
    rcases h.operation_cases with ⟨rfl, rfl | rfl, hl⟩ | ⟨hr, hn, hpl, hpr⟩
    · have hparen : (Layout.unit (space :: l.layout.enclosed .paren) l.layout.reading).Written :=
        ⟨(ihl hl).valid.enclosed, (ihl hl).tidy_enclosed .paren⟩
      exact Layout.Written.signed hparen
    · exact Layout.Written.signed ((ihl hl).bracketed _)
    · rw [layout_operation hn hr]
      exact .joined hn rfl ((ihl hpl).bracketed _) ((ihr hpr).bracketed _)
  | conditional c t e ihc iht ihe => exact .conditional (ihc h.1) (iht h.2.1) (ihe h.2.2)
  | call name a ih =>
    have ha := ih h.2.2
    rw [layout]
    split
    · rename_i hname
      obtain ⟨hs, hr⟩ := primary_factorialOperand h.2.2 ha
      have hb := ha.bracketed a.needsFactorialBrackets
      refine .factorial hname hs hr ?_
      rw [hb.valid.dropBlanks_words]
      exact hb.tidy
    · exact .application h.1 ha
  | ending p t ihp iht => exact .ending (ihp h.1) (iht h.2)
  | _ => exact h.elim

end Expr

/-! ## Parsing the words -/

namespace Grammar

/-- **The words of a written layout are parsed as its reading**, with implicit products or
without. -/
theorem Layout.Written.parse {p : Layout} (h : p.Written) {o : Options}
    (hs : o.simplify = false) : parse o p.words = .ok p.reading := by
  have hwords := h.valid.dropBlanks_words
  -- tidy tokens get no implicit products, so the option does not matter
  have hprepare : Parse.prepare o p.words = p.tokens := by
    rw [Parse.prepare, hwords, insertProducts_of_apart h.tidy.apart, ite_self]
  have hr : Reads false (.expression 0) p.tokens [p.reading] [] := by
    have hr : Reads false (.expression 0) (p.tokens ++ []) [p.reading] [] :=
      Layout.reads h.valid rfl trivial
    rwa [List.append_nil] at hr
  obtain ⟨t, us, hus, ht, _⟩ := hr.head
  refine parse_eq_ok_iff.2 ⟨?_, ?_, [], ?_, rfl⟩
  · rw [hwords]
    exact h.tidy.balanced.checkBrackets
  · rw [hprepare, hus, List.all_cons, beq_false_of_ne ht, Bool.false_and]
  · rw [hprepare, hs]
    exact hr

end Grammar

/-! ## Words that a lexicon knows -/

/-- The words that a lexicon has to know to scan brackets and spaces. -/
structure Lexicon.KnowsPunctuation (l : Lexicon) : Prop where
  space : l.Knows space
  openWord : l.Knows (openWord .paren)
  closeWord : l.Knows (closeWord .paren)

namespace Expr

/-- **Whether a lexicon knows what an expression is made of.** -/
def KnownBy (l : Lexicon) : Expr → Prop
  | number n => l.Knows (numberWord n)
  | boolean b => l.Knows (booleanWord b)
  | constant name => l.Knows (plainWord .constant name)
  | identifier name => l.Knows (plainWord .identifier name)
  | operation op a b => l.Knows (operatorWord op) ∧ a.KnownBy l ∧ (b = hole ∨ b.KnownBy l)
  | conditional c t e =>
    (l.Knows (plainWord .ifWord "if") ∧ l.Knows (plainWord .elseWord "else") ∧
      l.Knows (openWord .brace) ∧ l.Knows (closeWord .brace)) ∧
      c.KnownBy l ∧ t.KnownBy l ∧ e.KnownBy l
  | call name a =>
    (if name = "!" ∨ name = "!!" then l.Knows (factorialWord name)
      else l.Knows (plainWord .function name)) ∧ a.KnownBy l
  | ending p t =>
    (l.Knows (plainWord .function endingName) ∧ l.Knows comma) ∧ p.KnownBy l ∧ t.KnownBy l
  | _ => True

variable {l : Lexicon}

/-- The words of a layout in brackets are known when the layout and the brackets are. -/
theorem knows_enclosed {p : Layout} {b : Bracket} (hp : ∀ t ∈ p.words, l.Knows t)
    (ho : l.Knows (openWord b)) (hc : l.Knows (closeWord b)) : ∀ t ∈ p.enclosed b, l.Knows t := by
  simp only [Layout.enclosed, List.forall_mem_cons, List.forall_mem_append]
  exact ⟨ho, hp, hc, fun t ht => by cases ht⟩

/-- The words of a layout in parentheses are known when the layout is. -/
theorem knows_bracketed (hl : l.KnowsPunctuation) {p : Layout} (needed : Bool)
    (hp : ∀ t ∈ p.words, l.Knows t) : ∀ t ∈ (p.bracketed needed).words, l.Knows t := by
  cases needed with
  | false => exact hp
  | true => exact knows_enclosed hp hl.openWord hl.closeWord

/-- **The words of an expression are known when its parts are.** -/
theorem knows_layout (hl : l.KnowsPunctuation) {e : Expr} (h : e.KnownBy l) :
    ∀ t ∈ e.layout.words, l.Knows t := by
  induction e with
  | number n => simpa [layout, Layout.words, KnownBy] using h
  | boolean b => simpa [layout, Layout.words, KnownBy] using h
  | constant name => simpa [layout, Layout.words, KnownBy] using h
  | identifier name => simpa [layout, Layout.words, KnownBy] using h
  | operation op a b iha ihb =>
    obtain ⟨hop, ha, hb⟩ := h
    have hwa := iha ha
    rw [layout]
    split
    · rename_i hn
      subst hn
      simp only [Layout.words, List.forall_mem_cons]
      exact ⟨hop, hl.space, knows_enclosed hwa hl.openWord hl.closeWord⟩
    · split
      · rename_i hs
        obtain ⟨rfl, _⟩ := hs
        simp only [Layout.words, List.forall_mem_cons]
        exact ⟨hop, knows_bracketed hl _ hwa⟩
      · have hwb : ∀ t ∈ b.layout.words, l.Knows t := by
          rcases hb with rfl | hb
          · intro t ht
            cases ht
          · exact ihb hb
        have hspaced : ∀ t ∈ Layout.spaced op (operatorWord op), l.Knows t := by
          unfold Layout.spaced
          split <;> simp [hop, hl.space]
        simp only [Layout.words, List.forall_mem_append]
        exact ⟨⟨knows_bracketed hl _ hwa, hspaced⟩, knows_bracketed hl _ hwb⟩
  | conditional c t e ihc iht ihe =>
    obtain ⟨⟨hif, helse, ho, hcl⟩, hc, ht, he⟩ := h
    simp only [layout, Layout.words, List.forall_mem_cons, List.forall_mem_append]
    exact ⟨hif, hl.space, knows_enclosed (ihc hc) hl.openWord hl.closeWord, hl.space,
      knows_enclosed (iht ht) ho hcl, hl.space, helse, hl.space, knows_enclosed (ihe he) ho hcl⟩
  | call name a ih =>
    obtain ⟨hname, ha⟩ := h
    rw [layout]
    split
    · rename_i hn
      rw [if_pos hn] at hname
      simp only [Layout.words, List.forall_mem_append]
      exact ⟨knows_bracketed hl _ (ih ha), by simpa using hname⟩
    · rename_i hn
      rw [if_neg hn] at hname
      simp only [Layout.words, List.forall_mem_cons]
      exact ⟨hname, knows_enclosed (ih ha) hl.openWord hl.closeWord⟩
  | ending p t ihp iht =>
    obtain ⟨⟨hf, hc⟩, hp, ht⟩ := h
    simp only [layout, Layout.words, List.forall_mem_cons, List.forall_mem_append]
    exact ⟨hf, hl.openWord, ⟨ihp hp, hc, hl.space, iht ht⟩, hl.closeWord,
      fun t ht => by cases ht⟩
  | _ =>
    intro t ht
    cases ht

/-! ## Rereading -/

/-- A printable expression is there. -/
theorem Printable.isHole_eq_false {e : Expr} (h : e.Printable) : e.isHole = false := by
  cases e <;> first | rfl | exact h.elim

/-- Everything that the plain text of a printable expression needs is there. -/
theorem Printable.asciiReady {e : Expr} (h : e.Printable) : e.asciiReady = true := by
  induction e with
  | operation op l r ihl ihr =>
    rcases h.operation_cases with ⟨rfl, _, hl⟩ | ⟨_, _, hl, hr⟩
    · simp [Expr.asciiReady, ihl hl]
    · simp [Expr.asciiReady, ihl hl, ihr hr]
  | conditional c t e ihc iht ihe =>
    obtain ⟨hc, ht, he⟩ := h
    simp [Expr.asciiReady, ihc hc, iht ht, ihe he, hc.isHole_eq_false, ht.isHole_eq_false,
      he.isHole_eq_false]
  | call name a ih => simp [Expr.asciiReady, ih h.2.2, h.2.2.isHole_eq_false]
  | ending p t ihp iht =>
    obtain ⟨hp, ht⟩ := h
    simp [Expr.asciiReady, ihp hp, iht ht, hp.isHole_eq_false, ht.isHole_eq_false]
  | mark symbol a => exact h.elim
  | _ => rfl

/-- **A printable expression has a plain text.** -/
theorem Printable.ascii? {e : Expr} (h : e.Printable) : e.ascii? = .ok e.ascii := by
  rw [Expr.ascii?, h.isHole_eq_false, h.asciiReady]
  rfl

end Expr

/-- What is read from the plain text of an expression. -/
def Lexicon.reread (l : Lexicon) (o : Options) (e : Expr) : Except Error Expr :=
  (e.ascii?.bind l.tokenize).bind (parse o)

/-- **What is read from a text is the reading of any layout whose words spell it**, with every
lexicon that knows the words. -/
theorem Lexicon.reread_of_layout {l : Lexicon} {o : Options} {e : Expr} {p : Layout}
    (hs : o.simplify = false) (ha : e.ascii? = .ok e.ascii)
    (ht : textOf p.words = e.ascii.toList) (hc : p.Clear) (hw : p.Written)
    (hk : ∀ t ∈ p.words, l.Knows t) : l.reread o e = .ok p.reading := by
  have hsep : Separated p.words [] := hc.separated trivial (by simp)
  -- the tokens of the text are the words up to their places, which no parse looks at
  obtain ⟨ts, hts, hr⟩ := Lexicon.tokenize_of_separated hk hsep ht
  rw [Lexicon.reread, ha]
  show (l.tokenize e.ascii).bind (parse o) = _
  rw [hts]
  exact parse_of_respelled hr (hw.parse hs)

namespace Expr

/-- **An expression with its operators grouped as its plain text groups them.** -/
abbrev regrouped (e : Expr) : Expr := e.layout.reading

/-- **What is read from the plain text of an expression is the regrouped expression**, with every
lexicon that knows its words. -/
theorem reread_eq_regrouped {l : Lexicon} {o : Options} {e : Expr} (hl : l.KnowsPunctuation)
    (hs : o.simplify = false) (h : e.Printable) (hk : e.KnownBy l) :
    l.reread o e = .ok e.regrouped :=
  Lexicon.reread_of_layout hs h.ascii? (textOf_layout h) (clear_layout h) (written_layout h)
    (knows_layout hl hk)

end Expr

end Formula
