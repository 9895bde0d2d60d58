/-
# Derivations of the grammar

The grammar as a relation: a nonterminal reads a list of expressions from the front of a token list
and leaves a rest. **The readers and the relation agree**: a reader yields expressions and a rest
exactly when they can be derived (`result_expression_eq_ok`). What is proved of all derivations
holds of all parses, whatever operators wait around them.
-/
import Formula.Grammar
import Formula.Proofs.Outcome

namespace Formula

namespace Grammar

open Outcome

/-! ## Nonterminals and their rules -/

/-- What can be read on its own, with what it depends on. -/
inductive Nonterminal where
  | expression (least : Nat)
  | chain (least : Nat) (left : Expr)
  | unary (least : Nat)
  | postfixed
  | factorials (operand : Expr)
  | primary
  | application
  | arguments
  | moreArguments
  | block
  | alternatives
  | branches (condition : Expr)
  | listAlternatives

/-- The operand that stands before what is read. -/
def Nonterminal.operand? : Nonterminal → Option Expr
  | .chain _ e | .factorials e | .branches e => some e
  | _ => none

namespace Nonterminal

/-- A nonterminal behind another operand. -/
def withOperand (e : Expr) : Nonterminal → Nonterminal
  | chain least _ => chain least e
  | factorials _ => factorials e
  | branches _ => branches e
  | k => k

/-- Where no operand stands before, there is none to replace. -/
theorem withOperand_of_operand? {k : Nonterminal} {e : Expr} (h : k.operand? = none) :
    k.withOperand e = k := by
  cases k <;> first | rfl | cases h

end Nonterminal

/-- Whether a chain of operators from the level `least` on ends before a token list. -/
def Stops (least : Nat) : List Token → Prop
  | [] => True
  | t :: _ => ∀ op, t.kind.binary? = some op → op.level < least

/-- A token that stands between no operands ends every chain. -/
theorem stops_of_binary? {least : Nat} {t : Token} {ts : List Token} (h : t.kind.binary? = none) :
    Stops least (t :: ts) := by
  intro op hop
  rw [h] at hop
  cases hop

/-- Whether a token is a sign that stands before its operand. -/
def isSign (k : Kind) : Bool := k == .operator .add || k == .operator .sub || k == .operator .not

/-- Whether a token list starts with a token that satisfies `p`. -/
def startsAny (p : Kind → Bool) : List Token → Bool
  | [] => false
  | t :: _ => p t.kind

/-- The tokens behind leading terminators. -/
abbrev afterTerminators (ts : List Token) : List Token := ts.dropWhile (·.kind == .terminator)

/-- **The derivations of the grammar**: `Reads s k ts es rest` says that `k` reads the expressions
`es` from the front of `ts` and leaves `rest`. -/
inductive Reads (s : Bool) : Nonterminal → List Token → List Expr → List Token → Prop where
  | expression {least ts left ts₁ e rest} :
    Reads s (.unary least) ts [left] ts₁ → Reads s (.chain least left) ts₁ [e] rest →
      Reads s (.expression least) ts [e] rest
  | chainEnd {least left ts} : Stops least ts → Reads s (.chain least left) ts [left] ts
  | chainStep {least left t op ts right ts₁ whole e rest} :
    t.kind.binary? = some op → least ≤ op.level →
      Reads s (.expression op.rightLevel) ts [right] ts₁ → operate s op left right = .ok whole →
      Reads s (.chain least whole) ts₁ [e] rest → Reads s (.chain least left) (t :: ts) [e] rest
  | plus {least t ts e rest} : t.kind = .operator .add → Reads s (.unary least) ts [e] rest →
      Reads s (.unary least) (t :: ts) [e] rest
  | minus {least t ts e whole rest} : t.kind = .operator .sub →
      Reads s (.expression (max least minusLevel)) ts [e] rest →
      operate s .sub e .hole = .ok whole → Reads s (.unary least) (t :: ts) [whole] rest
  | not {least t ts e whole rest} : t.kind = .operator .not →
      Reads s (.expression (max least notLevel)) ts [e] rest →
      operate s .not e .hole = .ok whole → Reads s (.unary least) (t :: ts) [whole] rest
  | unsigned {least ts e rest} : startsAny isSign ts = false → Reads s .postfixed ts [e] rest →
      Reads s (.unary least) ts [e] rest
  | postfixed {ts e ts₁ e' rest} : Reads s .primary ts [e] ts₁ →
      Reads s (.factorials e) ts₁ [e'] rest → Reads s .postfixed ts [e'] rest
  | factorialsEnd {e ts} : startsAny Kind.isFactorial ts = false →
      Reads s (.factorials e) ts [e] ts
  | factorialsStep {e t e' ts e'' rest} : t.kind.isFactorial = true →
      Expr.ofCall t.value [e] = .ok e' → Reads s (.factorials e') ts [e''] rest →
      Reads s (.factorials e) (t :: ts) [e''] rest
  | operand {t e ts} : operand? t = some e → Reads s .primary (t :: ts) [e] ts
  | paren {t ts e c rest} : t.kind = .opening .paren → Reads s (.expression 0) ts [e] (c :: rest) →
      c.kind = .closing .paren → Reads s .primary (t :: ts) [e] rest
  | braces {t ts e rest} : t.kind = .opening .brace → Reads s .block (t :: ts) [e] rest →
      Reads s .primary (t :: ts) [e] rest
  | function {t ts e rest} : t.kind = .function → Reads s .application (t :: ts) [e] rest →
      Reads s .primary (t :: ts) [e] rest
  | ifWord {t ts e rest} : t.kind = .ifWord → Reads s .alternatives (t :: ts) [e] rest →
      Reads s .primary (t :: ts) [e] rest
  | application {t o ts es c e rest} : o.kind = .opening .paren →
      Reads s .arguments ts es (c :: rest) → c.kind = .closing .paren →
      Expr.ofCall t.value es = .ok e → Reads s .application (t :: o :: ts) [e] rest
  | noArguments {ts} : startsWith (.closing .paren) ts = true → Reads s .arguments ts [] ts
  | someArguments {ts e ts₁ es rest} : startsWith (.closing .paren) ts = false →
      Reads s (.expression 0) ts [e] ts₁ → Reads s .moreArguments ts₁ es rest →
      Reads s .arguments ts (e :: es) rest
  | lastArgument {ts} : startsWith .terminator ts = false → Reads s .moreArguments ts [] ts
  | nextArgument {t ts e ts₁ es rest} : t.kind = .terminator → Reads s (.expression 0) ts [e] ts₁ →
      Reads s .moreArguments ts₁ es rest → Reads s .moreArguments (t :: ts) (e :: es) rest
  | block {b ts e ts₁ c rest} : b.kind = .opening .brace →
      Reads s (.expression 0) (afterReturn (afterTerminators ts)) [e] ts₁ →
      afterTerminators ts₁ = c :: rest → c.kind = .closing .brace →
      Reads s .block (b :: ts) [e] rest
  | listed {t ts e rest} : startsList ts = true → Reads s .listAlternatives ts [e] rest →
      Reads s .alternatives (t :: ts) [e] rest
  | conditioned {t ts c ts₁ e rest} : startsList ts = false → Reads s (.expression 0) ts [c] ts₁ →
      Reads s (.branches c) ts₁ [e] rest → Reads s .alternatives (t :: ts) [e] rest
  | words {c u ts yes w ts₁ no rest} : u.kind = .thenWord →
      Reads s (.expression 0) ts [yes] (w :: ts₁) → w.kind = .elseWord →
      Reads s (.expression 0) ts₁ [no] rest →
      Reads s (.branches c) (u :: ts) [select s c yes no] rest
  | blockElseIf {c u ts yes w ts₁ no rest} : u.kind = .opening .brace →
      Reads s .block (u :: ts) [yes] (w :: ts₁) → w.kind = .elseWord →
      startsWith .ifWord ts₁ = true → Reads s .alternatives ts₁ [no] rest →
      Reads s (.branches c) (u :: ts) [select s c yes no] rest
  | blocks {c u ts yes w ts₁ no rest} : u.kind = .opening .brace →
      Reads s .block (u :: ts) [yes] (w :: ts₁) → w.kind = .elseWord →
      startsWith .ifWord ts₁ = false → Reads s .block ts₁ [no] rest →
      Reads s (.branches c) (u :: ts) [select s c yes no] rest
  | list {o ts c t₁ ts₁ yes t₂ ts₂ no t₃ rest} : o.kind = .opening .paren →
      Reads s (.expression 0) ts [c] (t₁ :: ts₁) → t₁.kind = .terminator →
      Reads s (.expression 0) ts₁ [yes] (t₂ :: ts₂) → t₂.kind = .terminator →
      Reads s (.expression 0) ts₂ [no] (t₃ :: rest) → t₃.kind = .closing .paren →
      Reads s .listAlternatives (o :: ts) [select s c yes no] rest

/-! ## What the readers yield can be derived -/

/-- Factorials behind an operand are derived. -/
theorem factorials_reads (s : Bool) {p : Pending} {ts : List Token} :
    ∀ {e e' rest}, (factorials p e ts).result = .ok (e', rest) →
      Reads s (.factorials e) ts [e'] rest := by
  induction ts with
  | nil =>
    intro e e' rest h
    cases h
    exact .factorialsEnd rfl
  | cons t ts ih =>
    intro e e' rest h
    rw [factorials] at h
    split at h
    · rename_i hk
      split at h
      · rename_i e₁ he
        rw [result_after] at h
        exact .factorialsStep hk he (ih h)
      · cases h
    · rename_i hk
      cases h
      exact .factorialsEnd (by simpa [startsAny] using hk)

-- the readers call each other on the same tokens too, in an order that the measures count
mutual

/-- Whatever the expression reader yields can be derived. -/
theorem expression_reads {s : Bool} {p : Pending} {least : Nat} {ts rest : List Token} {e : Expr}
    (h : (expression s p least ts).result = .ok (e, rest)) :
    Reads s (.expression least) ts [e] rest := by
  rw [expression] at h
  obtain ⟨left, ts₁, hlt, hu, hc⟩ := result_andThen_eq_ok.1 h
  exact .expression (unary_reads hu) (chain_reads hc)
  termination_by 8 * ts.length + 4
  decreasing_by all_goals omega

/-- Whatever the reader of operator chains yields can be derived. -/
theorem chain_reads {s : Bool} {p : Pending} {least : Nat} {left : Expr} {ts rest : List Token}
    {e : Expr} (h : (chain s p least left ts).result = .ok (e, rest)) :
    Reads s (.chain least left) ts [e] rest := by
  match ts with
  | [] =>
    rw [chain] at h
    cases h
    exact .chainEnd trivial
  | t :: ts =>
    rw [chain] at h
    split at h
    · rename_i hk
      cases h
      exact .chainEnd (stops_of_binary? hk)
    -- an operator below the level belongs to a chain around this one
    · rename_i op hk
      split at h
      · rename_i hl
        cases h
        exact .chainEnd fun op' hop => by rw [hk] at hop; cases hop; exact hl
      · rename_i hl
        rw [result_after, result_relax] at h
        obtain ⟨right, ts₁, hlt, hr, hc⟩ := result_andThen_eq_ok.1 h
        split at hc
        · cases hc
        · rename_i whole ho
          exact .chainStep hk (Nat.le_of_not_lt hl) (expression_reads hr) ho (chain_reads hc)
  termination_by 8 * ts.length
  decreasing_by all_goals (simp only [List.length_cons]; omega)

/-- Whatever the reader of signed operands yields can be derived. -/
theorem unary_reads {s : Bool} {p : Pending} {least : Nat} {ts rest : List Token} {e : Expr}
    (h : (unary s p least ts).result = .ok (e, rest)) : Reads s (.unary least) ts [e] rest := by
  match ts with
  | [] =>
    rw [unary] at h
    exact .unsigned rfl (postfixed_reads h)
  | t :: ts =>
    rw [unary] at h
    split at h
    · rename_i hk
      rw [result_after] at h
      exact .plus hk (unary_reads h)
    · rename_i hk
      rw [result_after] at h
      obtain ⟨e₁, ts₁, hlt, he, hw⟩ := result_andThen_eq_ok.1 h
      obtain ⟨ho, rfl⟩ := result_ofExcept_eq_ok.1 hw
      exact .minus hk (expression_reads he) ho
    · rename_i hk
      rw [result_after] at h
      obtain ⟨e₁, ts₁, hlt, he, hw⟩ := result_andThen_eq_ok.1 h
      obtain ⟨ho, rfl⟩ := result_ofExcept_eq_ok.1 hw
      exact .not hk (expression_reads he) ho
    · rename_i h₁ h₂ h₃
      have hs : isSign t.kind = false := by
        simp only [isSign, Bool.or_eq_false_iff, beq_eq_false_iff_ne]
        exact ⟨⟨h₁, h₂⟩, h₃⟩
      exact .unsigned hs (postfixed_reads h)
  termination_by 8 * ts.length + 3
  decreasing_by all_goals first | omega | (simp only [List.length_cons]; omega)

/-- Whatever the reader of operands with factorials yields can be derived. -/
theorem postfixed_reads {s : Bool} {p : Pending} {ts rest : List Token} {e : Expr}
    (h : (postfixed s p ts).result = .ok (e, rest)) : Reads s .postfixed ts [e] rest := by
  rw [postfixed] at h
  obtain ⟨e₁, ts₁, hlt, hp, hf⟩ := result_andThen_eq_ok.1 h
  exact .postfixed (primary_reads hp) (factorials_reads s hf)
  termination_by 8 * ts.length + 2
  decreasing_by all_goals omega

/-- Whatever the reader of operands yields can be derived. -/
theorem primary_reads {s : Bool} {p : Pending} {ts rest : List Token} {e : Expr}
    (h : (primary s p ts).result = .ok (e, rest)) : Reads s .primary ts [e] rest := by
  match ts with
  | [] =>
    rw [primary] at h
    cases h
  | t :: ts =>
    rw [primary] at h
    split at h
    · rename_i e₁ he
      cases h
      exact .operand he
    · split at h
      · rename_i hk
        rw [result_after] at h
        obtain ⟨c, hc, he⟩ := result_followedBy_eq_ok.1 h
        exact .paren hk (expression_reads he) hc
      · rename_i hk
        exact .braces hk (block_reads h)
      · rename_i hk
        exact .function hk (application_reads h)
      · rename_i hk
        exact .ifWord hk (alternatives_reads h)
      · cases h
  termination_by 8 * ts.length + 1
  decreasing_by all_goals (simp only [List.length_cons]; omega)

/-- Whatever the reader of applications yields can be derived. -/
theorem application_reads {s : Bool} {p : Pending} {ts rest : List Token} {e : Expr}
    (h : (application s p ts).result = .ok (e, rest)) : Reads s .application ts [e] rest := by
  match ts with
  | [] =>
    rw [application] at h
    cases h
  | t :: ts =>
    rw [application, result_after] at h
    obtain ⟨es, ts₂, hlt, hes, hw⟩ := result_andThen_eq_ok.1 h
    obtain ⟨ho, rfl⟩ := result_ofExcept_eq_ok.1 hw
    obtain ⟨c, hc, ha⟩ := result_followedBy_eq_ok.1 hes
    obtain ⟨u, ts₁, hlt₁, ht, harg⟩ := result_andThen_eq_ok.1 ha
    obtain ⟨o, hopen, rfl⟩ := result_take_eq_ok.1 ht
    exact .application hopen (arguments_reads harg) hc ho
  termination_by 8 * ts.length
  decreasing_by all_goals (simp only [List.length_cons]; omega)

/-- Whatever the reader of argument lists yields can be derived. -/
theorem arguments_reads {s : Bool} {p : Pending} {ts rest : List Token} {es : List Expr}
    (h : (arguments s p ts).result = .ok (es, rest)) : Reads s .arguments ts es rest := by
  rw [arguments] at h
  split at h
  · rename_i hc
    cases h
    exact .noArguments hc
  · rename_i hc
    rw [result_relax] at h
    obtain ⟨e, ts₁, hlt, he, hm⟩ := result_andThen_eq_ok.1 h
    obtain ⟨es', hes, rfl⟩ := result_map_eq_ok.1 hm
    exact .someArguments (by simpa using hc) (expression_reads he) (moreArguments_reads hes)
  termination_by 8 * ts.length + 5
  decreasing_by all_goals omega

/-- Whatever the reader of further arguments yields can be derived. -/
theorem moreArguments_reads {s : Bool} {p : Pending} {ts rest : List Token} {es : List Expr}
    (h : (moreArguments s p ts).result = .ok (es, rest)) : Reads s .moreArguments ts es rest := by
  match ts with
  | [] =>
    rw [moreArguments] at h
    cases h
    exact .lastArgument rfl
  | t :: ts =>
    rw [moreArguments] at h
    split at h
    · rename_i hk
      rw [result_after, result_relax] at h
      obtain ⟨e, ts₁, hlt, he, hm⟩ := result_andThen_eq_ok.1 h
      obtain ⟨es', hes, rfl⟩ := result_map_eq_ok.1 hm
      exact .nextArgument hk (expression_reads he) (moreArguments_reads hes)
    · rename_i hk
      cases h
      exact .lastArgument (by simpa [startsWith] using hk)
  termination_by 8 * ts.length
  decreasing_by all_goals (simp only [List.length_cons]; omega)

/-- Whatever the reader of blocks yields can be derived. -/
theorem block_reads {s : Bool} {p : Pending} {ts rest : List Token} {e : Expr}
    (h : (block s p ts).result = .ok (e, rest)) : Reads s .block ts [e] rest := by
  rw [block] at h
  obtain ⟨_, ts₁, hlt₁, hb, h₁⟩ := result_andThen_eq_ok.1 h
  obtain ⟨b, hk, hts⟩ := result_take_eq_ok.1 hb
  obtain ⟨_, ts₂, hlt₂, ht, h₂⟩ := result_andThen_eq_ok.1 h₁
  rw [result_skipTerminators] at ht
  cases ht
  obtain ⟨_, ts₃, hlt₃, hr, h₃⟩ := result_andRead_eq_ok.1 h₂
  rw [result_skipReturn] at hr
  cases hr
  -- what is skipped in front is never put back, so the inner reader has fewer tokens
  have hlen : (afterReturn (ts₁.dropWhile (·.kind == .terminator))).length
      < ts.length := by omega
  obtain ⟨c, hc, h₄⟩ := result_followedBy_eq_ok.1 h₃
  obtain ⟨e₁, ts₄, hlt₄, he, h₅⟩ := result_andThen_eq_ok.1 h₄
  obtain ⟨_, hs, rfl⟩ := result_map_eq_ok.1 h₅
  rw [result_skipTerminators] at hs
  have hrest : afterTerminators ts₄ = c :: rest := congrArg Prod.snd (Except.ok.inj hs)
  have hread := expression_reads he
  rw [hts]
  exact .block hk hread hrest hc
  termination_by 8 * ts.length
  decreasing_by all_goals omega

/-- Whatever the reader of conditionals yields can be derived. -/
theorem alternatives_reads {s : Bool} {p : Pending} {ts rest : List Token} {e : Expr}
    (h : (alternatives s p ts).result = .ok (e, rest)) : Reads s .alternatives ts [e] rest := by
  match ts with
  | [] =>
    rw [alternatives] at h
    cases h
  | t :: ts =>
    rw [alternatives, result_after] at h
    split at h
    · rename_i hl
      exact .listed hl (listAlternatives_reads h)
    · rename_i hl
      obtain ⟨c, ts₁, hlt, hc, hb⟩ := result_andRead_eq_ok.1 h
      exact .conditioned (by simpa using hl) (expression_reads hc) (branches_reads hb)
  termination_by 8 * ts.length
  decreasing_by all_goals (simp only [List.length_cons]; omega)

/-- Whatever the reader of branches yields can be derived. -/
theorem branches_reads {s : Bool} {p : Pending} {c : Expr} {ts rest : List Token} {e : Expr}
    (h : (branches s p c ts).result = .ok (e, rest)) : Reads s (.branches c) ts [e] rest := by
  match ts with
  | [] =>
    rw [branches] at h
    cases h
  | u :: ts =>
    rw [branches] at h
    split at h
    · rename_i hk
      rw [result_after] at h
      obtain ⟨yes, ts₁, hlt, hy, hn⟩ := result_andRead_eq_ok.1 h
      obtain ⟨w, hw, hy₁⟩ := result_followedBy_eq_ok.1 hy
      obtain ⟨no, hn₁, rfl⟩ := result_map_eq_ok.1 hn
      exact .words hk (expression_reads hy₁) hw (expression_reads hn₁)
    · rename_i hk
      obtain ⟨yes, ts₁, hlt, hy, hn⟩ := result_andRead_eq_ok.1 h
      have hshorter : ts₁.length < ts.length + 1 := hlt
      obtain ⟨w, hw, hy₁⟩ := result_followedBy_eq_ok.1 hy
      split at hn
      · rename_i hi
        obtain ⟨no, hn₁, rfl⟩ := result_map_eq_ok.1 hn
        exact .blockElseIf hk (block_reads hy₁) hw hi (alternatives_reads hn₁)
      · rename_i hi
        obtain ⟨no, hn₁, rfl⟩ := result_map_eq_ok.1 hn
        exact .blocks hk (block_reads hy₁) hw (by simpa using hi) (block_reads hn₁)
    · cases h
  termination_by 8 * ts.length + 1
  decreasing_by all_goals (simp only [List.length_cons]; omega)

/-- Whatever the reader of conditionals in list form yields can be derived. -/
theorem listAlternatives_reads {s : Bool} {p : Pending} {ts rest : List Token} {e : Expr}
    (h : (listAlternatives s p ts).result = .ok (e, rest)) :
    Reads s .listAlternatives ts [e] rest := by
  rw [listAlternatives] at h
  obtain ⟨_, ts₀, hlt₀, ho, h₀⟩ := result_andRead_eq_ok.1 h
  obtain ⟨o, hk, rfl⟩ := result_take_eq_ok.1 ho
  obtain ⟨c, ts₁, hlt₁, hc, h₁⟩ := result_andRead_eq_ok.1 h₀
  obtain ⟨t₁, hk₁, hc₁⟩ := result_followedBy_eq_ok.1 hc
  obtain ⟨yes, ts₂, hlt₂, hy, h₂⟩ := result_andRead_eq_ok.1 h₁
  obtain ⟨t₂, hk₂, hy₁⟩ := result_followedBy_eq_ok.1 hy
  obtain ⟨no, hn, rfl⟩ := result_map_eq_ok.1 h₂
  obtain ⟨t₃, hk₃, hn₁⟩ := result_followedBy_eq_ok.1 hn
  exact .list hk (expression_reads hc₁) hk₁ (expression_reads hy₁) hk₂ (expression_reads hn₁) hk₃
  termination_by 8 * ts.length
  decreasing_by all_goals omega

end

/-! ## What can be derived is yielded -/

/-- A single expression as a list of one. -/
def single (r : Except Error (Expr × List Token)) : Except Error (List Expr × List Token) :=
  r.map fun x => ([x.1], x.2)

/-- A reader of one expression yields it as a list of one. -/
theorem single_eq_ok {r : Except Error (Expr × List Token)} {e : Expr} {rest : List Token} :
    single r = .ok ([e], rest) ↔ r = .ok (e, rest) := by
  cases r with
  | error e => simp [single, Except.map]
  | ok x =>
    obtain ⟨e', rest'⟩ := x
    simp [single, Except.map]

/-- What the reader of a nonterminal yields, with the rest. -/
def yield (s : Bool) (p : Pending) (k : Nonterminal) (ts : List Token) :
    Except Error (List Expr × List Token) :=
  match k with
  | .expression least => single (expression s p least ts).result
  | .chain least left => single (chain s p least left ts).result
  | .unary least => single (unary s p least ts).result
  | .postfixed => single (postfixed s p ts).result
  | .factorials e => single (factorials p e ts).result
  | .primary => single (primary s p ts).result
  | .application => single (application s p ts).result
  | .arguments => (arguments s p ts).result
  | .moreArguments => (moreArguments s p ts).result
  | .block => single (block s p ts).result
  | .alternatives => single (alternatives s p ts).result
  | .branches c => single (branches s p c ts).result
  | .listAlternatives => single (listAlternatives s p ts).result

/-- A chain that stops yields its left operand. -/
theorem result_chain_of_stops {s : Bool} {p : Pending} {least : Nat} {left : Expr}
    {ts : List Token} (h : Stops least ts) :
    (chain s p least left ts).result = .ok (left, ts) := by
  cases ts with
  | nil => rw [chain, result_pure]
  | cons t ts =>
    rw [chain]
    split
    · rfl
    · rename_i op hk
      rw [if_pos (h op hk), result_pure]

/-- Factorials that do not follow leave the operand. -/
theorem result_factorials_of_startsAny {p : Pending} {e : Expr} {ts : List Token}
    (h : startsAny Kind.isFactorial ts = false) : (factorials p e ts).result = .ok (e, ts) := by
  cases ts with
  | nil => rfl
  | cons t ts =>
    have hk : t.kind.isFactorial = false := h
    simp [factorials, hk]

/-- An unsigned operand is read with its factorials. -/
theorem unary_eq_postfixed {s : Bool} {p : Pending} {least : Nat} {ts : List Token}
    (h : startsAny isSign ts = false) : unary s p least ts = postfixed s p ts := by
  cases ts with
  | nil => rw [unary]
  | cons t ts =>
    have hs : isSign t.kind = false := h
    rw [unary]
    split
    · rename_i hk
      rw [hk] at hs
      cases hs
    · rename_i hk
      rw [hk] at hs
      cases hs
    · rename_i hk
      rw [hk] at hs
      cases hs
    · rfl

/-- A token that opens or names something is no operand by itself. -/
theorem operand?_eq_none {t : Token} (h : t.kind ∈ [.opening .paren, .opening .brace, .function,
    .ifWord]) : operand? t = none := by
  simp only [List.mem_cons, List.not_mem_nil, or_false] at h
  rcases h with h | h | h | h <;> simp [operand?, h]

section Primary

variable {s : Bool} {p : Pending} {t : Token} {ts : List Token}

/-- Behind a parenthesis, an expression is read up to the parenthesis that closes it. -/
theorem result_primary_paren (hk : t.kind = .opening .paren) :
    (primary s p (t :: ts)).result
      = ((expression s p 0 ts).followedBy p (.closing .paren) (.expected "')'")).result := by
  rw [primary, operand?_eq_none (by simp [hk]), hk]
  exact result_after _ _

/-- An operand that starts with a brace is a block. -/
theorem primary_brace (hk : t.kind = .opening .brace) :
    primary s p (t :: ts) = block s p (t :: ts) := by
  rw [primary, operand?_eq_none (by simp [hk]), hk]

/-- An operand that starts with the name of a function is an application. -/
theorem primary_function (hk : t.kind = .function) :
    primary s p (t :: ts) = application s p (t :: ts) := by
  rw [primary, operand?_eq_none (by simp [hk]), hk]

/-- An operand that starts with `if` is a conditional. -/
theorem primary_ifWord (hk : t.kind = .ifWord) :
    primary s p (t :: ts) = alternatives s p (t :: ts) := by
  rw [primary, operand?_eq_none (by simp [hk]), hk]

end Primary

/-- **Whatever can be derived is yielded**, whatever operators wait. -/
theorem Reads.yield {s : Bool} {k : Nonterminal} {ts rest : List Token} {es : List Expr}
    (h : Reads s k ts es rest) : ∀ p, yield s p k ts = .ok (es, rest) := by
  -- induction on the derivation: each rule is the branch of a reader that takes it
  induction h <;> intro p <;> simp only [Grammar.yield, single_eq_ok] at *
  case expression hu hc =>
    rw [Grammar.expression, result_andThen_of_ok (hu p)]
    exact hc p
  case chainEnd hs => exact result_chain_of_stops hs
  case chainStep hk hl _ ho _ hr hc =>
    rw [chain, hk]
    simp only [if_neg (Nat.not_lt_of_le hl), result_after, result_relax]
    rw [result_andThen_of_ok (hr _), ho]
    exact hc p
  case plus hk _ hu =>
    rw [Grammar.unary, hk]
    simpa using hu p
  case minus hk _ ho he =>
    rw [Grammar.unary, hk]
    simp only [result_after]
    rw [result_andThen_of_ok (he p), ho]
    rfl
  case not hk _ ho he =>
    rw [Grammar.unary, hk]
    simp only [result_after]
    rw [result_andThen_of_ok (he p), ho]
    rfl
  case unsigned hs _ hp =>
    rw [unary_eq_postfixed hs]
    exact hp p
  case postfixed hp hf =>
    rw [Grammar.postfixed, result_andThen_of_ok (hp p)]
    exact hf p
  case factorialsEnd hs => exact result_factorials_of_startsAny hs
  case factorialsStep hk ho _ hf =>
    rw [factorials, if_pos hk, ho]
    simpa using hf p
  case operand he => rw [primary, he, result_accept]
  case paren hk _ hc he =>
    rw [result_primary_paren hk]
    exact result_followedBy_eq_ok.2 ⟨_, hc, he p⟩
  case braces hk _ hb =>
    rw [primary_brace hk]
    exact hb p
  case function hk _ ha =>
    rw [primary_function hk]
    exact ha p
  case ifWord hk _ ha =>
    rw [primary_ifWord hk]
    exact ha p
  case application t o ts es c e rest hopen _ hc ho ha =>
    rw [Grammar.application, result_after]
    refine result_andThen_eq_ok.2 ⟨es, rest, ?_, ?_, result_ofExcept_eq_ok.2 ⟨ho, rfl⟩⟩
    · have := length_lt_of_result (ha p)
      simp only [List.length_cons] at this ⊢
      omega
    · refine result_followedBy_eq_ok.2 ⟨c, hc, ?_⟩
      rw [result_andThen_of_ok (result_take hopen)]
      exact ha p
  case noArguments hs => rw [arguments, hs, if_pos rfl, result_pure]
  case someArguments hs _ _ hes he =>
    rw [arguments, hs, if_neg Bool.false_ne_true, result_relax, result_andThen_of_ok (he p)]
    exact result_map_eq_ok.2 ⟨_, hes p, rfl⟩
  case lastArgument ts hs =>
    cases ts with
    | nil => rw [moreArguments, result_pure]
    | cons t ts =>
      have hk : ¬ t.kind = .terminator := by simpa [startsWith] using hs
      rw [moreArguments, if_neg hk, result_pure]
  case nextArgument hk _ _ hes he =>
    rw [moreArguments, if_pos hk, result_after, result_relax, result_andThen_of_ok (he p)]
    exact result_map_eq_ok.2 ⟨_, hes p, rfl⟩
  case block hb _ hts hc he =>
    rw [Grammar.block, result_andThen_of_ok (result_take hb),
      result_andThen_of_ok (result_skipTerminators p _),
      result_andRead_of_ok (result_skipReturn p _)]
    refine result_followedBy_eq_ok.2 ⟨_, hc, ?_⟩
    rw [result_andThen_of_ok (he p)]
    refine result_map_eq_ok.2 ⟨(), ?_, rfl⟩
    rw [result_skipTerminators]
    exact congrArg (fun r => Except.ok ((), r)) hts
  case listed hl _ ha =>
    rw [Grammar.alternatives, result_after, if_pos hl]
    exact ha p
  case conditioned hl _ _ hc hb =>
    rw [Grammar.alternatives, result_after, hl, if_neg Bool.false_ne_true,
      result_andRead_of_ok (hc p)]
    exact hb p
  case words hk _ hw _ hy hn =>
    rw [branches, hk]
    simp only [result_after]
    rw [result_andRead_of_ok (result_followedBy_eq_ok.2 ⟨_, hw, hy p⟩)]
    exact result_map_eq_ok.2 ⟨_, hn p, rfl⟩
  case blockElseIf hk _ hw hi _ hy hn =>
    rw [branches, hk]
    simp only []
    rw [result_andRead_of_ok (result_followedBy_eq_ok.2 ⟨_, hw, hy p⟩), if_pos hi]
    exact result_map_eq_ok.2 ⟨_, hn p, rfl⟩
  case blocks hk _ hw hi _ hy hn =>
    rw [branches, hk]
    simp only []
    rw [result_andRead_of_ok (result_followedBy_eq_ok.2 ⟨_, hw, hy p⟩), hi,
      if_neg Bool.false_ne_true]
    exact result_map_eq_ok.2 ⟨_, hn p, rfl⟩
  case list hk _ h₁ _ h₂ _ h₃ hc hy hn =>
    rw [Grammar.listAlternatives, result_andRead_of_ok (result_take hk),
      result_andRead_of_ok (result_followedBy_eq_ok.2 ⟨_, h₁, hc p⟩),
      result_andRead_of_ok (result_followedBy_eq_ok.2 ⟨_, h₂, hy p⟩)]
    exact result_map_eq_ok.2 ⟨_, result_followedBy_eq_ok.2 ⟨_, h₃, hn p⟩, rfl⟩

/-- **The expression reader yields exactly what can be derived.** -/
theorem result_expression_eq_ok {s : Bool} {p : Pending} {least : Nat} {ts rest : List Token}
    {e : Expr} : (expression s p least ts).result = .ok (e, rest) ↔
      Reads s (.expression least) ts [e] rest :=
  ⟨expression_reads, fun h => single_eq_ok.1 (h.yield p)⟩

/-- An expression and a rest are determined by the tokens. -/
theorem Reads.unique {s : Bool} {k : Nonterminal} {ts rest rest' : List Token}
    {es es' : List Expr} (h : Reads s k ts es rest) (h' : Reads s k ts es' rest') :
    es = es' ∧ rest = rest' := by
  -- both are what the one reader yields
  have hy := (h.yield []).symm.trans (h'.yield [])
  cases hy
  exact ⟨rfl, rfl⟩

end Grammar

end Formula
