/-
# The record of a parse

On request a parse records every token that it consumes, with the operators that wait at that
moment. Every reader leaves a faithful record, since it starts where an operand has to begin or
right behind one, and ends behind an operand. Recording prints expressions that are still being
built, which never fails, because none of them misses an operand. So **the record is faithful and
changes nothing** (`trace_faithful`).
-/
import Formula.Proofs.Awaiting

namespace Formula

namespace Grammar

open Outcome

/-! ## Records of the readers -/

variable {s : Bool} {all ts : List Token} {n : Nat} {p : Pending}

/-- A token that is a whole operand ends one. -/
theorem endsOperand_of_operand? {t : Token} {e : Expr} (h : operand? t = some e) :
    t.kind.endsOperand = true := by
  cases hk : t.kind <;> simp [operand?, hk] at h <;> rfl

/-- A mark behind an operand ends it, and is no operator between two operands. -/
theorem endsOperand_of_isFactorial {k : Kind} (h : k.isFactorial = true) :
    k.endsOperand = true ∧ k.binary? = none := by
  rcases Kind.factorial_cases h with rfl | rfl
  · exact ⟨rfl, rfl⟩
  · exact ⟨rfl, rfl⟩

/-- An expression that is read is complete. -/
theorem complete_of_expression {least : Nat} {e : Expr} {rest : List Token}
    (h : (expression s p least ts).result = .ok (e, rest)) : e.Complete :=
  (expression_reads h).inherits (inherits_complete s) trivial nofun (fun _ _ => trivial) nofun e
    List.mem_cons_self

/-- A signed operand that is read is complete. -/
theorem complete_of_unary {least : Nat} {e : Expr} {rest : List Token}
    (h : (unary s p least ts).result = .ok (e, rest)) : e.Complete :=
  (unary_reads h).inherits (inherits_complete s) trivial nofun (fun _ _ => trivial) nofun e
    List.mem_cons_self

/-- An operation of complete operands that is built for a token between them is complete. -/
theorem complete_of_operate {t : Token} {op : Operator} {l r e : Expr}
    (hop : t.kind.binary? = some op) (hl : l.Complete) (hr : r.Complete)
    (h : operate s op l r = .ok e) : e.Complete := by
  obtain ⟨hk, hnot⟩ := Kind.operator_of_binary? hop
  exact (inherits_complete s).operate trivial hk hnot hl hr h

/-- The record of factorials. -/
theorem factorials_follows {e : Expr} (hat : At all n ts) (hb : behindOperand all n = true) :
    Follows s all n p (some true) (factorials p e ts) := by
  have hflag : ∀ n, behindOperand all n = true → ∀ b ∈ some true, behindOperand all n = b := by
    rintro n hb _ ⟨⟩
    exact hb
  induction ts generalizing n e with
  | nil => exact .pure hat (hflag n hb)
  | cons t ts ih =>
    rw [factorials]
    split
    · rename_i hk
      obtain ⟨hends, hnone⟩ := endsOperand_of_isFactorial hk
      have hn := hat.infixAt?_of_binary? hnone
      split
      · exact (ih hat.tail (by rw [hat.behindOperand, hends])).after hat hn
      · exact ⟨recorded_single hat hn, fun v rest hr => by cases hr⟩
    · exact .pure hat (hflag n hb)

-- the readers call each other on the same tokens too, in an order that the measures count
mutual

/-- The record of an expression. -/
theorem expression_follows (p : Pending) (least : Nat) (ts : List Token) (n : Nat)
    (hat : At all n ts) (hb : behindOperand all n = false) :
    Follows s all n p (some true) (expression s p least ts) := by
  rw [expression]
  exact (unary_follows p least ts n hat hb).andThen fun left rest _ e hr hat' hb' =>
    chain_follows p least left rest e hat' (hb' _ rfl) (complete_of_unary hr)
  termination_by 8 * ts.length + 4
  decreasing_by all_goals omega

/-- The record of an operator chain. -/
theorem chain_follows (p : Pending) (least : Nat) (left : Expr) (ts : List Token) (n : Nat)
    (hat : At all n ts) (hb : behindOperand all n = true) (hleft : left.Complete) :
    Follows s all n p (some true) (chain s p least left ts) := by
  have hend : ∀ b ∈ some true, behindOperand all n = b := by
    rintro _ ⟨⟩
    exact hb
  match ts with
  | [] =>
    rw [chain]
    exact .pure hat hend
  | t :: rest =>
    rw [chain]
    split
    · exact .pure hat hend
    · rename_i op hop
      split
      · exact .pure hat hend
      · have hn : infixAt? all n = some op := by simp [infixAt?, hb, hat.getElem?, hop]
        have hnext : behindOperand all (n + 1) = false := by
          rw [hat.behindOperand, (Kind.operator_of_binary? hop).1]
          rfl
        refine .operator hat hn hleft rfl
          (expression_follows ((op, left) :: p) op.rightLevel rest (n + 1) hat.tail hnext) ?_
        intro right rest' _ e hr hat' hb'
        split
        · exact .failed
        · rename_i whole hwhole
          exact chain_follows p least whole rest' e hat' (hb' _ rfl)
            (complete_of_operate hop hleft (complete_of_expression hr) hwhole)
  termination_by 8 * ts.length
  decreasing_by all_goals (simp only [List.length_cons]; omega)

/-- The record of a signed operand. -/
theorem unary_follows (p : Pending) (least : Nat) (ts : List Token) (n : Nat)
    (hat : At all n ts) (hb : behindOperand all n = false) :
    Follows s all n p (some true) (unary s p least ts) := by
  match ts with
  | [] =>
    rw [unary]
    exact postfixed_follows p [] n hat hb
  | t :: rest =>
    have hn := infixAt?_of_behindOperand hb
    have hnext : ∀ {op : Operator}, t.kind = .operator op → behindOperand all (n + 1) = false := by
      intro op hk
      rw [hat.behindOperand, hk]
      rfl
    rw [unary]
    split
    · rename_i hk
      exact (unary_follows p least rest (n + 1) hat.tail (hnext hk)).after hat hn
    · rename_i hk
      exact ((expression_follows p (max least minusLevel) rest (n + 1) hat.tail (hnext hk)).andThen
        fun _ _ _ _ _ hat' hb' => .ofExcept hat' hb').after hat hn
    · rename_i hk
      exact ((expression_follows p (max least notLevel) rest (n + 1) hat.tail (hnext hk)).andThen
        fun _ _ _ _ _ hat' hb' => .ofExcept hat' hb').after hat hn
    · exact postfixed_follows p (t :: rest) n hat hb
  termination_by 8 * ts.length + 3
  decreasing_by all_goals first | omega | (simp only [List.length_cons]; omega)

/-- The record of an operand with factorials. -/
theorem postfixed_follows (p : Pending) (ts : List Token) (n : Nat)
    (hat : At all n ts) (hb : behindOperand all n = false) :
    Follows s all n p (some true) (postfixed s p ts) := by
  rw [postfixed]
  exact (primary_follows p ts n hat hb).andThen fun _ _ _ _ _ hat' hb' =>
    factorials_follows hat' (hb' _ rfl)
  termination_by 8 * ts.length + 2
  decreasing_by all_goals omega

/-- The record of an operand. -/
theorem primary_follows (p : Pending) (ts : List Token) (n : Nat)
    (hat : At all n ts) (hb : behindOperand all n = false) :
    Follows s all n p (some true) (primary s p ts) := by
  match ts with
  | [] =>
    rw [primary]
    exact .failed
  | t :: rest =>
    have hn := infixAt?_of_behindOperand hb
    rw [primary]
    split
    · rename_i e he
      refine .accept hat hn ?_
      rintro _ ⟨⟩
      exact endsOperand_of_operand? he
    · split
      · rename_i hk
        have hnext : behindOperand all (n + 1) = false := by
          rw [hat.behindOperand, hk]
          rfl
        exact .after hat hn
          ((expression_follows p 0 rest (n + 1) hat.tail hnext).followedBy rfl rfl)
      · exact block_follows p (t :: rest) n hat
      · exact application_follows p (t :: rest) n hat hb
      · rename_i hk
        exact alternatives_follows p (t :: rest) n hat (startsWith_cons.2 hk)
      · exact .failed
  termination_by 8 * ts.length + 1
  decreasing_by all_goals (simp only [List.length_cons]; omega)

/-- The record of an application. -/
theorem application_follows (p : Pending) (ts : List Token) (n : Nat)
    (hat : At all n ts) (hb : behindOperand all n = false) :
    Follows s all n p (some true) (application s p ts) := by
  match ts with
  | [] =>
    rw [application]
    exact .failed
  | t :: rest =>
    rw [application]
    refine .after hat (infixAt?_of_behindOperand hb) (.andThen ?_ fun _ _ _ _ _ hat' hb' =>
      .ofExcept hat' hb')
    refine Follows.followedBy (?_ : Follows s all (n + 1) p none _) rfl rfl
    exact (Follows.take hat.tail rfl rfl).andThen fun _ rest₁ _ e _ hat' hb' =>
      arguments_follows p rest₁ e hat' (hb' _ rfl)
  termination_by 8 * ts.length
  decreasing_by all_goals (simp only [List.length_cons]; omega)

/-- The record of an argument list. -/
theorem arguments_follows (p : Pending) (ts : List Token) (n : Nat)
    (hat : At all n ts) (hb : behindOperand all n = false) :
    Follows s all n p none (arguments s p ts) := by
  rw [arguments]
  split
  · exact .pure hat nofun
  · exact ((expression_follows p 0 ts n hat hb).andThen fun _ rest _ e _ hat' _ =>
      (moreArguments_follows p rest e hat').map).relax
  termination_by 8 * ts.length + 5
  decreasing_by all_goals omega

/-- The record of further arguments. -/
theorem moreArguments_follows (p : Pending) (ts : List Token) (n : Nat) (hat : At all n ts) :
    Follows s all n p none (moreArguments s p ts) := by
  match ts with
  | [] =>
    rw [moreArguments]
    exact .pure hat nofun
  | t :: rest =>
    rw [moreArguments]
    split
    · rename_i hk
      have hn := hat.infixAt?_of_binary? (by rw [hk]; rfl)
      have hnext : behindOperand all (n + 1) = false := by
        rw [hat.behindOperand, hk]
        rfl
      exact ((expression_follows p 0 rest (n + 1) hat.tail hnext).andThen
        fun _ rest₁ _ e _ hat' _ => (moreArguments_follows p rest₁ e hat').map).relax.after hat hn
    · exact .pure hat nofun
  termination_by 8 * ts.length
  decreasing_by all_goals (simp only [List.length_cons]; omega)

/-- The record of a block. -/
theorem block_follows (p : Pending) (ts : List Token) (n : Nat) (hat : At all n ts) :
    Follows s all n p (some true) (block s p ts) := by
  rw [block]
  refine (Follows.take hat rfl rfl).andThen fun _ rest _ e _ hat₁ hb₁ => ?_
  have hstart : ∀ b ∈ some false, b = false ∧ behindOperand all e = false := by
    rintro _ ⟨⟩
    exact ⟨rfl, hb₁ _ rfl⟩
  refine (Follows.skipTerminators hat₁ hstart).andThen fun _ rest₁ _ e₁ _ hat₂ hb₂ =>
    (Follows.skipReturn hat₂ (hb₂ _ rfl)).andRead fun _ rest₂ _ e₂ _ hat₃ hb₃ => ?_
  refine Follows.followedBy (?_ : Follows s all e₂ p none _) rfl rfl
  exact (expression_follows p 0 rest₂ e₂ hat₃ (hb₃ _ rfl)).andThen fun _ _ _ _ _ hat₄ _ =>
    .map (.skipTerminators_relaxed hat₄)
  termination_by 8 * ts.length
  decreasing_by all_goals omega

/-- The record of a conditional. -/
theorem alternatives_follows (p : Pending) (ts : List Token) (n : Nat)
    (hat : At all n ts) (hopen : startsWith .ifWord ts = true) :
    Follows s all n p (some true) (alternatives s p ts) := by
  match ts with
  | [] =>
    rw [alternatives]
    exact .failed
  | t :: rest =>
    have hk := startsWith_cons.1 hopen
    have hnext : behindOperand all (n + 1) = false := by
      rw [hat.behindOperand, hk]
      rfl
    rw [alternatives]
    refine .after hat (hat.infixAt?_of_binary? (by rw [hk]; rfl)) ?_
    split
    · exact listAlternatives_follows p rest (n + 1) hat.tail
    · exact (expression_follows p 0 rest (n + 1) hat.tail hnext).andRead
        fun c rest₁ _ e _ hat' _ => branches_follows p c rest₁ e hat'
  termination_by 8 * ts.length
  decreasing_by all_goals (simp only [List.length_cons]; omega)

/-- The record of the branches of a conditional. -/
theorem branches_follows (p : Pending) (c : Expr) (ts : List Token) (n : Nat)
    (hat : At all n ts) : Follows s all n p (some true) (branches s p c ts) := by
  match ts with
  | [] =>
    rw [branches]
    exact .failed
  | u :: rest =>
    rw [branches]
    split
    · rename_i hk
      have hnext : behindOperand all (n + 1) = false := by
        rw [hat.behindOperand, hk]
        rfl
      refine Follows.after hat (hat.infixAt?_of_binary? (by rw [hk]; rfl)) ?_
      exact ((expression_follows p 0 rest (n + 1) hat.tail hnext).followedBy rfl rfl).andRead
        fun _ rest₁ _ e _ hat' hb' => (expression_follows p 0 rest₁ e hat' (hb' _ rfl)).map
    · refine ((block_follows p (u :: rest) n hat).followedBy rfl rfl).andRead
        fun _ rest₁ _ e _ hat' _ => ?_
      split
      · rename_i hopen
        exact (alternatives_follows p rest₁ e hat' hopen).map
      · exact (block_follows p rest₁ e hat').map
    · exact .failed
  termination_by 8 * ts.length + 1
  decreasing_by all_goals (simp only [List.length_cons] at *; omega)

/-- The record of a conditional in list form. -/
theorem listAlternatives_follows (p : Pending) (ts : List Token) (n : Nat) (hat : At all n ts) :
    Follows s all n p (some true) (listAlternatives s p ts) := by
  rw [listAlternatives]
  exact (Follows.take hat rfl rfl).andRead fun _ rest _ e _ hat₁ hb₁ =>
    ((expression_follows p 0 rest e hat₁ (hb₁ _ rfl)).followedBy rfl rfl).andRead
      fun _ rest₁ _ e₁ _ hat₂ hb₂ =>
        ((expression_follows p 0 rest₁ e₁ hat₂ (hb₂ _ rfl)).followedBy rfl rfl).andRead
          fun _ rest₂ _ e₂ _ hat₃ hb₃ =>
            .map ((expression_follows p 0 rest₂ e₂ hat₃ (hb₃ _ rfl)).followedBy rfl rfl)
  termination_by 8 * ts.length
  decreasing_by all_goals omega

end

/-- The record of a whole token list. -/
theorem whole_follows (s : Bool) (ts : List Token) :
    Follows s ts 0 [] none (Parse.whole s ts) := by
  refine (expression_follows [] 0 ts 0 at_zero rfl).andThen fun e rest _ n _ hat _ =>
    (Follows.skipTerminators_relaxed hat).andThen fun _ rest' _ n' _ hat' _ => ?_
  split
  · exact .pure hat' nofun
  · exact .failed

/-- The recorded tokens are the first ones, in order. -/
theorem Recorded.token_prefix {steps : List Step} (h : Recorded s all 0 p steps) :
    steps.map (·.token) <+: all := by
  rw [List.prefix_iff_getElem?]
  intro m hm
  rw [List.length_map] at hm
  have htoken := (h m _ (List.getElem?_eq_getElem hm)).token
  rw [Nat.zero_add] at htoken
  rw [htoken, List.getElem_map]

/-- Reading a whole token list leaves no tokens. -/
theorem rest_of_whole {e : Expr} {rest : List Token}
    (h : (Parse.whole s ts).result = .ok (e, rest)) : rest = [] := by
  obtain ⟨_, rest₁, _, -, h₁⟩ := result_andThen_eq_ok.1 h
  obtain ⟨_, rest₂, _, -, h₂⟩ := result_andThen_eq_ok.1 h₁
  cases rest₂ with
  | nil =>
    cases h₂
    rfl
  | cons t rest₂ => cases h₂

/-- A token list that is read to its end is recorded to its end. -/
theorem token_of_whole {e : Expr} {rest : List Token}
    (h : (Parse.whole s ts).result = .ok (e, rest)) :
    (Parse.whole s ts).steps.map (·.token) = ts := by
  obtain ⟨hrecorded, hended⟩ := whole_follows s ts
  obtain ⟨hat, -, -⟩ := hended e rest h
  refine hrecorded.token_prefix.eq_of_length ?_
  have hlength := hat.length_sub
  rw [rest_of_whole h, List.length_nil] at hlength
  rw [List.length_map]
  omega

end Grammar

/-! ## Rows -/

/-- The row of a recorded step, if the operands that wait can be printed. -/
def Step.row? (st : Step) : Except Error TraceRow :=
  (st.pending.reverse.mapM fun (q : Operator × Expr) => q.2.ascii?).map fun operands =>
    ⟨st.token.value, operands, st.pending.reverse.map (·.1.symbol)⟩

/-- Computations that all succeed succeed together. -/
theorem mapM_eq_ok {α β : Type} {f : α → Except Error β} {g : α → β} :
    ∀ {l : List α}, (∀ a ∈ l, f a = .ok (g a)) → l.mapM f = .ok (l.map g)
  | [], _ => rfl
  | a :: l, h => by
    obtain ⟨ha, hl⟩ := List.forall_mem_cons.1 h
    rw [List.mapM_cons, ha, mapM_eq_ok hl]
    rfl

/-- **Complete operands are printed.** -/
theorem Step.row?_of_complete {st : Step} (h : ∀ q ∈ st.pending, q.2.Complete) :
    st.row? = .ok st.row := by
  have hprint : ∀ q ∈ st.pending.reverse, q.2.ascii? = .ok q.2.ascii := fun q hq =>
    (h q (List.mem_reverse.1 hq)).ascii?
  rw [Step.row?, mapM_eq_ok hprint]
  rfl

/-- **Whether rows are a faithful record** of reading tokens. -/
structure IsRecord (s : Bool) (ts : List Token) (rows : List TraceRow) : Prop where
  /-- The tokens are recorded in order. -/
  tokens : rows.map (·.token) <+: ts.map (·.value)
  /-- Printing never trips over an operand that is still being built. -/
  printed : (Parse.whole s ts).steps.mapM Step.row? = .ok rows
  /-- The operators of a row are those that await the end of their right operand. -/
  operators : ∀ k row, rows[k]? = some row →
    row.operators = (Grammar.awaiting s ts k).map Operator.symbol
  /-- Every operator has its left operand. -/
  operands : ∀ row ∈ rows, row.operands.length = row.operators.length

/-- The rows of reading a token list are a faithful record. -/
theorem isRecord_whole (s : Bool) (ts : List Token) :
    IsRecord s ts ((Parse.whole s ts).steps.map Step.row) := by
  have hrecorded := (Grammar.whole_follows s ts).recorded
  have hcomplete : ∀ st ∈ (Parse.whole s ts).steps, ∀ q ∈ st.pending, q.2.Complete := by
    intro st hst q hq
    obtain ⟨m, hm⟩ := List.mem_iff_getElem?.1 hst
    rcases (hrecorded m st hm).complete q hq with hnone | hq
    · cases hnone
    · exact hq
  refine ⟨?_, mapM_eq_ok fun st hst => Step.row?_of_complete (hcomplete st hst), ?_, ?_⟩
  · have hvalues := hrecorded.token_prefix.map Token.value
    rwa [List.map_map] at hvalues ⊢
  · intro k row hrow
    rw [List.getElem?_map, Option.map_eq_some_iff] at hrow
    obtain ⟨st, hst, rfl⟩ := hrow
    have hoperators := (hrecorded k st hst).operators
    rw [List.reverse_nil, List.map_nil, List.nil_append, Nat.zero_add,
      Grammar.awaitingFrom_zero] at hoperators
    rw [← hoperators, List.map_map]
    rfl
  · intro row hrow
    obtain ⟨st, -, rfl⟩ := List.mem_map.1 hrow
    simp [Step.row]

/-! ## Parses -/

/-- **The record of a parse is faithful and changes nothing.** It is there unless the brackets do
not match or no token but terminators is left. A parse that succeeds has recorded every token. -/
theorem trace_faithful (o : Options) (tokens : List Token) :
    let traced := Parse.ofTokens { o with debug := true } tokens
    let ts := Parse.prepare o tokens
    traced.result = (Parse.ofTokens { o with debug := false } tokens).result ∧
      (traced.trace? = none ↔ (∃ x, checkBrackets (dropBlanks tokens) = .error x) ∨
        ts.all (·.kind == .terminator) = true) ∧
      (∀ e, traced.result = .ok e →
        ∃ rows, traced.trace? = some rows ∧ rows.map (·.token) = ts.map (·.value)) ∧
      ∀ rows, traced.trace? = some rows → IsRecord o.simplify ts rows := by
  intro traced ts
  cases hcheck : checkBrackets (dropBlanks tokens) with
  | error x =>
    have hparse : ∀ b, Parse.ofTokens { o with debug := b } tokens = ⟨.error x, none⟩ := by
      intro b
      simp only [Parse.ofTokens, hcheck]
    simp only [traced, hparse]
    exact ⟨trivial, by simp, fun e he => (by cases he), fun rows hrows => by cases hrows⟩
  | ok u =>
    cases hall : ts.all (·.kind == .terminator) with
    | true =>
      have hparse : ∀ b, Parse.ofTokens { o with debug := b } tokens
          = ⟨.error (.malformed "" .empty), none⟩ := by
        intro b
        simp only [Parse.ofTokens, hcheck]
        exact if_pos hall
      simp only [traced, hparse]
      exact ⟨trivial, by simp, fun e he => (by cases he), fun rows hrows => by cases hrows⟩
    | false =>
      have hparse : ∀ b, Parse.ofTokens { o with debug := b } tokens
          = .ofOutcome b (Parse.whole o.simplify ts) := by
        intro b
        simp only [Parse.ofTokens, hcheck]
        exact if_neg (Bool.eq_false_iff.1 hall)
      simp only [traced, hparse]
      refine ⟨rfl, by simp [Parse.ofOutcome], fun e he => ⟨_, rfl, ?_⟩, ?_⟩
      · cases hw : (Parse.whole o.simplify ts).result with
        | error x =>
          simp only [Parse.ofOutcome, hw] at he
          cases he
        | ok v =>
          have htokens := congrArg (List.map Token.value) (Grammar.token_of_whole hw)
          rw [List.map_map] at htokens
          rw [if_pos rfl, List.map_map]
          exact htokens
      · rintro rows ⟨⟩
        exact isRecord_whole o.simplify ts

end Formula
