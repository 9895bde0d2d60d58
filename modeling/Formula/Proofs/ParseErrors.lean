/-
# Errors of parses

A reader fails only because the tokens form no expression, or because operands are refused while
simplifying. So a parse of a text fails with an error about the text, with an error of an operator,
or because a number leaves the range of doubles (`error_of_parse`).
-/
import Formula.Proofs.Conversions
import Formula.Proofs.Simplified

namespace Formula

/-! ## Kinds of errors -/

namespace Error

/-- Whether an error says that a text or its tokens form no expression. -/
def isSyntactic : Error → Bool
  | unknownToken _ _ | malformed _ _ | unbalanced _ _ | unexpectedOperator _ => true
  | _ => false

/-- Whether a reader may fail with an error: the tokens form no expression, or operands are refused
while simplifying. -/
def MayEndReading (s : Bool) (x : Error) : Prop :=
  x.isSyntactic = true ∨ s = true ∧ ∃ op l r, Simplify.Refused op l r x

end Error

/-! ## Failures of combined outcomes -/

namespace Outcome

variable {α β : Type} {m n : Nat} {P : Error → Prop}

/-- Whether every failure of an outcome satisfies `P`. -/
def FailsOnly (P : Error → Prop) (o : Outcome α n) : Prop := ∀ x, o.result = .error x → P x

namespace FailsOnly

/-- An outcome that consumes nothing does not fail. -/
theorem pure (v : α) (rest : List Token) : FailsOnly P (Outcome.pure v rest) := nofun

/-- An outcome that consumes one token does not fail. -/
theorem accept (step : Step) (v : α) (rest : List Token) :
    FailsOnly P (Outcome.accept step v rest) :=
  nofun

/-- A failure is the one that it is. -/
theorem failed {steps : List Step} {x : Error} (h : P x) :
    FailsOnly P (Outcome.failed steps x : Outcome α n) := by
  intro y hy
  cases hy
  exact h

/-- A recorded token adds no failure. -/
theorem after {o : Outcome α n} {step : Step} (h : FailsOnly P o) : FailsOnly P (o.after step) := by
  intro x hx
  rw [result_after] at hx
  exact h x hx

/-- Relaxing the bound adds no failure. -/
theorem relax {o : Outcome α n} (h : FailsOnly P o) : FailsOnly P o.relax := by
  intro x hx
  rw [result_relax] at hx
  exact h x hx

/-- A transformed outcome fails as before. -/
theorem map {f : α → β} {o : Outcome α n} (h : FailsOnly P o) : FailsOnly P (o.map f) := by
  intro x hx
  cases o with
  | failed steps y =>
    cases hx
    exact h _ rfl
  | done steps v t shorter => cases hx

/-- A computation that consumes nothing fails by itself. -/
theorem ofExcept {r : Except Error α} {rest : List Token} (h : ∀ x, r = .error x → P x) :
    FailsOnly P (Outcome.ofExcept r rest) := by
  intro x hx
  rw [result_ofExcept] at hx
  cases r with
  | error y =>
    cases hx
    exact h _ rfl
  | ok v => cases hx

/-- **Reading on fails with the first reader or with the second one.** -/
theorem andThen {o : Outcome α n}
    {next : (v : α) → (t : List Token) → t.length < n → Outcome β (t.length + 1)}
    (h : FailsOnly P o) (hnext : ∀ v t ht, FailsOnly P (next v t ht)) :
    FailsOnly P (o.andThen next) := by
  intro x hx
  cases ho : o.result with
  | error y =>
    cases o with
    | failed steps z =>
      cases hx
      exact h _ rfl
    | done steps v t shorter => cases ho
  | ok p =>
    obtain ⟨v, t⟩ := p
    rw [result_andThen_of_ok ho] at hx
    exact hnext v t _ x hx

/-- Reading on with at least one token fails with the first reader or with the second one. -/
theorem andRead {o : Outcome α n}
    {next : (v : α) → (t : List Token) → t.length < n → Outcome β t.length}
    (h : FailsOnly P o) (hnext : ∀ v t ht, FailsOnly P (next v t ht)) :
    FailsOnly P (o.andRead next) :=
  h.andThen fun v t ht => (hnext v t ht).relax

/-- Taking a token fails for the given reason. -/
theorem take {p : Pending} {kind : Kind} {cause : Malformed} {ts : List Token}
    (h : ∀ near, P (.malformed near cause)) : FailsOnly P (Outcome.take p kind cause ts) := by
  unfold Outcome.take
  split
  · exact .failed (h _)
  · split
    · exact .accept _ _ _
    · exact .failed (h _)

/-- An outcome that has to be followed by a token fails as before or for the given reason. -/
theorem followedBy {p : Pending} {kind : Kind} {cause : Malformed} {o : Outcome α n}
    (ho : FailsOnly P o) (h : ∀ near, P (.malformed near cause)) :
    FailsOnly P (o.followedBy p kind cause) :=
  ho.andRead fun _ _ _ => (take h).map

/-- Skipping terminators does not fail. -/
theorem skipTerminators {p : Pending} {ts : List Token} :
    FailsOnly P (Outcome.skipTerminators p ts) := by
  intro x hx
  rw [result_skipTerminators] at hx
  cases hx

/-- Skipping an optional `return` does not fail. -/
theorem skipReturn {p : Pending} {ts : List Token} : FailsOnly P (Outcome.skipReturn p ts) := by
  intro x hx
  rw [result_skipReturn] at hx
  cases hx

end FailsOnly

end Outcome

/-! ## Failures of the readers -/

namespace Grammar

open Outcome Outcome.FailsOnly

variable {s : Bool}

/-- Whatever is malformed ends a reading. -/
theorem mayEndReading_malformed (near : String) (cause : Malformed) :
    Error.MayEndReading s (.malformed near cause) :=
  .inl rfl

/-- A token that starts no operand ends a reading. -/
theorem mayEndReading_unexpected (t : Token) : Error.MayEndReading s (unexpected t) := by
  unfold unexpected
  split
  · exact .inl rfl
  · exact .inl rfl

/-- Operands that are refused end a reading. -/
theorem mayEndReading_operate {op : Operator} {l r : Expr} {x : Error}
    (h : operate s op l r = .error x) : Error.MayEndReading s x := by
  cases s with
  | false => cases h
  | true => exact .inr ⟨rfl, op, l, r, Simplify.refused_of_build h⟩

/-- A wrong number of arguments ends a reading. -/
theorem mayEndReading_ofCall {name : String} {es : List Expr} {x : Error}
    (h : Expr.ofCall name es = .error x) : Error.MayEndReading s x := by
  unfold Expr.ofCall at h
  split at h <;> split at h <;> cases h <;> exact .inl rfl

/-- Reading factorials ends with a wrong number of arguments only. -/
theorem factorials_fails (p : Pending) (ts : List Token) :
    ∀ e, FailsOnly (Error.MayEndReading s) (factorials p e ts) := by
  induction ts with
  | nil => exact fun e => .pure _ _
  | cons t ts ih =>
    intro e
    rw [factorials]
    split
    · split
      · exact (ih _).after
      · rename_i h
        exact .failed (mayEndReading_ofCall h)
    · exact .pure _ _

-- the readers call each other on the same tokens too, in an order that the measures count
mutual

/-- Failures of the expression reader. -/
theorem expression_fails (p : Pending) (least : Nat) (ts : List Token) :
    FailsOnly (Error.MayEndReading s) (expression s p least ts) := by
  rw [expression]
  exact (unary_fails p least ts).andThen fun left rest _ => chain_fails p least left rest
  termination_by 8 * ts.length + 4
  decreasing_by all_goals omega

/-- Failures of the reader of operator chains. -/
theorem chain_fails (p : Pending) (least : Nat) (left : Expr) (ts : List Token) :
    FailsOnly (Error.MayEndReading s) (chain s p least left ts) := by
  match ts with
  | [] =>
    rw [chain]
    exact .pure _ _
  | t :: rest =>
    rw [chain]
    split
    · exact .pure _ _
    · rename_i op _
      split
      · exact .pure _ _
      · refine ((expression_fails ((op, left) :: p) op.rightLevel rest).andThen
          fun right rest' _ => ?_).relax.after
        split
        · rename_i h
          exact .failed (mayEndReading_operate h)
        · exact chain_fails p least _ rest'
  termination_by 8 * ts.length
  decreasing_by all_goals (simp only [List.length_cons]; omega)

/-- Failures of the reader of signed operands. -/
theorem unary_fails (p : Pending) (least : Nat) (ts : List Token) :
    FailsOnly (Error.MayEndReading s) (unary s p least ts) := by
  match ts with
  | [] =>
    rw [unary]
    exact postfixed_fails p []
  | t :: rest =>
    rw [unary]
    split
    · exact (unary_fails p least rest).after
    · exact ((expression_fails p (max least minusLevel) rest).andThen fun _ _ _ =>
        .ofExcept fun _ => mayEndReading_operate).after
    · exact ((expression_fails p (max least notLevel) rest).andThen fun _ _ _ =>
        .ofExcept fun _ => mayEndReading_operate).after
    · exact postfixed_fails p (t :: rest)
  termination_by 8 * ts.length + 3
  decreasing_by all_goals first | omega | (simp only [List.length_cons]; omega)

/-- Failures of the reader of operands with factorials. -/
theorem postfixed_fails (p : Pending) (ts : List Token) :
    FailsOnly (Error.MayEndReading s) (postfixed s p ts) := by
  rw [postfixed]
  exact (primary_fails p ts).andThen fun e rest _ => factorials_fails p rest e
  termination_by 8 * ts.length + 2
  decreasing_by all_goals omega

/-- Failures of the reader of operands. -/
theorem primary_fails (p : Pending) (ts : List Token) :
    FailsOnly (Error.MayEndReading s) (primary s p ts) := by
  match ts with
  | [] =>
    rw [primary]
    exact .failed (mayEndReading_malformed _ _)
  | t :: rest =>
    rw [primary]
    split
    · exact .accept _ _ _
    · split
      · exact ((expression_fails p 0 rest).followedBy fun _ => mayEndReading_malformed _ _).after
      · exact block_fails p (t :: rest)
      · exact application_fails p (t :: rest)
      · exact alternatives_fails p (t :: rest)
      · exact .failed (mayEndReading_unexpected t)
  termination_by 8 * ts.length + 1
  decreasing_by all_goals (simp only [List.length_cons]; omega)

/-- Failures of the reader of applications. -/
theorem application_fails (p : Pending) (ts : List Token) :
    FailsOnly (Error.MayEndReading s) (application s p ts) := by
  match ts with
  | [] =>
    rw [application]
    exact .failed (mayEndReading_malformed _ _)
  | t :: rest =>
    rw [application]
    refine FailsOnly.after (FailsOnly.andThen (FailsOnly.followedBy ?_ fun _ =>
      mayEndReading_malformed _ _) fun _ _ _ => .ofExcept fun _ => mayEndReading_ofCall)
    exact (take fun _ => mayEndReading_malformed _ _).andThen fun _ rest₁ _ =>
      arguments_fails p rest₁
  termination_by 8 * ts.length
  decreasing_by all_goals (simp only [List.length_cons]; omega)

/-- Failures of the reader of argument lists. -/
theorem arguments_fails (p : Pending) (ts : List Token) :
    FailsOnly (Error.MayEndReading s) (arguments s p ts) := by
  rw [arguments]
  split
  · exact .pure _ _
  · exact ((expression_fails p 0 ts).andThen fun _ rest _ =>
      (moreArguments_fails p rest).map).relax
  termination_by 8 * ts.length + 5
  decreasing_by all_goals omega

/-- Failures of the reader of further arguments. -/
theorem moreArguments_fails (p : Pending) (ts : List Token) :
    FailsOnly (Error.MayEndReading s) (moreArguments s p ts) := by
  match ts with
  | [] =>
    rw [moreArguments]
    exact .pure _ _
  | t :: rest =>
    rw [moreArguments]
    split
    · exact ((expression_fails p 0 rest).andThen fun _ rest₁ _ =>
        (moreArguments_fails p rest₁).map).relax.after
    · exact .pure _ _
  termination_by 8 * ts.length
  decreasing_by all_goals (simp only [List.length_cons]; omega)

/-- Failures of the reader of blocks. -/
theorem block_fails (p : Pending) (ts : List Token) :
    FailsOnly (Error.MayEndReading s) (block s p ts) := by
  rw [block]
  refine (take fun _ => mayEndReading_malformed _ _).andThen fun _ rest _ =>
    skipTerminators.andThen fun _ rest₁ _ => skipReturn.andRead fun _ rest₂ _ =>
      FailsOnly.followedBy ?_ fun _ => mayEndReading_malformed _ _
  exact (expression_fails p 0 rest₂).andThen fun _ _ _ => skipTerminators.map
  termination_by 8 * ts.length
  decreasing_by all_goals omega

/-- Failures of the reader of conditionals. -/
theorem alternatives_fails (p : Pending) (ts : List Token) :
    FailsOnly (Error.MayEndReading s) (alternatives s p ts) := by
  match ts with
  | [] =>
    rw [alternatives]
    exact .failed (mayEndReading_malformed _ _)
  | t :: rest =>
    rw [alternatives]
    refine FailsOnly.after ?_
    split
    · exact listAlternatives_fails p rest
    · exact (expression_fails p 0 rest).andRead fun c rest₁ _ => branches_fails p c rest₁
  termination_by 8 * ts.length
  decreasing_by all_goals (simp only [List.length_cons]; omega)

/-- Failures of the reader of branches. -/
theorem branches_fails (p : Pending) (c : Expr) (ts : List Token) :
    FailsOnly (Error.MayEndReading s) (branches s p c ts) := by
  match ts with
  | [] =>
    rw [branches]
    exact .failed (mayEndReading_malformed _ _)
  | u :: rest =>
    rw [branches]
    split
    · exact (((expression_fails p 0 rest).followedBy fun _ =>
        mayEndReading_malformed _ _).andRead fun _ rest₁ _ =>
          (expression_fails p 0 rest₁).map).after
    · refine ((block_fails p (u :: rest)).followedBy fun _ =>
        mayEndReading_malformed _ _).andRead fun _ rest₁ _ => ?_
      split
      · exact (alternatives_fails p rest₁).map
      · exact (block_fails p rest₁).map
    · exact .failed (mayEndReading_malformed _ _)
  termination_by 8 * ts.length + 1
  decreasing_by all_goals (simp only [List.length_cons] at *; omega)

/-- Failures of the reader of conditionals in list form. -/
theorem listAlternatives_fails (p : Pending) (ts : List Token) :
    FailsOnly (Error.MayEndReading s) (listAlternatives s p ts) := by
  rw [listAlternatives]
  exact (take fun _ => mayEndReading_malformed _ _).andRead fun _ rest _ =>
    ((expression_fails p 0 rest).followedBy fun _ => mayEndReading_malformed _ _).andRead
      fun _ rest₁ _ => ((expression_fails p 0 rest₁).followedBy fun _ =>
        mayEndReading_malformed _ _).andRead fun _ rest₂ _ =>
          ((expression_fails p 0 rest₂).followedBy fun _ => mayEndReading_malformed _ _).map
  termination_by 8 * ts.length
  decreasing_by all_goals omega

end

end Grammar

/-! ## Failures of parses -/

open Grammar Outcome

/-- The bracket check fails only for an unbalanced bracket. -/
theorem isSyntactic_of_closeBrackets {stack : List (Bracket × String)} {ts : List Token}
    {x : Error} (h : closeBrackets stack ts = .error x) : x.isSyntactic = true := by
  fun_induction closeBrackets stack ts with
  | case1 => cases h
  | case2 =>
    cases h
    rfl
  | case3 _ _ _ _ _ ih => exact ih h
  | case4 _ _ _ _ _ _ ih => exact ih h
  | case5 =>
    cases h
    rfl
  | case6 =>
    cases h
    rfl
  | case7 _ _ _ _ _ ih => exact ih h

/-- Failures of reading a whole token list. -/
theorem whole_fails (s : Bool) (ts : List Token) :
    FailsOnly (Error.MayEndReading s) (Parse.whole s ts) := by
  refine (expression_fails [] 0 ts).andThen fun e rest _ =>
    FailsOnly.skipTerminators.andThen fun _ rest' _ => ?_
  split
  · exact .pure _ _
  · exact .failed (mayEndReading_malformed _ _)

/-- **What ends a parse**: the tokens form no expression, or operands are refused while
simplifying. -/
theorem mayEndReading_of_parse {o : Options} {ts : List Token} {x : Error}
    (h : parse o ts = .error x) : x.MayEndReading o.simplify := by
  unfold parse Parse.ofTokens at h
  split at h
  · rename_i hb
    cases h
    exact .inl (isSyntactic_of_closeBrackets hb)
  · split at h
    · cases h
      exact .inl rfl
    · simp only [Parse.ofOutcome] at h
      cases hw : (Parse.whole o.simplify (Parse.prepare o ts)).result with
      | error y =>
        rw [hw] at h
        cases h
        exact whole_fails _ _ _ hw
      | ok p =>
        rw [hw] at h
        cases h

namespace Lexicon

/-- A text is cut into tokens up to a character that starts none. -/
theorem isSyntactic_of_scan {l : Lexicon} {position : Nat} {cs : List Char} {x : Error}
    (h : l.scan position cs = .error x) : x.isSyntactic = true := by
  fun_induction scan l position cs with
  | case1 => cases h
  | case2 =>
    cases h
    rfl
  | case3 => cases h
  | case4 position c rest t ht y hy ih =>
    cases h
    exact ih hy

/-- **What ends the reading of a text**: it forms no expression, or operands are refused while
simplifying. -/
theorem mayEndReading_of_text {l : Lexicon} {o : Options} {text : String} {x : Error}
    (h : (l.tokenize text).bind (parse o) = .error x) : x.MayEndReading o.simplify := by
  cases ht : l.tokenize text with
  | error y =>
    rw [ht] at h
    cases h
    exact .inl (isSyntactic_of_scan ht)
  | ok ts =>
    rw [ht] at h
    exact mayEndReading_of_parse h

/-- **Reading a text** never trips over the value of a token. It fails because the text forms no
expression, or while simplifying because an operator has no value for its operands or a number
leaves the range of doubles. If the text forms an expression, the folded operands of one of its
operations are refused. -/
theorem error_of_parse {l : Lexicon} (hl : l ∈ builtin) (o : Options) (text : String) :
    (∀ ts, l.tokenize text = .ok ts → ∀ t ∈ ts, t.Converts) ∧
      (∀ x, (l.tokenize text).bind (parse o) = .error x → x.isSyntactic = true ∨
        o.simplify = true ∧ (x.isIntrinsic = true ∨ x.leavesRange = true) ∧
          ∃ op a b, Simplify.Refused op a b x) ∧
        ∀ e x, (l.tokenize text).bind (parse { o with simplify := false }) = .ok e →
          (l.tokenize text).bind (parse { o with simplify := true }) = .error x →
            ∃ f ∈ e.operations, Expr.RefusedAt f x := by
  refine ⟨fun ts h => converts_of_tokenize hl h, fun x h => ?_, fun e x he hx => ?_⟩
  · refine (mayEndReading_of_text h).imp_right fun ⟨hs, op, a, b, hrefused⟩ => ?_
    exact ⟨hs, hrefused.isIntrinsic_or_leavesRange, op, a, b, hrefused⟩
  · cases ht : l.tokenize text with
    | error y =>
      rw [ht] at he
      cases he
    | ok ts =>
      rw [ht] at he hx
      exact Expr.exists_refused ((parse_simplified he).symm.trans hx)

/-- A divisor that folds to zero is refused where it stands. -/
theorem error_of_parse_difference :
    let text := "x+1/(2-2)"
    let divisor : Expr := .operation .sub (.integer 2) (.integer 2)
    let quotient : Expr := .operation .div (.integer 1) divisor
    let e : Expr := .operation .add (.identifier "x") quotient
    pricing ∈ builtin ∧
      (pricing.tokenize text).bind (parse { simplify := false }) = .ok e ∧
        (pricing.tokenize text).bind (parse {}) = .error (.divisionByZero "/") ∧
          ∃ f ∈ e.operations, Expr.RefusedAt f (.divisionByZero "/") := by
  intro text divisor quotient e
  have hl : pricing ∈ builtin := by decide
  have he : (pricing.tokenize text).bind (parse { simplify := false }) = .ok e := by
    decide +kernel
  have hx : (pricing.tokenize text).bind (parse {}) = .error (.divisionByZero "/") := by
    decide +kernel
  exact ⟨hl, he, hx, (error_of_parse hl {} text).2.2 e _ he hx⟩

/-- **A number that leaves the range ends a parse with no error about the expression**: a quotient
whose double is too large, and a divisor that is not zero but has the double zero. -/
theorem parse_outOfRange :
    (standard.tokenize "2^512*2^512*2^512/3").bind (parse {}) = .error .overflow ∧
      (standard.tokenize "1.5/(1/2^512/2^512/2^512)").bind (parse {}) = .error .uncheckedZero ∧
        Error.overflow.isSyntactic = false ∧ Error.overflow.isIntrinsic = false ∧
          Error.uncheckedZero.isSyntactic = false ∧ Error.uncheckedZero.isIntrinsic = false := by
  decide +kernel

end Lexicon

end Formula
