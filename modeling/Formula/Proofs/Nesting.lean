/-
# Readers that enter each other

The readers of the grammar enter each other, partly without having consumed a token. One entry of a
reader is a step: what it does itself, given what the readers do that it enters. **Enough steps
settle every reader**: after `8 * n + 5` of them nothing is left of what the readers did at the
start, for a list of `n` tokens and whether or not it is well-formed (`agree_nested`). So the
readers nest no deeper, and every reading ends. A reader that yields an expression has consumed at
least one token, and **none consumes tokens past the end of the list**
(`readings_end_and_advance`).
-/
import Formula.Proofs.Tracing

namespace Formula

namespace Outcome

variable {α β : Type} {n : Nat}

/-! ## Equal outcomes -/

/-- Reading on in the same way from one outcome gives one outcome. -/
theorem andThen_congr {o o' : Outcome α n}
    {next next' : (v : α) → (rest : List Token) → rest.length < n → Outcome β (rest.length + 1)}
    (ho : o = o') (hnext : ∀ v rest hlt, next v rest hlt = next' v rest hlt) :
    o.andThen next = o'.andThen next' := by
  have hfun : next = next' := funext fun v => funext fun rest => funext fun hlt => hnext v rest hlt
  rw [ho, hfun]

/-- Reading on with at least one token in the same way from one outcome gives one outcome. -/
theorem andRead_congr {o o' : Outcome α n}
    {next next' : (v : α) → (rest : List Token) → rest.length < n → Outcome β rest.length}
    (ho : o = o') (hnext : ∀ v rest hlt, next v rest hlt = next' v rest hlt) :
    o.andRead next = o'.andRead next' :=
  andThen_congr ho fun v rest hlt => congrArg relax (hnext v rest hlt)

/-- **Whether an outcome of reading tokens advances through them**: what it consumes are the first
tokens, and a value comes behind at least one of them and leaves the others. -/
structure Advances (ts : List Token) (o : Outcome α n) : Prop where
  within : o.steps.map (·.token) <+: ts
  moved : ∀ v rest, o.result = .ok (v, rest) →
    o.steps ≠ [] ∧ ts = o.steps.map (·.token) ++ rest

/-- Reading behind a token advances if what follows does. -/
theorem Advances.after {t : Token} {p : Pending} {ts : List Token} {o : Outcome α n}
    (h : o.Advances ts) : (o.after ⟨t, p⟩).Advances (t :: ts) := by
  cases o with
  | failed steps x => exact ⟨(List.prefix_cons_inj t).2 h.within, nofun⟩
  | done steps v rest hlt =>
    obtain ⟨-, hts⟩ := h.moved v rest rfl
    refine ⟨(List.prefix_cons_inj t).2 h.within, ?_⟩
    rintro _ _ ⟨⟩
    exact ⟨List.cons_ne_nil _ _, congrArg (t :: ·) hts⟩

end Outcome

namespace Grammar

open Outcome

/-! ## Steps -/

/-- Readers that may enter each other, one for each rule of the grammar. -/
@[ext] structure Readers where
  expression : Pending → Nat → (ts : List Token) → Outcome Expr ts.length
  chain : Pending → Nat → Expr → (ts : List Token) → Outcome Expr (ts.length + 1)
  unary : Pending → Nat → (ts : List Token) → Outcome Expr ts.length
  postfixed : Pending → (ts : List Token) → Outcome Expr ts.length
  primary : Pending → (ts : List Token) → Outcome Expr ts.length
  application : Pending → (ts : List Token) → Outcome Expr ts.length
  arguments : Pending → (ts : List Token) → Outcome (List Expr) (ts.length + 1)
  moreArguments : Pending → (ts : List Token) → Outcome (List Expr) (ts.length + 1)
  block : Pending → (ts : List Token) → Outcome Expr ts.length
  alternatives : Pending → (ts : List Token) → Outcome Expr ts.length
  branches : Pending → Expr → (ts : List Token) → Outcome Expr ts.length
  listAlternatives : Pending → (ts : List Token) → Outcome Expr ts.length

/-- The readers of the grammar. -/
def readers (s : Bool) : Readers where
  expression := expression s
  chain := chain s
  unary := unary s
  postfixed := postfixed s
  primary := primary s
  application := application s
  arguments := arguments s
  moreArguments := moreArguments s
  block := block s
  alternatives := alternatives s
  branches := branches s
  listAlternatives := listAlternatives s

namespace Readers

/-- **One step**: what each reader does itself, when the readers that it enters are given. -/
def step (s : Bool) (R : Readers) : Readers where
  expression p least ts :=
    (R.unary p least ts).andThen fun left rest _ => R.chain p least left rest
  chain p least left ts :=
    match ts with
    | [] => pure left []
    | t :: rest =>
      match t.kind.binary? with
      | none => pure left (t :: rest)
      | some op =>
        if op.level < least then pure left (t :: rest)
        else
          ((R.expression ((op, left) :: p) op.rightLevel rest).andThen fun right rest' _ =>
            match operate s op left right with
            | .error error => failed [] error
            | .ok whole => R.chain p least whole rest').relax.after ⟨t, (op, left) :: p⟩
  unary p least ts :=
    match ts with
    | [] => R.postfixed p []
    | t :: rest =>
      match t.kind with
      | .operator .add => (R.unary p least rest).after ⟨t, p⟩
      | .operator .sub =>
        ((R.expression p (max least minusLevel) rest).andThen fun e rest' _ =>
          ofExcept (operate s .sub e .hole) rest').after ⟨t, p⟩
      | .operator .not =>
        ((R.expression p (max least notLevel) rest).andThen fun e rest' _ =>
          ofExcept (operate s .not e .hole) rest').after ⟨t, p⟩
      | _ => R.postfixed p (t :: rest)
  postfixed p ts := (R.primary p ts).andThen fun e rest _ => factorials p e rest
  primary p ts :=
    match ts with
    | [] => failed [] (.malformed "" .unexpectedEnd)
    | t :: rest =>
      match operand? t with
      | some e => accept ⟨t, p⟩ e rest
      | none =>
        match t.kind with
        | .opening .paren =>
          ((R.expression p 0 rest).followedBy p (.closing .paren) (.expected "')'")).after ⟨t, p⟩
        | .opening .brace => R.block p (t :: rest)
        | .function => R.application p (t :: rest)
        | .ifWord => R.alternatives p (t :: rest)
        | _ => failed [] (unexpected t)
  application p ts :=
    match ts with
    | [] => failed [] (.malformed "" .unexpectedEnd)
    | t :: rest =>
      (((take p (.opening .paren) (.callWithoutParenthesis t.value) rest).andThen fun _ rest₁ _ =>
          R.arguments p rest₁).followedBy p (.closing .paren)
            (.expected s!"')' after arguments of '{t.value}'")
        |>.andThen fun es rest₂ _ => ofExcept (Expr.ofCall t.value es) rest₂).after ⟨t, p⟩
  arguments p ts :=
    if startsWith (.closing .paren) ts then pure [] ts
    else
      ((R.expression p 0 ts).andThen fun e rest _ =>
        (R.moreArguments p rest).map fun es => e :: es).relax
  moreArguments p ts :=
    match ts with
    | [] => pure [] []
    | t :: rest =>
      if t.kind = .terminator then
        ((R.expression p 0 rest).andThen fun e rest₁ _ =>
          (R.moreArguments p rest₁).map fun es => e :: es).relax.after ⟨t, p⟩
      else pure [] (t :: rest)
  block p ts :=
    (take p (.opening .brace) (.expected "'\x7b'") ts).andThen fun _ rest _ =>
      (skipTerminators p rest).andThen fun _ rest₁ _ =>
        (skipReturn p rest₁).andRead fun _ rest₂ _ =>
          ((R.expression p 0 rest₂).andThen fun e rest₃ _ =>
            (skipTerminators p rest₃).map fun _ => e).followedBy p (.closing .brace)
              (.expected "'\x7d'")
  alternatives p ts :=
    match ts with
    | [] => failed [] (.malformed "" .unexpectedEnd)
    | t :: rest =>
      (if startsList rest then R.listAlternatives p rest
      else (R.expression p 0 rest).andRead fun c rest₁ _ => R.branches p c rest₁).after ⟨t, p⟩
  branches p c ts :=
    match ts with
    | [] => failed [] (.malformed "" (.expected "THEN or '\x7b' after the condition"))
    | u :: rest =>
      match u.kind with
      | .thenWord =>
        (((R.expression p 0 rest).followedBy p .elseWord (.expected "ELSE")).andRead
          fun yes rest₁ _ =>
            (R.expression p 0 rest₁).map fun no => select s c yes no).after ⟨u, p⟩
      | .opening .brace =>
        ((R.block p (u :: rest)).followedBy p .elseWord (.expected "'else'")).andRead
          fun yes rest₁ _ =>
            if startsWith .ifWord rest₁ then
              (R.alternatives p rest₁).map fun no => select s c yes no
            else (R.block p rest₁).map fun no => select s c yes no
      | _ => failed [] (.malformed u.value (.expected "THEN or '\x7b' after the condition"))
  listAlternatives p ts :=
    (take p (.opening .paren) (.expected "'('") ts).andRead fun _ rest _ =>
      ((R.expression p 0 rest).followedBy p .terminator
        (.expected "';' after the condition")).andRead fun c rest₁ _ =>
          ((R.expression p 0 rest₁).followedBy p .terminator
            (.expected "';' after the first branch")).andRead fun yes rest₂ _ =>
              ((R.expression p 0 rest₂).followedBy p (.closing .paren) (.expected "')'")).map
                fun no => select s c yes no

/-- **The readers of the grammar are settled**: a step changes none of them. -/
theorem step_readers (s : Bool) : step s (readers s) = readers s := by
  ext p
  case expression least ts => exact (Grammar.expression.eq_def s p least ts).symm
  case chain least left ts => exact (Grammar.chain.eq_def s p least left ts).symm
  case unary least ts => exact (Grammar.unary.eq_def s p least ts).symm
  case postfixed ts => exact (Grammar.postfixed.eq_def s p ts).symm
  case primary ts => exact (Grammar.primary.eq_def s p ts).symm
  case application ts => exact (Grammar.application.eq_def s p ts).symm
  case arguments ts => exact (Grammar.arguments.eq_def s p ts).symm
  case moreArguments ts => exact (Grammar.moreArguments.eq_def s p ts).symm
  case block ts => exact (Grammar.block.eq_def s p ts).symm
  case alternatives ts => exact (Grammar.alternatives.eq_def s p ts).symm
  case branches c ts => exact (Grammar.branches.eq_def s p c ts).symm
  case listAlternatives ts => exact (Grammar.listAlternatives.eq_def s p ts).symm

/-! ## Settled readers -/

/-- **Whether two families of readers agree on short lists.** A reader that is entered without
consuming a token has a smaller share of the bound than the one that enters it. -/
structure Agree (k : Nat) (R R' : Readers) : Prop where
  expression : ∀ p least ts, 8 * ts.length + 4 < k →
    R.expression p least ts = R'.expression p least ts
  chain : ∀ p least left ts, 8 * ts.length < k → R.chain p least left ts = R'.chain p least left ts
  unary : ∀ p least ts, 8 * ts.length + 3 < k → R.unary p least ts = R'.unary p least ts
  postfixed : ∀ p ts, 8 * ts.length + 2 < k → R.postfixed p ts = R'.postfixed p ts
  primary : ∀ p ts, 8 * ts.length + 1 < k → R.primary p ts = R'.primary p ts
  application : ∀ p ts, 8 * ts.length < k → R.application p ts = R'.application p ts
  arguments : ∀ p ts, 8 * ts.length + 5 < k → R.arguments p ts = R'.arguments p ts
  moreArguments : ∀ p ts, 8 * ts.length < k → R.moreArguments p ts = R'.moreArguments p ts
  block : ∀ p ts, 8 * ts.length < k → R.block p ts = R'.block p ts
  alternatives : ∀ p ts, 8 * ts.length < k → R.alternatives p ts = R'.alternatives p ts
  branches : ∀ p c ts, 8 * ts.length + 1 < k → R.branches p c ts = R'.branches p c ts
  listAlternatives : ∀ p ts, 8 * ts.length < k → R.listAlternatives p ts = R'.listAlternatives p ts

variable {s : Bool} {k : Nat} {R R' : Readers}

/-- **A step of readers that agree on short lists agrees on longer ones.** -/
theorem Agree.step (h : Agree k R R') : Agree (k + 1) (step s R) (step s R') where
  expression p least ts hk :=
    andThen_congr (h.unary p least ts (by omega)) fun left rest hlt =>
      h.chain p least left rest (by omega)
  chain p least left ts hk := by
    cases ts with
    | nil => rfl
    | cons t rest =>
      rw [List.length_cons] at hk
      dsimp only [Readers.step]
      split
      · rfl
      · split
        · rfl
        · refine congrArg (fun o => after _ (relax o)) (andThen_congr
            (h.expression _ _ rest (by omega)) fun right rest' hlt => ?_)
          split
          · rfl
          · exact h.chain _ _ _ rest' (by omega)
  unary p least ts hk := by
    cases ts with
    | nil => exact h.postfixed p [] (by omega)
    | cons t rest =>
      rw [List.length_cons] at hk
      dsimp only [Readers.step]
      split
      · exact congrArg (after _) (h.unary p least rest (by omega))
      · exact congrArg (after _)
          (andThen_congr (h.expression _ _ rest (by omega)) fun _ _ _ => rfl)
      · exact congrArg (after _)
          (andThen_congr (h.expression _ _ rest (by omega)) fun _ _ _ => rfl)
      · exact h.postfixed p (t :: rest) (by rw [List.length_cons]; omega)
  postfixed p ts hk := andThen_congr (h.primary p ts (by omega)) fun _ _ _ => rfl
  primary p ts hk := by
    cases ts with
    | nil => rfl
    | cons t rest =>
      have hlong : 8 * (t :: rest).length < k := by omega
      rw [List.length_cons] at hk
      dsimp only [Readers.step]
      split
      · rfl
      · split
        · exact congrArg (fun o => after _ (followedBy _ _ _ o))
            (h.expression p 0 rest (by omega))
        · exact h.block p (t :: rest) hlong
        · exact h.application p (t :: rest) hlong
        · exact h.alternatives p (t :: rest) hlong
        · rfl
  application p ts hk := by
    cases ts with
    | nil => rfl
    | cons t rest =>
      rw [List.length_cons] at hk
      refine congrArg (fun o => after _ (andThen (followedBy _ _ _ o) _))
        (andThen_congr rfl fun _ rest₁ hlt => ?_)
      exact h.arguments p rest₁ (by omega)
  arguments p ts hk := by
    dsimp only [Readers.step]
    split
    · rfl
    · refine congrArg relax (andThen_congr (h.expression p 0 ts (by omega)) fun e rest hlt => ?_)
      exact congrArg (Outcome.map _) (h.moreArguments p rest (by omega))
  moreArguments p ts hk := by
    cases ts with
    | nil => rfl
    | cons t rest =>
      rw [List.length_cons] at hk
      dsimp only [Readers.step]
      split
      · refine congrArg (fun o => after _ (relax o))
          (andThen_congr (h.expression p 0 rest (by omega)) fun e rest₁ hlt => ?_)
        exact congrArg (Outcome.map _) (h.moreArguments p rest₁ (by omega))
      · rfl
  block p ts hk :=
    andThen_congr rfl fun _ rest hlt => andThen_congr rfl fun _ rest₁ hlt₁ =>
      andRead_congr rfl fun _ rest₂ hlt₂ => congrArg (followedBy _ _ _)
        (andThen_congr (h.expression p 0 rest₂ (by omega)) fun _ _ _ => rfl)
  alternatives p ts hk := by
    cases ts with
    | nil => rfl
    | cons t rest =>
      rw [List.length_cons] at hk
      dsimp only [Readers.step]
      refine congrArg (after _) ?_
      split
      · exact h.listAlternatives p rest (by omega)
      · exact andRead_congr (h.expression p 0 rest (by omega)) fun c rest₁ hlt =>
          h.branches p c rest₁ (by omega)
  branches p c ts hk := by
    cases ts with
    | nil => rfl
    | cons u rest =>
      have hlong : 8 * (u :: rest).length < k := by omega
      rw [List.length_cons] at hk
      dsimp only [Readers.step]
      split
      · refine congrArg (after _) (andRead_congr
          (congrArg (followedBy _ _ _) (h.expression p 0 rest (by omega))) fun yes rest₁ hlt => ?_)
        exact congrArg (Outcome.map _) (h.expression p 0 rest₁ (by omega))
      · refine andRead_congr (congrArg (followedBy _ _ _) (h.block p (u :: rest) hlong))
          fun yes rest₁ hlt => ?_
        split
        · exact congrArg (Outcome.map _) (h.alternatives p rest₁ (by omega))
        · exact congrArg (Outcome.map _) (h.block p rest₁ (by omega))
      · rfl
  listAlternatives p ts hk :=
    andRead_congr rfl fun _ rest hlt =>
      andRead_congr (congrArg (followedBy _ _ _) (h.expression p 0 rest (by omega)))
        fun c rest₁ hlt₁ =>
          andRead_congr (congrArg (followedBy _ _ _) (h.expression p 0 rest₁ (by omega)))
            fun yes rest₂ hlt₂ => congrArg (fun o => Outcome.map _ (followedBy _ _ _ o))
              (h.expression p 0 rest₂ (by omega))

/-- Readers that nest `k` entries deep; what deeper entries do is given by `start`. -/
def nested (s : Bool) (start : Readers) : Nat → Readers
  | 0 => start
  | k + 1 => step s (nested s start k)

/-- **Nested deep enough, readers are settled**, whatever the deepest entries do. -/
theorem agree_nested (s : Bool) (start : Readers) (k : Nat) :
    Agree k (nested s start k) (readers s) := by
  induction k with
  | zero => constructor <;> intros <;> omega
  | succ k ih =>
    rw [nested, ← step_readers]
    exact ih.step

/-- The readers as they are entered: calls at the name of a function and conditionals at their word.
Anywhere else, `other` decides. -/
def enteredAtWords (R other : Readers) : Readers :=
  { R with
    application := fun p ts =>
      if startsWith .function ts then R.application p ts else other.application p ts
    alternatives := fun p ts =>
      if startsWith .ifWord ts then R.alternatives p ts else other.alternatives p ts }

/-- **Calls and conditionals are entered at their words only**, and never at the end of the
tokens. -/
theorem step_enteredAtWords (s : Bool) (R other : Readers) :
    step s (R.enteredAtWords other) = step s R := by
  ext p
  case primary ts =>
    cases ts with
    | nil => rfl
    | cons t rest =>
      dsimp only [step, enteredAtWords]
      split
      · rfl
      · split
        · rfl
        · rfl
        · rename_i hk
          rw [if_pos (startsWith_cons.2 hk)]
        · rename_i hk
          rw [if_pos (startsWith_cons.2 hk)]
        · rfl
  case branches c ts =>
    cases ts with
    | nil => rfl
    | cons u rest =>
      dsimp only [step, enteredAtWords]
      split
      · rfl
      · refine andRead_congr rfl fun yes rest₁ hlt => ?_
        split
        · rfl
        · rfl
      · rfl
  all_goals rfl

end Readers

/-! ## Advancing readers -/

/-- A reading with a faithful record advances. -/
theorem Follows.advances {s : Bool} {p : Pending} {flag : Option Bool} {ts : List Token}
    {o : Outcome Expr ts.length} (h : Follows s ts 0 p flag o) : o.Advances ts := by
  refine ⟨h.recorded.token_prefix, fun v rest hr => ?_⟩
  obtain ⟨hat, -, -⟩ := h.ended v rest hr
  have hlt := length_lt_of_result hr
  have hlength := hat.length_sub
  have htokens : o.steps.map (·.token) = ts.take o.steps.length := by
    have hprefix := List.prefix_iff_eq_take.1 h.recorded.token_prefix
    rwa [List.length_map] at hprefix
  refine ⟨?_, ?_⟩
  · intro hnil
    rw [hnil, List.length_nil] at hlength
    omega
  · rw [htokens, ← hat.drop, Nat.zero_add, List.take_append_drop]

/-- **Conditionals advance** behind any first token. -/
theorem advances_alternatives (s : Bool) (p : Pending) (ts : List Token) :
    (alternatives s p ts).Advances ts := by
  cases ts with
  | nil =>
    rw [alternatives]
    exact ⟨List.prefix_rfl, nofun⟩
  | cons t rest =>
    rw [alternatives]
    refine Advances.after ?_
    split
    · exact (listAlternatives_follows p rest 0 at_zero).advances
    · exact Follows.advances ((expression_follows p 0 rest 0 at_zero rfl).andRead
        fun c rest₁ _ e _ hat _ => branches_follows p c rest₁ e hat)

/-! ## Looking ahead -/

/-- How many brackets more are open behind a token than in front of it. -/
def opens : Kind → Int
  | .opening _ => 1
  | .closing _ => -1
  | _ => 0

/-- How many brackets more are opened than closed in a token list. -/
def opened (ts : List Token) : Int := (ts.map (opens ·.kind)).sum

/-- **Whether a terminator stands within `depth` open brackets**, directly in the outermost of them,
which is not closed before. -/
def HoldsTerminator (depth : Int) (ts : List Token) : Prop :=
  ∃ inner u rest, ts = inner ++ u :: rest ∧ u.kind = .terminator ∧ depth + opened inner = 1 ∧
    ∀ before, before <+: inner → 1 ≤ depth + opened before

/-- A terminator within brackets is the first token, or stands behind it. -/
theorem holdsTerminator_cons {depth : Int} {t : Token} {ts : List Token} :
    HoldsTerminator depth (t :: ts) ↔ 1 ≤ depth ∧
      (t.kind = .terminator ∧ depth = 1 ∨ HoldsTerminator (depth + opens t.kind) ts) := by
  have hopened : ∀ us, opened (t :: us) = opens t.kind + opened us := fun us => by simp [opened]
  constructor
  · rintro ⟨inner, u, rest, hts, hu, hdepth, hall⟩
    have hpos : 1 ≤ depth := by simpa [opened] using hall [] List.nil_prefix
    refine ⟨hpos, ?_⟩
    cases inner with
    | nil =>
      cases hts
      exact .inl ⟨hu, by simpa [opened] using hdepth⟩
    | cons v inner =>
      cases hts
      refine .inr ⟨inner, u, rest, rfl, hu, ?_, fun before hbefore => ?_⟩
      · rw [hopened] at hdepth
        omega
      · have hlong := hall (t :: before) ((List.prefix_cons_inj t).2 hbefore)
        rw [hopened] at hlong
        omega
  · rintro ⟨hpos, ⟨ht, hdepth⟩ | ⟨inner, u, rest, rfl, hu, hdepth, hall⟩⟩
    · refine ⟨[], t, ts, rfl, ht, by simpa [opened] using hdepth, fun before hbefore => ?_⟩
      rw [List.prefix_nil.1 hbefore]
      simpa [opened] using hpos
    · refine ⟨t :: inner, u, rest, rfl, hu, ?_, fun before hbefore => ?_⟩
      · rw [hopened]
        omega
      · cases before with
        | nil => simpa [opened] using hpos
        | cons v before =>
          obtain ⟨rfl, hrest⟩ := List.cons_prefix_cons.1 hbefore
          have hshort := hall before hrest
          rw [hopened]
          omega

/-- The scan for a terminator finds one within the open brackets. -/
theorem hasTerminator_iff {depth : Nat} {ts : List Token} (h : 1 ≤ depth) :
    hasTerminator depth ts = true ↔ HoldsTerminator depth ts := by
  induction ts generalizing depth with
  | nil =>
    refine iff_of_false Bool.false_ne_true ?_
    rintro ⟨inner, u, rest, hts, -⟩
    cases inner <;> cases hts
  | cons t ts ih =>
    rw [holdsTerminator_cons, hasTerminator]
    cases hk : t.kind with
    | opening b =>
      simp only [opens, reduceCtorEq, false_and, false_or]
      rw [ih (by omega), Nat.cast_add_one]
      exact ⟨fun ht => ⟨by omega, ht⟩, And.right⟩
    | closing b =>
      simp only [opens, reduceCtorEq, false_and, false_or]
      split
      -- the outermost bracket is closed
      · refine iff_of_false Bool.false_ne_true ?_
        rintro ⟨-, inner, u, rest, -, -, -, hall⟩
        have hpos := hall [] List.nil_prefix
        simp only [opened, List.map_nil, List.sum_nil] at hpos
        omega
      · have hcast : ((depth - 1 : Nat) : Int) = depth + -1 := by omega
        rw [ih (by omega), hcast]
        exact ⟨fun ht => ⟨by omega, ht⟩, And.right⟩
    | terminator =>
      simp only [opens, Int.add_zero, true_and]
      split
      · rename_i hone
        exact iff_of_true rfl ⟨by omega, .inl (by omega)⟩
      · rw [ih h]
        exact ⟨fun ht => ⟨by omega, .inr ht⟩, fun ht => ht.2.resolve_left (by omega)⟩
    | _ =>
      simp only [opens, Int.add_zero, reduceCtorEq, false_and, false_or]
      rw [ih h]
      exact ⟨fun ht => ⟨by omega, ht⟩, And.right⟩

/-- **Looking ahead finds a list of arguments** exactly where a parenthesis holds a terminator
directly. -/
theorem startsList_iff {ts : List Token} :
    startsList ts = true ↔
      ∃ t rest, ts = t :: rest ∧ t.kind = .opening .paren ∧ HoldsTerminator 1 rest := by
  cases ts with
  | nil => exact iff_of_false Bool.false_ne_true (by rintro ⟨t, rest, hts, -⟩; cases hts)
  | cons t rest =>
    rw [startsList, Bool.and_eq_true, beq_iff_eq, hasTerminator_iff (Nat.le_refl 1), Nat.cast_one]
    constructor
    · rintro ⟨hk, ht⟩
      exact ⟨t, rest, rfl, hk, ht⟩
    · rintro ⟨_, _, ⟨⟩, hk, ht⟩
      exact ⟨hk, ht⟩

/-! ## All readers -/

namespace Readers

/-- What the readers of expressions make of a token list. -/
def outcomes (R : Readers) (p : Pending) (least : Nat) (ts : List Token) :
    List (Outcome Expr ts.length) :=
  [R.expression p least ts, R.unary p least ts, R.postfixed p ts, R.primary p ts,
    R.application p ts, R.block p ts, R.alternatives p ts, R.listAlternatives p ts]

end Readers

/-- **Every reading ends, and one that yields an expression advances.** Whatever is left of the
tokens, well-formed or not, `8 * n + 5` nested entries settle what each reader makes of them.
A reader consumes tokens in order and none past the end, and at least one when it yields an
expression; calls and conditionals are entered at their words. The scan for a list of arguments
moves nothing and ends at the terminator that it looks for, where the parenthesis is closed, or
with the tokens. -/
theorem readings_end_and_advance (s : Bool) (p : Pending) (least : Nat) (ts : List Token) :
    (∀ start k, 8 * ts.length + 4 < k →
      (Readers.nested s start k).outcomes p least ts = (readers s).outcomes p least ts) ∧
    (∀ o ∈ (readers s).outcomes p least ts, o.Advances ts) ∧
    (∀ R other, Readers.step s (R.enteredAtWords other) = Readers.step s R) ∧
    (startsList ts = true ↔
      ∃ t rest, ts = t :: rest ∧ t.kind = .opening .paren ∧ HoldsTerminator 1 rest) := by
  refine ⟨fun start k hk => ?_, ?_, Readers.step_enteredAtWords s, startsList_iff⟩
  · have h := Readers.agree_nested s start k
    rw [Readers.outcomes, h.expression p least ts hk, h.unary p least ts (by omega),
      h.postfixed p ts (by omega), h.primary p ts (by omega), h.application p ts (by omega),
      h.block p ts (by omega), h.alternatives p ts (by omega), h.listAlternatives p ts (by omega)]
    rfl
  · simp only [Readers.outcomes, readers, List.forall_mem_cons]
    exact ⟨(expression_follows p least ts 0 at_zero rfl).advances,
      (unary_follows p least ts 0 at_zero rfl).advances,
      (postfixed_follows p ts 0 at_zero rfl).advances,
      (primary_follows p ts 0 at_zero rfl).advances,
      (application_follows p ts 0 at_zero rfl).advances,
      (block_follows p ts 0 at_zero).advances,
      advances_alternatives s p ts,
      (listAlternatives_follows p ts 0 at_zero).advances, nofun⟩

/-- What the readers make of a conditional in list form that breaks off. -/
theorem readings_end_and_advance_unclosed :
    let ts : List Token := [⟨.ifWord, "if", "if", 0⟩, ⟨.opening .paren, "(", "(", 2⟩,
      ⟨.identifier, "x", "x", 3⟩, ⟨.terminator, ";", ";", 4⟩]
    8 * ts.length + 4 < 37 ∧
      (Readers.nested false (readers true) 37).outcomes [] 0 ts = (readers false).outcomes [] 0 ts ∧
      alternatives false [] ts ∈ (readers false).outcomes [] 0 ts ∧
      (alternatives false [] ts).Advances ts ∧
      (∃ t rest, ts.drop 1 = t :: rest ∧ t.kind = .opening .paren ∧ HoldsTerminator 1 rest) := by
  intro ts
  have hbound : 8 * ts.length + 4 < 37 := by decide
  have hmem : alternatives false [] ts ∈ (readers false).outcomes [] 0 ts := by
    simp [Readers.outcomes, readers]
  obtain ⟨hsettled, hadvances, -, -⟩ := readings_end_and_advance false [] 0 ts
  obtain ⟨-, -, -, hlist⟩ := readings_end_and_advance false [] 0 (ts.drop 1)
  exact ⟨hbound, hsettled _ _ hbound, hmem, hadvances _ hmem, hlist.1 rfl⟩

end Grammar

end Formula
