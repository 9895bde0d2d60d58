/-
# Balanced brackets

The bracket check keeps a stack of the open brackets. It accepts the token lists whose brackets form
a word of the Dyck language over two kinds of brackets, crossed pairs excluded, and what it reports
can be said without a stack: **the first closing bracket that does not match the innermost open one
before it, and else the innermost bracket that is open at the end** (`checkBrackets_blames`).
-/
import Formula.Token.Bracketing
import Mathlib.Data.List.Induction

namespace Formula

/-! ## Words of brackets -/

/-- Whether a token is a bracket. -/
def Token.isBracket (t : Token) : Bool :=
  match t.kind with
  | .opening _ | .closing _ => true
  | _ => false

/-- **The Dyck language of two kinds of brackets**, over tokens that are brackets. -/
inductive Dyck : List Token → Prop where
  | nil : Dyck []
  | wrap {o c : Token} {b : Bracket} {us vs : List Token} : o.kind = .opening b →
      c.kind = .closing b → Dyck us → Dyck vs → Dyck (o :: us ++ c :: vs)

/-- Words of the language one after the other form a word. -/
theorem Dyck.append {us vs : List Token} (hu : Dyck us) (hv : Dyck vs) : Dyck (us ++ vs) := by
  induction hu with
  | nil => exact hv
  | @wrap o c b us ws ho hc hus _ _ ih =>
    rw [List.append_assoc]
    exact .wrap ho hc hus ih

/-- Whether the brackets of a token list form a word of the Dyck language. -/
def Nests (ts : List Token) : Prop := Dyck (ts.filter Token.isBracket)

/-- Balanced lists one after the other are balanced. -/
theorem Nests.append {us vs : List Token} (hu : Nests us) (hv : Nests vs) : Nests (us ++ vs) := by
  rw [Nests, List.filter_append]
  exact Dyck.append hu hv

/-- A token that is no bracket is balanced. -/
theorem nests_singleton {t : Token} (h : t.isBracket = false) : Nests [t] := by
  rw [Nests, List.filter_cons_of_neg (by simp [h])]
  exact .nil

/-- A balanced list between an opening bracket and its partner is balanced. -/
theorem Nests.wrap {o c : Token} {b : Bracket} {us : List Token} (ho : o.kind = .opening b)
    (hc : c.kind = .closing b) (h : Nests us) : Nests (o :: us ++ [c]) := by
  have hbrackets : o.isBracket = true ∧ c.isBracket = true := by
    simp [Token.isBracket, ho, hc]
  rw [Nests, List.filter_append, List.filter_cons_of_pos hbrackets.1,
    List.filter_cons_of_pos hbrackets.2]
  exact .wrap ho hc h .nil

/-! ## Open brackets and their partners -/

/-- **Whether a token is the innermost bracket left open by a token list**: behind it, the brackets
are balanced. -/
def IsInnermost (b : Bracket) (o : Token) (us : List Token) : Prop :=
  o.kind = .opening b ∧ ∃ vs ws, us = vs ++ o :: ws ∧ Nests ws

/-- **Whether a closing bracket behind a token list goes astray**: the innermost bracket that is
open there is of the other kind, or there is none. -/
def GoesAstray (us : List Token) (c : Token) : Prop :=
  ∃ b, c.kind = .closing b ∧ ∀ o, ¬ IsInnermost b o us

/-- Whether no closing bracket of a token list goes astray. -/
def ClosesWell (ts : List Token) : Prop :=
  ∀ us c vs, ts = us ++ c :: vs → ¬ GoesAstray us c

/-! ## The stack -/

/-- Open brackets with the values of their tokens, the innermost first. -/
abbrev OpenBrackets := List (Bracket × String)

/-- The open brackets behind one more token, unless it goes astray. -/
def stackStep (stack : OpenBrackets) (t : Token) : Option OpenBrackets :=
  match t.kind, stack with
  | .opening b, stack => some ((b, t.value) :: stack)
  | .closing b, (b', _) :: below => if b' = b then some below else none
  | .closing _, [] => none
  | _, stack => some stack

/-- The open brackets behind a token list, unless a closing one goes astray. -/
def stackBehind (stack : OpenBrackets) (ts : List Token) : Option OpenBrackets :=
  ts.foldlM stackStep stack

section Stack

variable {stack stack' : OpenBrackets} {t : Token} {us vs ts : List Token} {b : Bracket}

/-- What is open behind a list in two parts. -/
theorem stackBehind_append : stackBehind stack (us ++ vs)
    = (stackBehind stack us).bind fun stack' => stackBehind stack' vs :=
  List.foldlM_append

/-- What is open behind a first token and the others. -/
theorem stackBehind_cons : stackBehind stack (t :: ts)
    = (stackStep stack t).bind fun stack' => stackBehind stack' ts :=
  List.foldlM_cons

/-- A token that is no bracket leaves the stack as it is. -/
theorem stackStep_plain (h : t.isBracket = false) : stackStep stack t = some stack := by
  unfold Token.isBracket at h
  unfold stackStep
  split at h
  · cases h
  · cases h
  · split <;> simp_all

/-- **What one token can do to the stack**: it opens a bracket, closes the innermost one, or is no
bracket. -/
theorem stackStep_cases (h : stackStep stack t = some stack') :
    (∃ b, t.kind = .opening b ∧ stack' = (b, t.value) :: stack) ∨
      (∃ b value, t.kind = .closing b ∧ stack = (b, value) :: stack') ∨
        t.isBracket = false ∧ stack' = stack := by
  cases hk : t.kind with
  | opening b =>
    refine .inl ⟨b, rfl, ?_⟩
    simpa [stackStep, hk] using h.symm
  | closing b =>
    cases stack with
    | nil => simp [stackStep, hk] at h
    | cons top below =>
      obtain ⟨b', value⟩ := top
      simp only [stackStep, hk] at h
      split_ifs at h with hb
      cases h
      exact .inr (.inl ⟨b, value, rfl, by rw [hb]⟩)
  | _ =>
    refine .inr (.inr ⟨by simp [Token.isBracket, hk], ?_⟩)
    simpa [stackStep, hk] using h.symm

/-- **Only a closing bracket that does not match the top of the stack goes astray.** -/
theorem stackStep_eq_none (h : stackStep stack t = none) :
    ∃ b, t.kind = .closing b ∧ ∀ value below, stack ≠ (b, value) :: below := by
  unfold stackStep at h
  split at h
  · cases h
  · rename_i b b' value below hk
    split_ifs at h with hb
    refine ⟨b, hk, fun value' below' heq => hb ?_⟩
    cases heq
    rfl
  · rename_i b hk
    exact ⟨b, hk, nofun⟩
  · cases h

/-- The check goes on with the stack behind the token. -/
theorem closeBrackets_cons (h : stackStep stack t = some stack') :
    closeBrackets stack (t :: ts) = closeBrackets stack' ts := by
  rcases stackStep_cases h with ⟨b, hk, rfl⟩ | ⟨b, value, hk, rfl⟩ | ⟨hplain, rfl⟩
  · cases stack <;> simp [closeBrackets, hk]
  · simp [closeBrackets, hk]
  · unfold Token.isBracket at hplain
    cases stack' <;> cases hk : t.kind <;> simp_all [closeBrackets]

/-- A closing bracket that does not match the top of the stack ends the check. -/
theorem closeBrackets_astray (hk : t.kind = .closing b)
    (h : ∀ value below, stack ≠ (b, value) :: below) :
    closeBrackets stack (t :: ts) = .error (.unbalanced t.value (some b)) := by
  cases stack with
  | nil => simp [closeBrackets, hk]
  | cons top below =>
    obtain ⟨b', value⟩ := top
    have hne : b' ≠ b := by
      rintro rfl
      exact h value below rfl
    simp [closeBrackets, hk, hne]

/-- The check goes on with the stack behind what has been read. -/
theorem closeBrackets_append (h : stackBehind stack us = some stack') :
    closeBrackets stack (us ++ ts) = closeBrackets stack' ts := by
  induction us generalizing stack with
  | nil =>
    cases h
    rfl
  | cons u us ih =>
    rw [stackBehind_cons] at h
    obtain ⟨stack₁, hstep, hrest⟩ := Option.bind_eq_some_iff.1 h
    rw [List.cons_append, closeBrackets_cons hstep, ih hrest]

/-- **Where the stack ends, a first closing bracket goes astray.** -/
theorem exists_astray (h : stackBehind stack ts = none) :
    ∃ us c vs stack', ts = us ++ c :: vs ∧ stackBehind stack us = some stack' ∧
      stackStep stack' c = none := by
  induction ts generalizing stack with
  | nil => cases h
  | cons t ts ih =>
    rw [stackBehind_cons] at h
    cases hstep : stackStep stack t with
    | none => exact ⟨[], t, ts, stack, rfl, rfl, hstep⟩
    | some stack₁ =>
      rw [hstep] at h
      obtain ⟨us, c, vs, stack', rfl, hus, hc⟩ := ih h
      refine ⟨t :: us, c, vs, stack', rfl, ?_, hc⟩
      rw [stackBehind_cons, hstep]
      exact hus

end Stack

/-! ## The stack and the brackets of a list -/

/-- **What a stack says about the tokens before it**: its brackets stand there in order, and between
them and behind them the list is balanced. -/
inductive Holds : List Token → OpenBrackets → Prop where
  | bottom {us : List Token} : Nests us → Holds us []
  | push {us ws : List Token} {o : Token} {b : Bracket} {stack : OpenBrackets} : Holds us stack →
      o.kind = .opening b → Nests ws → Holds (us ++ o :: ws) ((b, o.value) :: stack)

section Holds

variable {stack stack' : OpenBrackets} {t o : Token} {us ws ts : List Token} {b : Bracket}

/-- Balanced tokens leave the stack as it is. -/
theorem Holds.append (h : Holds us stack) (hw : Nests ws) : Holds (us ++ ws) stack := by
  cases h with
  | bottom hus => exact .bottom (hus.append hw)
  | push hstack ho hvs =>
    rw [List.append_assoc]
    exact .push hstack ho (hvs.append hw)

/-- **One more token keeps what the stack says.** -/
theorem Holds.step (h : Holds us stack) (hstep : stackStep stack t = some stack') :
    Holds (us ++ [t]) stack' := by
  rcases stackStep_cases hstep with ⟨b, hk, rfl⟩ | ⟨b, value, hk, rfl⟩ | ⟨hplain, rfl⟩
  · exact .push h hk .nil
  -- the innermost bracket and its partner enclose a balanced list
  · cases h with
    | push hstack ho hws =>
      have hpair := hstack.append (hws.wrap ho hk)
      rwa [List.append_assoc]
  · exact h.append (nests_singleton hplain)

/-- **The stack says what is open**, whatever tokens have been read. -/
theorem holds_of_stackBehind (h : stackBehind [] us = some stack) : Holds us stack := by
  induction us using List.reverseRecOn generalizing stack with
  | nil =>
    cases h
    exact .bottom .nil
  | append_singleton us t ih =>
    rw [stackBehind_append] at h
    obtain ⟨stack₁, hus, ht⟩ := Option.bind_eq_some_iff.1 h
    rw [stackBehind_cons] at ht
    obtain ⟨stack₂, hstep, hnil⟩ := Option.bind_eq_some_iff.1 ht
    cases hnil
    exact (ih hus).step hstep

/-- Words of the Dyck language leave every stack as it is. -/
theorem Dyck.stackBehind {us : List Token} (h : Dyck us) (stack : OpenBrackets) :
    stackBehind stack us = some stack := by
  induction h generalizing stack with
  | nil => rfl
  | @wrap o c b us vs ho hc _ _ ihu ihv =>
    have hopen : stackStep stack o = some ((b, o.value) :: stack) := by simp [stackStep, ho]
    have hclose : stackStep ((b, o.value) :: stack) c = some stack := by simp [stackStep, hc]
    rw [List.cons_append, stackBehind_cons, hopen, Option.bind_some, stackBehind_append, ihu,
      Option.bind_some, stackBehind_cons, hclose, Option.bind_some, ihv]

/-- Only brackets matter to the stack. -/
theorem stackBehind_filter (stack : OpenBrackets) :
    stackBehind stack (ts.filter Token.isBracket) = stackBehind stack ts := by
  induction ts generalizing stack with
  | nil => rfl
  | cons t ts ih =>
    cases ht : t.isBracket with
    | false =>
      rw [List.filter_cons_of_neg (by simp [ht]), stackBehind_cons, stackStep_plain ht]
      exact ih stack
    | true =>
      rw [List.filter_cons_of_pos ht, stackBehind_cons, stackBehind_cons]
      exact congrArg _ (funext ih)

/-- Balanced tokens leave every stack as it is. -/
theorem Nests.stackBehind (h : Nests ws) (stack : OpenBrackets) :
    stackBehind stack ws = some stack := by
  rw [← stackBehind_filter, Dyck.stackBehind h]

/-- **A list is balanced exactly when the stack behind it is empty.** -/
theorem nests_iff_stackBehind : Nests ts ↔ stackBehind [] ts = some [] := by
  constructor
  · exact fun h => h.stackBehind []
  · intro h
    cases holds_of_stackBehind h with
    | bottom h => exact h

/-- **The innermost open bracket is the top of the stack.** -/
theorem isInnermost_iff (h : stackBehind [] us = some stack) {value : String} :
    (∃ o, IsInnermost b o us ∧ o.value = value) ↔ ∃ below, stack = (b, value) :: below := by
  constructor
  · rintro ⟨o, ⟨hk, vs, ws, rfl, hws⟩, rfl⟩
    rw [stackBehind_append] at h
    obtain ⟨below, -, hrest⟩ := Option.bind_eq_some_iff.1 h
    have hopen : stackStep below o = some ((b, o.value) :: below) := by simp [stackStep, hk]
    rw [stackBehind_cons, hopen, Option.bind_some, hws.stackBehind] at hrest
    exact ⟨below, (Option.some.inj hrest).symm⟩
  · rintro ⟨below, rfl⟩
    cases holds_of_stackBehind h with
    | push hstack ho hws => exact ⟨_, ⟨ho, _, _, rfl, hws⟩, rfl⟩

/-- **A closing bracket goes astray exactly when the stack has no place for it.** -/
theorem goesAstray_iff (h : stackBehind [] us = some stack) :
    GoesAstray us t ↔ stackStep stack t = none := by
  constructor
  · rintro ⟨b, hk, hinnermost⟩
    by_contra hstep
    obtain ⟨stack', hstep⟩ := Option.ne_none_iff_exists'.1 hstep
    rcases stackStep_cases hstep with ⟨b', hk', -⟩ | ⟨b', value, hk', htop⟩ | ⟨hplain, -⟩
    · rw [hk] at hk'
      cases hk'
    · rw [hk] at hk'
      cases hk'
      obtain ⟨o, ho, -⟩ := (isInnermost_iff h).2 ⟨stack', htop⟩
      exact hinnermost o ho
    · simp [Token.isBracket, hk] at hplain
  · intro hstep
    obtain ⟨b, hk, htop⟩ := stackStep_eq_none hstep
    refine ⟨b, hk, fun o ho => ?_⟩
    obtain ⟨below, hstack⟩ := (isInnermost_iff h).1 ⟨o, ho, rfl⟩
    exact htop _ _ hstack

/-- **No closing bracket goes astray exactly when there is a stack at the end.** -/
theorem closesWell_iff : ClosesWell ts ↔ ∃ stack, stackBehind [] ts = some stack := by
  constructor
  · intro h
    by_contra hnone
    have hnone : stackBehind [] ts = none := by
      rw [Option.eq_none_iff_forall_ne_some]
      exact fun stack hstack => hnone ⟨stack, hstack⟩
    obtain ⟨us, c, vs, stack', hts, hus, hc⟩ := exists_astray hnone
    exact h us c vs hts ((goesAstray_iff hus).2 hc)
  · rintro ⟨stack, hstack⟩ us c vs rfl hastray
    rw [stackBehind_append] at hstack
    obtain ⟨stack₁, hus, hrest⟩ := Option.bind_eq_some_iff.1 hstack
    rw [stackBehind_cons, (goesAstray_iff hus).1 hastray] at hrest
    cases hrest

end Holds

/-! ## The check -/

/-- **Where no closing bracket goes astray, the check asks what is open at the end.** -/
theorem checkBrackets_of_stackBehind {ts : List Token} {stack : OpenBrackets}
    (h : stackBehind [] ts = some stack) :
    checkBrackets ts = match stack with
      | [] => .ok ()
      | (_, value) :: _ => .error (.unbalanced value none) := by
  have hend : closeBrackets [] (ts ++ []) = closeBrackets stack [] := closeBrackets_append h
  rw [List.append_nil] at hend
  rw [checkBrackets, hend]
  cases stack <;> simp [closeBrackets]

/-- **A first closing bracket that goes astray is blamed.** -/
theorem checkBrackets_of_goesAstray {us vs : List Token} {c : Token} {b : Bracket}
    (hus : ClosesWell us) (hc : GoesAstray us c) (hk : c.kind = .closing b) :
    checkBrackets (us ++ c :: vs) = .error (.unbalanced c.value (some b)) := by
  obtain ⟨stack, hstack⟩ := closesWell_iff.1 hus
  obtain ⟨b', hk', htop⟩ := stackStep_eq_none ((goesAstray_iff hstack).1 hc)
  rw [hk] at hk'
  cases hk'
  rw [checkBrackets, closeBrackets_append hstack, closeBrackets_astray hk htop]

/-- **A list that does not close well has a first bracket that goes astray.** -/
theorem exists_goesAstray {ts : List Token} (h : ¬ ClosesWell ts) :
    ∃ us c vs b, ts = us ++ c :: vs ∧ ClosesWell us ∧ GoesAstray us c ∧ c.kind = .closing b := by
  have hnone : stackBehind [] ts = none := by
    rw [Option.eq_none_iff_forall_ne_some]
    exact fun stack hstack => h (closesWell_iff.2 ⟨stack, hstack⟩)
  obtain ⟨us, c, vs, stack, hts, hus, hc⟩ := exists_astray hnone
  obtain ⟨b, hk, -⟩ := stackStep_eq_none hc
  exact ⟨us, c, vs, b, hts, closesWell_iff.2 ⟨stack, hus⟩, (goesAstray_iff hus).2 hc, hk⟩

/-- **The check accepts exactly the balanced lists and blames the right token.** It blames the first
closing bracket that goes astray and names its kind; where none does, it blames the innermost
bracket that is open at the end. It has no other answer. -/
theorem checkBrackets_blames (ts : List Token) :
    (checkBrackets ts = .ok () ↔ Dyck (ts.filter Token.isBracket)) ∧
      (∀ value b, checkBrackets ts = .error (.unbalanced value (some b)) ↔
        ∃ us c vs, ts = us ++ c :: vs ∧ ClosesWell us ∧ GoesAstray us c ∧ c.kind = .closing b ∧
          c.value = value) ∧
      (∀ value, checkBrackets ts = .error (.unbalanced value none) ↔
        ClosesWell ts ∧ ∃ b o, IsInnermost b o ts ∧ o.value = value) ∧
      ∀ x, checkBrackets ts = .error x → ∃ value closer, x = .unbalanced value closer := by
  by_cases hwell : ClosesWell ts
  · obtain ⟨stack, hstack⟩ := closesWell_iff.1 hwell
    have hcheck := checkBrackets_of_stackBehind hstack
    have hnests : Dyck (ts.filter Token.isBracket) ↔ stack = [] := by
      rw [← Nests, nests_iff_stackBehind, hstack, Option.some.injEq]
    have hastray : ∀ us c vs, ts = us ++ c :: vs → ¬ GoesAstray us c := hwell
    refine ⟨?_, fun value b => ?_, fun value => ?_, fun x hx => ?_⟩
    · rw [hnests, hcheck]
      cases stack <;> simp
    · refine iff_of_false ?_ fun ⟨us, c, vs, hts, _, hc, _⟩ => hastray us c vs hts hc
      rw [hcheck]
      cases stack <;> simp
    · simp only [hwell, true_and, isInnermost_iff hstack]
      rw [hcheck]
      cases stack with
      | nil => simp
      | cons top below => simp [Prod.ext_iff]
    · rw [hcheck] at hx
      cases stack with
      | nil => cases hx
      | cons top below => exact ⟨_, _, (Except.error.inj hx).symm⟩
  · obtain ⟨us, c, vs, b, rfl, hus, hc, hk⟩ := exists_goesAstray hwell
    have hcheck : checkBrackets (us ++ c :: vs) = .error (.unbalanced c.value (some b)) :=
      checkBrackets_of_goesAstray hus hc hk
    refine ⟨?_, fun value b' => ?_, fun value => ?_, fun x hx => ?_⟩
    · refine iff_of_false (by simp [hcheck]) fun hnests => ?_
      exact hwell (closesWell_iff.2 ⟨[], nests_iff_stackBehind.1 hnests⟩)
    · constructor
      · intro h
        rw [hcheck] at h
        cases h
        exact ⟨us, c, vs, rfl, hus, hc, hk, rfl⟩
      · rintro ⟨us', c', vs', hts, hus', hc', hk', rfl⟩
        rw [hts, checkBrackets_of_goesAstray hus' hc' hk']
    · exact iff_of_false (by simp [hcheck]) fun h => hwell h.1
    · rw [hcheck] at hx
      exact ⟨_, _, (Except.error.inj hx).symm⟩

end Formula
