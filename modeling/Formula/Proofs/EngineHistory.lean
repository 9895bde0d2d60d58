/-
# The history of an engine

An engine remembers three things, and each call updates those that it comes to: the tokens when the
text can be cut, the record when the tokens pass the checks before reading, the expression when it
can be parsed. What fails behind these points, such as an evaluation, takes nothing back. **Answers
do not depend on the history, and what is remembered is that of the latest call that came so far**
(`run_new`).
-/
import Formula.Engine

namespace Formula

/-! ## What tokens leave behind -/

/-- Whether tokens pass the checks before reading: brackets have their partners, and there is
something besides blanks and terminators. -/
def passesChecks (ts : List Token) : Bool :=
  (checkBrackets (dropBlanks ts)).isOk && !(dropBlanks ts).all (·.kind == .terminator)

/-- The record of reading tokens, which is empty unless it is wanted. -/
def recordOf (o : Options) (ts : List Token) : List TraceRow :=
  if o.debug then (Parse.whole o.simplify (Parse.prepare o ts)).steps.map Step.row else []

/-- Signs of implicit products are inserted between factors only, and no terminator is one. -/
theorem all_terminator_insertProductsAfter (previous : Token) (ts : List Token) :
    (insertProductsAfter previous ts).all (·.kind == .terminator)
      = ts.all (·.kind == .terminator) := by
  induction ts generalizing previous with
  | nil => rfl
  | cons t ts ih =>
    rw [insertProductsAfter]
    by_cases hm : previous.kind.multiplies t.kind = true
    · have hfactor : t.kind.startsFactor = true := by
        rw [Kind.multiplies, Bool.and_eq_true] at hm
        exact hm.2
      have ht : (t.kind == .terminator) = false := by
        cases hk : t.kind with
        | terminator =>
          rw [hk] at hfactor
          cases hfactor
        | _ => rfl
      rw [if_pos hm, List.all_cons, List.all_cons, List.all_cons, ht, Bool.false_and,
        Bool.false_and, Bool.and_false]
    · rw [if_neg hm, List.all_cons, List.all_cons, ih]

/-- Preparing tokens does not change whether all of them are terminators. -/
theorem all_terminator_prepare (o : Options) (ts : List Token) :
    (Parse.prepare o ts).all (·.kind == .terminator)
      = (dropBlanks ts).all (·.kind == .terminator) := by
  rw [Parse.prepare]
  split
  · cases dropBlanks ts with
    | nil => rfl
    | cons t us =>
      rw [insertProducts, List.all_cons, all_terminator_insertProductsAfter, List.all_cons]
  · rfl

/-- **A parse has a record exactly when its tokens pass the checks.** -/
theorem trace?_ofTokens (o : Options) (ts : List Token) :
    (Parse.ofTokens o ts).trace? = if passesChecks ts then some (recordOf o ts) else none := by
  rw [Parse.ofTokens, passesChecks]
  cases checkBrackets (dropBlanks ts) with
  | error x => rfl
  | ok u =>
    show (if _ then _ else _ : Parse).trace? = _
    rw [all_terminator_prepare]
    cases (dropBlanks ts).all (·.kind == .terminator) with
    | true => rfl
    | false => rfl

namespace Engine

/-! ## Calls -/

/-- A call of an engine. -/
inductive Call where
  | parse (source : String)
  | evaluate (scope : Scope) (source : String)

/-- What a call answers. -/
inductive Answer where
  | expression (result : Except Error Expr)
  | value (result : Except Error Value)

/-- The text of a call. -/
def Call.source : Call → String
  | parse source => source
  | evaluate _ source => source

/-- What an engine answers to a call, and the engine behind it. -/
def call (e : Engine) : Call → Answer × Engine
  | .parse source => (.expression (e.parse source).2, (e.parse source).1)
  | .evaluate s source => (.value (e.evaluate s source).2, (e.evaluate s source).1)

/-- **A run of calls**: what each of them answers, with the engine behind it. -/
def run (e : Engine) : List Call → List (Answer × Engine)
  | [] => []
  | c :: cs => e.call c :: (e.call c).2.run cs

/-! ## What the calls before leave behind -/

/-- The tokens of a call, when its text can be cut into tokens. -/
def Call.tokens? (m : Mode) (c : Call) : Option (List Token) :=
  (m.lexicon.tokenize c.source).toOption

/-- The expression of a call, when its text can be parsed. -/
def Call.tree? (m : Mode) (o : Options) (c : Call) : Option Expr :=
  (c.tokens? m).bind fun ts => (Formula.parse o ts).toOption

/-- The record of a call, when its tokens pass the checks before reading. -/
def Call.record? (m : Mode) (o : Options) (c : Call) : Option (List TraceRow) :=
  ((c.tokens? m).filter passesChecks).map (recordOf o)

/-- **What the latest call has**, among those that have it. -/
def latest? {α : Type} (f : Call → Option α) (cs : List Call) : Option α := cs.reverse.findSome? f

/-- The engine behind some calls. -/
def behind (e : Engine) (cs : List Call) : Engine where
  mode := e.mode
  options := e.options
  tokens := (latest? (Call.tokens? e.mode) cs).getD e.tokens
  tree? := (latest? (Call.tree? e.mode e.options) cs).or e.tree?
  trace := (latest? (Call.record? e.mode e.options) cs).getD e.trace

/-- The latest call of a list is one behind the first call, or else the first. -/
theorem latest?_cons {α : Type} (f : Call → Option α) (c : Call) (cs : List Call) :
    latest? f (c :: cs) = (latest? f cs).or (f c) := by
  rw [latest?, List.reverse_cons, List.findSome?_append, latest?]
  congr 1
  exact List.findSome?_singleton

/-! ## One call -/

/-- A parse keeps the mode. -/
theorem parse_mode (e : Engine) (source : String) : (e.parse source).1.mode = e.mode := by
  rw [parse]
  split
  · rfl
  · rfl

/-- A parse answers with the expression of the tokens of the text. -/
theorem parse_snd (e : Engine) (source : String) :
    (e.parse source).2 = (e.mode.lexicon.tokenize source).bind (Formula.parse e.options) := by
  rw [parse]
  cases e.mode.lexicon.tokenize source with
  | error x => rfl
  | ok ts => rfl

/-- An evaluation answers with the value of the expression that it parses. -/
theorem evaluate_snd (e : Engine) (s : Scope) (source : String) :
    (e.evaluate s source).2 = (e.parse source).2.bind (e.mode.evaluate s) := by
  rw [← parse_mode e source]
  rfl

/-- **A call updates what it comes to**, whether it succeeds or not. -/
theorem call_snd (e : Engine) (c : Call) : (e.call c).2 = e.behind [c] := by
  have hparse : (e.call c).2 = (e.parse c.source).1 := by
    cases c with
    | parse source => rfl
    | evaluate s source => rfl
  have hlatest : ∀ {α : Type} (f : Call → Option α), latest? f [c] = f c := by
    intro α f
    exact List.findSome?_singleton
  rw [hparse, behind, hlatest, hlatest, hlatest, Call.record?, Call.tree?, Call.tokens?, parse]
  cases e.mode.lexicon.tokenize c.source with
  | error x => rfl
  | ok ts =>
    show e.remember ts (Parse.ofTokens e.options ts) = _
    rw [remember, trace?_ofTokens]
    congr 1
    · rw [Option.orElse_eq_orElse, Option.orElse_eq_or]
      rfl
    · show (if passesChecks ts = true then _ else _ : Option (List TraceRow)).getD e.trace
        = (Option.map (recordOf e.options) (if passesChecks ts = true then some ts else none)).getD
          e.trace
      split
      · rfl
      · rfl

/-- Calls one behind the other. -/
theorem behind_cons (e : Engine) (c : Call) (cs : List Call) :
    e.behind (c :: cs) = (e.call c).2.behind cs := by
  rw [call_snd]
  simp only [behind, latest?_cons, Option.or_assoc]
  congr 1
  · cases latest? (Call.tokens? e.mode) cs <;> rfl
  · cases latest? (Call.record? e.mode e.options) cs <;> rfl

/-- The answer to a call depends on the mode and the options alone. -/
theorem call_fst (e : Engine) (c : Call) :
    (e.call c).1 = ((new e.mode e.options).call c).1 := by
  cases c with
  | parse source =>
    show Answer.expression _ = Answer.expression _
    rw [parse_snd, parse_snd]
    rfl
  | evaluate s source =>
    show Answer.value _ = Answer.value _
    rw [evaluate_snd, evaluate_snd, parse_snd, parse_snd]
    rfl

/-! ## Runs -/

/-- **What an engine answers in a run, and what it remembers behind each call.** -/
theorem run_getElem? (e : Engine) (cs : List Call) (i : Nat) :
    (e.run cs)[i]? = cs[i]?.map fun c =>
      (((new e.mode e.options).call c).1, e.behind (cs.take (i + 1))) := by
  induction cs generalizing e i with
  | nil => rfl
  | cons c cs ih =>
    -- the engine behind a call has the same mode and options
    have hmode : (e.call c).2.mode = e.mode := by rw [call_snd]; rfl
    have hoptions : (e.call c).2.options = e.options := by rw [call_snd]; rfl
    cases i with
    | zero =>
      show some (e.call c) = some (((new e.mode e.options).call c).1, e.behind [c])
      rw [← call_snd, ← call_fst]
    | succ i =>
      show ((e.call c).2.run cs)[i]? = _
      rw [ih, hmode, hoptions, List.take_succ_cons, List.getElem?_cons_succ]
      simp only [behind_cons]

/-- **Answers do not depend on the history, and the state is that of the right past calls.** -/
theorem run_new (m : Mode) (o : Options) (cs : List Call) (i : Nat) :
    ((new m o).run cs)[i]? = cs[i]?.map fun c =>
      (((new m o).call c).1,
        { mode := m
          options := o
          tokens := (latest? (Call.tokens? m) (cs.take (i + 1))).getD []
          tree? := latest? (Call.tree? m o) (cs.take (i + 1))
          trace := (latest? (Call.record? m o) (cs.take (i + 1))).getD [] }) := by
  rw [run_getElem?]
  simp only [behind, new, Option.or_none]

end Engine

end Formula
