/-
# Commands

The commands of the program and how they are read from arguments. Whatever does not fit a command,
such as an unknown option or choice or a missing argument, is a usage error.
-/
import Formula.CommandLine.Arguments
import Formula.Mode

namespace Formula

namespace CommandLine

/-! ## Choices -/

/-- The forms in which an expression is shown. -/
inductive Form where
  | ascii
  | latex
  | tree
  deriving DecidableEq, Repr

/-- The form with a name. -/
def Form.ofName? (s : String) : Option Form :=
  match s with
  | "ascii" => some ascii
  | "latex" => some latex
  | "tree" => some tree
  | _ => none

/-- How an expression is read: its mode, a file with options, and flags that override them. -/
structure Reading where
  mode : Mode
  config : Option String
  noSimplify : Bool
  noImplicit : Bool
  debug : Bool
  deriving DecidableEq, Repr

/-- A command with its arguments. -/
inductive Command where
  /-- Evaluates an expression with bindings of the form `name=value`. -/
  | eval (expression : String) (bindings : List String) (reading : Reading)
  /-- Lists the tokens of an expression. -/
  | tokens (expression : String) (mode : Mode)
  /-- Shows the tree of an expression. -/
  | tree (expression : String) (form : Form) (reading : Reading)
  /-- Shows the derivative of an expression. -/
  | diff (expression variableName : String) (form : Form) (noImplicit : Bool)
  /-- Lists functions. -/
  | functions (domain : Option Domain) (category : Option Category)
  /-- Shows how the program is used. -/
  | help
  deriving DecidableEq, Repr

/-! ## Switches -/

/-- The switch for help. -/
def helpSwitch : Switch := ⟨"help", ["--help"], [], false⟩

/-- The switch for the mode or the domain. -/
def domainSwitch : Switch := ⟨"domain", ["--domain"], ['d'], true⟩

/-- The switch that keeps neighbouring factors from multiplying. -/
def implicitSwitch : Switch := ⟨"no-implicit", ["--no-implicit"], [], false⟩

/-- The switch for the form. -/
def formSwitch : Switch := ⟨"format", ["--format"], ['f'], true⟩

/-- The switches that say how an expression is read. -/
def readingSwitches : List Switch :=
  [domainSwitch, implicitSwitch, helpSwitch, ⟨"config", ["--config"], [], true⟩,
   ⟨"no-simplify", ["--no-simplify"], [], false⟩, ⟨"debug", ["--debug"], [], false⟩]

/-- The switches of a command. -/
def switchesOf? (command : String) : Option (List Switch) :=
  match command with
  | "eval" => some (⟨"var", ["--var"], ['v'], true⟩ :: readingSwitches)
  | "tokens" => some [domainSwitch, helpSwitch]
  | "tree" => some (formSwitch :: readingSwitches)
  | "diff" =>
    some [⟨"variable", ["--variable"], ['x'], true⟩, formSwitch, implicitSwitch, helpSwitch]
  | "functions" => some [domainSwitch, ⟨"category", ["--category"], ['c'], true⟩, helpSwitch]
  | _ => none

/-! ## Reading commands -/

namespace Arguments

/-- The choice that an option makes, or the standard one where it is not given; none for an unknown
choice. -/
def choice? {α : Type} (a : Arguments) (name : String) (ofName? : String → Option α)
    (standard : α) : Option α :=
  (a.value? name).elim (some standard) ofName?

/-- The only positional argument. -/
def expression? (a : Arguments) : Option String :=
  match a.positional with
  | [s] => some s
  | _ => none

/-- How an expression is read; the file with options has to exist. -/
def reading? (exist : String → Bool) (a : Arguments) : Option Reading := do
  let mode ← a.choice? "domain" Mode.ofName? .real
  let config := a.value? "config"
  if config.all exist then
    some ⟨mode, config, a.has "no-simplify", a.has "no-implicit", a.has "debug"⟩
  else none

/-- The command with a name and arguments. -/
def command? (exist : String → Bool) (name : String) (a : Arguments) : Option Command :=
  if a.has "help" then some .help
  else
    match name with
    | "eval" => do return .eval (← a.expression?) (a.values "var") (← a.reading? exist)
    | "tokens" => do return .tokens (← a.expression?) (← a.choice? "domain" Mode.ofName? .real)
    | "tree" => do
      return .tree (← a.expression?) (← a.choice? "format" Form.ofName? .tree) (← a.reading? exist)
    | "diff" => do
      return .diff (← a.expression?) ((a.value? "variable").getD "x")
        (← a.choice? "format" Form.ofName? .ascii) (a.has "no-implicit")
    | "functions" =>
      if a.positional.isEmpty then do
        return .functions
          (← a.choice? "domain" (fun s => some <$> Domain.ofName? s) none)
          (← a.choice? "category" (fun s => some <$> Category.ofName? s) none)
      else none
    | _ => none

end Arguments

/-- The command that follows the options of the program itself. -/
def namedCommand? (exist : String → Bool) : List String → Option Command
  | [] => none
  | name :: rest => do
    let switches ← switchesOf? name
    (← sortArguments switches rest).command? exist name

/-- **The command of an argument list**; none for a usage error. -/
def command? (exist : String → Bool) : List String → Option Command
  | "--" :: rest => namedCommand? exist rest
  | "--help" :: _ => some .help
  | args => namedCommand? exist args

/-- The file with options that a command names. -/
def Command.config? : Command → Option String
  | eval _ _ r => r.config
  | tree _ _ r => r.config
  | _ => none

end CommandLine

end Formula
