/-
# Running commands

A command prints a result, or reports an error about the expression or a refused value. Other errors
end the program without a report.
-/
import Formula.CommandLine.Command
import Formula.Derivative
import Formula.Engine
import Formula.Expr.Latex
import Formula.Expr.Outline
import Formula.Options.Settings

namespace Formula

namespace CommandLine

/-! ## Surroundings and outcomes -/

/-- What a command can see: the environment and the texts of files. -/
structure Surroundings where
  environment : Options.Environment
  files : List (String × String)

/-- The steps of a path without those that stay where they are; the last one is kept. -/
def plainSteps : List String → List String
  | [] => []
  | [last] => [last]
  | step :: rest => if step = "." ∨ step = "" then plainSteps rest else step :: plainSteps rest

/-- The path without steps that stay where they are. -/
def plainPath (path : String) : String :=
  let plain := "/".intercalate (plainSteps (path.splitOn "/"))
  if path.startsWith "/" then "/" ++ plain else plain

/-- The text of a file. -/
def Surroundings.file? (w : Surroundings) (path : String) : Option String :=
  w.files.lookup (plainPath path)

/-- How a command ends. -/
inductive Outcome where
  /-- The arguments do not fit. -/
  | usage
  /-- The command has printed to its two outputs. -/
  | finished (exit : Nat) (output errors : String)
  /-- The command breaks off. -/
  | uncaught (error : Error)

/-! ## Texts -/

/-- A text filled with spaces on the right. -/
def padRight (width : Nat) (s : String) : String :=
  s ++ String.ofList (List.replicate (width - s.length) ' ')

/-- A text filled with spaces on the left. -/
def padLeft (width : Nat) (s : String) : String :=
  String.ofList (List.replicate (width - s.length) ' ') ++ s

/-- The text of a result. -/
def resultText : Value → Except Error String
  | .boolean b => .ok (Expr.booleanText b)
  | .complex z => z.text
  | .text s => .ok s
  | v => .ok v.shown

/-- The text of an expression in a form. -/
def Form.text (form : Form) (e : Expr) : Except Error String :=
  match form with
  | ascii => e.ascii?
  | latex => e.latex?
  | tree => .ok e.outline

/-- The line of a token. -/
def tokenLine (t : Token) : String :=
  padLeft 4 (toString t.position) ++ "  " ++ padRight 26 t.kind.name ++ " " ++ quoted t.value

/-- The line of a row of a parse record. -/
def traceLine (r : TraceRow) : String :=
  "mathexpr.parser: " ++ padRight 10 r.token ++ " | " ++ padRight 40 (" ".intercalate r.operands)
    ++ " | " ++ " ".intercalate r.operators

/-- The line of a function. -/
def functionLine (f : FunctionEntry) : String :=
  "  " ++ f.name ++ "(" ++ ", ".intercalate (f.parameters.map (·.name)) ++ ")  " ++ f.description

/-- The lines of a listing; each domain starts with its name behind an empty line. -/
def listingLines (current : Option Domain) : List FunctionEntry → List String
  | [] => []
  | f :: rest =>
    (if current = some f.domain then [] else ["", f.domain.name])
      ++ functionLine f :: listingLines (some f.domain) rest

/-- Lines as one text. -/
def unlines (lines : List String) : String := String.join (lines.map (· ++ "\n"))

/-! ## Reports -/

/-- The end of a command that has failed behind some log lines. -/
def failed (log : String) (e : Error) : Outcome :=
  if e.isReported then .finished 1 "" (log ++ unlines ["Error: " ++ e.message]) else .uncaught e

/-- The end of a command whose result is shown behind some log lines; what fails while a result is
shown is not reported. -/
def concluded {α : Type} (log : String) (shown : α → Except Error String) :
    Except Error α → Outcome
  | .error e => failed log e
  | .ok a =>
    match shown a with
    | .ok s => .finished 0 (unlines [s]) log
    | .error e => .uncaught e

/-! ## Settings -/

/-- The options of a command: those of its file or of the environment, overridden by flags. -/
def options (w : Surroundings) (r : Reading) : Except Error Options := do
  let o ← match r.config with
    | some path => Options.ofDocumentText (plainPath path) ((w.file? path).getD "")
    | none => .ok (Options.ofEnvironment w.environment)
  return ⟨o.implicitProducts && !r.noImplicit, o.simplify && !r.noSimplify, o.debug || r.debug⟩

/-- The value of a binding: a text, or a truth value where these are admitted. -/
def boundValue (mode : Mode) (s : String) : Value :=
  if mode = .logic ∨ mode = .pricing then
    match Options.lowered s with
    | "true" => .boolean true
    | "false" => .boolean false
    | _ => .text s
  else .text s

/-- The binding of an argument `name=value`; none without a name. -/
def binding? (mode : Mode) (s : String) : Option (String × Value) :=
  let name := trimBlanks (String.ofList (s.toList.takeWhile (· != '=')))
  match s.toList.dropWhile (· != '=') with
  | [] => none
  | _ :: value =>
    if name = "" then none
    else some (name, boundValue mode (trimBlanks (String.ofList value)))

/-- The bindings of arguments; the last one of a name counts. -/
def bindings? (mode : Mode) (items : List String) : Option Bindings :=
  (items.mapM (binding? mode)).map List.reverse

/-- The log lines of an engine, when they are wanted. -/
def logOf (r : Reading) (e : Engine) : String :=
  if r.debug then unlines (e.trace.map traceLine) else ""

/-! ## Commands -/

/-- The text that names the commands. -/
def helpText : String := unlines ["Commands: diff, eval, functions, tokens, tree"]

/-- Evaluates an expression. -/
def runEval (w : Surroundings) (expression : String) (items : List String) (r : Reading) :
    Outcome :=
  match options w r, bindings? r.mode items with
  | .error e, _ => .uncaught e
  | .ok _, none => .usage
  | .ok o, some bindings =>
    let (engine, result) := (Engine.new r.mode o).evaluate (.standard bindings) expression
    concluded (logOf r engine) resultText result

/-- Lists tokens. -/
def runTokens (expression : String) (mode : Mode) : Outcome :=
  match mode.lexicon.tokenize expression with
  | .ok ts => .finished 0 (unlines (ts.map tokenLine)) ""
  | .error e => failed "" e

/-- Shows a tree. -/
def runTree (w : Surroundings) (expression : String) (form : Form) (r : Reading) : Outcome :=
  match options w r with
  | .error e => .uncaught e
  | .ok o =>
    let (engine, result) := (Engine.new r.mode o).parse expression
    concluded (logOf r engine) form.text result

/-- Shows a derivative. -/
def runDiff (w : Surroundings) (expression variableName : String) (form : Form)
    (noImplicit : Bool) : Outcome :=
  match options w ⟨.real, none, false, noImplicit, false⟩ with
  | .error e => .uncaught e
  | .ok o =>
    let (_, result) := (Engine.new .real o).parse expression
    concluded "" form.text (result.bind (Expr.derivative variableName))

/-- Lists functions. -/
def runFunctions (domain : Option Domain) (category : Option Category) : Outcome :=
  match Registry.builtin.list domain category with
  | [] => .finished 0 (unlines ["No functions found."]) ""
  | fs => .finished 0 (unlines (listingLines none fs)) ""

/-- Runs a command. -/
def Command.run (w : Surroundings) : Command → Outcome
  | eval expression items r => runEval w expression items r
  | tokens expression mode => runTokens expression mode
  | tree expression form r => runTree w expression form r
  | diff expression variableName form noImplicit =>
    runDiff w expression variableName form noImplicit
  | functions domain category => runFunctions domain category
  | help => .finished 0 helpText ""

/-- **Runs an argument list.** -/
def run (w : Surroundings) (args : List String) : Outcome :=
  match command? (fun path => (w.file? path).isSome) args with
  | some c => c.run w
  | none => .usage

end CommandLine

end Formula
