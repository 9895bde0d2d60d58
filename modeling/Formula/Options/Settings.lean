/-
# Options from settings

Options are set by a mapping of names to truth values, by the variables of an environment, or by a
settings document.
-/
import Formula.Document.Reading
import Formula.Options
import Formula.Text.Blank

namespace Formula

namespace Options

/-! ## Mappings -/

/-- Sets a key of a mapping: a later value replaces an earlier one in its place. -/
def setKey (key : String) (value : Document) :
    List (String × Document) → List (String × Document)
  | [] => [(key, value)]
  | (k, v) :: rest => if k = key then (k, value) :: rest else (k, v) :: setKey key value rest

/-- The mapping of texts that some entries make up; other keys than texts do not fit. -/
def textKeys (entries : List (Document × Document)) : Except Error (List (String × Document)) :=
  entries.foldlM (fun acc (key, value) =>
    match key with
    | .text k => .ok (setKey k value acc)
    | _ => .error .typeMismatch) []

/-- Sets an option to a truth value. -/
def setValue (o : Options) (name : String) (value : Document) : Except Error Options :=
  match value with
  | .boolean b => (o.set? name b).elim (.error (.invalid (.unknownOptions [name]))) .ok
  | _ => .error (.invalid (.optionNotBoolean name))

/-- **The options of a mapping**: unknown keys are refused before other values than truth values. -/
def ofMapping (entries : List (Document × Document)) : Except Error Options := do
  let settings ← textKeys entries
  let unknown := (settings.map (·.1)).filter fun k => !names.contains k
  if !unknown.isEmpty then
    throw (.invalid (.unknownOptions (unknown.mergeSort fun a b => !decide (b < a))))
  settings.foldlM (fun o (name, value) => o.setValue name value) {}

/-! ## Documents -/

/-- The value of a key in a mapping, the last one where the key occurs again. -/
def valueOf? (key : String) (entries : List (Document × Document)) : Option Document :=
  (entries.reverse.find? fun e => match e.1 with
    | .text k => k == key
    | _ => false).map (·.2)

/-- **The options of a document** from the file `path`: they stand at the top or under the key
`parser`. -/
def ofDocument (path : String) : Document → Except Error Options
  | .null => .ok {}
  | .mapping entries =>
    match valueOf? "parser" entries with
    | some (.mapping inner) => ofMapping inner
    | _ => ofMapping entries
  | _ => .error (.invalid (.notMapping path))

/-- The options of the text of a file. -/
def ofDocumentText (path text : String) : Except Error Options := do
  ofDocument path (← Document.read text)

/-! ## Environments -/

/-- The variables of an environment. -/
abbrev Environment := List (String × String)

/-- A text in lower case. -/
def lowered (s : String) : String := s.map Char.toLower

/-- The flag that a variable sets; unset variables leave the standard value. -/
def flagOf (env : Environment) (name : String) (standard : Bool) : Bool :=
  match env.lookup name with
  | none => standard
  | some v => ["1", "true", "yes", "on"].contains (lowered (trimBlanks v))

/-- **The options of an environment.** -/
def ofEnvironment (env : Environment) : Options :=
  let standard : Options := {}
  { implicitProducts := flagOf env "MATHEXPR_IMPLICIT_MULTIPLICATION" standard.implicitProducts
    simplify := flagOf env "MATHEXPR_SIMPLIFY" standard.simplify
    debug := flagOf env "MATHEXPR_DEBUG" standard.debug }

end Options

end Formula
