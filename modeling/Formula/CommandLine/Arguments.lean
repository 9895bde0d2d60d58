/-
# Command-line arguments

Arguments are options and positional arguments in any order. An option takes its value from behind
an equals sign, from the rest of its own argument, or from the next argument; two dashes end the
options.
-/

namespace Formula

namespace CommandLine

/-! ## Options -/

/-- An option that a command knows: its long names, its one-letter names, and whether it takes a
value. -/
structure Switch where
  /-- The name under which its values are kept. -/
  name : String
  /-- The long names, with their dashes. -/
  long : List String
  /-- The one-letter names. -/
  short : List Char
  takesValue : Bool

/-- Arguments sorted into options and positional arguments, each in their order. -/
structure Arguments where
  /-- The options with their values; flags have the empty value. -/
  given : List (String × String)
  positional : List String

namespace Arguments

/-- No arguments. -/
def empty : Arguments := ⟨[], []⟩

/-- Puts an option in front. -/
def withOption (a : Arguments) (name value : String) : Arguments :=
  { a with given := (name, value) :: a.given }

/-- Puts a positional argument in front. -/
def withPositional (a : Arguments) (s : String) : Arguments :=
  { a with positional := s :: a.positional }

/-- All values of an option. -/
def values (a : Arguments) (name : String) : List String :=
  (a.given.filter (·.1 == name)).map (·.2)

/-- The value of an option, the last one where it is given again. -/
def value? (a : Arguments) (name : String) : Option String := (a.values name).getLast?

/-- Whether an option is given. -/
def has (a : Arguments) (name : String) : Bool := (a.value? name).isSome

end Arguments

/-! ## Reading -/

/-- What one argument is. -/
inductive Piece where
  /-- The mark behind which no options follow. -/
  | endOfOptions
  | positional (s : String)
  /-- Options with the values that stand in the same argument; the last one may still need a value
  from the next argument. -/
  | options (given : List (String × String)) (pending : Option String)
  /-- An unknown option, or a flag with a value. -/
  | bad

/-- The options of an argument of one-letter names. -/
def shortPiece (switches : List Switch) (given : List (String × String)) : List Char → Piece
  | [] => .options given.reverse none
  | c :: cs =>
    match switches.find? (·.short.contains c) with
    | none => .bad
    | some s =>
      if s.takesValue then
        if cs.isEmpty then .options given.reverse (some s.name)
        else .options ((s.name, String.ofList cs) :: given).reverse none
      else shortPiece switches ((s.name, "") :: given) cs

/-- The option of a long name, with the value behind an equals sign. -/
def longPiece (s : Switch) (value : Option String) : Piece :=
  if s.takesValue then
    match value with
    | some v => .options [(s.name, v)] none
    | none => .options [] (some s.name)
  else if value.isSome then .bad
  else .options [(s.name, "")] none

/-- **What an argument is**, where options are still allowed. -/
def pieceOf (switches : List Switch) (s : String) : Piece :=
  match s.toList with
  | ['-', '-'] => .endOfOptions
  | '-' :: c :: cs =>
    let name := String.ofList (s.toList.takeWhile (· != '='))
    let value := match s.toList.dropWhile (· != '=') with
      | _ :: v => some (String.ofList v)
      | [] => none
    match switches.find? (·.long.contains name) with
    | some switch => longPiece switch value
    | none => if c == '-' then .bad else shortPiece switches [] (c :: cs)
  | _ => .positional s

/-- Adds options in front. -/
def addGiven (given : List (String × String)) (a : Arguments) : Arguments :=
  { a with given := given ++ a.given }

/-- **Sorts arguments**; none when an option is unknown or lacks its value. -/
def sortArguments (switches : List Switch) : List String → Option Arguments
  | [] => some .empty
  | s :: rest =>
    match pieceOf switches s with
    | .bad => none
    | .endOfOptions => some ⟨[], rest⟩
    | .positional p => (sortArguments switches rest).map (·.withPositional p)
    | .options given none => (sortArguments switches rest).map (addGiven given)
    | .options given (some name) =>
      match rest with
      | [] => none
      | v :: rest => (sortArguments switches rest).map fun a => addGiven given (a.withOption name v)

end CommandLine

end Formula
