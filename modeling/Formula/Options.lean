/-
# Options

The options that steer parsing, each a flag with a name.
-/
import Formula.Error

namespace Formula

/-- The options of a parse. -/
structure Options where
  /-- Whether neighbouring factors multiply. -/
  implicitProducts : Bool := true
  /-- Whether constant subexpressions fold. -/
  simplify : Bool := true
  /-- Whether each consumed token is recorded. -/
  debug : Bool := false
  deriving DecidableEq, Repr

namespace Options

/-- The names of the options. -/
def names : List String := ["allow_implicit_multiplication", "simplify", "debug"]

/-- Sets the option with a name. -/
def set? (o : Options) (name : String) (value : Bool) : Option Options :=
  match name with
  | "allow_implicit_multiplication" => some { o with implicitProducts := value }
  | "simplify" => some { o with simplify := value }
  | "debug" => some { o with debug := value }
  | _ => none

/-- Sets flags by name; a flag that is no option does not fit. -/
def withFlags (o : Options) (flags : List (String × Bool)) : Except Error Options :=
  flags.foldlM (fun o (name, value) => (o.set? name value).elim (.error .typeMismatch) .ok) o

end Options

end Formula
