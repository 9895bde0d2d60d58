/-
# Scopes

A scope gives the functions and the variables that an expression may use.
-/
import Formula.Expr.Refusal
import Formula.Registry

namespace Formula

/-- The values of variables; the first binding of a name counts. -/
abbrev Bindings := List (String × Value)

/-- The functions and variables that an expression may use. -/
structure Scope where
  functions : Registry
  bindings : Bindings

namespace Scope

/-- The built-in functions with some variables. -/
def standard (bindings : Bindings) : Scope := ⟨.builtin, bindings⟩

/-- The value of a variable, or the error for an unbound one. -/
def lookup (s : Scope) (name : String) : Except Error Value :=
  (s.bindings.lookup name).elim (.error (.unknownVariable name)) .ok

/-- The function of a domain, or the error for an unknown one. -/
def resolve (s : Scope) (domain : Domain) (name : String) : Except Error FunctionEntry :=
  (s.functions.find? domain name).elim (.error (.unknownFunction name)) .ok

end Scope

end Formula
