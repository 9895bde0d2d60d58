/-
# Functions

A function has a name, a domain of values, a description for listings and an implementation. One
name may have a function in each domain.
-/
import Formula.Value

namespace Formula

/-! ## Domains and categories -/

/-- The kinds of values that functions work on. -/
inductive Domain where
  | real
  | rational
  | complex
  | pricing
  deriving DecidableEq, Repr

namespace Domain

/-- All domains. -/
def all : List Domain := [real, rational, complex, pricing]

/-- The name of a domain. -/
def name : Domain → String
  | real => "real"
  | rational => "rational"
  | complex => "complex"
  | pricing => "pricing"

/-- The domain with a name. -/
def ofName? (s : String) : Option Domain := all.find? (·.name == s)

/-- The domain with a name, or the error for an unknown one. -/
def ofName (s : String) : Except Error Domain :=
  (ofName? s).elim (.error (.invalid (.unknownDomain s))) .ok

end Domain

/-- The categories under which functions are listed. -/
inductive Category where
  | trigonometric
  | hyperbolic
  | exponential
  | rounding
  | arithmetic
  | complex
  | pricing
  deriving DecidableEq, Repr

namespace Category

/-- All categories. -/
def all : List Category :=
  [trigonometric, hyperbolic, exponential, rounding, arithmetic, complex, pricing]

/-- The name of a category. -/
def name : Category → String
  | trigonometric => "trigonometric"
  | hyperbolic => "hyperbolic"
  | exponential => "exponential"
  | rounding => "rounding"
  | arithmetic => "arithmetic"
  | complex => "complex"
  | pricing => "pricing"

/-- The category with a name. -/
def ofName? (s : String) : Option Category := all.find? (·.name == s)

/-- The category with a name, or the error for an unknown one. -/
def ofName (s : String) : Except Error Category :=
  (ofName? s).elim (.error (.invalid (.unknownCategory s))) .ok

end Category

/-! ## Implementations -/

/-- What computes a function, by the kind of its arguments. -/
inductive Implementation where
  /-- A function of one number. -/
  | numeric (f : Number → Except Error Number)
  /-- A function of one value of any kind. -/
  | general (f : Value → Except Error Value)
  /-- An exact function of one rational. -/
  | exact (f : Rat → Except Error Rat)
  /-- A function of one complex number. -/
  | analytic (f : Complex → Except Error Complex)
  /-- A function of two values. -/
  | pair (f : Value → Value → Except Error Value)
  /-- The first of some arguments. -/
  | first
  /-- The last of some arguments. -/
  | last
  /-- The sum of some arguments. -/
  | sum

namespace Implementation

/-- **Applies an implementation**; arguments of another number or kind are refused. -/
def apply : Implementation → List Value → Except Error Value
  | numeric f, [v] => do .number <$> f (← v.toNumber)
  | general f, [v] => f v
  | exact f, [v] => do .rational <$> f (← v.toFraction)
  | analytic f, [v] => do .complex <$> f (← v.toComplex)
  | pair f, [v, w] => f v w
  | first, v :: _ => .ok v
  | last, v :: vs => .ok (vs.getLastD v)
  | sum, v :: vs => vs.foldlM Value.add v
  | _, _ => .error .typeMismatch

end Implementation

/-! ## Entries -/

/-- A parameter of a function, as listings show it. -/
structure Parameter where
  name : String
  kind : String
  description : String
  deriving DecidableEq, Repr

/-- A function with its description. -/
structure FunctionEntry where
  name : String
  description : String
  category : Category
  domain : Domain
  parameters : List Parameter
  implementation : Implementation
  examples : List String

namespace FunctionEntry

/-- The number of parameters. -/
def arity (f : FunctionEntry) : Nat := f.parameters.length

/-- The value at some arguments. -/
def apply (f : FunctionEntry) (arguments : List Value) : Except Error Value :=
  f.implementation.apply arguments

/-- The parameter of a function of one argument. -/
def argument (domain : Domain) : Parameter :=
  ⟨"x", if domain = .complex then "complex" else "number", "The argument"⟩

/-- A function of one argument, with one example. -/
def unary (domain : Domain) (name description : String) (category : Category)
    (implementation : Implementation) (shownExample : String) : FunctionEntry :=
  ⟨name, description, category, domain, [argument domain], implementation, [shownExample]⟩

end FunctionEntry

end Formula
