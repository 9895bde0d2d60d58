/-
# Registries

A registry holds at most one function for each domain and name. Registering a function again
replaces the earlier one, and listings are sorted by domain and name.
-/
import Formula.Function.Analytic
import Formula.Function.Exact
import Formula.Function.Price

namespace Formula

/-- A registry of functions. -/
structure Registry where
  entries : List FunctionEntry

namespace Registry

/-- The registry without functions. -/
def empty : Registry := ⟨[]⟩

/-- Whether an entry is the one for a domain and a name. -/
def isEntryFor (domain : Domain) (name : String) (f : FunctionEntry) : Bool :=
  f.domain == domain && f.name == name

/-- The number of functions. -/
def size (r : Registry) : Nat := r.entries.length

/-- **Registers a function**, in place of an earlier one of the same domain and name. -/
def register (r : Registry) (f : FunctionEntry) : Registry :=
  ⟨r.entries.filter (fun g => !isEntryFor f.domain f.name g) ++ [f]⟩

/-- Registers the functions of a list, from the first on. -/
def registerAll (r : Registry) (fs : List FunctionEntry) : Registry := fs.foldl register r

/-- The function of a domain with a name. -/
def find? (r : Registry) (domain : Domain) (name : String) : Option FunctionEntry :=
  r.entries.find? (isEntryFor domain name)

/-- The function of a domain with a name, or the error for an unregistered one. -/
def get (r : Registry) (domain : Domain) (name : String) : Except Error FunctionEntry :=
  (r.find? domain name).elim (.error (.invalid (.unregistered domain.name name))) .ok

/-- Whether an entry comes before another in listings. -/
def comesBefore (f g : FunctionEntry) : Bool :=
  if f.domain.name = g.domain.name then !decide (g.name < f.name)
  else decide (f.domain.name < g.domain.name)

/-- **The listing** of the functions of a domain and a category, sorted by domain and name; without
a domain or a category all are listed. -/
def list (r : Registry) (domain : Option Domain) (category : Option Category) :
    List FunctionEntry :=
  (r.entries.filter fun f => domain.all (· == f.domain) && category.all (· == f.category)).mergeSort
    comesBefore

/-! ## The built-in functions -/

/-- All built-in functions. -/
def builtinEntries : List FunctionEntry :=
  Function.realTable ++ Function.exactTable ++ Function.analyticTable ++ Function.priceTable

/-- The registry of the built-in functions. -/
def builtin : Registry := ⟨builtinEntries⟩

end Registry

end Formula
