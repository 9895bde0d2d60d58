/-
# Implicit products

Between two neighbouring tokens that multiply implicitly, a multiplication sign is inserted at the
place of the second.
-/
import Formula.Token

namespace Formula

/-- The multiplication sign that is inserted before a token. -/
def productSign (t : Token) : Token := ⟨.operator .mul, "*", "*", t.position⟩

/-- Inserts multiplication signs behind a token that has been passed, and between the rest. -/
def insertProductsAfter (previous : Token) : List Token → List Token
  | [] => []
  | t :: ts =>
    if previous.kind.multiplies t.kind then productSign t :: t :: insertProductsAfter t ts
    else t :: insertProductsAfter t ts

/-- **Inserts the implicit multiplication signs** of a token list. -/
def insertProducts : List Token → List Token
  | [] => []
  | t :: ts => t :: insertProductsAfter t ts

/-- The tokens that are no blanks. -/
def dropBlanks (ts : List Token) : List Token := ts.filter (·.kind != .blank)

end Formula
