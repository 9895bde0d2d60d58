/-
# Settings documents

A settings document holds nothing, a truth value, a text, a list or a mapping. Values of other
kinds, such as numbers and dates, are told apart from these and not kept.
-/

namespace Formula

/-- The content of a settings document. -/
inductive Document where
  /-- Nothing. -/
  | null
  | boolean (b : Bool)
  | text (s : String)
  /-- A plain value of another kind, such as a number or a date. -/
  | other
  | list (items : List Document)
  | mapping (entries : List (Document × Document))
  deriving Inhabited

namespace Document

/-- Whether a document may be the key of a mapping: lists and mappings may not. -/
def isKey : Document → Bool
  | list _ | mapping _ => false
  | _ => true

end Document

end Formula
