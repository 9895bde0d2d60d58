/-
# Outlines of expressions

An outline shows an expression as an indented tree with one node per line. Numbers, truth values
and literal texts carry their type.
-/
import Formula.Double.Text
import Formula.Expr
import Formula.Text.Blank

namespace Formula

namespace Number

/-- The outline of a number: its text and its type. -/
def outline : Number → String
  | integer n => intText n ++ ":int"
  | rational q => intText q.num ++ "/" ++ String.ofList (digits q.den) ++ ":rational"
  | float x => x.text ++ ":float"

end Number

/-- A label over the indented lines of some outlines. -/
def branch (label : String) (children : List String) : String :=
  let lines := children.flatMap fun c => (linesOf c.toList).map fun l => "  " ++ String.ofList l
  "\n".intercalate (label :: lines)

namespace Expr

/-- **The outline** of an expression; a hole has none. -/
def outline : Expr → String
  | hole => ""
  | number n => n.outline
  | boolean b => (if b then "true" else "false") ++ ":bool"
  | constant name => name
  | identifier name => name
  | literal text => text ++ ":string"
  | operation op l r => branch op.symbol [l.outline, r.outline]
  | conditional c t e => branch "if" [c.outline, t.outline, e.outline]
  | call name a => branch (name ++ "()") [a.outline]
  | ending p t => branch (endingName ++ "()") [p.outline, t.outline]
  | mark symbol a => branch symbol [a.outline]
  | closer b => b.closing

end Expr

end Formula
