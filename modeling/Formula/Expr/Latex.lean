/-
# LaTeX of expressions

Divisions and fractions are written with `\frac`, a product of a number and a letter is written
without a sign, and other products use `\cdot`.
-/
import Formula.Expr.Ascii

namespace Formula

/-! ## Names -/

/-- The control word of a constant; a name without one stands for itself. -/
def latexConstant (name : String) : String :=
  match name with
  | "pi" => "\\pi"
  | "NAN" => "\\mathrm\x7bNaN\x7d"
  | "INF" => "\\infty"
  | name => name

/-- The sign of an operator between its operands. -/
def latexSign (op : Operator) : String :=
  match op with
  | .ne => "\\neq "
  | .ge => "\\geq "
  | .le => "\\leq "
  | .and => "\\land "
  | .or => "\\lor "
  | op => op.symbol

/-- The functions that have a control word of their own. -/
def latexFunctions : List String :=
  ["sin", "cos", "tan", "cot", "sinh", "cosh", "tanh", "coth", "arcsin", "arccos", "arctan",
   "exp", "log", "ln", "arg"]

/-- A text as an argument of a control word. -/
def inBraces (text : String) : String := "\x7b" ++ text ++ "\x7d"

/-- The application of a function to the text of its arguments. -/
def latexCall (name arguments : String) : String :=
  match name with
  | "sqrt" => "\\sqrt" ++ inBraces arguments
  | "abs" => "\\lvert " ++ arguments ++ "\\rvert "
  | "lg" => "\\log_" ++ inBraces "10" ++ "(" ++ arguments ++ ")"
  | name =>
    if latexFunctions.contains name then "\\" ++ name ++ "(" ++ arguments ++ ")"
    else "\\operatorname" ++ inBraces name ++ "(" ++ arguments ++ ")"

namespace Number

/-- The LaTeX of a number. -/
def latex : Number → String
  | integer n => intText n
  | rational q =>
    if q.den = 1 then intText q.num
    else
      (if q.num < 0 then "-" else "") ++ "\\frac" ++ inBraces (String.ofList (digits q.num.natAbs))
        ++ inBraces (String.ofList (digits q.den))
  | float x =>
    match x with
    | .nan => "\\mathrm\x7bNaN\x7d"
    | .infinity s => if s then "-\\infty" else "\\infty"
    | x => x.text

end Number

namespace Expr

/-! ## Products and powers -/

/-- The left operand of an operation. -/
def leftOperand : Expr → Expr
  | operation _ l _ => l
  | _ => hole

/-- Whether an expression is the application of a function. -/
def isApplication : Expr → Bool
  | call .. | ending .. => true
  | _ => false

/-- **Whether a product needs a sign** between its factors: after a function, and before a number or
anything that starts like one. -/
def needsProductSign (l r : Expr) : Bool :=
  l.isApplication || r.isNumber || r.isNegation || r.leftOperand.isNumber

/-- Whether an exponent with the given text stands without braces. -/
def isShortExponent (text : String) : Expr → Bool
  | identifier _ | constant _ => text.length == 1
  | number (.integer n) => decide (0 ≤ n ∧ n < 10)
  | _ => false

/-- Whether the operand of a factorial stands in brackets. -/
def needsLatexFactorialBrackets : Expr → Bool
  | number (.integer n) => decide (n < 0)
  | identifier _ | constant _ => false
  | _ => true

/-! ## Text -/

/-- **The LaTeX** of an expression; a hole leaves nothing. -/
def latex : Expr → String
  | hole => ""
  | number n => n.latex
  | boolean b => if b then "\\mathrm\x7btrue\x7d" else "\\mathrm\x7bfalse\x7d"
  | constant name => latexConstant name
  | identifier name => String.ofList (name.toList.dropWhile (· == '$'))
  | literal text => text
  | operation op l r =>
    match op with
    | .not => "\\neg (" ++ l.latex ++ ")"
    | .sub =>
      if r.isHole then "-" ++ bracketed (l.needsBrackets .sub false) l.latex
      else l.latex ++ "-" ++ bracketed (r.needsBrackets .sub false) r.latex
    | .mul =>
      bracketed (l.needsBrackets .mul false) l.latex
        ++ (if needsProductSign l r then "\\cdot " else "")
        ++ bracketed (r.needsBrackets .mul true) r.latex
    | .div => "\\frac" ++ inBraces l.latex ++ inBraces r.latex
    | .pow =>
      bracketed (l.needsBrackets .pow true) l.latex ++ "^"
        ++ (if r.isShortExponent r.latex then r.latex else inBraces r.latex)
    | op => l.latex ++ latexSign op ++ bracketed (r.needsBrackets op false) r.latex
  | conditional c t e =>
    "\\begin\x7bcases\x7d " ++ t.latex ++ " & \\text\x7bif \x7d " ++ c.latex ++ " \\\\ "
      ++ e.latex ++ " & \\text\x7botherwise\x7d \\end\x7bcases\x7d"
  | call name a =>
    if name = "!" ∨ name = "!!" then bracketed a.needsLatexFactorialBrackets a.latex ++ name
    else latexCall name a.latex
  | ending p t => latexCall endingName (p.latex ++ ", " ++ t.latex)
  | mark symbol a => a.latex ++ symbol
  | closer b => b.closing

/-! ## Holes that cannot be printed -/

/-- Whether holes stand only where the LaTeX leaves nothing for them. -/
def latexReady : Expr → Bool
  | operation op l r =>
    (match op with
      | .not => !l.isHole
      | .sub => r.isHole || !l.isHole
      | .mul => true
      | .div => !l.isHole && !r.isHole
      | .pow => !r.isHole
      | _ => !l.isHole)
    && l.latexReady && (op == .not || r.latexReady)
  | conditional c t e =>
    !c.isHole && !t.isHole && !e.isHole && c.latexReady && t.latexReady && e.latexReady
  | call _ a => !a.isHole && a.latexReady
  | ending p t => !p.isHole && !t.isHole && p.latexReady && t.latexReady
  | mark _ a => a.latexReady
  | _ => true

/-- The LaTeX, when every subtree that it needs is there. -/
def latex? (e : Expr) : Except Error String :=
  if !e.isHole && e.latexReady then .ok e.latex else .error .missingNode

end Expr

end Formula
