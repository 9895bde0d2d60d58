/-
# Plain text of expressions

The plain text of an expression is one line that reads back to an equal value: negative numbers and
one-sided minus signs stand in brackets where they are operands, fractions are written as divisions
and doubles keep a decimal point.
-/
import Formula.Double.Text
import Formula.Expr

namespace Formula

namespace Double

/-- The text of a double inside an expression: its shortest text, with a point before any
exponent; infinities and NaN are written as the constants. -/
def literalText (x : Double) : String :=
  match x with
  | nan => "NAN"
  | infinity s => if s then "-INF" else "INF"
  | x =>
    let cs := x.text.toList
    let mantissa := cs.takeWhile (· != 'e')
    let exponent := cs.dropWhile (· != 'e')
    String.ofList (mantissa ++ (if mantissa.contains '.' then [] else ['.', '0']) ++ exponent)

end Double

namespace Number

/-- The plain text of a number. -/
def ascii : Number → String
  | integer n => intText n
  | rational q => ratText q
  | float x => x.literalText

end Number

namespace Expr

/-! ## Brackets around operands -/

/-- **Whether an operand of `outer` stands in brackets.** The strict rule applies on the side where
equal levels do not group by themselves. -/
def needsBrackets (outer : Operator) (strict : Bool) : Expr → Bool
  | operation op l r =>
    (operation op l r).isNegation
      || (outer == .sub && op.yieldsTo outer)
      || (strict && outer == .div && op.yieldsTo outer)
      || (strict && outer == .pow && op == .pow)
      || decide (op.level < outer.level)
  | conditional .. => true
  | number n =>
    n.isNegative ||
      match n with
      | .rational q => q.den != 1 && Operator.div.yieldsTo outer
      | _ => false
  | _ => false

/-- A text in brackets, when they are needed. -/
def bracketed (needed : Bool) (text : String) : String :=
  if needed then "(" ++ text ++ ")" else text

/-- Whether the operand of a factorial stands in brackets. -/
def needsFactorialBrackets : Expr → Bool
  | number n =>
    n.isNegative ||
      match n with
      | .rational _ => true
      | _ => false
  | identifier _ | constant _ => false
  | _ => true

/-! ## Text -/

/-- **The plain text** of an expression; a hole leaves nothing. -/
def ascii : Expr → String
  | hole => ""
  | number n => n.ascii
  | boolean b => if b then "TRUE" else "FALSE"
  | constant name => name
  | identifier name => name
  | literal text => text
  | operation op l r =>
    match op with
    | .not => "NOT (" ++ l.ascii ++ ")"
    | .sub =>
      if r.isHole then "-" ++ bracketed (l.needsBrackets .sub false) l.ascii
      else l.ascii ++ "-" ++ bracketed (r.needsBrackets .sub false) r.ascii
    | .mul | .div =>
      bracketed (l.needsBrackets op false) l.ascii ++ op.symbol
        ++ bracketed (r.needsBrackets op true) r.ascii
    | .pow =>
      bracketed (l.needsBrackets op true) l.ascii ++ "^"
        ++ bracketed (r.needsBrackets op false) r.ascii
    | .and => l.ascii ++ " AND " ++ bracketed (r.needsBrackets op false) r.ascii
    | .or => l.ascii ++ " OR " ++ bracketed (r.needsBrackets op false) r.ascii
    | op => l.ascii ++ op.symbol ++ bracketed (r.needsBrackets op false) r.ascii
  | conditional c t e =>
    "if (" ++ c.ascii ++ ") \x7b" ++ t.ascii ++ "\x7d else \x7b" ++ e.ascii ++ "\x7d"
  | call name a =>
    if name = "!" ∨ name = "!!" then bracketed a.needsFactorialBrackets a.ascii ++ name
    else name ++ "(" ++ a.ascii ++ ")"
  | ending p t => endingName ++ "(" ++ p.ascii ++ ", " ++ t.ascii ++ ")"
  | mark symbol a => a.ascii ++ symbol
  | closer b => b.closing

/-! ## Holes that cannot be printed -/

/-- Whether holes stand only where the plain text leaves nothing for them: as operands of
operations and marks. -/
def asciiReady : Expr → Bool
  | operation op l r => l.asciiReady && (op == .not || r.asciiReady)
  | conditional c t e =>
    !c.isHole && !t.isHole && !e.isHole && c.asciiReady && t.asciiReady && e.asciiReady
  | call _ a => !a.isHole && a.asciiReady
  | ending p t => !p.isHole && !t.isHole && p.asciiReady && t.asciiReady
  | mark _ a => a.asciiReady
  | _ => true

/-- The plain text, when every subtree that it needs is there. -/
def ascii? (e : Expr) : Except Error String :=
  if !e.isHole && e.asciiReady then .ok e.ascii else .error .missingNode

end Expr

end Formula
