/-
# Derivatives

The derivative of an expression with respect to one variable, by the rules for sums, products,
quotients and powers and the chain rule. Every part of it is built by the simplifying constructors.
-/
import Formula.Expr.Refusal
import Formula.Expr.Simplify

namespace Formula

namespace Expr

open Simplify

/-! ## Parts of derivatives -/

/-- Zero as an expression. -/
abbrev nought : Expr := integer 0

/-- One as an expression. -/
abbrev unit : Expr := integer 1

/-- The square of an expression. -/
def square (e : Expr) : Except Error Expr := power e (integer 2)

/-- `1 - e ^ 2`. -/
def oneMinusSquare (e : Expr) : Except Error Expr := do difference unit (← square e)

/-- `1 + e ^ 2`. -/
def onePlusSquare (e : Expr) : Except Error Expr := do sum unit (← square e)

/-- The radians of one degree. -/
def degree : Expr := operation .div (constant "pi") (integer 180)

/-- Whether a derivative vanishes: it is a number whose nearest double is zero. -/
def vanishes : Expr → Bool
  | number n => n.projectsToZero
  | _ => false

/-! ## Cancellation

The derivative of an expression may repeat parts of it. Such a part cancels against itself even
where it holds a double that differs from itself. -/

/-- **The quotient of two parts of one derivative**: a part over itself is one. -/
def ratio (l r : Expr) : Except Error Expr :=
  if l = r ∧ r.isNumber = false then .ok unit else quotient l r

/-- The quotient of two parts is the simplified quotient when equal parts are the same. -/
theorem ratio_eq_quotient {l r : Expr} (h : l = r → l.same r = true) :
    ratio l r = quotient l r := by
  unfold ratio
  split
  · rename_i hlr
    obtain ⟨rfl, hn⟩ := hlr
    cases l <;> simp_all [quotient, isNumber, isZero, isOne]
  · rfl

/-- **The difference of the products `f' * g` and `f * g'`**: factors that are their own derivatives
leave nothing. -/
def crossDifference (f g f' g' : Expr) : Except Error Expr := do
  let left ← product f' g
  let right ← product f g'
  if f' = f ∧ g' = g then return nought else difference left right

/-! ## Rules -/

/-- **The chain rule** for the function `name` at `arg`, whose derivative is `inner`. -/
def chain (name : String) (arg inner : Expr) : Except Error Expr :=
  let whole := call name arg
  match name with
  | "sin" => product inner (call "cos" arg)
  | "cos" => product inner (opposite (call "sin" arg))
  | "tan" => do product inner (← onePlusSquare whole)
  | "cot" => do product inner (← difference (integer (-1)) (← square whole))
  | "sind" => do product inner (← product degree (call "cosd" arg))
  | "cosd" => do product inner (opposite (← product degree (call "sind" arg)))
  | "tand" => do product inner (← product degree (← onePlusSquare whole))
  | "cotd" => do product inner (opposite (← product degree (← onePlusSquare whole)))
  | "arcsin" => do ratio inner (call "sqrt" (← oneMinusSquare arg))
  | "arccos" => do ratio (opposite inner) (call "sqrt" (← oneMinusSquare arg))
  | "arctan" => do ratio inner (← onePlusSquare arg)
  | "arccot" => do ratio (opposite inner) (← onePlusSquare arg)
  | "exp" => product inner whole
  | "ln" => ratio inner arg
  | "log" => ratio inner arg
  | "lg" => do ratio inner (← product (call "ln" (integer 10)) arg)
  | "sqrt" => do ratio inner (← product (integer 2) whole)
  | "sinh" => product inner (call "cosh" arg)
  | "cosh" => product inner (call "sinh" arg)
  | "tanh" => do product inner (← oneMinusSquare whole)
  | "coth" => do product inner (← oneMinusSquare whole)
  | "arsinh" => do ratio inner (call "sqrt" (← sum (← square arg) unit))
  | "arcosh" => do ratio inner (call "sqrt" (← difference (← square arg) unit))
  | "artanh" => do ratio inner (← oneMinusSquare arg)
  | "arcoth" => do ratio inner (← oneMinusSquare arg)
  | "abs" => product inner (call "sgn" arg)
  | name => .error (.unknownFunction name)

/-- The derivative of a power with a number as exponent, from the derivative of its base. -/
def powerRule (base exponent base' : Expr) : Except Error Expr :=
  if base'.vanishes then .ok nought
  else do
    let lowered ← power base (← difference exponent unit)
    product exponent (← product lowered base')

/-- The derivative of any other power, from the derivatives of its base and its exponent. -/
def exponentialRule (base exponent base' exponent' : Expr) : Except Error Expr :=
  let whole := operation .pow base exponent
  if base.isEuler then product exponent' whole
  else do
    let log ← product exponent' (call "ln" base)
    if base'.vanishes then product whole log
    else
      let ratio ← quotient (← product exponent base') base
      product whole (← sum log ratio)

/-! ## Differentiation -/

/-- **The derivative of an expression** with respect to a variable. -/
def derivative (x : String) : Expr → Except Error Expr
  | hole => .error .missingNode
  | number _ => .ok nought
  | boolean b => .error (.malformed (booleanText b) .booleanInDerivative)
  | constant name => .ok (if name = "NAN" then constant name else nought)
  | identifier name => .ok (if name = x then unit else nought)
  | literal t => .error (literalRefused t)
  | operation op l r =>
    if lacksOperand op l r then .error (.missingOperand op.symbol)
    else
      match op with
      | .add => do sum (← l.derivative x) (← r.derivative x)
      | .sub =>
        if r.isHole then opposite <$> l.derivative x
        else do difference (← l.derivative x) (← r.derivative x)
      | .mul => do
        let right ← product l (← r.derivative x)
        let left ← product (← l.derivative x) r
        sum right left
      | .div => do
        quotient (← crossDifference l r (← l.derivative x) (← r.derivative x)) (← square r)
      | .pow => do
        let l' ← l.derivative x
        if r.isNumber then powerRule l r l'
        else exponentialRule l r l' (← r.derivative x)
      | op => .error (.unknownOperator op.symbol)
  | conditional .. => .error (.malformed "if" .conditionalInDerivative)
  | call name a => do chain name a (← a.derivative x)
  | ending .. => .error (.unknownFunction endingName)
  | mark symbol _ => .error (.malformed symbol .mark)
  | closer b => .error (.malformed b.closing .mark)

end Expr

end Formula
