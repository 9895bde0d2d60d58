/-
# Exact values of expressions

Over the rationals every value is exact. Whatever would leave the rationals, such as a decimal, the
circle constant or an irrational root, is an error.
-/
import Formula.Evaluation.Scope
import Formula.Value.Exact

namespace Formula

namespace Expr

/-- The rational of a number that is no double. -/
def exactNumber : Number → Except Error Rat
  | .integer n => .ok n
  | .rational q => .ok q
  | .float x => .error (.invalid (.notRationalValue x.text))

/-- A constant has no rational value. -/
def exactConstant (name : String) : Error :=
  if constantNames.contains name then .invalid (.constantNotRational name)
  else .unknownConstant name

/-- An exact function, or the error for one that exists over the reals alone or not at all. -/
def exactFunction (s : Scope) (name : String) : Except Error FunctionEntry :=
  match s.functions.find? .rational name with
  | some f => .ok f
  | none =>
    if (s.functions.find? .real name).isSome then .error (.invalid (.functionNotRational name))
    else .error (.unknownFunction name)

/-- The value of an arithmetic operation on rationals. -/
def exactArithmetic (op : Operator) (a b : Rat) : Except Error Rat :=
  match op with
  | .add => .ok (a + b)
  | .sub => .ok (a - b)
  | .mul => .ok (a * b)
  | .div => if b = 0 then .error (.divisionByZero "/") else .ok (a / b)
  | .pow => Rational.power a b
  | op => .error (.unknownOperator op.symbol)

/-- The value of a function at rational arguments. -/
def exactApply (f : FunctionEntry) (arguments : List Rat) : Except Error Rat := do
  (← f.apply (arguments.map .rational)).asRational

/-- **The exact value of an expression.** -/
def exactValue (s : Scope) : Expr → Except Error Rat
  | hole => .error .missingNode
  | number n => exactNumber n
  | boolean _ => .error (.invalid .booleanNotRational)
  | constant name => .error (exactConstant name)
  | identifier name => do (← s.lookup name).asRational
  | literal t => .error (literalRefused t)
  | operation op l r =>
    if lacksOperand op l r then .error (.missingOperand op.symbol)
    else if op.isLogical then .error (.unknownOperator op.symbol)
    else if r.isHole then (l.exactValue s).map (- ·)
    else do
      let a ← l.exactValue s
      let b ← r.exactValue s
      exactArithmetic op a b
  | conditional .. => .error conditionalRefused
  | call name a => do
    let f ← exactFunction s name
    exactApply f [← a.exactValue s]
  | ending p t => do
    let f ← exactFunction s endingName
    let price ← p.exactValue s
    let tail ← t.exactValue s
    exactApply f [price, tail]
  | mark symbol _ => .error (.malformed symbol .mark)
  | closer b => .error (.malformed b.closing .mark)

end Expr

end Formula
