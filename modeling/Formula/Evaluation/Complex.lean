/-
# Complex values of expressions

Real operands become complex numbers with a zero imaginary part, and powers take their principal
value.
-/
import Formula.Evaluation.Scope
import Formula.Value.Complex

namespace Formula

namespace Expr

/-- The complex value of a constant. -/
def complexConstant (name : String) : Except Error Complex :=
  match name with
  | "pi" => .ok (.ofReal .pi)
  | "e" => .ok (.ofReal .e)
  | "i" => .ok .i
  | "NAN" => .ok (.ofReal .nan)
  | "INF" => .ok (.ofReal (.infinity false))
  | name => .error (.unknownConstant name)

/-- The value of an arithmetic operation on complex numbers. -/
def complexArithmetic (op : Operator) (a b : Complex) : Except Error Complex :=
  match op with
  | .add => .ok (a + b)
  | .sub => .ok (a - b)
  | .mul => .ok (a * b)
  | .div => if b.isZero then .error (.divisionByZero "/") else .ok (a.div b)
  | .pow => a.power b
  | op => .error (.unknownOperator op.symbol)

/-- The value of a function at complex arguments. -/
def complexApply (f : FunctionEntry) (arguments : List Complex) : Except Error Complex := do
  (← f.apply (arguments.map .complex)).toComplex

/-- **The complex value of an expression.** -/
def complexValue (s : Scope) : Expr → Except Error Complex
  | hole => .error .missingNode
  | number (.integer n) => (Number.integer n).toDouble.map .ofReal
  | number n => .ok (.ofReal n.projection)
  | boolean b => .error (booleanRefused b)
  | constant name => complexConstant name
  | identifier name => do (← s.lookup name).asComplex
  | literal t => .error (literalRefused t)
  | operation op l r =>
    if lacksOperand op l r then .error (.missingOperand op.symbol)
    else if op.isLogical then .error (.unknownOperator op.symbol)
    else if r.isHole then (l.complexValue s).map (- ·)
    else if op == .pow && l.isEuler then do (← r.complexValue s).exp
    else do
      let a ← l.complexValue s
      let b ← r.complexValue s
      complexArithmetic op a b
  | conditional .. => .error conditionalRefused
  | call name a => do
    let f ← s.resolve .complex name
    complexApply f [← a.complexValue s]
  | ending p t => do
    let f ← s.resolve .complex endingName
    let price ← p.complexValue s
    let tail ← t.complexValue s
    complexApply f [price, tail]
  | mark symbol _ => .error (.malformed symbol .mark)
  | closer b => .error (.malformed b.closing .mark)

end Expr

end Formula
