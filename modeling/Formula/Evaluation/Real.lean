/-
# Values of expressions over real numbers

Integers stay exact as long as they are small; everything else is a double. A dialect may also admit
truth values with relations and conditionals, and literal texts.
-/
import Formula.Evaluation.Scope

namespace Formula

/-- What an evaluation over real numbers admits. -/
structure Dialect where
  /-- The domain of its functions. -/
  functions : Domain
  /-- Whether truth values, relations and conditionals have values. -/
  logical : Bool
  /-- Whether literal texts have values. -/
  texts : Bool
  deriving DecidableEq, Repr

namespace Dialect

/-- Plain arithmetic. -/
def arithmetic : Dialect := ⟨.real, false, false⟩

/-- Arithmetic and logic. -/
def logic : Dialect := ⟨.real, true, false⟩

/-- Arithmetic and logic over prices, with literal tails. -/
def pricing : Dialect := ⟨.pricing, true, true⟩

end Dialect

namespace Expr

/-! ## Operands -/

/-- The value of a number: integers stay, everything else becomes a double. -/
def numberValue : Number → Value
  | .integer n => .integer n
  | n => .float n.projection

/-- The value of a constant. -/
def constantValue (name : String) : Except Error Value :=
  match name with
  | "pi" => .ok (.float .pi)
  | "e" => .ok (.float .e)
  | "NAN" => .ok (.float .nan)
  | "INF" => .ok (.float (.infinity false))
  | name => .error (.unknownConstant name)

/-- The value of a variable: a double, or a truth value where these are admitted. -/
def variableValue (d : Dialect) (s : Scope) (name : String) : Except Error Value := do
  match ← s.lookup name with
  | .boolean b => if d.logical then .ok (.boolean b) else .float <$> (Value.boolean b).toDouble
  | v => .float <$> v.toDouble

/-! ## Operations -/

/-- The value of an arithmetic operation on values. -/
def arithmeticValue (op : Operator) (a b : Value) : Except Error Value :=
  match op with
  | .add => a.add b
  | .sub => a.sub b
  | .mul => a.mul b
  | .div => a.div b
  | .pow => a.power b
  | op => .error (.unknownOperator op.symbol)

/-- The exponential of a value. -/
def exponentialValue (v : Value) : Except Error Value := do
  return .number (Function.exponential (← v.toNumber))

/-! ## Evaluation -/

/-- **The value of an expression** over real numbers, truth values and texts, as far as the dialect
admits them. Conjunctions, disjunctions and conditionals evaluate only what they need. -/
def value (d : Dialect) (s : Scope) : Expr → Except Error Value
  | hole => .error .missingNode
  | number n => .ok (numberValue n)
  | boolean b => if d.logical then .ok (.boolean b) else .error (booleanRefused b)
  | constant name => constantValue name
  | identifier name => variableValue d s name
  | literal t => if d.texts then .ok (.text t) else .error (literalRefused t)
  | operation op l r =>
    if lacksOperand op l r then .error (.missingOperand op.symbol)
    else if op.isLogical then
      if d.logical then
        match op with
        | .not => do return .boolean !(← l.value d s).isTrue
        | .and => do
          if (← l.value d s).isTrue then return .boolean (← r.value d s).isTrue
          else return .boolean false
        | .or => do
          if (← l.value d s).isTrue then return .boolean true
          else return .boolean (← r.value d s).isTrue
        | op => do
          let a ← l.value d s
          let b ← r.value d s
          .boolean <$> a.relate op b
      else .error (.unknownOperator op.symbol)
    else if r.isHole then do (← l.value d s).neg
    else if op == .pow && l.isEuler then do exponentialValue (← r.value d s)
    else do
      let a ← l.value d s
      let b ← r.value d s
      arithmeticValue op a b
  | conditional c t e =>
    if d.logical then do
      if (← c.value d s).isTrue then t.value d s else e.value d s
    else .error conditionalRefused
  | call name a => do
    let f ← s.resolve d.functions name
    f.apply [← a.value d s]
  | ending p t => do
    let f ← s.resolve d.functions endingName
    let price ← p.value d s
    let tail ← t.value d s
    f.apply [price, tail]
  | mark symbol _ => .error (.malformed symbol .mark)
  | closer b => .error (.malformed b.closing .mark)

end Expr

end Formula
