/-
# Functions of prices

Prices are rounded as real numbers are, and a price may have its last digits overwritten by a fixed
ending: 512.34 with the ending 9.90 is 519.90.
-/
import Formula.Function.Real

namespace Formula

namespace Function

/-! ## Endings -/

/-- Whether a text is a decimal tail: digits, a point and two digits, with at most a line end
behind. -/
def isDecimalTail (cs : List Char) : Bool :=
  match cs.dropWhile isDecimalDigit with
  | ['.', a, b] => isDecimalDigit a && isDecimalDigit b
  | ['.', a, b, '\n'] => isDecimalDigit a && isDecimalDigit b
  | _ => false

/-- The text of a tail: a text stands for itself, and a number is written with two decimals and,
below one, without its first character. -/
def tailText : Value → Except Error String
  | .text s => .ok s
  | v => do
    let x ← v.toDouble
    let s := x.fixedText 2 false
    return if Double.zero.le x && x.lt .one then String.ofList (s.toList.drop 1) else s

/-- The text of a price cut to cents. -/
def priceText (x : Double) : Except Error String :=
  match x with
  | .nan => .ok "NaN"
  | x =>
    match x.toDecimal?.bind (Decimal.round? .floor 2) with
    | some d => .ok (d.fixedText 2)
    | none => .error .decimalPrecision

/-- The number that a text shows. -/
def readNumeral (s : String) : Except Error Double :=
  (Double.read? s).elim (.error (.invalid (.notNumeral s))) .ok

/-- **The price with an ending**: the tail overwrites the last characters of the price, and at least
one character of the price is left. -/
def withEnding (price tail : Value) : Except Error Value := do
  let ending ← tailText tail
  if !isDecimalTail ending.toList then throw (.malformed ending (.badEnding ending))
  let text ← priceText (← price.toDouble)
  let keep := text.length - ending.length
  if keep = 0 then throw (.malformed ending (.longEnding ending text))
  return .float (← readNumeral (String.ofList (text.toList.take keep) ++ ending))

/-! ## The table -/

/-- The parameter of a function of a price. -/
def priceParameter : Parameter := ⟨"price", "number", "The price"⟩

/-- An entry of the table that rounds a price. -/
def priceRounding (name description : String) (implementation : Implementation)
    (shownExample : String) : FunctionEntry :=
  ⟨name, description, .rounding, .pricing, [priceParameter], implementation, [shownExample]⟩

/-- **The functions of prices.** -/
def priceTable : List FunctionEntry :=
  [priceRounding "round" "Round to nearest integer, halves up" (.general roundHalfAway)
     "round($price * 1.1)",
   priceRounding "ceil" "Round up to the next integer" (.numeric (rounding Rat.ceil))
     "ceil($price)",
   priceRounding "floor" "Round down to the previous integer" (.numeric (rounding Rat.floor))
     "floor($price)",
   ⟨"ending", "Replace the trailing digits of a price with a fixed ending", .pricing, .pricing,
     [priceParameter, ⟨"tail", "decimal tail", "Ending such as .90 or 9.90"⟩], .pair withEnding,
     ["ending($price, .90)",
      "if ($price < 200) \x7b ending($price, .90) \x7d else \x7b ending($price, 9.90) \x7d"]⟩]

end Function

end Formula
