/-
# Errors

Everything that can go wrong, by cause. Each error has one wording, and errors about expressions
also carry the token, symbol or name that caused them.
-/
import Formula.Bracket
import Formula.Decimal
import Formula.Text.Quoted

namespace Formula

/-! ## Malformed expressions -/

/-- Why a token sequence or a tree is not an expression of the language at hand. -/
inductive Malformed where
  /-- A structural mark that has no value of its own. -/
  | mark
  | empty
  | unexpectedEnd
  | unexpectedToken (value : String) (position : Nat)
  /-- Something else had to follow; `what` names it. -/
  | expected (what : String)
  | callWithoutParenthesis (name : String)
  | wrongArity (name : String) (wanted got : Nat)
  | booleanInArithmetic
  | booleanInDerivative
  | literalText (text : String)
  | conditionalInArithmetic
  | conditionalInDerivative
  | badEnding (text : String)
  | longEnding (text price : String)
  deriving DecidableEq, Repr

/-- The wording of a malformed expression whose culprit is `near`. -/
def Malformed.message (near : String) : Malformed → String
  | mark => if near = "" then "Syntax error" else s!"Syntax error near '{near}'"
  | empty => "Empty expression"
  | unexpectedEnd => "Unexpected end of expression"
  | unexpectedToken value position => s!"Unexpected '{value}' at position {position}"
  | expected what => "Expected " ++ what
  | callWithoutParenthesis name => s!"Function '{name}' requires '('"
  | wrongArity name wanted got => s!"Function '{name}' expects {wanted} argument(s), got {got}"
  | booleanInArithmetic => "Boolean values are not allowed in arithmetic"
  | booleanInDerivative => "Boolean values cannot be differentiated"
  | literalText text => s!"Unexpected literal '{text}'"
  | conditionalInArithmetic => "Conditionals need a logic evaluator"
  | conditionalInDerivative => "Conditionals cannot be differentiated"
  | badEnding text => s!"Invalid price ending '{text}'"
  | longEnding text price => s!"Ending '{text}' is longer than price {price}"

/-! ## Invalid values -/

/-- The parts of a date with a time. -/
inductive DatePart where
  | year (number : Nat)
  | month
  | day
  | hour
  | minute
  | second
  deriving DecidableEq, Repr

/-- The wording of a part of a date that is out of its range. -/
def DatePart.message : DatePart → String
  | year number => s!"year {number} is out of range"
  | month => "month must be in 1..12"
  | day => "day is out of range for month"
  | hour => "hour must be in 0..23"
  | minute => "minute must be in 0..59"
  | second => "second must be in 0..59"

/-- Why a value, name or setting is refused. -/
inductive Invalid where
  | notRational
  | notRationalValue (shown : String)
  | booleanNotRational
  | constantNotRational (name : String)
  | functionNotRational (name : String)
  | powerNotReal (base : String) (exponent : Rat)
  | powerIrrational (base exponent : Rat)
  | rootIrrational (radicand : Rat)
  | notNatural (symbol : String) (value : Rat)
  | notComplex
  | notComplexValue (shown : String)
  | noFraction (shown : String)
  | negativeFactorial
  | semiFactorialDomain
  | logarithmDomain
  | outsideDomain
  | notNumeral (text : String)
  | notInteger (text : String) (base : Nat)
  /-- A part of a date or time that is out of its range. -/
  | noDate (part : DatePart)
  /-- A number that belongs to no character. -/
  | noCharacter
  | unknownDomain (name : String)
  | unknownCategory (name : String)
  | unregistered (domain name : String)
  | unknownMode (name : String) (known : List String)
  | unknownOptions (names : List String)
  | optionNotBoolean (name : String)
  | notMapping (path : String)
  deriving DecidableEq, Repr

/-- The wording of a refused value. -/
def Invalid.message : Invalid → String
  | notRational => "Expecting rational number"
  | notRationalValue shown => "Expecting rational number, got " ++ shown
  | booleanNotRational => "Expecting rational number, got a boolean"
  | constantNotRational name => s!"Expecting rational number, '{name}' is not rational"
  | functionNotRational name => s!"Expecting rational number, '{name}' is not a rational function"
  | powerNotReal base exponent =>
    "Expecting rational number, " ++ base ++ "^(" ++ ratText exponent ++ ") is not real"
  | powerIrrational base exponent =>
    "Expecting rational number, " ++ ratText base ++ "^(" ++ ratText exponent ++ ") is irrational"
  | rootIrrational radicand =>
    "Expecting rational number, sqrt(" ++ ratText radicand ++ ") is irrational"
  | notNatural symbol value =>
    s!"'{symbol}' expects a non-negative integer, got " ++ ratText value
  | notComplex => "Expecting complex number"
  | notComplexValue shown => "Expecting complex number, got " ++ shown
  | noFraction shown => "Cannot convert " ++ shown ++ " to a fraction"
  | negativeFactorial => "Factorial of a negative integer is undefined"
  | semiFactorialDomain => "Semi-factorial expects a non-negative integer"
  | logarithmDomain => "ln expects a positive real number; use log for complex arguments"
  | outsideDomain => "math domain error"
  | notNumeral text => "could not convert string to float: " ++ quoted text
  | notInteger text base =>
    s!"invalid literal for int() with base {base}: "
      ++ String.ofList ((quoted text).toList.take 200)
  | noDate part => part.message
  | noCharacter => "chr() arg not in range(0x110000)"
  | unknownDomain name => quoted name ++ " is not a valid Domain"
  | unknownCategory name => quoted name ++ " is not a valid FunctionCategory"
  | unregistered domain name => s!"Unknown {domain} function: {name}"
  | unknownMode name known =>
    s!"Unknown domain '{name}'; expected one of " ++ ", ".intercalate known
  | unknownOptions names => "Unknown parser options: " ++ ", ".intercalate names
  | optionNotBoolean name => s!"Parser option '{name}' must be true or false"
  | notMapping path => "Expected a mapping in " ++ path

/-! ## Unreadable documents -/

/-- Why a text is no settings document. -/
inductive Unreadable where
  /-- A character that may not stand in a document. -/
  | character
  /-- A text that is no sequence of pieces. -/
  | lexical
  /-- Pieces that make up no document. -/
  | structural
  /-- A reference to nothing, a name given twice, or a second document. -/
  | reference
  /-- A node that does not fit its tag, or a key that may be none. -/
  | content
  /-- A word that is no truth value where one has to stand. -/
  | truthWord
  /-- Nothing where digits have to stand. -/
  | noDigits
  deriving DecidableEq, Repr

/-! ## Errors -/

/-- An error of tokenizing, parsing, simplifying, evaluating, differentiating or configuring. -/
inductive Error where
  /-- No token starts at a position of the source. -/
  | unknownToken (character : Char) (position : Nat)
  | malformed (near : String) (cause : Malformed)
  /-- A bracket without its partner; a closing one names its kind. -/
  | unbalanced (delimiter : String) (closer : Option Bracket)
  | unknownOperator (symbol : String)
  | unexpectedOperator (symbol : String)
  | unknownFunction (name : String)
  | unknownVariable (name : String)
  | unknownConstant (name : String)
  | divisionByZero (culprit : String)
  /-- Zero to the power zero. -/
  | undefinedPower
  | logarithmOfZero (name : String)
  | missingOperand (symbol : String)
  | invalid (cause : Invalid)
  /-- A number too large for a double. -/
  | overflow
  /-- An operation on values that do not support it. -/
  | typeMismatch
  /-- A decimal that cannot be rounded within its precision. -/
  | decimalPrecision
  /-- A floating division by zero, or a negative power of a floating zero, that no check caught. -/
  | uncheckedZero
  /-- A missing subtree where one is needed. -/
  | missingNode
  /-- A value without the part that is asked for, such as the numerator of a double. -/
  | missingPart
  /-- A settings document that is none. -/
  | unreadable (cause : Unreadable)
  deriving DecidableEq, Repr, Inhabited

namespace Error

/-- The wording of an error; faults of the arithmetic itself have none. -/
def message : Error → String
  | unknownToken c position => s!"Unknown token '{c}' encountered at position {position}"
  | malformed near cause => cause.message near
  | unbalanced delimiter _ => s!"Unable to match delimiter '{delimiter}'"
  | unknownOperator symbol => s!"Unknown operator '{symbol}'"
  | unexpectedOperator symbol => s!"Unexpected operator '{symbol}'"
  | unknownFunction name => s!"Unknown function '{name}'"
  | unknownVariable name => s!"Unknown variable '{name}'"
  | unknownConstant name => s!"Unknown constant '{name}'"
  | divisionByZero _ => "Division by zero"
  | undefinedPower => "Undefined exponentiation 0^0"
  | logarithmOfZero _ => "Logarithm of zero is undefined"
  | missingOperand symbol => s!"Missing operand for '{symbol}'"
  | invalid cause => cause.message
  | overflow | typeMismatch | decimalPrecision | uncheckedZero | missingNode | missingPart
  | unreadable _ => ""

/-- The token, symbol or name that caused an error about an expression. -/
def culprit? : Error → Option String
  | unknownToken c _ => some (String.singleton c)
  | malformed near _ => some near
  | unbalanced delimiter _ => some delimiter
  | unknownOperator symbol => some symbol
  | unexpectedOperator symbol => some symbol
  | unknownFunction name => some name
  | unknownVariable name => some name
  | unknownConstant name => some name
  | divisionByZero culprit => some culprit
  | undefinedPower => some "0^0"
  | logarithmOfZero name => some name
  | missingOperand symbol => some symbol
  | _ => none

/-- Whether an error is about the expression itself. -/
def isExpressionError (e : Error) : Bool := e.culprit?.isSome

/-- Whether an error is meant for the user of a command: it is about the expression or about a
refused value. -/
def isReported : Error → Bool
  | invalid _ => true
  | e => e.isExpressionError

end Error

end Formula
