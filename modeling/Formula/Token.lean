/-
# Tokens

A token is a lexeme of the source with its kind, its canonical value and its place. Synonyms share
one canonical value.
-/
import Formula.Bracket
import Formula.Operator

namespace Formula

/-! ## Kinds -/

/-- The kinds of tokens. -/
inductive Kind where
  | natural
  | real
  | boolean
  | identifier
  | constant
  /-- A literal text, such as the decimal tail `.99`. -/
  | literal
  | operator (op : Operator)
  | factorial
  | semiFactorial
  | ifWord
  | thenWord
  | elseWord
  | returnWord
  | function
  | opening (bracket : Bracket)
  | closing (bracket : Bracket)
  | blank
  | terminator
  deriving DecidableEq, Repr

namespace Kind

/-- The name of a kind in listings. -/
def name : Kind → String
  | natural => "NATURAL_NUMBER"
  | real => "REAL_NUMBER"
  | boolean => "BOOLEAN"
  | identifier => "VARIABLE"
  | constant => "CONSTANT"
  | literal => "STRING"
  | operator .not => "NOT"
  | factorial => "FACTORIAL_OPERATOR"
  | semiFactorial => "SEMI_FACTORIAL_OPERATOR"
  | operator .add => "ADDITION_OPERATOR"
  | operator .sub => "SUBTRACTION_OPERATOR"
  | operator .mul => "MULTIPLICATION_OPERATOR"
  | operator .div => "DIVISION_OPERATOR"
  | operator .pow => "EXPONENTIAL_OPERATOR"
  | operator .eq => "EQUAL_TO"
  | operator .ne => "DIFFERENT_THAN"
  | operator .gt => "GREATER_THAN"
  | operator .lt => "LESS_THAN"
  | operator .ge => "GREATER_OR_EQUAL_THAN"
  | operator .le => "LESS_OR_EQUAL_THAN"
  | operator .and => "AND"
  | operator .or => "OR"
  | ifWord => "IF"
  | thenWord => "THEN"
  | elseWord => "ELSE"
  | returnWord => "RETURN"
  | function => "FUNCTION_NAME"
  | opening .paren => "OPEN_PARENTHESIS"
  | closing .paren => "CLOSE_PARENTHESIS"
  | opening .brace => "OPEN_BRACE"
  | closing .brace => "CLOSE_BRACE"
  | blank => "WHITESPACE"
  | terminator => "TERMINATOR"

/-- All kinds. -/
def all : List Kind :=
  [natural, real, boolean, identifier, constant, literal, factorial, semiFactorial, ifWord,
   thenWord, elseWord, returnWord, function, opening .paren, closing .paren, opening .brace,
   closing .brace, blank, terminator] ++ Operator.all.map operator

/-- The kind with a name. -/
def ofName? (s : String) : Option Kind := all.find? (·.name == s)

/-! ## Classes -/

/-- The operator of a token that stands between two operands. -/
def binary? : Kind → Option Operator
  | operator .not => none
  | operator op => some op
  | _ => none

/-- Whether the token is a mark after its operand. -/
def isFactorial : Kind → Bool
  | factorial | semiFactorial => true
  | _ => false

/-- Whether a token may end the left factor of an implicit product. -/
def endsFactor : Kind → Bool
  | natural | real | constant | identifier | function | closing .paren | factorial
  | semiFactorial => true
  | _ => false

/-- Whether a token may start the right factor of an implicit product. -/
def startsFactor : Kind → Bool
  | natural | real | constant | identifier | function | opening .paren => true
  | _ => false

/-- **Whether two neighbouring tokens multiply implicitly**: the first may end a factor and the
second may start one, and they are not a function name with its argument list. -/
def multiplies (first second : Kind) : Bool :=
  !(first == function && second == opening .paren) && first.endsFactor && second.startsFactor

end Kind

/-! ## Tokens -/

/-- A token of a source text. -/
structure Token where
  kind : Kind
  /-- The canonical value. -/
  value : String
  /-- The part of the source that was matched. -/
  lexeme : String
  /-- The number of characters before the lexeme. -/
  position : Nat
  deriving DecidableEq, Repr

end Formula
