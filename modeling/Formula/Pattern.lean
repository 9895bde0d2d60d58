/-
# Lexical patterns

A pattern recognises one class of lexemes at the start of a text. Each pattern has a display text in
the usual notation for regular expressions.
-/
import Formula.Text.Blank
import Formula.Text.Digit

namespace Formula

/-- A class of lexemes. -/
inductive Pattern where
  /-- Digits, a point or comma, digits, and an optional exponent. -/
  | real
  /-- Digits. -/
  | natural
  /-- Optional digits, a point and two digits. -/
  | decimalTail
  /-- The first of some spellings that fits. -/
  | spelling (words : List String)
  /-- The first of some spellings that fits and is not followed by a letter, digit or
  underscore. -/
  | wholeWord (words : List String)
  /-- One fixed symbol; `shown` is its display text. -/
  | symbol (text shown : String)
  /-- Blanks. -/
  | blanks
  /-- One letter. -/
  | letter
  /-- A name of letters, digits and underscores that starts with no digit, with an optional dollar
  sign in front. -/
  | identifier
  deriving DecidableEq, Repr

namespace Pattern

/-! ## Display -/

/-- The display text of a pattern. -/
def shown : Pattern → String
  | real => "\\d+[,.]\\d+(e[+-]?\\d+)?"
  | natural => "\\d+"
  | decimalTail => "\\d*(\\.\\d\\d)"
  | spelling words => "|".intercalate words
  | wholeWord words => "(?:" ++ "|".intercalate words ++ ")(?![A-Za-z0-9_])"
  | symbol _ shown => shown
  | blanks => "\\s+"
  | letter => "[a-zA-Z]"
  | identifier => "\\$?[a-zA-Z_][a-zA-Z0-9_]*"

/-! ## Matching -/

/-- The number of characters at the start of a text that satisfy `p`. -/
def run (p : Char → Bool) (cs : List Char) : Nat := (cs.takeWhile p).length

/-- The length of an exponent part at the start of a text, zero when there is none. -/
def exponentLength : List Char → Nat
  | 'e' :: cs =>
    let sign := match cs with
      | '+' :: _ | '-' :: _ => 1
      | _ => 0
    let n := run isDecimalDigit (cs.drop sign)
    if n = 0 then 0 else 1 + sign + n
  | _ => 0

/-- The length of a decimal numeral with a point or comma at the start of a text, zero when there
is none. -/
def realLength (cs : List Char) : Nat :=
  let whole := run isDecimalDigit cs
  match cs.drop whole with
  | c :: rest =>
    let places := run isDecimalDigit rest
    if whole = 0 ∨ places = 0 ∨ !(c == '.' || c == ',') then 0
    else whole + 1 + places + exponentLength (rest.drop places)
  | [] => 0

/-- The length of a decimal tail at the start of a text, zero when there is none. -/
def tailLength (cs : List Char) : Nat :=
  let whole := run isDecimalDigit cs
  match cs.drop whole with
  | '.' :: a :: b :: _ => if isDecimalDigit a && isDecimalDigit b then whole + 3 else 0
  | _ => 0

/-- The length of a word at the start of a text, zero when it is not there. -/
def wordLength (word : String) (cs : List Char) : Nat :=
  if word.toList.isPrefixOf cs then word.length else 0

/-- The length of a word at the start of a text that does not go on as a name, zero when it is not
there. -/
def wholeWordLength (word : String) (cs : List Char) : Nat :=
  let n := wordLength word cs
  match cs.drop n with
  | c :: _ => if isWordChar c then 0 else n
  | [] => n

/-- The first length that is not zero, if any. -/
def firstLength (lengths : List Nat) : Nat := (lengths.find? (· != 0)).getD 0

/-- The length of a name at the start of a text, zero when there is none. -/
def nameLength : List Char → Nat
  | c :: cs => if isAsciiLetter c || c == '_' then 1 + run isWordChar cs else 0
  | [] => 0

/-- **The length of the lexeme** that a pattern finds at the start of a text; zero stands for no
match. -/
def length (p : Pattern) (cs : List Char) : Nat :=
  match p with
  | real => realLength cs
  | natural => run isDecimalDigit cs
  | decimalTail => tailLength cs
  | spelling words => firstLength (words.map (wordLength · cs))
  | wholeWord words => firstLength (words.map (wholeWordLength · cs))
  | symbol text _ => wordLength text cs
  | blanks => run isBlank cs
  | letter => match cs with
    | c :: _ => if isAsciiLetter c then 1 else 0
    | [] => 0
  | identifier => match cs with
    | '$' :: rest => if nameLength rest = 0 then 0 else 1 + nameLength rest
    | _ => nameLength cs

end Pattern

end Formula
