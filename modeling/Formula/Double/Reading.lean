/-
# Reading doubles

A numeral is an optional sign, digits with an optional point and an optional exponent, or a name of
infinity or NaN. Digits of every script count, underscores may stand between digits, and blanks
around the numeral are skipped.
-/
import Formula.Double.Shortest
import Formula.Text.Blank
import Formula.Text.Digit

namespace Formula

/-! ## Preparation -/

/-- Whether a character may surround a numeral: a blank other than an information separator. -/
def isNumeralBlank (c : Char) : Bool :=
  isBlank c && !inRanges [(0x1c, 0x1f)] c.toNat

/-- Removes underscores that stand between two ASCII digits; fails on any other underscore. -/
def joinDigits? (previous : Option Char) : List Char → Option (List Char)
  | [] => some []
  | '_' :: rest =>
    match previous, rest with
    | some a, b :: _ =>
      if isAsciiDigit a && isAsciiDigit b then joinDigits? none rest else none
    | _, _ => none
  | c :: rest => (joinDigits? (some c) rest).map (c :: ·)

/-! ## Plain numerals -/

/-- The number that a row of ASCII digits denotes. -/
def readDigits? (cs : List Char) : Option Nat :=
  if cs ≠ [] ∧ cs.all isAsciiDigit then some (digitsValue cs) else none

/-- The exponent part of a numeral: nothing, or `e` with an optional sign and digits up to the
end. -/
def readExponent? : List Char → Option Int
  | [] => some 0
  | c :: rest =>
    if c = 'e' ∨ c = 'E' then
      match rest with
      | '-' :: ds => (readDigits? ds).map fun n => -(n : Int)
      | '+' :: ds => (readDigits? ds).map fun n => (n : Int)
      | ds => (readDigits? ds).map fun n => (n : Int)
    else none

/-- The coefficient and exponent of an unsigned decimal numeral. -/
def readMagnitude? (cs : List Char) : Option (Nat × Int) :=
  let whole := cs.takeWhile isAsciiDigit
  match cs.dropWhile isAsciiDigit with
  | '.' :: tail =>
    let places := tail.takeWhile isAsciiDigit
    if whole = [] ∧ places = [] then none
    else
      (readExponent? (tail.dropWhile isAsciiDigit)).map fun e =>
        (digitsValue (whole ++ places), e - places.length)
  | rest => if whole = [] then none else (readExponent? rest).map fun e => (digitsValue whole, e)

/-- Whether a text is one of some names, in any case of ASCII letters. -/
def isNamed (names : List String) (cs : List Char) : Bool :=
  names.contains (String.ofList (cs.map Char.toLower))

/-! ## Whole numerals -/

/-- **The whole number that a text denotes**, if it is a numeral without point and exponent. -/
def readWhole? (s : String) : Option Int :=
  match joinDigits? none (trimBoth isNumeralBlank (s.toList.map asciiDigit)) with
  | some ('-' :: cs) => (readDigits? cs).map fun n => -(n : Int)
  | some ('+' :: cs) => (readDigits? cs).map fun n => (n : Int)
  | some cs => (readDigits? cs).map fun n => (n : Int)
  | none => none

namespace Double

/-- The double that an unsigned numeral or name denotes. -/
def readUnsigned? (negative : Bool) (cs : List Char) : Option Double :=
  if isNamed ["inf", "infinity"] cs then some (infinity negative)
  else if isNamed ["nan"] cs then some nan
  else (readMagnitude? cs).map fun m => ofScientific negative m.1 m.2

/-- **The double that a text denotes**, if it is a numeral. -/
def read? (s : String) : Option Double :=
  match joinDigits? none (trimBoth isNumeralBlank (s.toList.map asciiDigit)) with
  | some ('-' :: cs) => readUnsigned? true cs
  | some ('+' :: cs) => readUnsigned? false cs
  | some cs => readUnsigned? false cs
  | none => none

end Double

end Formula
