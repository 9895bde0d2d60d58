/-
# What plain texts stand for

A plain text may stand for nothing, for a truth value, for a number or for a date, and has the tag
of its kind then. Every other text has the tag of texts.
-/
import Formula.Document.Tag
import Formula.Double.Reading

namespace Formula

namespace Document

/-! ## Words -/

/-- The words for true. -/
def trueWords : List String :=
  ["yes", "Yes", "YES", "true", "True", "TRUE", "on", "On", "ON"]

/-- The words for false. -/
def falseWords : List String :=
  ["no", "No", "NO", "false", "False", "FALSE", "off", "Off", "OFF"]

/-- The words for nothing. -/
def nullWords : List String := ["", "~", "null", "Null", "NULL"]

/-! ## Numbers -/

/-- Whether a character may stand in the digits of a number. -/
def isGroupedDigit (c : Char) : Bool := isAsciiDigit c || c == '_'

/-- A text without a sign in front. -/
def dropSign : List Char → List Char
  | '+' :: cs => cs
  | '-' :: cs => cs
  | cs => cs

/-- Whether a text is a digit that satisfies `p` and further digits. -/
def isGrouped (p : Char → Bool) (cs : List Char) : Bool := cs.head?.any p && cs.all isGroupedDigit

/-- Whether a text is a row of colons, each with a number below sixty behind it. -/
def isSixties (cs : List Char) : Bool :=
  match cs with
  | ':' :: d :: [] => isAsciiDigit d
  | ':' :: d :: ':' :: rest => isAsciiDigit d && isSixties (':' :: rest)
  | ':' :: t :: d :: [] => '0' ≤ t && t ≤ '5' && isAsciiDigit d
  | ':' :: t :: d :: ':' :: rest => '0' ≤ t && t ≤ '5' && isAsciiDigit d && isSixties (':' :: rest)
  | _ => false
  termination_by cs.length

/-- Whether a text is a positive number, with sixties behind it or not. -/
def isPositive (p : Char → Bool) (sixties : Bool) (cs : List Char) : Bool :=
  let tail := cs.dropWhile isGroupedDigit
  isGrouped p (cs.takeWhile isGroupedDigit) && (if sixties then isSixties tail else tail.isEmpty)

/-- Whether a character is a digit other than zero. -/
def isPositiveDigit (c : Char) : Bool := '1' ≤ c && c ≤ '9'

/-- Whether a plain text is an integer: binary, octal, decimal, hexadecimal or by sixties. -/
def isInteger (cs : List Char) : Bool :=
  match dropSign cs with
  | '0' :: 'b' :: d :: ds => (d :: ds).all fun c => c == '0' || c == '1' || c == '_'
  | '0' :: 'x' :: d :: ds => (d :: ds).all fun c => (hexValue? c).isSome || c == '_'
  | '0' :: ds => ds.all fun c => ('0' ≤ c && c ≤ '7') || c == '_'
  | body => isPositive isPositiveDigit false body || isPositive isPositiveDigit true body

/-- Whether a text is an exponent with a sign, or empty. -/
def isExponent : List Char → Bool
  | [] => true
  | e :: s :: d :: ds =>
    (e == 'e' || e == 'E') && (s == '+' || s == '-') && (d :: ds).all isAsciiDigit
  | _ => false

/-- Whether a plain text is a decimal, an infinity or no number. -/
def isDecimal (cs : List Char) : Bool :=
  let body := dropSign cs
  let whole := body.takeWhile (· != '.')
  match body.dropWhile (· != '.') with
  | '.' :: places =>
    let tail := places.dropWhile isGroupedDigit
    (isPositive isAsciiDigit false whole && isExponent tail)
      || (isPositive isAsciiDigit true whole && tail.isEmpty)
      || (cs.head? == some '.' && places.head?.any isAsciiDigit && isExponent tail)
      || [".inf", ".Inf", ".INF"].contains (String.ofList body)
      || [".nan", ".NaN", ".NAN"].contains (String.ofList cs)
  | _ => false

/-! ## Dates -/

/-- The number at the start of a text, of at least `least` and at most `most` digits. -/
def number? (least most : Nat) (cs : List Char) : Option (Nat × List Char) :=
  let ds := (cs.take most).takeWhile isAsciiDigit
  if least ≤ ds.length then some (digitsValue ds, cs.drop ds.length) else none

/-- A text behind a character. -/
def after? (c : Char) : List Char → Option (List Char)
  | d :: cs => if d = c then some cs else none
  | [] => none

/-- Whether a text is a time zone behind spaces, or empty. -/
def isZone (cs : List Char) : Bool :=
  match cs with
  | [] => true
  | cs =>
    match cs.dropWhile isSpace with
    | ['Z'] => true
    | s :: rest =>
      (s == '+' || s == '-') &&
        match number? 1 2 rest with
        | some (_, []) => true
        | some (_, ':' :: rest) => (number? 2 2 rest).any (·.2.isEmpty)
        | _ => false
    | [] => false

/-- The time of day at the start of a text with nothing but a zone behind it: its hours, minutes and
seconds. -/
def time? (cs : List Char) : Option (Nat × Nat × Nat) := do
  let (hour, cs) ← number? 1 2 cs
  let (minute, cs) ← number? 2 2 (← after? ':' cs)
  let (second, cs) ← number? 2 2 (← after? ':' cs)
  let cs := match cs with
    | '.' :: cs => cs.dropWhile isAsciiDigit
    | cs => cs
  if isZone cs then some (hour, minute, second) else none

/-- The year, month and day of a date and the time of day behind it, if there is one. -/
abbrev Date := (Nat × Nat × Nat) × Option (Nat × Nat × Nat)

/-- The date that a plain text is, whether its numbers are in range or not. -/
def date? (cs : List Char) : Option Date := do
  let (year, rest) ← number? 4 4 cs
  let (month, rest) ← number? 1 2 (← after? '-' rest)
  let (day, rest) ← number? 1 2 (← after? '-' rest)
  match rest with
  | [] => if cs.length = 10 then some ((year, month, day), none) else none
  | c :: behind =>
    if c = 'T' ∨ c = 't' then return ((year, month, day), ← time? behind)
    else if isSpace c then return ((year, month, day), ← time? (behind.dropWhile isSpace))
    else none

/-- The number of days of a month. -/
def daysOf (year month : Nat) : Nat :=
  if month = 2 then
    if (year % 4 = 0 ∧ year % 100 ≠ 0) ∨ year % 400 = 0 then 29 else 28
  else if month = 4 ∨ month = 6 ∨ month = 9 ∨ month = 11 then 30
  else 31

/-- The first part of a date that is out of its range. -/
def badPart? (d : Date) : Option DatePart :=
  let (year, month, day) := d.1
  if year = 0 then some (.year year)
  else if month = 0 ∨ 12 < month then some .month
  else if day = 0 ∨ daysOf year month < day then some .day
  else
    match d.2 with
    | none => none
    | some (hour, minute, second) =>
      if 23 < hour then some .hour
      else if 59 < minute then some .minute
      else if 59 < second then some .second
      else none

/-! ## Kinds -/

/-- **The tag of a plain text.** -/
def plainTag (cs : List Char) : Tag :=
  let s := String.ofList cs
  .standard <|
    if nullWords.contains s then "null"
    else if trueWords.contains s || falseWords.contains s then "bool"
    else if isDecimal cs then "float"
    else if isInteger cs then "int"
    else if (date? cs).isSome then "timestamp"
    else if s = "<<" then "merge"
    else if s = "=" then "value"
    else "str"

end Document

end Formula
