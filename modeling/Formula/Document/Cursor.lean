/-
# Places in a document

A cursor is a place in the text of a document, with the line and the column of that place. The
character behind the end of a text counts as the null character, which no document contains.
-/
import Formula.Error
import Formula.Text.Digit

namespace Formula

namespace Document

/-! ## Characters -/

/-- Whether a character may stand in a document. -/
def isAllowed (c : Char) : Bool :=
  let n := c.toNat
  c == '\t' || c == '\n' || n == 0x85 || decide (0x20 ≤ n ∧ n ≤ 0x7e)
    || decide (0xa0 ≤ n ∧ n ≤ 0xfffd) || decide (0x10000 ≤ n)

/-- Whether a character ends a line. -/
def isBreak (c : Char) : Bool :=
  c == '\n' || c == '\x85' || c == '\u2028' || c == '\u2029'

/-- Whether a character separates words of one line. -/
def isSpace (c : Char) : Bool := c == ' ' || c == '\t'

/-- Whether a character, or the end of the text, ends a word. -/
def isGap (c : Char) : Bool := isSpace c || isBreak c || c == '\x00'

/-- Whether a character may stand in a name: an ASCII letter or digit, a dash or an underscore. -/
def isNameChar (c : Char) : Bool := isAsciiLetter c || isAsciiDigit c || c == '-' || c == '_'

/-- The text with one kind of line end: a carriage return counts as one, alone or with the line feed
behind it. -/
def unifyBreaks : List Char → List Char
  | '\r' :: '\n' :: cs => '\n' :: unifyBreaks cs
  | '\r' :: cs => '\n' :: unifyBreaks cs
  | c :: cs => c :: unifyBreaks cs
  | [] => []

/-! ## Cursors -/

/-- A place in a text. -/
structure Cursor where
  /-- The text behind the place. -/
  rest : List Char
  /-- The number of characters before the place. -/
  index : Nat
  /-- The number of line ends before the place. -/
  line : Nat
  /-- The number of characters between the last line end and the place. -/
  column : Nat

namespace Cursor

/-- The start of a text. -/
def start (cs : List Char) : Cursor := ⟨cs, 0, 0, 0⟩

/-- The character at some distance behind the place. -/
def peekAt (c : Cursor) (n : Nat) : Char := c.rest.getD n '\x00'

/-- The character behind the place. -/
def peek (c : Cursor) : Char := c.peekAt 0

/-- The place behind the next character; a byte order mark takes no column. -/
def next (c : Cursor) : Cursor :=
  match c.rest with
  | [] => c
  | ch :: rest =>
    if isBreak ch then ⟨rest, c.index + 1, c.line + 1, 0⟩
    else ⟨rest, c.index + 1, c.line, if ch == '\ufeff' then c.column else c.column + 1⟩

/-- The place behind some characters. -/
def skip (c : Cursor) : Nat → Cursor
  | 0 => c
  | n + 1 => c.next.skip n

/-- The characters that satisfy `p`, and the place behind them. -/
def span (p : Char → Bool) (c : Cursor) : List Char × Cursor :=
  let run := c.rest.takeWhile p
  (run, c.skip run.length)

/-- The place behind the characters that satisfy `p`. -/
def drop (p : Char → Bool) (c : Cursor) : Cursor := (c.span p).2

/-- The line end at the place, and the place behind it; all but the two separators of Unicode count
as a line feed. -/
def lineEnd? (c : Cursor) : Option (Char × Cursor) :=
  if isBreak c.peek then some (if c.peek == '\x85' then '\n' else c.peek, c.next) else none

/-- Whether three dashes or three points stand at the place, as a word. -/
def atSeparator (c : Cursor) : Bool :=
  let sign := c.rest.take 3
  (sign == ['-', '-', '-'] || sign == ['.', '.', '.']) && isGap (c.peekAt 3)

end Cursor

/-! ## Faults -/

/-- A text that is no sequence of the pieces of a document. -/
abbrev lexicalFault : Error := .unreadable .lexical

/-- Pieces that make up no document. -/
abbrev structuralFault : Error := .unreadable .structural

end Document

end Formula
