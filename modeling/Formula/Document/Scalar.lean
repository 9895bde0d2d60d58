/-
# Texts in a document

A text stands plain, in single or double quotes, or as a block of lines behind a sign. Line ends
inside a plain or quoted text fold: a single one becomes a space, and of several the first is lost.
Each reader bounds its steps by the number of characters that are left.
-/
import Formula.Document.Cursor

namespace Formula

namespace Document

/-! ## Folded line ends -/

/-- What a line end and the further line ends behind it become. -/
def folded (lineEnd : Char) (more : List Char) : List Char :=
  if lineEnd ≠ '\n' then lineEnd :: more else if more.isEmpty then [' '] else more

/-! ## Plain texts -/

/-- Whether a character separates or closes values in brackets. -/
def isFlowSign (c : Char) : Bool := c == ',' || c == '[' || c == ']' || c == '\x7b' || c == '\x7d'

/-- Whether the words of a plain text end before these characters; `flow` says whether it stands in
brackets. -/
def endsPlain (flow : Bool) : List Char → Bool
  | [] => true
  | c :: rest =>
    isGap c || (c == ':' && rest.head?.all fun d => isGap d || (flow && isFlowSign d))
      || (flow && (c == '?' || isFlowSign c))

/-- The characters up to the end of a word of a plain text. -/
def plainWord (flow : Bool) : List Char → List Char
  | [] => []
  | c :: rest => if endsPlain flow (c :: rest) then [] else c :: plainWord flow rest

/-- The line ends and indentations before the next word of a plain text; none when a separator
stands there. -/
def plainBreaks : Nat → Cursor → Option (List Char) × Cursor
  | 0, c => (some [], c)
  | n + 1, c =>
    if c.peek == ' ' then plainBreaks n c.next
    else
      match c.lineEnd? with
      | none => (some [], c)
      | some (b, c) =>
        if c.atSeparator then (none, c)
        else
          let (bs, c) := plainBreaks n c
          (bs.map (b :: ·), c)

/-- What stands between two words of a plain text, empty when nothing does, with the place behind it
and whether a line ends there. -/
def plainGap (c : Cursor) : List Char × Cursor × Bool :=
  let (spaces, c) := c.span (· == ' ')
  match c.lineEnd? with
  | none => (spaces, c, false)
  | some (b, c) =>
    if c.atSeparator then ([], c, true)
    else
      let (bs, c) := plainBreaks c.rest.length c
      (bs.elim [] (folded b), c, true)

/-- The plain text at a place, the place behind it, and whether a line ends before that place. Out
of brackets a text ends at a line that is indented less than `indent`. -/
def plainText (flow : Bool) (indent : Int) : Nat → Cursor → List Char × Cursor × Bool
  | 0, c => ([], c, false)
  | n + 1, c =>
    let word := plainWord flow c.rest
    if word.isEmpty then ([], c, false)
    else
      let (gap, c, crossed) := plainGap (c.skip word.length)
      if gap.isEmpty || c.peek == '#' || (!flow && decide ((c.column : Int) < indent)) then
        (word, c, crossed)
      else
        let (more, c, crossedLater) := plainText flow indent n c
        if more.isEmpty then (word, c, crossed) else (word ++ gap ++ more, c, crossedLater)

/-! ## Quoted texts -/

/-- The line ends and indentations at the start of a line of a quoted text. -/
def quotedBreaks : Nat → Cursor → Except Error (List Char × Cursor)
  | 0, c => .ok ([], c)
  | n + 1, c =>
    if c.atSeparator then .error lexicalFault
    else
      let c := c.drop isSpace
      match c.lineEnd? with
      | none => .ok ([], c)
      | some (b, c) => do
        let (bs, c) ← quotedBreaks n c
        return (b :: bs, c)

/-- The character that a letter behind a backslash stands for. -/
def escaped? (c : Char) : Option Char :=
  match c with
  | '0' => some '\x00'
  | 'a' => some '\x07'
  | 'b' => some '\x08'
  | 't' | '\t' => some '\t'
  | 'n' => some '\n'
  | 'v' => some '\x0b'
  | 'f' => some '\x0c'
  | 'r' => some '\r'
  | 'e' => some '\x1b'
  | ' ' | '"' | '\\' | '/' => some c
  | 'N' => some '\x85'
  | '_' => some '\xa0'
  | 'L' => some '\u2028'
  | 'P' => some '\u2029'
  | _ => none

/-- The number of digits behind a backslash and a letter. -/
def escapeLength? (c : Char) : Option Nat :=
  match c with
  | 'x' => some 2
  | 'u' => some 4
  | 'U' => some 8
  | _ => none

/-- The value of a hexadecimal digit. -/
def hexValue? (c : Char) : Option Nat :=
  if isAsciiDigit c then some (c.toNat - '0'.toNat)
  else if 'a' ≤ c ∧ c ≤ 'f' then some (c.toNat - 'a'.toNat + 10)
  else if 'A' ≤ c ∧ c ≤ 'F' then some (c.toNat - 'A'.toNat + 10)
  else none

/-- The number that some hexadecimal digits denote. -/
def hexNumber? (cs : List Char) : Option Nat :=
  cs.foldlM (fun n c => (hexValue? c).map (16 * n + ·)) 0

/-- The character with a number; a number past the signed words of 32 bits is too large at all. -/
def characterOf (n : Nat) : Except Error Char :=
  if n < 0x110000 then .ok (Char.ofNat n)
  else if n < 2 ^ 31 then .error (.invalid .noCharacter)
  else .error .overflow

/-- The characters that a backslash and what follows it stand for, from behind the backslash. -/
def escape (c : Cursor) : Except Error (List Char × Cursor) :=
  match escaped? c.peek, escapeLength? c.peek, c.lineEnd? with
  | some ch, _, _ => .ok ([ch], c.next)
  | _, some k, _ =>
    let digits := c.next.rest.take k
    match (if digits.length = k then hexNumber? digits else none) with
    | some n => do return ([← characterOf n], c.next.skip k)
    | none => .error lexicalFault
  | _, _, some (_, c) => quotedBreaks (c.rest.length + 1) c
  | _, _, _ => .error lexicalFault

/-- The quoted text from behind its opening quote, and the place behind its closing quote. -/
def quotedText (double : Bool) : Nat → Cursor → Except Error (List Char × Cursor)
  | 0, _ => .error lexicalFault
  | n + 1, c =>
    let onward (cs : List Char) (c : Cursor) : Except Error (List Char × Cursor) := do
      let (more, c) ← quotedText double n c
      return (cs ++ more, c)
    match c.rest with
    | [] => .error lexicalFault
    | ch :: _ =>
      if isSpace ch || isBreak ch then
        let (spaces, c) := c.span isSpace
        match c.lineEnd? with
        | none => onward spaces c
        | some (b, c) => do
          let (bs, c) ← quotedBreaks (c.rest.length + 1) c
          onward (folded b bs) c
      else if ch == (if double then '"' else '\'') then
        if !double && c.peekAt 1 == '\'' then onward ['\''] (c.skip 2) else .ok ([], c.next)
      else if double && ch == '\\' then do
        let (cs, c) ← escape c.next
        onward cs c
      else onward [ch] c.next

/-! ## Blocks of lines -/

/-- What becomes of the line ends at the end of a block. -/
inductive Chomping where
  /-- All are lost. -/
  | strip
  /-- The first stays. -/
  | clip
  /-- All stay. -/
  | keep

/-- The chomping that a sign stands for. -/
def Chomping.ofSign? (c : Char) : Option Chomping :=
  match c with
  | '+' => some keep
  | '-' => some strip
  | _ => none

/-- The step of the indentation that a digit in the head of a block gives, if one stands there. -/
def blockStep (c : Cursor) : Except Error (Option Nat × Cursor) :=
  if isAsciiDigit c.peek then
    if c.peek == '0' then .error lexicalFault
    else .ok (some (c.peek.toNat - '0'.toNat), c.next)
  else .ok (none, c)

/-- The head of a block behind its sign: its chomping and its step, in any order. -/
def blockHead (c : Cursor) : Except Error (Chomping × Option Nat × Cursor) := do
  let (chomping, step, c) ← match Chomping.ofSign? c.peek with
    | some chomping => do
      let (step, c) ← blockStep c.next
      pure (chomping, step, c)
    | none => do
      let (step, c) ← blockStep c
      match step, Chomping.ofSign? c.peek with
      | some _, some chomping => pure (chomping, step, c.next)
      | _, _ => pure (Chomping.clip, step, c)
  if c.peek == '\t' || !isGap c.peek then throw lexicalFault
  return (chomping, step, c)

/-- The rest of a line that may hold a comment and nothing else, and its end. -/
def emptyRest (c : Cursor) : Except Error Cursor :=
  let c := c.drop (· == ' ')
  let c := if c.peek == '#' then c.drop fun ch => !isBreak ch else c
  match c.lineEnd? with
  | some (_, c) => .ok c
  | none => if c.rest.isEmpty then .ok c else .error lexicalFault

/-- The line ends before the first line of a block that is not blank, and the deepest indentation up
to there. -/
def blockStart : Nat → Cursor → List Char × Nat × Cursor
  | 0, c => ([], 0, c)
  | n + 1, c =>
    if c.peek == ' ' then
      let (bs, deepest, c') := blockStart n c.next
      (bs, max c.next.column deepest, c')
    else
      match c.lineEnd? with
      | none => ([], 0, c)
      | some (b, c) =>
        let (bs, deepest, c) := blockStart n c
        (b :: bs, deepest, c)

/-- Skips up to `indent` spaces at the start of a line. -/
def skipIndent (indent : Nat) : Nat → Cursor → Cursor
  | 0, c => c
  | n + 1, c => if c.column < indent && c.peek == ' ' then skipIndent indent n c.next else c

/-- The line ends before the next line of a block that is not blank. -/
def blockBreaks (indent : Nat) : Nat → Cursor → List Char × Cursor
  | 0, c => ([], c)
  | n + 1, c =>
    let c := skipIndent indent c.rest.length c
    match c.lineEnd? with
    | none => ([], c)
    | some (b, c) =>
      let (bs, c) := blockBreaks indent n c
      (b :: bs, c)

/-- Whether a line of a block stands at a place. -/
def inBlock (indent : Nat) (c : Cursor) : Bool := c.column == indent && !c.rest.isEmpty

/-- The lines of a block behind some line ends: their text, the line end and the further line ends
behind them, and the place behind all. With `fold`, a single line end between two lines that start
with a word becomes a space. -/
def blockLines (fold : Bool) (indent : Nat) :
    Nat → List Char → Cursor → List Char × List Char × List Char × Cursor
  | 0, bs, c => ([], [], bs, c)
  | n + 1, bs, c =>
    if !inBlock indent c then ([], [], bs, c)
    else
      let wordFirst := !isSpace c.peek
      let (line, c) := c.span fun ch => !isBreak ch
      let (lineEnd, c) : List Char × Cursor := c.lineEnd?.elim ([], c) fun (b, c) => ([b], c)
      let (more, c) := blockBreaks indent (c.rest.length + 1) c
      if inBlock indent c then
        let between :=
          if fold && lineEnd == ['\n'] && wordFirst && !isSpace c.peek then
            if more.isEmpty then [' '] else []
          else lineEnd
        let (further, lineEnd, rest, c) := blockLines fold indent n more c
        (bs ++ line ++ between ++ further, lineEnd, rest, c)
      else (bs ++ line, lineEnd, more, c)

/-- The text of a block from behind its sign, inside a collection that is indented by `outer`. -/
def blockText (fold : Bool) (outer : Int) (c : Cursor) : Except Error (List Char × Cursor) := do
  let (chomping, step, c) ← blockHead c
  let c ← emptyRest c
  let least := (max (outer + 1) 1).toNat
  let (bs, indent, c) := match step with
    | some k =>
      let (bs, c') := blockBreaks (least + k - 1) (c.rest.length + 1) c
      (bs, least + k - 1, c')
    | none =>
      let (bs, deepest, c') := blockStart c.rest.length c
      (bs, max least deepest, c')
  let (lines, lineEnd, more, c) := blockLines fold indent (c.rest.length + 1) bs c
  return (lines ++ (match chomping with
    | .strip => []
    | .clip => lineEnd
    | .keep => lineEnd ++ more), c)

end Document

end Formula
