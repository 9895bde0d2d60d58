/-
# Pieces of a document

The text of a document is cut into pieces: signs, names, tags and texts, and the starts and ends of
collections that are marked by indentation alone. A text is the key of an entry when a colon follows
it on its line; the pieces that announce the key then go in front of it.
-/
import Formula.Document.Tag

namespace Formula

namespace Document

/-! ## Pieces -/

/-- A piece of a document. -/
inductive Piece where
  | directive (d : Directive)
  | documentStart
  | documentEnd
  | streamEnd
  /-- A list by indentation starts. -/
  | blockList
  /-- A mapping by indentation starts. -/
  | blockMapping
  /-- A collection by indentation ends. -/
  | blockEnd
  | openBracket
  | closeBracket
  | openBrace
  | closeBrace
  | comma
  | dash
  | key
  | value
  | reference (name : String)
  | name (name : String)
  | tag (t : WrittenTag)
  | text (s : String) (plain : Bool)

/-! ## Scanning -/

/-- A place where the key of an entry may start. -/
structure PossibleKey where
  /-- The number of open brackets. -/
  depth : Nat
  /-- The number of pieces before the key. -/
  position : Nat
  /-- Whether nothing but a key may stand there. -/
  required : Bool
  start : Cursor

/-- A scan of a text up to a place. -/
structure Scan where
  cursor : Cursor
  /-- The number of open brackets. -/
  depth : Nat
  /-- The indentations of the open collections, the innermost first. -/
  indents : List Int
  /-- Whether a key may start here. -/
  mayStartKey : Bool
  keys : List PossibleKey
  pieces : List Piece
  finished : Bool

namespace Scan

/-- The scan of a text before its first piece. -/
def start (cs : List Char) : Scan := ⟨.start cs, 0, [], true, [], [], false⟩

/-- The indentation of the innermost open collection. -/
def indent (s : Scan) : Int := s.indents.headD (-1)

/-- Adds a piece and goes to a place. -/
def push (s : Scan) (p : Piece) (c : Cursor) : Scan :=
  { s with pieces := s.pieces ++ [p], cursor := c }

/-- Adds a piece that takes some characters. -/
def sign (s : Scan) (p : Piece) (length : Nat) : Scan := s.push p (s.cursor.skip length)

/-! ### Possible keys -/

/-- The key that may have started inside the innermost brackets. -/
def key? (s : Scan) : Option PossibleKey := s.keys.find? (·.depth == s.depth)

/-- The keys that may have started outside the innermost brackets. -/
def outerKeys (s : Scan) : List PossibleKey := s.keys.filter (·.depth != s.depth)

/-- Gives up the key that may have started inside the innermost brackets. -/
def dropKey (s : Scan) : Except Error Scan :=
  if s.key?.any (·.required) then .error lexicalFault else .ok { s with keys := s.outerKeys }

/-- Notes that a key may start here. -/
def noteKey (s : Scan) : Except Error Scan :=
  if s.mayStartKey then do
    let s ← s.dropKey
    let required := s.depth == 0 && s.indent == s.cursor.column
    return { s with keys := ⟨s.depth, s.pieces.length, required, s.cursor⟩ :: s.keys }
  else .ok s

/-- Gives up the keys that started on another line or too far away. -/
def dropStaleKeys (s : Scan) : Except Error Scan :=
  let stale (k : PossibleKey) : Bool :=
    k.start.line != s.cursor.line || decide (s.cursor.index - k.start.index > 1024)
  if s.keys.any fun k => stale k && k.required then .error lexicalFault
  else .ok { s with keys := s.keys.filter fun k => !stale k }

/-- The number of pieces that no key can go in front of any more. -/
def settled (s : Scan) : Nat := (s.keys.map (·.position)).foldl min s.pieces.length

/-! ### Indentation -/

/-- Ends the collections that are indented deeper than a column; inside brackets indentation means
nothing. -/
def closeDeeper (s : Scan) (column : Int) : Scan :=
  if s.depth != 0 then s
  else
    let closed := s.indents.takeWhile (column < ·)
    { s with
      indents := s.indents.drop closed.length
      pieces := s.pieces ++ closed.map fun _ => Piece.blockEnd }

/-- Opens a collection at a column, unless it is open already; its start becomes a piece at a
position. -/
def openAt (s : Scan) (column : Int) (p : Piece) (position : Nat) : Scan :=
  if s.depth == 0 && s.indent < column then
    { s with
      indents := column :: s.indents
      pieces := s.pieces.take position ++ p :: s.pieces.drop position }
  else s

/-- Goes to the next piece, past spaces, comments and line ends. -/
def skipBlanks : Nat → Scan → Scan
  | 0, s => s
  | n + 1, s =>
    let c := s.cursor.drop (· == ' ')
    let c := if c.peek == '#' then c.drop fun ch => !isBreak ch else c
    match c.lineEnd? with
    | some (_, c) =>
      skipBlanks n { s with cursor := c, mayStartKey := s.mayStartKey || s.depth == 0 }
    | none => { s with cursor := c }

/-! ### Signs -/

/-- The end of the text. -/
def finish (s : Scan) : Except Error Scan := do
  let s ← (s.closeDeeper (-1)).dropKey
  return { s.sign .streamEnd 0 with keys := [], mayStartKey := false, finished := true }

/-- A directive. -/
def directive (s : Scan) : Except Error Scan := do
  let s ← (s.closeDeeper (-1)).dropKey
  let (d, c) ← directiveText s.cursor
  return { s.push (.directive d) c with mayStartKey := false }

/-- A line of dashes or points. -/
def separator (s : Scan) (p : Piece) : Except Error Scan := do
  let s ← (s.closeDeeper (-1)).dropKey
  return { s.sign p 3 with mayStartKey := false }

/-- An opening bracket. -/
def opening (s : Scan) (p : Piece) : Except Error Scan := do
  let s ← s.noteKey
  return { s.sign p 1 with depth := s.depth + 1, mayStartKey := true }

/-- A closing bracket. -/
def closing (s : Scan) (p : Piece) : Except Error Scan := do
  let s ← s.dropKey
  return { s.sign p 1 with depth := s.depth - 1, mayStartKey := false }

/-- A comma between values in brackets. -/
def comma (s : Scan) : Except Error Scan := do
  let s ← s.dropKey
  return { s.sign .comma 1 with mayStartKey := true }

/-- A sign in front of an item or of a key, which may open a collection. -/
def leading (s : Scan) (start p : Piece) (mayStartKey : Bool) : Except Error Scan := do
  if s.depth == 0 && !s.mayStartKey then throw lexicalFault
  let s ← (s.openAt s.cursor.column start s.pieces.length).dropKey
  return { s.sign p 1 with mayStartKey := mayStartKey }

/-- A dash in front of an item. -/
def dash (s : Scan) : Except Error Scan := s.leading .blockList .dash true

/-- A question mark in front of a key. -/
def question (s : Scan) : Except Error Scan := s.leading .blockMapping .key (s.depth == 0)

/-- A colon in front of a value. -/
def colon (s : Scan) : Except Error Scan :=
  match s.key? with
  | some k =>
    let s := { s with
      keys := s.outerKeys
      pieces := s.pieces.take k.position ++ Piece.key :: s.pieces.drop k.position }
    .ok { (s.openAt k.start.column .blockMapping k.position).sign .value 1 with
      mayStartKey := false }
  | none => s.leading .blockMapping .value (s.depth == 0)

/-! ### Names and texts -/

/-- A piece that may be the key of an entry or start one. -/
def keyed (s : Scan) (read : Scan → Except Error (Piece × Cursor × Bool)) : Except Error Scan := do
  let s ← s.noteKey
  let (p, c, mayStartKey) ← read s
  return { s.push p c with mayStartKey := mayStartKey }

/-- A name behind an ampersand, or a reference to one behind an asterisk. -/
def named (s : Scan) (p : String → Piece) : Except Error Scan :=
  s.keyed fun s => do
    let (name, c) ← nameText s.cursor.next
    return (p name, c, false)

/-- A tag. -/
def tagged (s : Scan) : Except Error Scan :=
  s.keyed fun s => do
    let (t, c) ← writtenTag s.cursor
    return (.tag t, c, false)

/-- A text in quotes. -/
def quotedPiece (s : Scan) (double : Bool) : Except Error Scan :=
  s.keyed fun s => do
    let (cs, c) ← quotedText double (s.cursor.rest.length + 1) s.cursor.next
    return (.text (String.ofList cs) false, c, false)

/-- A plain text; a key may follow it on the next line. -/
def plainPiece (s : Scan) : Except Error Scan :=
  s.keyed fun s =>
    let (cs, c, crossed) :=
      plainText (s.depth != 0) (s.indent + 1) (s.cursor.rest.length + 1) s.cursor
    .ok (.text (String.ofList cs) true, c, crossed)

/-- A block of lines. -/
def block (s : Scan) (fold : Bool) : Except Error Scan := do
  let s ← s.dropKey
  let (cs, c) ← blockText fold s.indent s.cursor.next
  return { s.push (.text (String.ofList cs) false) c with mayStartKey := true }

/-- Whether a plain text may start with these characters. -/
def startsPlain (flow : Bool) : List Char → Bool
  | [] => false
  | c :: rest =>
    !(isGap c || "-?:,[]\x7b\x7d#&*!|>'\"%@\x60".toList.contains c)
      || (!rest.head?.all isGap && (c == '-' || (!flow && (c == '?' || c == ':'))))

/-! ### Steps -/

/-- The next piece, with the ends and starts of collections before it. -/
def piece (s : Scan) : Except Error Scan :=
  let c := s.cursor
  let flow := s.depth != 0
  let alone := isGap (c.peekAt 1)
  if c.rest.isEmpty then s.finish
  else if c.column == 0 && c.peek == '%' then s.directive
  else if c.column == 0 && c.atSeparator then
    s.separator (if c.peek == '-' then .documentStart else .documentEnd)
  else if c.peek == '[' then s.opening .openBracket
  else if c.peek == '\x7b' then s.opening .openBrace
  else if c.peek == ']' then s.closing .closeBracket
  else if c.peek == '\x7d' then s.closing .closeBrace
  else if c.peek == ',' then s.comma
  else if c.peek == '-' && alone then s.dash
  else if c.peek == '?' && (flow || alone) then s.question
  else if c.peek == ':' && (flow || alone) then s.colon
  else if c.peek == '*' then s.named .reference
  else if c.peek == '&' then s.named .name
  else if c.peek == '!' then s.tagged
  else if c.peek == '|' && !flow then s.block false
  else if c.peek == '>' && !flow then s.block true
  else if c.peek == '\'' then s.quotedPiece false
  else if c.peek == '"' then s.quotedPiece true
  else if startsPlain flow c.rest then s.plainPiece
  else .error lexicalFault

/-- One step of a scan: to the next piece and past it. -/
def step (s : Scan) : Except Error Scan := do
  let s ← (s.skipBlanks (s.cursor.rest.length + 1)).dropStaleKeys
  let s ← (s.closeDeeper s.cursor.column).piece
  s.dropStaleKeys

/-- The pieces up to the end of the text, or those that are settled before the first fault. -/
def run : Nat → Scan → List Piece × Option Error
  | 0, s => (s.pieces, none)
  | n + 1, s =>
    match s.step with
    | .error e => (s.pieces.take s.settled, some e)
    | .ok s' => if s'.finished then (s'.pieces, none) else run n s'

end Scan

/-- **The pieces of a text**, and the fault that ends them, if there is one. -/
def piecesOf (cs : List Char) : List Piece × Option Error :=
  let cs := match cs with
    | '\ufeff' :: cs => cs
    | cs => cs
  Scan.run (cs.length + 2) (Scan.start cs)

end Document

end Formula
