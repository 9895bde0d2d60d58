/-
# Names, tags and directives

A value in a document may be named, and a tag may say what it is. A tag is written with a handle,
which stands for the start of tags, or in full between angle brackets. Directives before a document
give its version and its handles.
-/
import Formula.Document.Cursor
import Formula.Document.Scalar

namespace Formula

namespace Document

/-! ## Tags -/

/-- What a value is said to be. -/
inductive Tag where
  /-- One of the standard tags, by its short name. -/
  | standard (name : String)
  | other (name : String)
  deriving DecidableEq

/-- The start of the full names of the standard tags. -/
def standardStart : String := "tag:yaml.org,2002:"

/-- The tag with a full name. -/
def Tag.ofName (name : String) : Tag :=
  if standardStart.toList.isPrefixOf name.toList then
    standard (String.ofList (name.toList.drop standardStart.length))
  else other name

/-- A tag as it is written; without a handle it is written in full. -/
structure WrittenTag where
  handle : Option String
  ending : String

/-- The tags that each handle stands for. -/
abbrev Handles := List (String × String)

/-- The handles of every document. -/
def standardHandles : Handles := [("!", "!"), ("!!", standardStart)]

/-- The full name of a written tag; its handle has to be known. -/
def WrittenTag.fullName (t : WrittenTag) (handles : Handles) : Except Error String :=
  match t.handle with
  | none => .ok t.ending
  | some h => (handles.lookup h).elim (.error structuralFault) fun s => .ok (s ++ t.ending)

/-! ## Reading names -/

/-- The name at a place, which something other than a name has to follow. -/
def nameText (c : Cursor) : Except Error (String × Cursor) :=
  let (name, c) := c.span isNameChar
  if name.isEmpty || !(isGap c.peek || "?:,]\x7d%@\x60".toList.contains c.peek) then
    .error lexicalFault
  else .ok (String.ofList name, c)

/-- Whether a character may stand in a tag. -/
def isTagChar (c : Char) : Bool :=
  isAsciiLetter c || isAsciiDigit c || "-;/?:@&=+$,_.!~*'()[]%".toList.contains c

/-- The bytes at a place that are written as a percent sign and two hexadecimal digits. -/
def percentBytes : Nat → Cursor → Except Error (List UInt8 × Cursor)
  | 0, c => .ok ([], c)
  | n + 1, c =>
    if c.peek == '%' then
      match hexNumber? [c.peekAt 1, c.peekAt 2] with
      | some b => do
        let (bs, c) ← percentBytes n (c.skip 3)
        return (b.toUInt8 :: bs, c)
      | none => .error lexicalFault
    else .ok ([], c)

/-- The characters of a tag at a place, of which there may be none. -/
def tagChars : Nat → Cursor → Except Error (List Char × Cursor)
  | 0, c => .ok ([], c)
  | n + 1, c =>
    if c.peek == '%' then do
      let (bytes, c) ← percentBytes (c.rest.length + 1) c
      match String.fromUTF8? (ByteArray.mk bytes.toArray) with
      | some s => do
        let (more, c) ← tagChars n c
        return (s.toList ++ more, c)
      | none => .error lexicalFault
    else if isTagChar c.peek then do
      let (more, c') ← tagChars n c.next
      return (c.peek :: more, c')
    else .ok ([], c)

/-- The characters of a tag at a place, of which there has to be one. -/
def tagText (c : Cursor) : Except Error (String × Cursor) := do
  let (cs, c) ← tagChars (c.rest.length + 1) c
  if cs.isEmpty then .error lexicalFault else .ok (String.ofList cs, c)

/-- The handle at a place: an exclamation mark, or a name between two. -/
def handleText (c : Cursor) : Except Error (String × Cursor) :=
  if c.peek != '!' then .error lexicalFault
  else if c.peekAt 1 == ' ' then .ok ("!", c.next)
  else
    let (name, c) := c.next.span isNameChar
    if c.peek != '!' then .error lexicalFault
    else .ok ("!" ++ String.ofList name ++ "!", c.next)

/-- Whether a space or a line end follows, or nothing. -/
def endsWord (c : Cursor) : Bool := c.peek != '\t' && isGap c.peek

/-- The tag whose exclamation mark stands at a place. -/
def writtenTag (c : Cursor) : Except Error (WrittenTag × Cursor) := do
  let (t, c) ←
    if c.peekAt 1 == '<' then do
      let (name, c) ← tagText (c.skip 2)
      if c.peek != '>' then throw lexicalFault
      pure ((⟨none, name⟩ : WrittenTag), c.next)
    else if isGap (c.peekAt 1) then pure (⟨none, "!"⟩, c.next)
    else do
      let word := c.next.rest.takeWhile fun ch => ch == '\t' || !isGap ch
      let (handle, c) ← if word.contains '!' then handleText c else pure ("!", c.next)
      let (name, c) ← tagText c
      pure (⟨some handle, name⟩, c)
  if endsWord c then return (t, c) else throw lexicalFault

/-! ## Reading directives -/

/-- A directive of a document. -/
inductive Directive where
  | version (major : Nat)
  | handle (name start : String)
  | other

/-- The number at a place. -/
def versionNumber (c : Cursor) : Except Error (Nat × Cursor) :=
  let (ds, c) := c.span isAsciiDigit
  if ds.isEmpty then .error lexicalFault else .ok (digitsValue ds, c)

/-- The directive whose percent sign stands at a place, up to the end of its line. -/
def directiveText (c : Cursor) : Except Error (Directive × Cursor) := do
  let (name, c) := c.next.span isNameChar
  if name.isEmpty || !endsWord c then throw lexicalFault
  let (d, c) ← match String.ofList name with
    | "YAML" => do
      let (major, c) ← versionNumber (c.drop (· == ' '))
      if c.peek != '.' then throw lexicalFault
      let (_, c) ← versionNumber c.next
      if !endsWord c then throw lexicalFault
      pure (Directive.version major, c)
    | "TAG" => do
      let (handle, c) ← handleText (c.drop (· == ' '))
      if c.peek != ' ' then throw lexicalFault
      let (start, c) ← tagText (c.drop (· == ' '))
      if !endsWord c then throw lexicalFault
      pure (.handle handle start, c)
    | _ => pure (.other, c.drop fun ch => !isBreak ch)
  return (d, ← emptyRest c)

end Document

end Formula
