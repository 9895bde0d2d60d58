/-
# Nodes of a document

The pieces of a document make up a tree of texts, lists and mappings, each with its tag. A value
that was given a name may stand again wherever a reference to the name stands.
-/
import Formula.Document.Piece
import Formula.Document.Plain

namespace Formula

namespace Document

/-- A tagged value of a document. -/
inductive Node where
  | text (tag : Tag) (s : String)
  | list (tag : Tag) (items : List Node)
  | mapping (tag : Tag) (entries : List (Node × Node))

namespace Node

/-- Nothing where a value may stand. -/
def empty : Node := text (.standard "null") ""

/-! ## Composition -/

/-- What is left of a document while its nodes are composed. -/
structure Composition where
  pieces : List Piece
  /-- The fault behind the last piece. -/
  fault : Option Error
  names : List (String × Node)
  handles : Handles

/-- A step of the composition of a document. -/
abbrev Compose := StateT Composition (Except Error)

/-- The next piece. -/
def peek : Compose Piece := do
  match (← get).pieces with
  | p :: _ => return p
  | [] => throw ((← get).fault.getD structuralFault)

/-- Goes past the next piece. -/
def skip : Compose Unit := modify fun s => { s with pieces := s.pieces.drop 1 }

/-- Goes past a piece that has to stand here. -/
def expect (p : Piece → Bool) : Compose Unit := do
  if p (← peek) then skip else throw structuralFault

/-- Gives a name to a value; inside the value the name stands for an empty list. -/
def openName (name : Option String) : Compose Unit := do
  match name with
  | none => return
  | some name =>
    if ((← get).names.lookup name).isSome then throw (.unreadable .reference)
    modify fun s => { s with names := (name, list (.standard "seq") []) :: s.names }

/-- Gives a finished value to its name. -/
def closeName (name : Option String) (n : Node) : Compose Node := do
  match name with
  | none => return n
  | some name =>
    modify fun s => { s with names := (name, n) :: s.names }
    return n

/-- The value with a name. -/
def ofName (name : String) : Compose Node := do
  match (← get).names.lookup name with
  | some n => return n
  | none => throw (.unreadable .reference)

/-- The name in front of a value, if one stands here. -/
def name? : Compose (Option String) := do
  match ← peek with
  | .name name => skip; return some name
  | _ => return none

/-- The tag in front of a value, if one stands here. -/
def tag? : Compose (Option WrittenTag) := do
  match ← peek with
  | .tag t => skip; return some t
  | _ => return none

/-- The name and the full tag in front of a value, in any order. -/
def properties : Compose (Option String × Option String) := do
  let (name, tag) ← match ← name? with
    | some name => do pure (some name, ← tag?)
    | none =>
      match ← tag? with
      | some t => do pure (← name?, some t)
      | none => pure (none, none)
  match tag with
  | none => return (name, none)
  | some t =>
    match t.fullName (← get).handles with
    | .ok full => return (name, some full)
    | .error e => throw e

/-- The tag of a collection. -/
def collectionTag (standard : String) (tag : Option String) : Tag :=
  match tag with
  | none | some "!" => .standard standard
  | some t => .ofName t

/-- The tag of a text: one without a tag is a text when it is quoted, and otherwise it has the tag
of its kind. -/
def textTag (tag : Option String) (s : String) (plain : Bool) : Tag :=
  match tag with
  | none => if plain then plainTag s.toList else .standard "str"
  | some "!" => plainTag s.toList
  | some t => .ofName t

/-! ## Values -/

/-- A value where there may be none: it is empty before a piece that satisfies `ends`. -/
def orEmpty (ends : Piece → Bool) (value : Compose Node) : Compose Node := do
  if ends (← peek) then return empty else value

/-- Whether an entry of a mapping by indentation ends. -/
def endsEntry : Piece → Bool
  | .key | .value | .blockEnd => true
  | _ => false

/-- Whether an item of a list by indentation ends. -/
def endsItem : Piece → Bool
  | .dash | .blockEnd => true
  | _ => false

/-- Whether an item of a list that is indented like its key ends. -/
def endsLevelItem : Piece → Bool
  | .dash => true
  | p => endsEntry p

/-- Whether a list in brackets ends, or a mapping in braces. -/
def closes (brace : Bool) : Piece → Bool
  | .closeBrace => brace
  | .closeBracket => !brace
  | _ => false

/-- Whether a value in brackets or braces ends. -/
def endsFlow (brace : Bool) : Piece → Bool
  | .comma => true
  | p => closes brace p

/-- Whether a piece announces a value. -/
def isValue : Piece → Bool
  | .value => true
  | _ => false

/-- The value of an entry: empty where no colon announces one. -/
def entryValue (ends : Piece → Bool) (value : Compose Node) : Compose Node := do
  if isValue (← peek) then
    skip
    orEmpty ends value
  else return empty

/-- Goes past the comma before any but the first value in brackets. -/
def separate (first : Bool) : Compose Unit := do
  if first then return
  expect fun p => match p with
    | .comma => true
    | _ => false

mutual

/-- The node that starts at the next piece. Out of brackets it may be a collection by indentation;
as part of an entry it may be a list that is indented like the entry. -/
def compose : Nat → Bool → Bool → Compose Node
  | 0, _, _ => throw structuralFault
  | n + 1, block, level => do
    match ← peek with
    | .reference name =>
      skip
      ofName name
    | _ => do
      let (name, tag) ← properties
      let listTag := collectionTag "seq" tag
      let mappingTag := collectionTag "map" tag
      match ← peek, block, level with
      | .dash, _, true => do
        openName name
        closeName name (list listTag (← levelItems n))
      | .text s plain, _, _ => do
        skip
        openName name
        closeName name (text (textTag tag s plain) s)
      | .openBracket, _, _ => do
        openName name
        skip
        closeName name (list listTag (← flowItems n true))
      | .openBrace, _, _ => do
        openName name
        skip
        closeName name (mapping mappingTag (← flowEntries n true))
      | .blockList, true, _ => do
        openName name
        skip
        closeName name (list listTag (← blockItems n))
      | .blockMapping, true, _ => do
        openName name
        skip
        closeName name (mapping mappingTag (← blockEntries n))
      | _, _, _ => do
        if name.isNone && tag.isNone then throw structuralFault
        openName name
        closeName name (text (textTag tag "" true) "")

/-- The items of a list by indentation. -/
def blockItems : Nat → Compose (List Node)
  | 0 => throw structuralFault
  | n + 1 => do
    match ← peek with
    | .dash => do
      skip
      let item ← orEmpty endsItem (compose n true false)
      return item :: (← blockItems n)
    | .blockEnd => do
      skip
      return []
    | _ => throw structuralFault

/-- The items of a list that is indented like its key. -/
def levelItems : Nat → Compose (List Node)
  | 0 => throw structuralFault
  | n + 1 => do
    match ← peek with
    | .dash => do
      skip
      let item ← orEmpty endsLevelItem (compose n true false)
      return item :: (← levelItems n)
    | _ => return []

/-- The entries of a mapping by indentation. -/
def blockEntries : Nat → Compose (List (Node × Node))
  | 0 => throw structuralFault
  | n + 1 => do
    match ← peek with
    | .key => do
      skip
      let key ← orEmpty endsEntry (compose n true true)
      let value ← entryValue endsEntry (compose n true true)
      return (key, value) :: (← blockEntries n)
    | .blockEnd => do
      skip
      return []
    | _ => throw structuralFault

/-- The items of a list in brackets; an entry among them is a mapping of its own. -/
def flowItems : Nat → Bool → Compose (List Node)
  | 0, _ => throw structuralFault
  | n + 1, first => do
    if closes false (← peek) then
      skip
      return []
    separate first
    match ← peek with
    | .key => do
      skip
      let key ← orEmpty (fun p => isValue p || endsFlow false p) (compose n false false)
      let value ← entryValue (endsFlow false) (compose n false false)
      return mapping (.standard "map") [(key, value)] :: (← flowItems n false)
    | .closeBracket => do
      skip
      return []
    | _ => do
      let item ← compose n false false
      return item :: (← flowItems n false)

/-- The entries of a mapping in braces. -/
def flowEntries : Nat → Bool → Compose (List (Node × Node))
  | 0, _ => throw structuralFault
  | n + 1, first => do
    if closes true (← peek) then
      skip
      return []
    separate first
    match ← peek with
    | .key => do
      skip
      let key ← orEmpty (fun p => isValue p || endsFlow true p) (compose n false false)
      let value ← entryValue (endsFlow true) (compose n false false)
      return (key, value) :: (← flowEntries n false)
    | .closeBrace => do
      skip
      return []
    | _ => do
      let key ← compose n false false
      return (key, empty) :: (← flowEntries n false)

end

/-! ## Documents -/

/-- Reads the directives before a document: at most one version, which starts with a one, and no
handle twice. -/
def directives : Nat → Bool → Handles → Compose Handles
  | 0, _, handles => return handles
  | n + 1, versioned, handles => do
    match ← peek with
    | .directive d => do
      skip
      match d with
      | .version major =>
        if versioned || major != 1 then throw structuralFault
        directives n true handles
      | .handle name start =>
        if (handles.lookup name).isSome then throw structuralFault
        directives n versioned ((name, start) :: handles)
      | .other => directives n versioned handles
    | _ => return handles

/-- Goes past the ends of documents. -/
def skipEnds : Nat → Compose Unit
  | 0 => return
  | n + 1 => do
    match ← peek with
    | .documentEnd => do
      skip
      skipEnds n
    | _ => return

/-- The directives and the start of a document. -/
def startDocument (n : Nat) : Compose Unit := do
  let handles ← directives n false []
  expect fun p => match p with
    | .documentStart => true
    | _ => false
  modify fun s => { s with handles := handles ++ standardHandles }

/-- Whether a document behind its start is empty. -/
def endsDocument : Piece → Bool
  | .directive _ | .documentStart | .documentEnd | .streamEnd => true
  | _ => false

/-- The end of a document, behind which no other one may stand. -/
def endDocument (n : Nat) : Compose Unit := do
  skipEnds n
  match ← peek with
  | .streamEnd => return
  | _ => do
    startDocument n
    throw (.unreadable .reference)

/-- The only document of the pieces, if there is one. -/
def document (n : Nat) : Compose (Option Node) := do
  match ← peek with
  | .streamEnd => return none
  | .directive _ | .documentStart => do
    startDocument n
    let d ← orEmpty endsDocument (compose n true false)
    endDocument n
    return some d
  | _ => do
    let d ← compose n true false
    endDocument n
    return some d

/-- **The node of a text**, if it holds a document. -/
def ofText? (cs : List Char) : Except Error (Option Node) :=
  let (pieces, fault) := piecesOf cs
  ((document (2 * pieces.length + 4)).run ⟨pieces, fault, [], standardHandles⟩).map (·.1)

end Node

end Document

end Formula
