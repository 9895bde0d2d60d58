/-
# Reading documents

The nodes of a document have content by their tags. A mapping may merge others: their entries go in
front of its own, so that its own count.
-/
import Formula.Document
import Formula.Document.Node

namespace Formula

namespace Document

/-- A node that does not fit its tag, or a key that may be none. -/
abbrev contentFault : Error := .unreadable .content

/-! ## Texts by their tags -/

/-- A text in lower case. -/
def lowerCase (s : String) : String := s.map Char.toLower

/-- The truth value that a word stands for, in any case of its letters. -/
def ofTruthWord (s : String) : Except Error Document :=
  if trueWords.contains (lowerCase s) then .ok (boolean true)
  else if falseWords.contains (lowerCase s) then .ok (boolean false)
  else .error (.unreadable .truthWord)

/-- The parts of a text between colons. -/
def colonParts (cs : List Char) : List (List Char) :=
  cs.foldr (fun c parts =>
    match c, parts with
    | ':', parts => [] :: parts
    | c, part :: more => (c :: part) :: more
    | c, [] => [[c]]) [[]]

/-- Accepts the digits of an integer in a base up to sixteen. -/
def ofDigits (base : Nat) (cs : List Char) : Except Error Document :=
  if !cs.isEmpty && cs.all fun c => (hexValue? c).any (· < base) then .ok other
  else .error (.invalid (.notInteger (String.ofList cs) base))

/-- Accepts an integer: binary, octal, decimal, hexadecimal or by sixties. -/
def ofIntegerText (s : String) : Except Error Document :=
  let cs := s.toList.filter (· != '_')
  match cs.isEmpty, dropSign cs with
  | true, _ | _, [] => .error (.unreadable .noDigits)
  | _, ['0'] => .ok other
  | _, '0' :: 'b' :: ds => ofDigits 2 ds
  | _, '0' :: 'x' :: ds => ofDigits 16 ds
  | _, '0' :: ds => ofDigits 8 ('0' :: ds)
  | _, body =>
    match (colonParts body).find? fun part => (readWhole? (String.ofList part)).isNone with
    | none => .ok other
    | some part => .error (.invalid (.notInteger (String.ofList part) 10))

/-- Accepts a decimal, an infinity or no number, or decimals by sixties. -/
def ofDecimalText (s : String) : Except Error Document :=
  let cs := (lowerCase s).toList.filter (· != '_')
  let body := dropSign cs
  if cs.isEmpty then .error (.unreadable .noDigits)
  else if [".inf", ".nan"].contains (String.ofList body) then .ok other
  else
    match (colonParts body).find? fun part => (Double.read? (String.ofList part)).isNone with
    | none => .ok other
    | some part => .error (.invalid (.notNumeral (String.ofList part)))

/-- Accepts a date whose parts are in their ranges. -/
def ofDateText (s : String) : Except Error Document :=
  match date? s.toList with
  | none => .error .missingPart
  | some d => (badPart? d).elim (.ok other) fun part => .error (.invalid (.noDate part))

/-- The content of a text with a tag. -/
def ofText (tag : Tag) (s : String) : Except Error Document :=
  match tag with
  | .standard "str" => .ok (text s)
  | .standard "null" => .ok null
  | .standard "bool" => ofTruthWord s
  | .standard "int" => ofIntegerText s
  | .standard "float" => ofDecimalText s
  | .standard "timestamp" => ofDateText s
  | .standard "binary" => .ok other
  | _ => .error contentFault

/-! ## Nodes -/

namespace Node

/-- The tag of a node. -/
def tag : Node → Tag
  | text t _ | list t _ | mapping t _ => t

/-- Whether a key merges the mappings behind it. -/
def isMerge (n : Node) : Bool := n.tag == .standard "merge"

/-- Whether a node is a mapping with one entry. -/
def isPair : Node → Bool
  | mapping _ [_] => true
  | _ => false

/-- Whether a list may have a tag. -/
def fitsList (items : List Node) (tag : Tag) : Bool :=
  tag == .standard "seq"
    || ((tag == .standard "omap" || tag == .standard "pairs") && items.all isPair)

mutual

/-- **The content of a node.** -/
def toDocument : Node → Except Error Document
  | text tag s => ofText tag s
  | list tag items => do
    if !fitsList items tag then throw contentFault
    return .list (← toDocuments items)
  | mapping tag entries => do
    if tag != .standard "map" && tag != .standard "set" then throw contentFault
    let (merged, own) ← toEntries entries
    return if tag == .standard "map" then .mapping (merged ++ own) else .list []

/-- The contents of some nodes. -/
def toDocuments : List Node → Except Error (List Document)
  | [] => .ok []
  | n :: rest => do return (← toDocument n) :: (← toDocuments rest)

/-- The entries that a mapping merges, and its own. -/
def toEntries :
    List (Node × Node) → Except Error (List (Document × Document) × List (Document × Document))
  | [] => .ok ([], [])
  | (k, v) :: rest => do
    if k.isMerge then
      let more ← toMerged v
      let (merged, own) ← toEntries rest
      return (more ++ merged, own)
    else
      let key ← match k with
        | text (.standard "value") s => .ok (.text s)
        | k => toDocument k
      if !key.isKey then throw contentFault
      let value ← toDocument v
      let (merged, own) ← toEntries rest
      return (merged, (key, value) :: own)

/-- The entries that a merged node adds: of a list of mappings, the first one counts. -/
def toMerged : Node → Except Error (List (Document × Document))
  | mapping _ entries => do
    let (merged, own) ← toEntries entries
    return merged ++ own
  | list _ items => do return (← toMergedItems items).reverse.flatten
  | text .. => .error contentFault

/-- The entries that each of some merged mappings adds. -/
def toMergedItems : List Node → Except Error (List (List (Document × Document)))
  | [] => .ok []
  | n :: rest => do
    match n with
    | mapping _ entries => do
      let (merged, own) ← toEntries entries
      return (merged ++ own) :: (← toMergedItems rest)
    | _ => throw contentFault

end

end Node

/-! ## Texts -/

/-- **Reads the text of a settings document**; a text without any document holds nothing. -/
def read (s : String) : Except Error Document := do
  let cs := unifyBreaks s.toList
  if cs.any fun c => !isAllowed c then throw (.unreadable .character)
  match ← Node.ofText? cs with
  | none => return null
  | some n => n.toDocument

end Document

end Formula
