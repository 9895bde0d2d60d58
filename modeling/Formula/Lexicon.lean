/-
# Lexicons

A lexicon is an ordered list of definitions. At each place of the source the first definition that
matches gives the next token, so that longer words stand before their beginnings. The standard and
the complex lexicon read single letters as names; the logic and the pricing lexicon read whole
words.
-/
import Formula.Error
import Formula.Pattern
import Formula.Token

namespace Formula

/-! ## Definitions -/

/-- How one kind of token is recognised, and the canonical value that its lexemes share, if any. -/
structure Definition where
  pattern : Pattern
  kind : Kind
  value : Option String
  deriving DecidableEq, Repr

namespace Definition

/-- The token that a definition finds at the start of a text. -/
def token? (d : Definition) (position : Nat) (cs : List Char) : Option Token :=
  let n := d.pattern.length cs
  if n = 0 then none
  else
    let lexeme := String.ofList (cs.take n)
    some ⟨d.kind, d.value.getD lexeme, lexeme, position⟩

/-- The token that a definition finds at a place of a source. -/
def tokenAt? (d : Definition) (source : String) (position : Nat) : Option Token :=
  d.token? position (source.toList.drop position)

end Definition

/-- An ordered list of definitions. -/
abbrev Lexicon := List Definition

namespace Lexicon

/-! ## Tokenizing -/

/-- The token of the first definition that matches. -/
def first? (l : Lexicon) (position : Nat) (cs : List Char) : Option Token :=
  l.findSome? (·.token? position cs)

/-- A token found in a text has a lexeme of at least one of its characters. -/
theorem length_lexeme_pos {l : Lexicon} {position : Nat} {cs : List Char} {t : Token}
    (hc : cs ≠ []) (h : l.first? position cs = some t) : 0 < t.lexeme.length := by
  obtain ⟨d, -, hd⟩ := List.exists_of_findSome?_eq_some h
  simp only [Definition.token?] at hd
  split at hd
  · cases hd
  · rename_i hn
    cases hd
    have : 0 < cs.length := List.length_pos_iff.2 hc
    simp only [String.length_ofList, List.length_take]
    omega

/-- The tokens of a text that starts at a position of its source. -/
def scan (l : Lexicon) (position : Nat) (cs : List Char) : Except Error (List Token) :=
  match cs with
  | [] => .ok []
  | c :: rest =>
    match _h : l.first? position (c :: rest) with
    | none => .error (.unknownToken c position)
    | some t =>
      match scan l (position + t.lexeme.length) ((c :: rest).drop t.lexeme.length) with
      | .ok ts => .ok (t :: ts)
      | .error e => .error e
  termination_by cs.length
  decreasing_by
    have := length_lexeme_pos (List.cons_ne_nil c rest) _h
    simp only [List.length_drop, List.length_cons]
    omega

/-- **The tokens of a source text**, or the first place where no definition matches. -/
def tokenize (l : Lexicon) (source : String) : Except Error (List Token) :=
  l.scan 0 source.toList

/-! ## Building blocks -/

/-- The definition of a fixed symbol that stands for itself. -/
def mark (text shown : String) (kind : Kind) : Definition := ⟨.symbol text shown, kind, none⟩

/-- The definition of a fixed symbol with a canonical value. -/
def sign (text shown : String) (op : Operator) : Definition :=
  ⟨.symbol text shown, .operator op, some op.symbol⟩

/-- The pattern of some spellings, as whole words or not. -/
def words (whole : Bool) (ws : List String) : Pattern :=
  if whole then .wholeWord ws else .spelling ws

/-- The numerals. -/
def numerals : Lexicon :=
  [⟨.real, .real, none⟩, ⟨.natural, .natural, none⟩, ⟨.decimalTail, .literal, none⟩]

/-- The spellings of the elementary functions with their canonical names; inverse hyperbolic
functions stand before the inverse circular ones, and words before their beginnings. -/
def functionSpellings : List (List String × Option String) :=
  [(["sqrt"], none), (["round"], none), (["ceil"], none), (["floor"], none), (["ending"], none),
   (["sind"], none), (["cosd"], none), (["tand"], none), (["cotd"], none), (["sinh"], none),
   (["cosh"], none), (["tanh"], none), (["coth"], none), (["sin"], none), (["cos"], none),
   (["tan"], none), (["cot"], none),
   (["arsinh", "arcsinh", "asinh"], some "arsinh"),
   (["arcosh", "arccosh", "acosh"], some "arcosh"),
   (["artanh", "arctanh", "atanh"], some "artanh"),
   (["arcoth", "arccoth", "acoth"], some "arcoth"),
   (["arcsin", "asin"], some "arcsin"), (["arccos", "acos"], some "arccos"),
   (["arctan", "atan"], some "arctan"), (["arccot", "acot"], some "arccot"),
   (["exp"], none), (["log10", "lg"], some "lg"), (["log"], some "log"), (["ln"], some "ln"),
   (["abs"], none), (["sgn"], none)]

/-- The spellings of the functions on prices. -/
def pricingSpellings : List (List String × Option String) :=
  [(["round"], none), (["ceil"], none), (["floor"], none), (["ending"], none)]

/-- The definitions of function names. -/
def functions (whole : Bool) (spellings : List (List String × Option String)) : Lexicon :=
  spellings.map fun s => ⟨words whole s.1, .function, s.2⟩

/-- The brackets. -/
def brackets : Lexicon :=
  [mark "(" "\\(" (.opening .paren), mark ")" "\\)" (.closing .paren),
   mark "\x7b" "\\\x7b" (.opening .brace), mark "\x7d" "\\\x7d" (.closing .brace)]

/-- The arithmetic operators. -/
def arithmetic : Lexicon :=
  [mark "+" "\\+" (.operator .add), mark "-" "-" (.operator .sub),
   mark "*" "\\*" (.operator .mul), mark "/" "/" (.operator .div),
   mark "^" "\\^" (.operator .pow)]

/-- Separators of arguments and statements, and blanks. -/
def separators : Lexicon :=
  [mark "," "," .terminator, mark ";" ";" .terminator, mark "\n" "\\n" .terminator,
   ⟨.blanks, .blank, none⟩]

/-- The definition of a named constant. -/
def constant (whole : Bool) (name : String) : Definition := ⟨words whole [name], .constant, none⟩

/-- The definition of a keyword. -/
def keyword (ws : List String) (kind : Kind) (value : Option String) : Definition :=
  ⟨.wholeWord ws, kind, value⟩

/-- Numerals, elementary functions, brackets, arithmetic, factorials, constants and separators. -/
def common (whole : Bool) : Lexicon :=
  numerals ++ functions whole functionSpellings ++ brackets ++ arithmetic
    ++ [mark "!!" "!!" .semiFactorial, mark "!" "!" .factorial,
        constant whole "NAN", constant whole "INF", constant whole "pi"]
    ++ separators

/-- Keywords, relations, connectives and truth values; with `notSign`, an exclamation mark
negates. -/
def logical (notSign : Bool) : Lexicon :=
  [keyword ["IF", "if"] .ifWord (some "if"), keyword ["THEN", "then"] .thenWord (some "then"),
   keyword ["ELSE", "else"] .elseWord (some "else"), keyword ["return"] .returnWord none,
   keyword ["NOT", "not"] (.operator .not) (some "!"), sign "==" "==" .eq, sign "!=" "!=" .ne]
    ++ (if notSign then [sign "!" "!" .not] else [])
    ++ [sign "=" "=" .eq, sign "<>" "<>" .ne, sign ">=" ">=" .ge, sign "<=" "<=" .le,
        sign ">" ">" .gt, sign "<" "<" .lt, sign "&&" "&&" .and, sign "||" "\\|\\|" .or,
        keyword ["AND", "and"] (.operator .and) (some "&&"),
        keyword ["OR", "or"] (.operator .or) (some "||"),
        keyword ["TRUE", "true"] .boolean (some "true"),
        keyword ["FALSE", "false"] .boolean (some "false")]

/-- Single letters as names. -/
def letters : Lexicon := [⟨.letter, .identifier, none⟩]

/-- Whole words as names. -/
def names : Lexicon := [⟨.identifier, .identifier, none⟩]

/-! ## The four lexicons -/

/-- **The standard lexicon**, for real and rational arithmetic. -/
def standard : Lexicon := common false ++ [constant false "e"] ++ letters

/-- **The complex lexicon**: the standard one with the imaginary unit and the functions of complex
numbers. -/
def complex : Lexicon :=
  common false
    ++ functions false [(["arg"], none), (["conj"], none), (["re"], none), (["im"], none)]
    ++ [constant false "i", constant false "e"] ++ letters

/-- **The logic lexicon**, for truth values and conditionals; its operators come first so that `!=`
is no factorial. -/
def logic : Lexicon := logical false ++ common true ++ [constant true "e"] ++ names

/-- **The pricing lexicon**, whose functions are the rounding functions and price endings. -/
def pricing : Lexicon :=
  numerals ++ functions true pricingSpellings ++ brackets ++ arithmetic ++ separators
    ++ logical true ++ names

end Lexicon

end Formula
