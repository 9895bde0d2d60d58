/-
# Engines

An engine reads and evaluates one text after another in a fixed mode. It remembers the tokens, the
expression and the record of the last texts that came so far.
-/
import Formula.Mode
import Formula.Parse

namespace Formula

/-- An engine with what it remembers. -/
structure Engine where
  mode : Mode
  options : Options
  /-- The tokens of the last text that could be cut into tokens. -/
  tokens : List Token
  /-- The expression of the last text that could be parsed. -/
  tree? : Option Expr
  /-- The record of the last parse that read a token. -/
  trace : List TraceRow

namespace Engine

/-- An engine that remembers nothing. -/
def new (mode : Mode) (options : Options) : Engine := ⟨mode, options, [], none, []⟩

/-- Remembers the outcome of a parse. -/
def remember (e : Engine) (ts : List Token) (p : Parse) : Engine :=
  { e with
    tokens := ts
    tree? := p.result.toOption <|> e.tree?
    trace := p.trace?.getD e.trace }

/-- **Parses a text.** -/
def parse (e : Engine) (source : String) : Engine × Except Error Expr :=
  match e.mode.lexicon.tokenize source with
  | .error err => (e, .error err)
  | .ok ts =>
    let p := Parse.ofTokens e.options ts
    (e.remember ts p, p.result)

/-- **Parses and evaluates a text.** -/
def evaluate (e : Engine) (s : Scope) (source : String) : Engine × Except Error Value :=
  let (e, result) := e.parse source
  (e, result.bind (e.mode.evaluate s))

end Engine

end Formula
