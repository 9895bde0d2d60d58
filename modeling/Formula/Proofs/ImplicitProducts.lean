/-
# Implicit products only complete what is incomplete

The pass that inserts multiplication signs knows nothing of the grammar: it looks at the kinds of
two neighbours. Still it changes no text that is complete without it, **because no two neighbours in
what the grammar reads multiply implicitly** (`Reads.joins`): a factor is followed by an operator, a
factorial, a bracket that closes, a word or a terminator, and an opening parenthesis stands behind a
function, which is the exception of the pass. Hence **allowing implicit products keeps every parse
that succeeds without them** (`implicit_products_conservative`).
-/
import Formula.Proofs.Locality

namespace Formula

namespace Grammar

open Outcome

/-! ## Pieces without implicit products -/

/-- Whether a token list goes on to a rest by a piece in which no neighbours multiply. A loose piece
starts no factor either, so that it multiplies with nothing before it. -/
def Joins (loose : Bool) (ts rest : List Token) : Prop :=
  ∃ ws, ts = ws ++ rest ∧ Apart ws ∧
    (loose = true → ∀ t ∈ ws.head?, t.kind.startsFactor = false)

/-- Whether a kind of token neither ends nor starts a factor. -/
def isNeutral (k : Kind) : Bool := !k.endsFactor && !k.startsFactor

namespace Joins

variable {loose : Bool} {t : Token} {ts us rest : List Token}

/-- Nothing joins to everything. -/
theorem refl : Joins loose ts ts := ⟨[], rfl, List.isChain_nil, fun _ => nofun⟩

/-- A single token is a piece, a loose one when it starts no factor. -/
theorem single (ht : loose = true → t.kind.startsFactor = false) : Joins loose (t :: ts) ts := by
  refine ⟨[t], rfl, List.isChain_singleton t, ?_⟩
  rintro hloose u ⟨⟩
  exact ht hloose

/-- A loose piece is a piece. -/
theorem tight (h : Joins true ts rest) : Joins loose ts rest := by
  obtain ⟨ws, hts, hapart, hhead⟩ := h
  exact ⟨ws, hts, hapart, fun _ => hhead rfl⟩

/-- A loose piece may come behind any piece. -/
theorem trans (h : Joins loose ts us) (h' : Joins true us rest) : Joins loose ts rest := by
  obtain ⟨vs, rfl, hvs, hhead⟩ := h
  obtain ⟨ws, rfl, hws, hhead'⟩ := h'
  refine ⟨vs ++ ws, (List.append_assoc _ _ _).symm, hvs.append hws (Or.inr (hhead' rfl)), ?_⟩
  intro hloose t ht
  cases vs with
  | nil => exact hhead' rfl t ht
  | cons v vs => exact hhead hloose t ht

/-- Any piece may come behind a token that ends no factor. -/
theorem cons {tight : Bool} (he : t.kind.endsFactor = false)
    (hs : loose = true → t.kind.startsFactor = false) (h : Joins tight ts rest) :
    Joins loose (t :: ts) rest := by
  obtain ⟨ws, rfl, hws, -⟩ := h
  refine ⟨t :: ws, rfl, ?_, ?_⟩
  · exact List.IsChain.cons hws fun u _ => Apart.multiplies_of_endsFactor he
  · rintro hloose u ⟨⟩
    exact hs hloose

/-- Any piece may come behind a token that is part of no factor. -/
theorem neutral {tight : Bool} (ht : isNeutral t.kind = true) (h : Joins tight ts rest) :
    Joins loose (t :: ts) rest := by
  obtain ⟨he, hs⟩ : t.kind.endsFactor = false ∧ t.kind.startsFactor = false := by
    simpa [isNeutral] using ht
  exact h.cons he fun _ => hs

/-- Any piece may come behind leading terminators. -/
theorem behindTerminators (h : Joins loose (afterTerminators ts) rest) : Joins loose ts rest := by
  induction ts with
  | nil => exact h
  | cons t ts ih =>
    rw [afterTerminators, List.dropWhile_cons] at h
    by_cases ht : t.kind = .terminator
    · rw [if_pos (by simp [ht])] at h
      exact neutral (by rw [ht]; rfl) (ih h)
    · rwa [if_neg (by simpa using ht)] at h

/-- Any piece may come behind a leading `return`. -/
theorem behindReturn (h : Joins loose (afterReturn ts) rest) : Joins loose ts rest := by
  cases ts with
  | nil => exact h
  | cons t ts =>
    rw [afterReturn] at h
    split at h
    · rename_i ht
      exact neutral (by rw [ht]; rfl) h
    · exact h

/-- A closing bracket may come behind any piece. -/
theorem close {b : Bracket} (h : Joins loose ts (t :: rest)) (ht : t.kind = .closing b) :
    Joins loose ts rest := by
  refine h.trans (single fun _ => ?_)
  rw [ht]
  rfl

/-- A function may stand before the parenthesis of its arguments. -/
theorem apply {f o : Token} (hf : f.kind = .function) (ho : o.kind = .opening .paren)
    (h : Joins false (o :: ts) rest) : Joins false (f :: o :: ts) rest := by
  obtain ⟨ws, hts, hws, -⟩ := h
  refine ⟨f :: ws, by rw [hts, List.cons_append], List.IsChain.cons hws ?_, nofun⟩
  intro u hu
  have hou : o = u := by
    cases ws with
    | nil => cases hu
    | cons w ws =>
      cases hu
      exact (List.cons.inj hts).1
  rw [← hou, hf, ho]
  rfl

end Joins

/-! ## What is read joins -/

/-- Whether a nonterminal is read behind an operand: what it reads starts no factor. -/
def Nonterminal.isLoose : Nonterminal → Bool
  | .chain .. | .factorials _ | .moreArguments | .block | .branches _ => true
  | _ => false

/-- An operator between two operands is part of no factor. -/
theorem isNeutral_of_binary? {t : Token} {op : Operator} (h : t.kind.binary? = some op) :
    isNeutral t.kind = true := by
  cases hk : t.kind <;> first | rfl | (rw [hk] at h; cases h)

/-- A factorial starts no factor. -/
theorem startsFactor_of_isFactorial {t : Token} (h : t.kind.isFactorial = true) :
    t.kind.startsFactor = false := by
  cases hk : t.kind <;> first | rfl | (rw [hk] at h; cases h)

variable {s : Bool} {k : Nonterminal} {ts rest : List Token} {es : List Expr}

/-- **No two neighbours in what is read multiply implicitly.** -/
theorem Reads.joins (h : Reads s k ts es rest) (ho : k.Opens ts) : Joins k.isLoose ts rest := by
  -- what comes behind an operand is loose, so every rule joins its parts where no factor starts
  induction h with
  | expression _ _ ihu ihc => exact (ihu trivial).trans (ihc trivial)
  | chainEnd => exact .refl
  | chainStep hop _ _ _ _ ihr ihc =>
    exact .neutral (isNeutral_of_binary? hop) ((ihr trivial).trans (ihc trivial))
  | plus hk _ ih => exact .neutral (by rw [hk]; rfl) (ih trivial)
  | minus hk _ _ ih => exact .neutral (by rw [hk]; rfl) (ih trivial)
  | not hk _ _ ih => exact .neutral (by rw [hk]; rfl) (ih trivial)
  | unsigned _ _ ih => exact ih trivial
  | postfixed _ _ ihp ihf => exact (ihp trivial).trans (ihf trivial)
  | factorialsEnd => exact .refl
  | factorialsStep hf _ _ ih =>
    exact (Joins.single fun _ => startsFactor_of_isFactorial hf).trans (ih trivial)
  | operand => exact .single nofun
  | paren hk _ hc ih => exact .cons (by rw [hk]; rfl) nofun ((ih trivial).close hc)
  | braces _ _ ih => exact (ih trivial).tight
  | function hk _ ih => exact ih (startsWith_cons.2 hk)
  | ifWord hk _ ih => exact ih (startsWith_cons.2 hk)
  | application ho' _ hc _ ih =>
    exact .apply (startsWith_cons.1 ho) ho' (.cons (by rw [ho']; rfl) nofun ((ih trivial).close hc))
  | noArguments => exact .refl
  | someArguments _ _ _ ihe ihm => exact (ihe trivial).trans (ihm trivial)
  | lastArgument => exact .refl
  | nextArgument hk _ _ ihe ihm =>
    exact .neutral (by rw [hk]; rfl) ((ihe trivial).trans (ihm trivial))
  | @block b ts e ts₁ c rest hb _ hrest hc ih =>
    have hend : Joins true ts₁ rest :=
      .behindTerminators (hrest ▸ .single fun _ => by rw [hc]; rfl)
    have hbody : Joins false ts rest := .behindTerminators (.behindReturn ((ih trivial).trans hend))
    exact .neutral (by rw [hb]; rfl) hbody
  | listed _ _ ih => exact .neutral (by rw [startsWith_cons.1 ho]; rfl) (ih trivial)
  | conditioned _ _ _ ihc ihb =>
    exact .neutral (by rw [startsWith_cons.1 ho]; rfl) ((ihc trivial).trans (ihb trivial))
  | words hk _ hw _ ihy ihn =>
    have hno : Joins true _ _ := .neutral (by rw [hw]; rfl) (ihn trivial)
    exact .neutral (by rw [hk]; rfl) ((ihy trivial).trans hno)
  | blockElseIf _ _ hw hi _ ihy ihn =>
    exact (ihy trivial).trans (.neutral (by rw [hw]; rfl) (ihn hi))
  | blocks _ _ hw _ _ ihy ihn =>
    exact (ihy trivial).trans (.neutral (by rw [hw]; rfl) (ihn trivial))
  | list ho' _ h₁ _ h₂ _ h₃ ihc ihy ihn =>
    have hno : Joins true _ _ := .neutral (by rw [h₂]; rfl) ((ihn trivial).close h₃)
    have hyes : Joins true _ _ := .neutral (by rw [h₁]; rfl) ((ihy trivial).trans hno)
    exact .cons (by rw [ho']; rfl) nofun ((ihc trivial).trans hyes)

end Grammar

open Grammar

/-! ## The main result -/

/-- Tokens that derive an expression up to trailing terminators stand apart. -/
theorem apart_of_reads {s : Bool} {ts rest : List Token} {e : Expr}
    (h : Reads s (.expression 0) ts [e] rest) (hrest : afterTerminators rest = []) : Apart ts := by
  have hend : Joins true rest [] := .behindTerminators (hrest ▸ .refl)
  obtain ⟨ws, hts, hapart, -⟩ := (h.joins trivial).trans hend
  rw [hts, List.append_nil]
  exact hapart

/-- **Implicit products are a conservative extension**: where a parse without them yields an
expression, no sign is inserted when they are allowed, and the parse has the same result and the
same record. -/
theorem implicit_products_conservative {o : Options} {ts : List Token} {e : Expr}
    (h : parse { o with implicitProducts := false } ts = .ok e) :
    insertProducts (dropBlanks ts) = dropBlanks ts ∧
      parse { o with implicitProducts := true } ts = .ok e ∧
      Parse.ofTokens { o with implicitProducts := true } ts
        = Parse.ofTokens { o with implicitProducts := false } ts := by
  obtain ⟨-, -, rest, hreads, hrest⟩ := parse_eq_ok_iff.1 h
  have hsame : insertProducts (dropBlanks ts) = dropBlanks ts :=
    insertProducts_of_apart (apart_of_reads hreads hrest)
  have hprepare : Parse.prepare { o with implicitProducts := true } ts
      = Parse.prepare { o with implicitProducts := false } ts := hsame
  have hparse : Parse.ofTokens { o with implicitProducts := true } ts
      = Parse.ofTokens { o with implicitProducts := false } ts := by
    rw [Parse.ofTokens, hprepare, Parse.ofTokens]
  refine ⟨hsame, ?_, hparse⟩
  rw [parse, hparse]
  exact h

/-- A conditional in words, with a factorial in parentheses and a call before a factor. -/
theorem implicit_products_conservative_words :
    let text := "IF x>(2!) THEN sqrt(x)*(y) ELSE 1"
    let ts := (Lexicon.logic.tokenize text).toOption.getD []
    let root : Expr := .call "sqrt" (.identifier "x")
    let e : Expr := .conditional
      (.operation .gt (.identifier "x") (.call "!" (.integer 2)))
      (.operation .mul root (.identifier "y")) (.integer 1)
    Lexicon.logic.tokenize text = .ok ts ∧ parse ⟨false, false, true⟩ ts = .ok e ∧
      insertProducts (dropBlanks ts) = dropBlanks ts ∧ parse ⟨true, false, true⟩ ts = .ok e := by
  intro text ts root e
  obtain ⟨hts, he⟩ : Lexicon.logic.tokenize text = .ok ts ∧
      parse ⟨false, false, true⟩ ts = .ok e := by
    decide +kernel
  obtain ⟨hsame, hparse, -⟩ := implicit_products_conservative (o := ⟨false, false, true⟩) he
  exact ⟨hts, he, hsame, hparse⟩

end Formula
