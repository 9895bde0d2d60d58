/-
# Tokens that say the same

Two tokens say the same when they agree in kind and canonical value; the lexeme and the place do not
matter. **Parsing does not tell such tokens apart** (`parse_of_respelled`), so an expression may be
parsed from tokens without places.
-/
import Mathlib.Data.List.Forall2
import Formula.Proofs.Parsing

namespace Formula

/-! ## Respelled token lists -/

/-- Whether two tokens agree in kind and value. -/
structure Token.SaysSame (t t' : Token) : Prop where
  kind : t.kind = t'.kind
  value : t.value = t'.value

/-- Whether two token lists agree token by token. -/
abbrev Respelled (ts ts' : List Token) : Prop := List.Forall₂ Token.SaysSame ts ts'

namespace Respelled

variable {ts ts' : List Token}

/-- Whether a list starts with a token of some class depends on the kinds. -/
theorem startsAny (h : Respelled ts ts') (p : Kind → Bool) :
    Grammar.startsAny p ts' = Grammar.startsAny p ts := by
  cases h with
  | nil => rfl
  | cons ht _ => rw [Grammar.startsAny, Grammar.startsAny, ht.kind]

/-- Whether a list starts with a kind of token depends on the kinds. -/
theorem startsWith (h : Respelled ts ts') (k : Kind) :
    Grammar.startsWith k ts' = Grammar.startsWith k ts := by
  cases h with
  | nil => rfl
  | cons ht _ => rw [Grammar.startsWith, Grammar.startsWith, ht.kind]

/-- Where a chain stops depends on the kinds. -/
theorem stops (h : Respelled ts ts') {least : Nat} (hs : Grammar.Stops least ts) :
    Grammar.Stops least ts' := by
  cases h with
  | nil => trivial
  | cons ht _ => exact fun op hop => hs op (by rw [ht.kind, hop])

/-- Whether there is a terminator depends on the kinds. -/
theorem hasTerminator (h : Respelled ts ts') :
    ∀ depth, Grammar.hasTerminator depth ts' = Grammar.hasTerminator depth ts := by
  induction h with
  | nil => exact fun _ => rfl
  | cons ht _ ih =>
    intro depth
    simp only [Grammar.hasTerminator, ht.kind, ih]

/-- Whether a list starts with a list of arguments depends on the kinds. -/
theorem startsList (h : Respelled ts ts') : Grammar.startsList ts' = Grammar.startsList ts := by
  cases h with
  | nil => rfl
  | cons ht hts => rw [Grammar.startsList, Grammar.startsList, ht.kind, hasTerminator hts]

/-- Terminators are skipped alike. -/
theorem afterTerminators (h : Respelled ts ts') :
    Respelled (Grammar.afterTerminators ts) (Grammar.afterTerminators ts') := by
  induction h with
  | nil => exact .nil
  | cons ht hts ih =>
    simp only [Grammar.afterTerminators, List.dropWhile_cons, ht.kind] at ih ⊢
    split
    · exact ih
    · exact .cons ht hts

/-- A leading `return` is skipped alike. -/
theorem afterReturn (h : Respelled ts ts') :
    Respelled (Outcome.afterReturn ts) (Outcome.afterReturn ts') := by
  cases h with
  | nil => exact .nil
  | cons ht hts =>
    rw [Outcome.afterReturn, Outcome.afterReturn, ht.kind]
    split
    · exact hts
    · exact .cons ht hts

end Respelled

/-- An operand depends on kind and value. -/
theorem operand?_of_saysSame {t t' : Token} (h : t.SaysSame t') :
    Grammar.operand? t' = Grammar.operand? t := by
  rw [Grammar.operand?, Grammar.operand?, h.kind, h.value]

/-! ## Derivations -/

namespace Grammar

/-- **Derivations do not tell tokens apart that say the same.** -/
theorem Reads.respelled {s : Bool} {k : Nonterminal} {ts rest : List Token} {es : List Expr}
    (h : Reads s k ts es rest) : ∀ {ts'}, Respelled ts ts' →
      ∃ rest', Reads s k ts' es rest' ∧ Respelled rest rest' := by
  -- every rule looks at kinds and values only; the rest is respelled along
  induction h with
  | expression _ _ ihl ihc =>
    intro ts' h
    obtain ⟨ts₁, hl, h₁⟩ := ihl h
    obtain ⟨rest', hc, h'⟩ := ihc h₁
    exact ⟨rest', .expression hl hc, h'⟩
  | chainEnd hs => exact fun h => ⟨_, .chainEnd (h.stops hs), h⟩
  | chainStep hop hle _ ho _ ihr ihc =>
    rintro _ (_ | ⟨ht, h⟩)
    obtain ⟨ts₁, hr, h₁⟩ := ihr h
    obtain ⟨rest', hc, h'⟩ := ihc h₁
    exact ⟨rest', .chainStep (by rw [← ht.kind, hop]) hle hr ho hc, h'⟩
  | plus hk _ ih =>
    rintro _ (_ | ⟨ht, h⟩)
    obtain ⟨rest', he, h'⟩ := ih h
    exact ⟨rest', .plus (ht.kind ▸ hk) he, h'⟩
  | minus hk _ ho ih =>
    rintro _ (_ | ⟨ht, h⟩)
    obtain ⟨rest', he, h'⟩ := ih h
    exact ⟨rest', .minus (ht.kind ▸ hk) he ho, h'⟩
  | not hk _ ho ih =>
    rintro _ (_ | ⟨ht, h⟩)
    obtain ⟨rest', he, h'⟩ := ih h
    exact ⟨rest', .not (ht.kind ▸ hk) he ho, h'⟩
  | unsigned hs _ ih =>
    intro ts' h
    obtain ⟨rest', he, h'⟩ := ih h
    exact ⟨rest', .unsigned (by rw [h.startsAny, hs]) he, h'⟩
  | postfixed _ _ ihp ihf =>
    intro ts' h
    obtain ⟨ts₁, hp, h₁⟩ := ihp h
    obtain ⟨rest', hf, h'⟩ := ihf h₁
    exact ⟨rest', .postfixed hp hf, h'⟩
  | factorialsEnd hs => exact fun h => ⟨_, .factorialsEnd (by rw [h.startsAny, hs]), h⟩
  | factorialsStep hk ho _ ih =>
    rintro _ (_ | ⟨ht, h⟩)
    obtain ⟨rest', he, h'⟩ := ih h
    exact ⟨rest', .factorialsStep (ht.kind ▸ hk) (ht.value ▸ ho) he, h'⟩
  | operand ho =>
    rintro _ (_ | ⟨ht, h⟩)
    exact ⟨_, .operand (by rw [operand?_of_saysSame ht, ho]), h⟩
  | paren hk _ hc ih =>
    rintro _ (_ | ⟨ht, h⟩)
    obtain ⟨_, he, _ | ⟨hu, h'⟩⟩ := ih h
    exact ⟨_, .paren (ht.kind ▸ hk) he (hu.kind ▸ hc), h'⟩
  | braces hk _ ih =>
    rintro _ (_ | ⟨ht, h⟩)
    obtain ⟨rest', he, h'⟩ := ih (.cons ht h)
    exact ⟨rest', .braces (ht.kind ▸ hk) he, h'⟩
  | function hk _ ih =>
    rintro _ (_ | ⟨ht, h⟩)
    obtain ⟨rest', he, h'⟩ := ih (.cons ht h)
    exact ⟨rest', .function (ht.kind ▸ hk) he, h'⟩
  | ifWord hk _ ih =>
    rintro _ (_ | ⟨ht, h⟩)
    obtain ⟨rest', he, h'⟩ := ih (.cons ht h)
    exact ⟨rest', .ifWord (ht.kind ▸ hk) he, h'⟩
  | application hk _ hc ho ih =>
    rintro _ (_ | ⟨ht, _ | ⟨hu, h⟩⟩)
    obtain ⟨_, he, _ | ⟨hv, h'⟩⟩ := ih h
    exact ⟨_, .application (hu.kind ▸ hk) he (hv.kind ▸ hc) (ht.value ▸ ho), h'⟩
  | noArguments hs => exact fun h => ⟨_, .noArguments (by rw [h.startsWith, hs]), h⟩
  | someArguments hs _ _ ihe ihes =>
    intro ts' h
    obtain ⟨ts₁, he, h₁⟩ := ihe h
    obtain ⟨rest', hes, h'⟩ := ihes h₁
    exact ⟨rest', .someArguments (by rw [h.startsWith, hs]) he hes, h'⟩
  | lastArgument hs => exact fun h => ⟨_, .lastArgument (by rw [h.startsWith, hs]), h⟩
  | nextArgument hk _ _ ihe ihes =>
    rintro _ (_ | ⟨ht, h⟩)
    obtain ⟨ts₁, he, h₁⟩ := ihe h
    obtain ⟨rest', hes, h'⟩ := ihes h₁
    exact ⟨rest', .nextArgument (ht.kind ▸ hk) he hes, h'⟩
  | block hb _ hts hc ih =>
    rintro _ (_ | ⟨ht, h⟩)
    obtain ⟨ts₁, he, h₁⟩ := ih (Respelled.afterTerminators h).afterReturn
    have h₂ := Respelled.afterTerminators h₁
    rw [hts] at h₂
    -- the rest behind the block starts with the closing brace in both lists
    generalize hu : Grammar.afterTerminators ts₁ = us at h₂
    obtain _ | ⟨hv, h'⟩ := h₂
    exact ⟨_, .block (ht.kind ▸ hb) he hu (hv.kind ▸ hc), h'⟩
  | listed hl _ ih =>
    rintro _ (_ | ⟨ht, h⟩)
    obtain ⟨rest', he, h'⟩ := ih h
    exact ⟨rest', .listed (by rw [Respelled.startsList h, hl]) he, h'⟩
  | conditioned hl _ _ ihc ihb =>
    rintro _ (_ | ⟨ht, h⟩)
    obtain ⟨ts₁, hc, h₁⟩ := ihc h
    obtain ⟨rest', hb, h'⟩ := ihb h₁
    exact ⟨rest', .conditioned (by rw [Respelled.startsList h, hl]) hc hb, h'⟩
  | words hk _ hw _ ihy ihn =>
    rintro _ (_ | ⟨ht, h⟩)
    obtain ⟨_, hy, _ | ⟨hu, h₁⟩⟩ := ihy h
    obtain ⟨rest', hn, h'⟩ := ihn h₁
    exact ⟨rest', .words (ht.kind ▸ hk) hy (hu.kind ▸ hw) hn, h'⟩
  | blockElseIf hk _ hw hi _ ihy ihn =>
    rintro _ (_ | ⟨ht, h⟩)
    obtain ⟨_, hy, _ | ⟨hu, h₁⟩⟩ := ihy (.cons ht h)
    obtain ⟨rest', hn, h'⟩ := ihn h₁
    exact ⟨rest', .blockElseIf (ht.kind ▸ hk) hy (hu.kind ▸ hw)
      (by rw [Respelled.startsWith h₁, hi]) hn, h'⟩
  | blocks hk _ hw hi _ ihy ihn =>
    rintro _ (_ | ⟨ht, h⟩)
    obtain ⟨_, hy, _ | ⟨hu, h₁⟩⟩ := ihy (.cons ht h)
    obtain ⟨rest', hn, h'⟩ := ihn h₁
    exact ⟨rest', .blocks (ht.kind ▸ hk) hy (hu.kind ▸ hw)
      (by rw [Respelled.startsWith h₁, hi]) hn, h'⟩
  | list hk _ h₁ _ h₂ _ h₃ ihc ihy ihn =>
    rintro _ (_ | ⟨ht, h⟩)
    obtain ⟨_, hc, _ | ⟨hu₁, h⟩⟩ := ihc h
    obtain ⟨_, hy, _ | ⟨hu₂, h⟩⟩ := ihy h
    obtain ⟨_, hn, _ | ⟨hu₃, h⟩⟩ := ihn h
    exact ⟨_, .list (ht.kind ▸ hk) hc (hu₁.kind ▸ h₁) hy (hu₂.kind ▸ h₂) hn (hu₃.kind ▸ h₃), h⟩

end Grammar

/-! ## Parses -/

namespace Respelled

variable {ts ts' : List Token}

/-- Blanks are dropped alike. -/
theorem dropBlanks (h : Respelled ts ts') :
    Respelled (Formula.dropBlanks ts) (Formula.dropBlanks ts') := by
  induction h with
  | nil => exact .nil
  | cons ht hts ih =>
    simp only [Formula.dropBlanks, List.filter_cons, ht.kind] at ih ⊢
    split
    · exact .cons ht ih
    · exact ih

/-- Implicit products are inserted alike. -/
theorem insertProductsAfter (h : Respelled ts ts') : ∀ {t t' : Token}, t.SaysSame t' →
    Respelled (Formula.insertProductsAfter t ts) (Formula.insertProductsAfter t' ts') := by
  induction h with
  | nil => exact fun _ => .nil
  | cons hu _ ih =>
    intro t t' ht
    rw [Formula.insertProductsAfter, Formula.insertProductsAfter, ht.kind, hu.kind]
    split
    · exact .cons ⟨rfl, rfl⟩ (.cons hu (ih hu))
    · exact .cons hu (ih hu)

/-- The tokens are prepared alike. -/
theorem prepare (h : Respelled ts ts') (o : Options) :
    Respelled (Parse.prepare o ts) (Parse.prepare o ts') := by
  have hd := h.dropBlanks
  rw [Parse.prepare, Parse.prepare]
  split
  · revert hd
    generalize Formula.dropBlanks ts = us
    generalize Formula.dropBlanks ts' = us'
    rintro (_ | ⟨ht, hts⟩)
    · exact .nil
    · exact .cons ht (insertProductsAfter hts ht)
  · exact hd

/-- The bracket check depends on kinds and values. -/
theorem closeBrackets (h : Respelled ts ts') :
    ∀ stack, Formula.closeBrackets stack ts' = Formula.closeBrackets stack ts := by
  induction h with
  | nil => exact fun _ => rfl
  | cons ht _ ih =>
    intro stack
    cases stack <;> simp only [Formula.closeBrackets, ht.kind, ht.value, ih]

/-- Whether all tokens are terminators depends on the kinds. -/
theorem all_terminator (h : Respelled ts ts') :
    ts'.all (·.kind == .terminator) = ts.all (·.kind == .terminator) := by
  induction h with
  | nil => rfl
  | cons ht _ ih => rw [List.all_cons, List.all_cons, ht.kind, ih]

end Respelled

/-- **Parses do not tell tokens apart that say the same.** -/
theorem parse_of_respelled {o : Options} {ts ts' : List Token} {e : Expr} (h : Respelled ts ts')
    (hp : parse o ts = .ok e) : parse o ts' = .ok e := by
  obtain ⟨hb, ha, rest, hr, ht⟩ := parse_eq_ok_iff.1 hp
  have hprep := h.prepare o
  obtain ⟨rest', hr', hrest⟩ := hr.respelled hprep
  refine parse_eq_ok_iff.2 ⟨?_, ?_, rest', hr', ?_⟩
  · rw [checkBrackets, h.dropBlanks.closeBrackets]
    exact hb
  · rw [hprep.all_terminator, ha]
  · have := hrest.afterTerminators
    rw [ht] at this
    exact List.forall₂_nil_left_iff.1 this

end Formula
