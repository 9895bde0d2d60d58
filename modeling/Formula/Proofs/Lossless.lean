/-
# Tokens cover their source

A scan cuts a source into lexemes one behind the other, and stops at the first character where no
definition of its lexicon finds anything. `Cuts` says what the tokens of a beginning of a source
are, with no word about how they are found: each has some characters, together they are that
beginning, each stands behind those before it, and each is what the first definition that finds
anything at its place finds there. **Tokenizing answers with the tokens that cut the whole source,
or else with the first place where the cutting gets stuck** (`tokenize_lossless`). This holds of
every list of definitions.
-/
import Formula.Proofs.Spacing
import Mathlib.Data.List.Induction

namespace Formula

open Grammar

namespace Lexicon

variable {l : Lexicon} {source : String} {ts us : List Token} {t : Token} {n : Nat}

/-! ## Cutting a source -/

/-- Whether a token is found at its place by the first definition that finds anything there. -/
def FindsFirst (l : Lexicon) (source : String) (t : Token) : Prop :=
  ∃ before d behind, l = before ++ d :: behind ∧ d.tokenAt? source t.position = some t ∧
    ∀ u ∈ before, u.tokenAt? source t.position = none

/-- **Whether tokens cut the first `n` characters of a source.** -/
structure Cuts (l : Lexicon) (source : String) (ts : List Token) (n : Nat) : Prop where
  /-- The source has so many characters. -/
  le_length : n ≤ source.toList.length
  /-- Every token has some characters. -/
  lexeme_ne : ∀ t ∈ ts, t.lexeme ≠ ""
  /-- The characters of the tokens are those of the source. -/
  textOf_eq : textOf ts = source.toList.take n
  /-- Every token stands behind the characters of those before it. -/
  position_eq : ∀ us t vs, ts = us ++ t :: vs → t.position = (textOf us).length
  /-- Every token is the first one found at its place. -/
  first : ∀ t ∈ ts, l.FindsFirst source t

/-- Whether no definition finds anything at a place, where a character stands. -/
def Stuck (l : Lexicon) (source : String) (n : Nat) (c : Char) : Prop :=
  source.toList[n]? = some c ∧ ∀ d ∈ l, d.tokenAt? source n = none

/-- The token that is found first is the one that the scan takes. -/
theorem findsFirst_iff :
    l.FindsFirst source t ↔ l.first? t.position (source.toList.drop t.position) = some t :=
  List.findSome?_eq_some_iff.symm

/-- A scan that is stuck takes no token. -/
theorem Stuck.first? {c : Char} (h : l.Stuck source n c) :
    l.first? n (source.toList.drop n) = none :=
  List.findSome?_eq_none_iff.2 h.2

/-- A scan that takes a token takes characters of the source. -/
theorem length_of_first? (h : l.first? n (source.toList.drop n) = some t) :
    t.position = n ∧ 0 < t.lexeme.length ∧
      t.lexeme.toList = (source.toList.drop n).take t.lexeme.length := by
  obtain ⟨d, -, hd⟩ := List.exists_of_findSome?_eq_some h
  obtain ⟨hne, hlexeme⟩ := Definition.lexeme_of_token? hd
  have hlength := Definition.length_lexeme hd
  refine ⟨Definition.position_of_token? hd, by omega, ?_⟩
  rw [hlength, hlexeme]

/-! ## One more token -/

/-- Where nothing is cut yet there are no tokens. -/
theorem Cuts.nil : l.Cuts source [] 0 where
  le_length := Nat.zero_le _
  lexeme_ne := nofun
  textOf_eq := rfl
  position_eq := by
    intro us t vs h
    cases us <;> cases h
  first := nofun

/-- The tokens that cut a text are as long as it. -/
theorem Cuts.length_textOf (h : l.Cuts source ts n) : (textOf ts).length = n := by
  rw [h.textOf_eq, List.length_take]
  exact Nat.min_eq_left h.le_length

/-- **The token that is found behind a cut text extends the cut.** -/
theorem Cuts.snoc (h : l.Cuts source ts n)
    (ht : l.first? n (source.toList.drop n) = some t) :
    l.Cuts source (ts ++ [t]) (n + t.lexeme.length) := by
  obtain ⟨hposition, hpos, hlexeme⟩ := length_of_first? ht
  have hbound : t.lexeme.length ≤ source.toList.length - n := by
    have hlength := congrArg List.length hlexeme
    rw [String.length_toList, List.length_take, List.length_drop] at hlength
    omega
  have hne : t.lexeme ≠ "" := by
    intro hempty
    rw [hempty] at hpos
    exact absurd hpos (by decide)
  have hle := h.le_length
  refine ⟨by omega, ?_, ?_, ?_, ?_⟩
  · simpa [or_imp, forall_and] using ⟨h.lexeme_ne, hne⟩
  · have hrest : textOf [t] = (source.toList.drop n).take t.lexeme.length := by
      rw [textOf_cons, textOf_nil, List.append_nil, hlexeme]
    rw [textOf_append, h.textOf_eq, hrest, List.take_add]
  · intro us u vs hsplit
    rcases List.eq_nil_or_concat vs with rfl | ⟨ws, w, rfl⟩
    · obtain ⟨rfl, hu⟩ := List.append_inj' hsplit rfl
      cases hu
      rw [hposition, h.length_textOf]
    · rw [List.concat_eq_append, ← List.cons_append, ← List.append_assoc] at hsplit
      exact h.position_eq us u ws (List.append_inj' hsplit rfl).1
  · have hfirst : l.FindsFirst source t := findsFirst_iff.2 (hposition ▸ ht)
    simpa [or_imp, forall_and] using ⟨h.first, hfirst⟩

/-- The tokens before the last one cut the text before it, and the last one is found there. -/
theorem Cuts.init (h : l.Cuts source (ts ++ [t]) n) :
    l.Cuts source ts t.position ∧ n = t.position + t.lexeme.length ∧
      l.first? t.position (source.toList.drop t.position) = some t := by
  have hposition : t.position = (textOf ts).length := h.position_eq ts t [] rfl
  have hlength := h.length_textOf
  rw [textOf_append, List.length_append, textOf_cons, textOf_nil, List.append_nil,
    String.length_toList, ← hposition] at hlength
  have hle := h.le_length
  have htext : textOf ts = source.toList.take t.position := by
    have hcut := congrArg (List.take t.position) h.textOf_eq
    rw [textOf_append, hposition, List.take_left, List.take_take] at hcut
    rw [hcut, hposition]
    congr 1
    omega
  refine ⟨⟨by omega, ?_, htext, ?_, ?_⟩, hlength.symm, ?_⟩
  · exact fun u hu => h.lexeme_ne u (List.mem_append_left _ hu)
  · intro us u vs hsplit
    exact h.position_eq us u (vs ++ [t]) (by rw [hsplit, List.append_assoc, List.cons_append])
  · exact fun u hu => h.first u (List.mem_append_left _ hu)
  · exact findsFirst_iff.1 (h.first t (List.mem_append_right _ List.mem_cons_self))

/-! ## Cutting and scanning -/

/-- **Behind tokens that cut a text the scan goes on where they end**: this is the invariant of the
scan. -/
theorem tokenize_of_cuts (h : l.Cuts source ts n) :
    l.tokenize source = (l.scan n (source.toList.drop n)).map (ts ++ ·) := by
  induction ts using List.reverseRecOn generalizing n with
  | nil =>
    have hzero : n = 0 := h.length_textOf.symm
    rw [hzero, tokenize, List.drop_zero]
    cases scan l 0 source.toList <;> rfl
  | append_singleton ts t ih =>
    obtain ⟨hinit, hend, ht⟩ := h.init
    have hlexeme := (length_of_first? ht).2.2
    have hrest : source.toList.drop t.position = t.lexeme.toList ++ source.toList.drop n := by
      rw [hlexeme, hend, ← List.drop_drop, List.take_append_drop]
    have hne : t.lexeme ≠ "" := h.lexeme_ne t (List.mem_append_right _ List.mem_cons_self)
    rw [ih hinit, hrest, scan_of_first? hne (hrest ▸ ht), ← hend]
    cases scan l n (source.toList.drop n) with
    | error x => rfl
    | ok us => simp [Except.map]

/-- Tokens that cut the whole source are its tokens. -/
theorem tokenize_of_cuts_length (h : l.Cuts source ts source.toList.length) :
    l.tokenize source = .ok ts := by
  rw [tokenize_of_cuts h, List.drop_length, scan]
  exact congrArg Except.ok (List.append_nil ts)

/-- Where the cutting gets stuck, the scan fails. -/
theorem tokenize_of_stuck {c : Char} (h : l.Cuts source ts n) (hstuck : l.Stuck source n c) :
    l.tokenize source = .error (.unknownToken c n) := by
  obtain ⟨hlt, hget⟩ := List.getElem?_eq_some_iff.1 hstuck.1
  have hnone := hstuck.first?
  rw [tokenize_of_cuts h, List.drop_eq_getElem_cons hlt, hget]
  rw [List.drop_eq_getElem_cons hlt, hget] at hnone
  rw [scan]
  split
  · rfl
  · rename_i u hu
    rw [hnone] at hu
    cases hu

/-- **Every source is cut to its end or to a place where the cutting gets stuck.** -/
theorem exists_cuts (h : l.Cuts source ts n) :
    (∃ us, l.Cuts source us source.toList.length) ∨
      ∃ us p c, l.Cuts source us p ∧ l.Stuck source p c := by
  -- every token takes characters, so the rest of the source gets shorter
  induction hrest : source.toList.length - n using Nat.strongRecOn generalizing ts n with
  | ind k ih =>
    have hle := h.le_length
    by_cases hend : n = source.toList.length
    · exact Or.inl ⟨ts, hend ▸ h⟩
    · have hlt : n < source.toList.length := by omega
      cases ht : l.first? n (source.toList.drop n) with
      | none =>
        exact Or.inr ⟨ts, n, source.toList[n], h, List.getElem?_eq_getElem hlt,
          List.findSome?_eq_none_iff.1 ht⟩
      | some t =>
        have hpos := (length_of_first? ht).2.1
        exact ih (source.toList.length - (n + t.lexeme.length)) (by omega) (h.snoc ht) rfl

/-- **Tokenizing loses nothing and reports the first bad spot**: the answer is the tokens that cut
the whole source, or else an unknown token with the character and the place where tokens that cut
the text before it get stuck, and it is always exactly one of the two. -/
theorem tokenize_lossless (l : Lexicon) (source : String) :
    (∀ ts, l.tokenize source = .ok ts ↔ l.Cuts source ts source.toList.length) ∧
    (∀ x, l.tokenize source = .error x ↔
      ∃ ts p c, x = .unknownToken c p ∧ l.Cuts source ts p ∧ l.Stuck source p c) ∧
    Xor (∃ ts, l.Cuts source ts source.toList.length)
      (∃ ts p c, l.Cuts source ts p ∧ l.Stuck source p c) := by
  have hsome : (∃ ts, l.Cuts source ts source.toList.length) ∨
      ∃ ts p c, l.Cuts source ts p ∧ l.Stuck source p c := exists_cuts Cuts.nil
  refine ⟨fun ts => ⟨fun h => ?_, tokenize_of_cuts_length⟩, fun x => ⟨fun h => ?_, ?_⟩, ?_⟩
  · rcases hsome with ⟨us, hus⟩ | ⟨us, p, c, hus, hstuck⟩
    · rw [tokenize_of_cuts_length hus] at h
      cases h
      exact hus
    · rw [tokenize_of_stuck hus hstuck] at h
      cases h
  · rcases hsome with ⟨us, hus⟩ | ⟨us, p, c, hus, hstuck⟩
    · rw [tokenize_of_cuts_length hus] at h
      cases h
    · rw [tokenize_of_stuck hus hstuck] at h
      cases h
      exact ⟨us, p, c, rfl, hus, hstuck⟩
  · rintro ⟨ts, p, c, rfl, hts, hstuck⟩
    exact tokenize_of_stuck hts hstuck
  · have hnot : ¬ ((∃ ts, l.Cuts source ts source.toList.length) ∧
        ∃ ts p c, l.Cuts source ts p ∧ l.Stuck source p c) := by
      rintro ⟨⟨ts, hts⟩, us, p, c, hus, hstuck⟩
      have hok := tokenize_of_cuts_length hts
      rw [tokenize_of_stuck hus hstuck] at hok
      cases hok
    exact (xor_iff_or_and_not_and _ _).2 ⟨hsome, hnot⟩

/-- With the letters first, the standard lexicon reads no constant, and still no question mark. -/
example :
    tokenize standard.reverse "pi" = .ok [⟨.identifier, "p", "p", 0⟩, ⟨.identifier, "i", "i", 1⟩] ∧
    tokenize standard.reverse "pi?" = .error (.unknownToken '?' 2) := by
  decide +kernel

end Lexicon

end Formula
