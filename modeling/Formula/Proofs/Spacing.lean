/-
# Spaces between tokens

A space between two tokens changes nothing but blanks in the built-in lexicons, **with one
exception: it swallows the newlines behind it** (`tokenize_insert_space`). A newline alone is a
terminator, but blanks are read as one run, in which a newline is a blank like any other.
-/
import Formula.Proofs.Lookahead
import Formula.Proofs.Trimming

namespace Formula

open Grammar

/-! ## The tokens that count -/

namespace Grammar

/-- **The tokens that count**: all but blanks, by kind and value. -/
def significant (ts : List Token) : List (Kind × String) :=
  (ts.filter (·.kind != .blank)).map fun t => (t.kind, t.value)

/-- Tokens that say the same count the same. -/
theorem significant_of_respelled {ts us : List Token} (h : Respelled ts us) :
    significant ts = significant us := by
  induction h with
  | nil => rfl
  | @cons t u ts us htu _ ih =>
    simp only [significant, List.filter_cons, htu.kind] at ih ⊢
    split
    · rw [List.map_cons, List.map_cons, ih, htu.kind, htu.value]
    · exact ih

/-- A blank does not count. -/
theorem significant_cons_blank {t : Token} (h : t.kind = .blank) (ts : List Token) :
    significant (t :: ts) = significant ts := by
  simp [significant, h]

/-- A token counts by its kind and value. -/
theorem significant_cons_congr {t u : Token} (h : t.SaysSame u) {ts us : List Token}
    (hrest : significant ts = significant us) : significant (t :: ts) = significant (u :: us) := by
  simp only [significant, List.filter_cons, h.kind] at hrest ⊢
  split
  · rw [List.map_cons, List.map_cons, hrest, h.kind, h.value]
  · exact hrest

end Grammar

/-! ## Blanks -/

/-- Whether a token consists of blanks. -/
def Token.isWhite (t : Token) : Bool := t.lexeme.toList.all isBlank

/-- Whether a pattern finds blanks. -/
def Pattern.findsBlanks (p : Pattern) : Bool := p == .blanks || p == .symbol "\n" "\\n"

/-- Whether a pattern finds no text that starts with a blank. -/
def Pattern.leavesBlanks : Pattern → Bool
  | blanks => false
  | real | natural | decimalTail | letter | identifier => true
  | q => q.avoids isBlank

/-- No blank starts a numeral or a name. -/
theorem plain_of_isBlank {c : Char} (h : isBlank c = true) :
    isDecimalDigit c = false ∧ c ≠ '.' ∧ startsName c = false := by
  refine ⟨isDecimalDigit_of_isBlank h, ?_, ?_⟩
  · rintro rfl
    exact absurd h (by decide)
  · rw [Bool.eq_false_iff]
    intro hname
    rw [(plain_of_startsName hname).2.1] at h
    cases h

/-- A pattern that leaves blanks finds nothing where one stands. -/
theorem Pattern.length_of_leavesBlanks {q : Pattern} {c : Char} {cs : List Char}
    (hq : q.leavesBlanks = true) (hc : isBlank c = true) : q.length (c :: cs) = 0 := by
  obtain ⟨hdigit, hpoint, hname⟩ := plain_of_isBlank hc
  obtain ⟨hreal, hnatural, htail⟩ := Lexicon.numeralLength_of_not_digit hdigit hpoint cs
  cases q with
  | real => exact hreal
  | natural => exact hnatural
  | decimalTail => exact htail
  | blanks => cases hq
  | letter =>
    have hletter : isAsciiLetter c = false := by
      simp only [startsName, Bool.or_eq_false_iff] at hname
      exact hname.1.1
    simp [length, hletter]
  | identifier => exact identifier_length_eq_zero hname cs
  | _ => exact length_of_avoids hq hc

namespace Lexicon

variable {l : Lexicon} {position : Nat} {t : Token} {c : Char} {cs : List Char} {ts : List Token}

/-! ## The token before a space -/

section BeforeSpace

variable {us vs : List Char}

set_option maxRecDepth 10000 in
/-- No fixed text of a built-in lexicon has a space, and only the lexicons of whole words look for
whole words. -/
theorem spaceless_of_builtin : ∀ l ∈ builtin, (∀ d ∈ l, d.pattern.isSpaceless = true) ∧
    (l ∈ ofWords ∨ ∀ d ∈ l, d.pattern.isWhole = false) := by
  simp only [builtin, List.forall_mem_cons, List.not_mem_nil, false_implies, implies_true, and_true]
  exact ⟨⟨by decide, Or.inr (by decide)⟩, ⟨by decide, Or.inr (by decide)⟩,
    ⟨by decide, Or.inl List.mem_cons_self⟩,
    ⟨by decide, Or.inl (List.mem_cons_of_mem _ List.mem_cons_self)⟩⟩

set_option maxRecDepth 10000 in
/-- Whole words start with a letter or an underscore. -/
theorem avoids_of_isWhole : ∀ l ∈ ofWords, ∀ d ∈ l, d.pattern.isWhole = true →
    d.pattern.avoids (fun c => !(isAsciiLetter c || c == '_')) = true := by
  decide

/-- Where words end, they end when a space is put behind. -/
theorem endsWord_insert_space (h : EndsWord (vs ++ cs)) : EndsWord (vs ++ ' ' :: cs) := by
  cases vs with
  | nil =>
    rintro a ⟨⟩
    rfl
  | cons v vs => exact h

/-- **A space behind the first token changes nothing for whole words.** -/
theorem whole_insert_space (hl : l ∈ ofWords)
    (ht : l.first? position (c :: us ++ (vs ++ cs)) = some t) (hlexeme : t.lexeme.toList = c :: us)
    {d : Definition} (hd : d ∈ l) (hwhole : d.pattern.isWhole = true) :
    d.pattern.length (c :: us ++ (vs ++ ' ' :: cs)) = d.pattern.length (c :: us ++ (vs ++ cs)) := by
  by_cases hc : isAsciiLetter c = true ∨ c = '_'
  · -- the first token is a whole run, so that words end behind it
    have hend : EndsWord (vs ++ cs) := by
      obtain ⟨u, hu, hrun⟩ := lexeme_of_name hl hc position (us ++ (vs ++ cs))
      rw [← List.cons_append, ht] at hu
      obtain rfl := Option.some.inj hu
      rw [hlexeme, ← List.cons_append] at hrun
      have hcut := List.takeWhile_append_dropWhile (p := isWordChar) (l := c :: us ++ (vs ++ cs))
      rw [← hrun, List.append_cancel_left_eq] at hcut
      intro a ha
      have hnot := List.head?_dropWhile_not isWordChar (c :: us ++ (vs ++ cs))
      rw [hcut, ha] at hnot
      exact hnot
    have hkeeps := List.all_eq_true.1 (of_mem_ofWords l hl).2.1 d hd
    cases hp : d.pattern with
    | wholeWord ws =>
      rw [hp] at hkeeps
      show Pattern.firstLength (ws.map _) = Pattern.firstLength (ws.map _)
      refine congrArg _ (List.map_congr_left fun w hw => ?_)
      have hword := List.all_eq_true.1 hkeeps w hw
      rw [Pattern.wholeWordLength_append hword hend,
        Pattern.wholeWordLength_append hword (endsWord_insert_space hend)]
    | _ =>
      rw [hp] at hwhole
      cases hwhole
  · have havoids := avoids_of_isWhole l hl d hd hwhole
    have hstart : (!(isAsciiLetter c || c == '_')) = true := by simpa using hc
    rw [List.cons_append, List.cons_append, Pattern.length_of_avoids havoids hstart,
      Pattern.length_of_avoids havoids hstart]

/-- **A space behind the first token, or further on, does not change it**, where no blank stands. -/
theorem first?_insert_space (hl : l ∈ builtin) (hc : isBlank c = false)
    (ht : l.first? position (c :: us ++ (vs ++ cs)) = some t)
    (hlexeme : t.lexeme.toList = c :: us) :
    l.first? position (c :: us ++ (vs ++ ' ' :: cs)) = some t := by
  obtain ⟨hspaceless, hwhole⟩ := spaceless_of_builtin l hl
  rw [← ht]
  refine first?_congr fun d hd => ?_
  have hle : d.pattern.length (c :: us ++ (vs ++ cs)) ≤ t.lexeme.length :=
    length_le_of_first? hl hc ht d hd
  rw [← String.length_toList, hlexeme] at hle
  have hlength : d.pattern.length (c :: us ++ (vs ++ ' ' :: cs))
      = d.pattern.length (c :: us ++ (vs ++ cs)) := by
    cases hp : d.pattern.isWhole with
    | true =>
      rcases hwhole with hwords | hnone
      · exact whole_insert_space hwords ht hlexeme hd hp
      · exact absurd hp (by simp [hnone d hd])
    | false =>
      have hbound : d.pattern.length (c :: (us ++ vs) ++ cs) ≤ (c :: (us ++ vs)).length := by
        rw [List.cons_append, List.append_assoc, List.length_cons, List.length_append]
        rw [List.cons_append, List.length_cons] at hle
        omega
      have hinsert := Pattern.length_insert_space hp (hspaceless d hd) hc hbound
      rwa [List.cons_append, List.append_assoc, List.cons_append, List.append_assoc] at hinsert
  rw [Definition.token?, Definition.token?, hlength, List.take_append_of_le_length hle,
    List.take_append_of_le_length hle]

end BeforeSpace

/-! ## The token at a blank -/

/-- The built-in lexicons have two definitions that find blanks: the newline, and then all. -/
theorem blanks_of_builtin : ∀ l ∈ builtin,
    l.filter (·.pattern.findsBlanks) = [mark "\n" "\\n" .terminator, ⟨.blanks, .blank, none⟩] ∧
      ∀ d ∈ l, d.pattern.findsBlanks = false → d.pattern.leavesBlanks = true := by
  decide

/-- Where a blank stands, only the newline and the blanks count. -/
theorem first?_of_isBlank (hl : l ∈ builtin) (hc : isBlank c = true) :
    l.first? position (c :: cs) = Lexicon.first?
      [mark "\n" "\\n" .terminator, ⟨.blanks, .blank, none⟩] position (c :: cs) := by
  obtain ⟨hfilter, hothers⟩ := blanks_of_builtin l hl
  rw [← hfilter, first?_filter]
  exact fun d hd hq => Pattern.length_of_leavesBlanks (hothers d hd hq) hc

/-- **A newline is a terminator.** -/
theorem first?_newline (hl : l ∈ builtin) :
    l.first? position ('\n' :: cs) = some ⟨.terminator, "\n", "\n", position⟩ := by
  rw [first?_of_isBlank hl (by decide)]
  rfl

/-- **Any other blank is read with all blanks behind it**, newlines among them. -/
theorem first?_blank (hl : l ∈ builtin) (hc : isBlank c = true) (hne : c ≠ '\n')
    (position : Nat) (cs : List Char) :
    ∃ t, l.first? position (c :: cs) = some t ∧ t.kind = .blank ∧
      t.lexeme.toList = (c :: cs).takeWhile isBlank := by
  have hnewline : (mark "\n" "\\n" .terminator).token? position (c :: cs) = none := by
    refine token?_eq_none (wordLength_of_avoids (p := (· != '\n')) (by decide) ?_)
    simpa using hne
  have hrun : Pattern.blanks.length (c :: cs) ≠ 0 := by
    rw [Pattern.length, Pattern.run, List.takeWhile_cons_of_pos hc]
    exact Nat.succ_ne_zero _
  obtain ⟨t, ht⟩ : ∃ t, (⟨.blanks, .blank, none⟩ : Definition).token? position (c :: cs) = some t :=
    Definition.exists_token? position hrun
  refine ⟨t, ?_, ?_, ?_⟩
  · rw [first?_of_isBlank hl hc, first?_cons_of_none hnewline, first?_cons_of_some ht]
  · rw [Definition.token?, if_neg hrun] at ht
    cases ht
    rfl
  · rw [(Definition.lexeme_of_token? ht).2]
    exact Formula.take_run isBlank (c :: cs)

/-! ## Scanning token by token -/

/-- **The first token of a text and what follows it.** -/
theorem exists_of_scan_cons (h : l.scan position cs = .ok (t :: ts)) :
    ∃ a us rest, t.lexeme.toList = a :: us ∧ cs = a :: us ++ rest ∧
      l.first? position (a :: us ++ rest) = some t ∧
      l.scan (position + t.lexeme.length) rest = .ok ts := by
  cases cs with
  | nil =>
    rw [scan] at h
    cases h
  | cons c cs =>
    rw [scan] at h
    split at h
    · cases h
    · rename_i u hu
      obtain ⟨d, -, hd⟩ := List.exists_of_findSome?_eq_some hu
      have hlexeme := (Definition.lexeme_of_token? hd).2
      have hlength := Definition.length_lexeme hd
      split at h
      · rename_i us hus
        cases h
        have hpos := length_lexeme_pos (List.cons_ne_nil c cs) hu
        obtain ⟨a, vs, hvs⟩ : ∃ a vs, t.lexeme.toList = a :: vs := by
          refine List.exists_cons_of_ne_nil fun hnil => ?_
          rw [← String.length_toList, hnil] at hpos
          exact absurd hpos (Nat.lt_irrefl 0)
        have hcut : c :: cs = a :: vs ++ (c :: cs).drop t.lexeme.length := by
          rw [← hvs, hlexeme, hlength, List.take_append_drop]
        exact ⟨a, vs, _, hvs, hcut, hcut ▸ hu, hus⟩
      · cases h

/-- The tokens of a text make up the text. -/
theorem textOf_of_scan (h : l.scan position cs = .ok ts) : textOf ts = cs := by
  induction ts generalizing position cs with
  | nil =>
    cases cs with
    | nil => rfl
    | cons c cs =>
      rw [scan] at h
      split at h
      · cases h
      · split at h <;> cases h
  | cons t ts ih =>
    obtain ⟨a, us, rest, hlexeme, rfl, -, hrest⟩ := exists_of_scan_cons h
    rw [textOf_cons, hlexeme, ih hrest]

/-- A token that is first in a text is scanned first. -/
theorem scan_cons_of_first? {a : Char} {us rest : List Char}
    (ht : l.first? position (a :: us ++ rest) = some t) (hlexeme : t.lexeme.toList = a :: us)
    (hrest : l.scan (position + t.lexeme.length) rest = .ok ts) :
    l.scan position (a :: us ++ rest) = .ok (t :: ts) := by
  have hne : t.lexeme ≠ "" := by
    intro hempty
    rw [hempty] at hlexeme
    cases hlexeme
  rw [← hlexeme] at ht ⊢
  rw [scan_of_first? hne ht, hrest]
  rfl

/-- The tokens behind some of a text. -/
theorem exists_scan_of_append {us vs : List Token} (h : l.scan position cs = .ok (us ++ vs)) :
    ∃ place, l.scan place (textOf vs) = .ok vs := by
  induction us generalizing position cs with
  | nil => exact ⟨position, textOf_of_scan h ▸ h⟩
  | cons t us ih =>
    obtain ⟨_, _, _, -, -, -, hrest⟩ := exists_of_scan_cons h
    exact ih hrest

/-- The place of a text does not change its tokens. -/
theorem exists_scan_at (h : l.scan position cs = .ok ts) (place : Nat) :
    ∃ us, l.scan place cs = .ok us ∧ Respelled ts us := by
  induction ts generalizing position place cs with
  | nil =>
    obtain rfl : [] = cs := textOf_of_scan h
    exact ⟨[], by rw [scan], .nil⟩
  | cons t ts ih =>
    obtain ⟨a, us, rest, hlexeme, rfl, hfirst, hrest⟩ := exists_of_scan_cons h
    obtain ⟨vs, hvs, hsame⟩ := ih hrest (place + t.lexeme.length)
    have hmoved : l.first? place (a :: us ++ rest) = some { t with position := place } := by
      rw [first?_position l place position, hfirst]
      rfl
    exact ⟨{ t with position := place } :: vs, scan_cons_of_first? hmoved hlexeme hvs,
      .cons ⟨rfl, rfl⟩ hsame⟩

/-! ## Leading blanks -/

/-- A token that starts with a blank consists of blanks. -/
theorem isWhite_of_first? (hl : l ∈ builtin) (hc : isBlank c = true)
    (h : l.first? position (c :: cs) = some t) : t.isWhite = true := by
  by_cases hne : c = '\n'
  · subst hne
    rw [first?_newline hl] at h
    cases h
    show "\n".toList.all isBlank = true
    decide
  · obtain ⟨u, hu, -, hlexeme⟩ := first?_blank hl hc hne position cs
    rw [h] at hu
    cases hu
    rw [Token.isWhite, hlexeme]
    exact List.all_takeWhile

/-- Where no blank stands, no leading token consists of blanks. -/
theorem dropWhile_isWhite (h : l.scan position cs = .ok ts)
    (hc : ∀ c ∈ cs.head?, isBlank c = false) : ts.dropWhile Token.isWhite = ts := by
  cases ts with
  | nil => rfl
  | cons t ts =>
    obtain ⟨a, us, rest, hlexeme, rfl, -, -⟩ := exists_of_scan_cons h
    have ha : isBlank a = false := hc a rfl
    refine List.dropWhile_cons_of_neg ?_
    simp [Token.isWhite, hlexeme, ha]

/-- **Without its leading blanks, a text has the tokens behind those of blanks.** -/
theorem scan_dropWhile (hl : l ∈ builtin) (h : l.scan position cs = .ok ts) (place : Nat) :
    ∃ us, l.scan place (cs.dropWhile isBlank) = .ok us ∧
      significant us = significant (ts.dropWhile Token.isWhite) := by
  induction ts generalizing position cs with
  | nil =>
    obtain rfl : [] = cs := textOf_of_scan h
    exact ⟨[], by rw [List.dropWhile_nil, scan], rfl⟩
  | cons t ts ih =>
    obtain ⟨a, us, rest, hlexeme, hcs, hfirst, hrest⟩ := exists_of_scan_cons h
    cases ha : isBlank a with
    | true =>
      have hwhite := isWhite_of_first? hl ha hfirst
      have hall : ∀ c ∈ a :: us, isBlank c = true := by
        rw [← hlexeme]
        exact List.all_eq_true.1 hwhite
      rw [hcs, List.dropWhile_append_of_pos hall, List.dropWhile_cons_of_pos hwhite]
      exact ih hrest
    | false =>
      have hhead : ∀ c ∈ cs.head?, isBlank c = false := by
        rw [hcs]
        rintro c ⟨⟩
        exact ha
      rw [dropWhile_isWhite h hhead, hcs, List.cons_append,
        List.dropWhile_cons_of_neg (by simp [ha]), ← List.cons_append, ← hcs]
      obtain ⟨us, hus, hsame⟩ := exists_scan_at h place
      exact ⟨us, hus, (significant_of_respelled hsame).symm⟩

/-- A blank that is no newline is read with all blanks behind it. -/
theorem scan_blank (hl : l ∈ builtin) (hc : isBlank c = true) (hne : c ≠ '\n')
    (h : ∀ place, ∃ us, l.scan place (cs.dropWhile isBlank) = .ok us ∧
      significant us = significant ts) :
    ∃ us, l.scan position (c :: cs) = .ok us ∧ significant us = significant ts := by
  obtain ⟨t, ht, hkind, hlexeme⟩ := first?_blank hl hc hne position cs
  obtain ⟨us, hus, hsame⟩ := h (position + t.lexeme.length)
  have hcut : c :: cs = (c :: cs).takeWhile isBlank ++ cs.dropWhile isBlank := by
    rw [List.takeWhile_cons_of_pos hc, List.cons_append, List.takeWhile_append_dropWhile]
  have hscan : l.scan position (c :: cs) = .ok (t :: us) := by
    rw [List.takeWhile_cons_of_pos hc] at hlexeme hcut
    rw [hcut] at ht ⊢
    exact scan_cons_of_first? ht hlexeme hus
  exact ⟨t :: us, hscan, by rw [significant_cons_blank hkind, hsame]⟩

/-- What a blank that is no newline is read with, and what comes behind. -/
theorem blanks_of_first? (hl : l ∈ builtin) (hc : isBlank c = true) (hne : c ≠ '\n')
    {us rest : List Char} (h : l.first? position (c :: us ++ rest) = some t)
    (hlexeme : t.lexeme.toList = c :: us) :
    t.kind = .blank ∧ (∀ a ∈ c :: us, isBlank a = true) ∧ ∀ a ∈ rest.head?, isBlank a = false := by
  obtain ⟨u, hu, hkind, hrun⟩ := first?_blank hl hc hne position (us ++ rest)
  rw [← List.cons_append, h] at hu
  obtain rfl := Option.some.inj hu
  rw [hlexeme, ← List.cons_append] at hrun
  have hcut := List.takeWhile_append_dropWhile (p := isBlank) (l := c :: us ++ rest)
  rw [← hrun, List.append_cancel_left_eq] at hcut
  refine ⟨hkind, fun a ha => ?_, fun a ha => ?_⟩
  · rw [hrun] at ha
    exact List.all_eq_true.1 List.all_takeWhile a ha
  · have hnot := List.head?_dropWhile_not isBlank (c :: us ++ rest)
    rw [hcut, ha] at hnot
    exact hnot

/-- **Without a newline in front, leading blanks do not count.** -/
theorem significant_dropWhile (hl : l ∈ builtin) (h : l.scan position cs = .ok ts)
    (hc : cs.head? ≠ some '\n') : significant (ts.dropWhile Token.isWhite) = significant ts := by
  cases ts with
  | nil => rfl
  | cons t ts =>
    obtain ⟨a, us, rest, hlexeme, rfl, hfirst, hrest⟩ := exists_of_scan_cons h
    have hne : a ≠ '\n' := fun ha => hc (by rw [ha]; rfl)
    cases ha : isBlank a with
    | true =>
      -- all blanks are read at once, so the text behind them starts with none
      obtain ⟨hkind, -, hhead⟩ := blanks_of_first? hl ha hne hfirst hlexeme
      rw [List.dropWhile_cons_of_pos (isWhite_of_first? hl ha hfirst),
        dropWhile_isWhite hrest hhead, significant_cons_blank hkind]
    | false =>
      rw [dropWhile_isWhite h]
      rintro c ⟨⟩
      exact ha

/-! ## Inserting a space -/

/-- A token that is no run of blanks stays the first one when a space is put behind it. -/
theorem first?_before_space (hl : l ∈ builtin) (hc : isBlank c = false ∨ c = '\n')
    {us vs : List Char} (ht : l.first? position (c :: us ++ (vs ++ cs)) = some t)
    (hlexeme : t.lexeme.toList = c :: us) :
    l.first? position (c :: us ++ (vs ++ ' ' :: cs)) = some t := by
  rcases hc with hc | rfl
  · exact first?_insert_space hl hc ht hlexeme
  · rw [List.cons_append, first?_newline hl] at ht ⊢
    exact ht

/-- **A space between tokens leaves the tokens before it, and swallows the blanks behind it.** -/
theorem scan_insert_space (hl : l ∈ builtin) {us vs : List Token}
    (h : l.scan position (textOf us ++ textOf vs) = .ok (us ++ vs)) (place : Nat) :
    ∃ ts, l.scan place (textOf us ++ ' ' :: textOf vs) = .ok ts ∧
      significant ts = significant (us ++ vs.dropWhile Token.isWhite) := by
  induction us generalizing position place with
  | nil => exact scan_blank hl (by decide) (by decide) fun place => scan_dropWhile hl h place
  | cons t us ih =>
    obtain ⟨a, ws, rest, hlexeme, hcs, hfirst, hrest⟩ := exists_of_scan_cons h
    rw [textOf_cons, List.append_assoc, hlexeme, List.append_cancel_left_eq] at hcs
    subst hcs
    rw [textOf_cons, List.append_assoc, hlexeme]
    by_cases ha : isBlank a = false ∨ a = '\n'
    · have hmoved : l.first? place (a :: ws ++ (textOf us ++ ' ' :: textOf vs))
          = some { t with position := place } := by
        rw [first?_position l place position, first?_before_space hl ha hfirst hlexeme]
        rfl
      obtain ⟨ts, hts, hsame⟩ := ih hrest (place + t.lexeme.length)
      have hcount : significant ({ t with position := place } :: ts)
          = significant (t :: (us ++ vs.dropWhile Token.isWhite)) :=
        significant_cons_congr (t := { t with position := place }) (u := t) ⟨rfl, rfl⟩ hsame
      exact ⟨_, scan_cons_of_first? hmoved hlexeme hts, hcount⟩
    · rw [not_or, Bool.not_eq_false] at ha
      obtain ⟨hblank, hne⟩ := ha
      obtain ⟨hkind, hall, hends⟩ := blanks_of_first? hl hblank hne hfirst hlexeme
      -- the blanks end before the text behind them, which so starts with no newline
      have hhead : (textOf us ++ ' ' :: textOf vs).head? ≠ some '\n' := by
        cases hus : textOf us with
        | nil =>
          rintro ⟨⟩
        | cons b bs =>
          rintro ⟨⟩
          exact absurd (hends '\n' (by rw [hus]; rfl)) (by decide)
      have hbehind : ∀ place, ∃ ts,
          l.scan place ((ws ++ (textOf us ++ ' ' :: textOf vs)).dropWhile isBlank) = .ok ts ∧
            significant ts = significant (us ++ vs.dropWhile Token.isWhite) := by
        intro place
        obtain ⟨ts, hts, hsame⟩ := ih hrest place
        obtain ⟨ts', hts', hsame'⟩ := scan_dropWhile hl hts place
        rw [List.dropWhile_append_of_pos fun c hc => hall c (List.mem_cons_of_mem a hc)]
        exact ⟨ts', hts', by rw [hsame', significant_dropWhile hl hts hhead, hsame]⟩
      rw [List.cons_append, List.cons_append, significant_cons_blank hkind]
      exact scan_blank hl hblank hne hbehind

/-- A text that starts with a newline has the newline as its first token. -/
theorem newline_of_head? (hl : l ∈ builtin) (h : l.scan position cs = .ok ts)
    (hc : cs.head? = some '\n') : ∃ t ∈ ts.head?, t.lexeme = "\n" := by
  cases ts with
  | nil =>
    obtain rfl : [] = cs := textOf_of_scan h
    cases hc
  | cons t ts =>
    obtain ⟨a, us, rest, -, rfl, hfirst, -⟩ := exists_of_scan_cons h
    obtain rfl := Option.some.inj hc
    rw [List.cons_append, first?_newline hl] at hfirst
    obtain rfl := Option.some.inj hfirst
    exact ⟨_, rfl, rfl⟩

/-- A newline behind a space is lost. -/
theorem significant_newline (hl : l ∈ builtin) (h : l.scan position cs = .ok (t :: ts))
    (ht : t.lexeme = "\n") :
    significant ((t :: ts).dropWhile Token.isWhite) ≠ significant (t :: ts) := by
  obtain ⟨a, us, rest, hlexeme, -, hfirst, -⟩ := exists_of_scan_cons h
  obtain ⟨rfl, rfl⟩ : '\n' = a ∧ [] = us := by
    rw [ht] at hlexeme
    exact List.cons.inj hlexeme
  rw [List.singleton_append, first?_newline hl] at hfirst
  obtain rfl := Option.some.inj hfirst
  have hle : (significant (ts.dropWhile Token.isWhite)).length ≤ (significant ts).length := by
    have hsublist := (List.dropWhile_sublist Token.isWhite (l := ts)).filter (·.kind != .blank)
    simpa [significant] using hsublist.length_le
  intro hsame
  have hlength := congrArg List.length hsame
  rw [List.dropWhile_cons_of_pos (by show "\n".toList.all isBlank = true; decide)] at hlength
  have hcount : (significant (⟨.terminator, "\n", "\n", position⟩ :: ts)).length
      = (significant ts).length + 1 := rfl
  omega

/-- **A space between two tokens leaves all tokens that count, unless a newline follows it.** The
source with a space at any boundary of its tokens has tokens again. They are the same, up to
blanks, but for the newlines directly behind the space, which are read as blanks with it. -/
theorem tokenize_insert_space (hl : l ∈ builtin) {source : String} {us vs : List Token}
    (h : l.tokenize source = .ok (us ++ vs)) :
    let boundary := (textOf us).length
    ∃ ts, l.tokenize (String.ofList
        (source.toList.take boundary ++ ' ' :: source.toList.drop boundary)) = .ok ts ∧
      significant ts = significant (us ++ vs.dropWhile Token.isWhite) ∧
      (significant ts = significant (us ++ vs) ↔ ∀ t ∈ vs.head?, t.lexeme ≠ "\n") := by
  have htext : source.toList = textOf us ++ textOf vs := by
    rw [← textOf_append]
    exact (textOf_of_scan h).symm
  rw [tokenize, htext] at h
  obtain ⟨place, hvs⟩ := exists_scan_of_append h
  obtain ⟨ts, hts, hsame⟩ := scan_insert_space hl h 0
  intro boundary
  refine ⟨ts, ?_, hsame, ?_⟩
  · rw [tokenize, String.toList_ofList, htext, List.take_left, List.drop_left, hts]
  · have hsplit : ∀ ws, significant (us ++ ws) = significant us ++ significant ws := by
      intro ws
      simp [significant]
    rw [hsame, hsplit, hsplit, List.append_cancel_left_eq]
    constructor
    · rintro hcount t ht hnewline
      obtain ⟨ws, rfl⟩ : ∃ ws, vs = t :: ws := by
        cases vs with
        | nil => cases ht
        | cons v ws =>
          cases ht
          exact ⟨ws, rfl⟩
      exact significant_newline hl hvs hnewline hcount
    · intro hnone
      refine significant_dropWhile hl hvs fun hc => ?_
      obtain ⟨t, ht, hnewline⟩ := newline_of_head? hl hvs hc
      exact hnone t ht hnewline

/-- A space in front of the keyword in `x<if(y` changes nothing that counts. -/
theorem tokenize_insert_space_word :
    ∃ ts, logic.tokenize "x< if(y" = .ok ts ∧
      significant ts = [(.identifier, "x"), (.operator .lt, "<"), (.ifWord, "if"),
        (.opening .paren, "("), (.identifier, "y")] := by
  let us : List Token := [⟨.identifier, "x", "x", 0⟩, ⟨.operator .lt, "<", "<", 1⟩]
  let vs : List Token := [⟨.ifWord, "if", "if", 2⟩, ⟨.opening .paren, "(", "(", 4⟩,
    ⟨.identifier, "y", "y", 5⟩]
  have h : logic.tokenize "x<if(y" = .ok (us ++ vs) := by decide +kernel
  obtain ⟨ts, hts, -, hsame⟩ := tokenize_insert_space (by decide) h
  have hsource : String.ofList ("x<if(y".toList.take (textOf us).length ++ ' ' ::
      "x<if(y".toList.drop (textOf us).length) = "x< if(y" := by decide +kernel
  rw [hsource] at hts
  exact ⟨ts, hts, (hsame.2 (by decide)).trans (by decide)⟩

/-- **A newline does not stay a terminator behind a space**: in every built-in lexicon `x` and `y`
are separated by a terminator on two lines, and no longer when a space ends the first line. -/
theorem newline_swallowed :
    builtin.map (fun l => (l.tokenize "x\ny").map significant)
        = List.replicate 4 (.ok [(.identifier, "x"), (.terminator, "\n"), (.identifier, "y")]) ∧
      builtin.map (fun l => (l.tokenize "x \ny").map significant)
        = List.replicate 4 (.ok [(.identifier, "x"), (.identifier, "y")]) := by
  decide +kernel

end Lexicon

end Formula
