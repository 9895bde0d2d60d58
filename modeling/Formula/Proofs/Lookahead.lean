/-
# Matches and what follows them

A pattern looks no further than its match: **what it finds within a text does not depend on what
follows** (`length_of_le`). Patterns of whole words are the exception, since they look at one more
character. A match holds no space, so a space may be put behind it.
-/
import Formula.Proofs.MaximalMunch

namespace Formula

namespace Pattern

/-! ## Texts that go on behind a match -/

/-- A run either stops within a text, or counts all of it and goes on in what follows. -/
theorem run_append_cases (p : Char → Bool) (us cs : List Char) :
    (∃ c rest, us.drop (run p us) = c :: rest ∧ run p (us ++ cs) = run p us ∧
      (us ++ cs).drop (run p us) = c :: (rest ++ cs) ∧
      us.length = run p us + (rest.length + 1)) ∨
    (us.drop (run p us) = [] ∧ run p us = us.length ∧
      run p (us ++ cs) = us.length + run p cs) := by
  induction us with
  | nil => exact Or.inr ⟨rfl, rfl, (Nat.zero_add _).symm⟩
  | cons u us ih =>
    cases hu : p u with
    | false =>
      exact Or.inl ⟨u, us, by simp [run, hu], by simp [run, hu], by simp [run, hu],
        by simp [run, hu]⟩
    | true =>
      have hstep : ∀ ds, run p (u :: ds) = run p ds + 1 := by
        intro ds
        rw [run, List.takeWhile_cons_of_pos hu, List.length_cons, run]
      rw [List.cons_append, hstep, hstep, List.drop_succ_cons, List.drop_succ_cons,
        List.length_cons]
      rcases ih with ⟨c, rest, hus, hrun, hdrop, hlength⟩ | ⟨hus, hlength, hrun⟩
      · exact Or.inl ⟨c, rest, hus, by omega, hdrop, by omega⟩
      · exact Or.inr ⟨hus, by omega, by omega⟩

/-- A run that stops within a text does not depend on what follows. -/
theorem run_of_le {p : Char → Bool} {us cs : List Char} (h : run p (us ++ cs) ≤ us.length) :
    run p (us ++ cs) = run p us := by
  rcases run_append_cases p us cs with ⟨_, _, -, hrun, -⟩ | ⟨-, hlength, hrun⟩
  · exact hrun
  · omega

variable {us cs : List Char}

/-- The sign of an exponent is decided by the character behind its letter. -/
theorem exists_exponent_sign (a : Char) (us : List Char) : ∃ sign r, a :: us = sign ++ r ∧
    ∀ ds, exponentLength ('e' :: (a :: us ++ ds)) = if run isDecimalDigit (r ++ ds) = 0 then 0
      else 1 + sign.length + run isDecimalDigit (r ++ ds) := by
  by_cases hplus : a = '+'
  · subst hplus
    exact ⟨['+'], us, rfl, fun _ => rfl⟩
  · by_cases hminus : a = '-'
    · subst hminus
      exact ⟨['-'], us, rfl, fun _ => rfl⟩
    · exact ⟨[], a :: us, rfl, fun ds => by simp [exponentLength, hplus, hminus]⟩

/-- An exponent that stops within a text does not depend on what follows. -/
theorem exponentLength_of_le (h : exponentLength (us ++ cs) ≤ us.length) :
    exponentLength (us ++ cs) = exponentLength us := by
  cases us with
  | nil => exact Nat.le_zero.1 h
  | cons u us =>
    by_cases hu : u = 'e'
    · subst hu
      cases us with
      | nil =>
        -- a letter alone is no exponent, and with digits behind it the exponent is longer
        obtain ⟨sign, r, hr, -, hlength⟩ := exponentLength_cons cs
        rw [List.singleton_append, hlength] at h ⊢
        split
        · rfl
        · rename_i hrun
          rw [if_neg hrun] at h
          simp only [List.length_cons, List.length_nil] at h
          omega
      | cons a us =>
        obtain ⟨sign, r, hr, hlength⟩ := exists_exponent_sign a us
        have hcount : us.length + 1 = sign.length + r.length := by
          rw [← List.length_cons, hr, List.length_append]
        have hrun : run isDecimalDigit (r ++ cs) ≤ r.length := by
          rw [List.cons_append, hlength, List.length_cons, List.length_cons] at h
          split at h <;> omega
        have hnil := hlength []
        rw [List.append_nil, List.append_nil] at hnil
        rw [List.cons_append, hlength, hnil, run_of_le hrun]
    · have hnone : ∀ ds, exponentLength (u :: ds) = 0 := by
        intro ds
        unfold exponentLength
        split
        · rename_i heq
          exact absurd (List.cons.inj heq).1 hu
        · rfl
      rw [List.cons_append, hnone, hnone]

/-- A numeral with a point has its places and its exponent behind the first digits. -/
theorem realLength_eq {c : Char} {rest : List Char}
    (h : cs.drop (run isDecimalDigit cs) = c :: rest) :
    realLength cs =
      if run isDecimalDigit cs = 0 ∨ run isDecimalDigit rest = 0 ∨ !(c == '.' || c == ',') then 0
      else run isDecimalDigit cs + 1 + run isDecimalDigit rest
        + exponentLength (rest.drop (run isDecimalDigit rest)) := by
  rw [realLength, h]

/-- Places with an exponent that stop within a text do not depend on what follows. -/
theorem places_of_le
    (h : run isDecimalDigit (us ++ cs)
      + exponentLength ((us ++ cs).drop (run isDecimalDigit (us ++ cs))) ≤ us.length) :
    run isDecimalDigit (us ++ cs) = run isDecimalDigit us ∧
      exponentLength ((us ++ cs).drop (run isDecimalDigit (us ++ cs)))
        = exponentLength (us.drop (run isDecimalDigit us)) := by
  rcases run_append_cases isDecimalDigit us cs with
    ⟨c, rest, hus, hrun, hdrop, hlength⟩ | ⟨hus, hlength, hrun⟩
  · rw [hrun, hdrop] at h ⊢
    rw [hus]
    have hle : exponentLength (c :: rest ++ cs) ≤ (c :: rest).length := by
      rw [List.cons_append, List.length_cons]
      omega
    exact ⟨rfl, exponentLength_of_le hle⟩
  · have hzero : run isDecimalDigit cs = 0 := by omega
    rw [hrun, hzero, Nat.add_zero, List.drop_left] at h ⊢
    rw [hus]
    exact ⟨hlength.symm, Nat.le_zero.1 (by omega)⟩

/-- A numeral with a point that stops within a text does not depend on what follows. -/
theorem realLength_of_le (h : realLength (us ++ cs) ≤ us.length) :
    realLength (us ++ cs) = realLength us := by
  rcases run_append_cases isDecimalDigit us cs with
    ⟨c, rest, hus, hrun, hdrop, hlength⟩ | ⟨hus, hlength, hrun⟩
  · rw [← hrun] at hdrop
    rw [realLength_eq hdrop, hrun] at h ⊢
    rw [realLength_eq hus]
    split at h
    · -- without places in the longer text there are none in the shorter one
      rename_i hnone
      rw [if_pos hnone, if_pos]
      refine hnone.imp_right (Or.imp_left fun hplaces => ?_)
      have hrun : run isDecimalDigit (rest ++ cs) = run isDecimalDigit rest :=
        run_of_le (by omega)
      rw [← hrun, hplaces]
    · rename_i hsome
      have hle : run isDecimalDigit (rest ++ cs) + exponentLength ((rest ++ cs).drop
          (run isDecimalDigit (rest ++ cs))) ≤ rest.length := by omega
      obtain ⟨hplaces, hexponent⟩ := places_of_le hle
      rw [if_neg hsome, hplaces, ← hexponent, hplaces, if_neg (hplaces ▸ hsome)]
  · have hnone : realLength us = 0 := by rw [realLength, hus]
    rw [hnone]
    by_contra hne
    have := (run_add_two_le hne).2
    omega

/-- A decimal tail that stops within a text does not depend on what follows. -/
theorem tailLength_of_le (h : tailLength (us ++ cs) ≤ us.length) :
    tailLength (us ++ cs) = tailLength us := by
  -- a text that is too short for a decimal tail has none, nor has a longer one within bounds
  have hshort : us.length < run isDecimalDigit us + 3 →
      run isDecimalDigit us ≤ run isDecimalDigit (us ++ cs) →
      tailLength (us ++ cs) = tailLength us := by
    intro hlt hle
    have hall : tailLength (us ++ cs) = 0 := by
      rcases tailLength_eq (us ++ cs) with hzero | ⟨_, _, _, -, -, -, hsome⟩ <;> omega
    have hus : tailLength us = 0 := by
      have := tailLength_le us
      rcases tailLength_eq us with hzero | ⟨_, _, _, -, -, -, hsome⟩ <;> omega
    rw [hall, hus]
  rcases run_append_cases isDecimalDigit us cs with
    ⟨c, rest, hus, hrun, hdrop, hlength⟩ | ⟨hus, hlength, hrun⟩
  · cases rest with
    | nil => exact hshort (by simp only [List.length_nil] at hlength; omega) (by omega)
    | cons a rest =>
      cases rest with
      | nil =>
        exact hshort (by simp only [List.length_cons, List.length_nil] at hlength; omega) (by omega)
      | cons b rest =>
        rw [tailLength, hrun, hdrop, tailLength, hus]
        by_cases hc : c = '.'
        · subst hc
          rfl
        · simp [hc]
  · exact hshort (by omega) (by omega)

/-- A word that is found within a text does not depend on what follows. -/
theorem wordLength_of_le {w : String} (h : wordLength w (us ++ cs) ≤ us.length) :
    wordLength w (us ++ cs) = wordLength w us := by
  have hprefix : w.toList <+: us ++ cs ↔ w.toList <+: us := by
    constructor
    · intro hw
      have hfound : wordLength w (us ++ cs) = w.toList.length := by
        rw [wordLength, if_pos (List.isPrefixOf_iff_prefix.2 hw), String.length_toList]
      exact List.prefix_of_prefix_length_le hw (List.prefix_append us cs) (hfound ▸ h)
    · exact fun hw => hw.trans (List.prefix_append us cs)
  simp only [wordLength, List.isPrefixOf_iff_prefix, hprefix]

/-- The first length of a list of words within a bound depends only on the lengths within it. -/
theorem firstLength_of_le {f g : String → Nat} {n : Nat} {ws : List String}
    (hfg : ∀ w ∈ ws, f w ≤ n → f w = g w) (h : firstLength (ws.map f) ≤ n) :
    firstLength (ws.map f) = firstLength (ws.map g) := by
  induction ws with
  | nil => rfl
  | cons w ws ih =>
    have hcons : ∀ k : String → Nat, firstLength ((w :: ws).map k)
        = if k w = 0 then firstLength (ws.map k) else k w := by
      intro k
      by_cases hk : k w = 0
      · rw [if_pos hk, firstLength, List.map_cons, List.find?_cons_of_neg (by simp [hk])]
        rfl
      · rw [if_neg hk, firstLength, List.map_cons, List.find?_cons_of_pos (by simp [hk])]
        rfl
    rw [hcons] at h ⊢
    rw [hcons]
    have hw := hfg w List.mem_cons_self
    by_cases hzero : f w = 0
    · rw [if_pos hzero] at h ⊢
      rw [if_pos (by omega)]
      exact ih (fun v hv => hfg v (List.mem_cons_of_mem w hv)) h
    · rw [if_neg hzero] at h ⊢
      rw [← hw h, if_neg hzero]

/-- A name that ends within a text does not depend on what follows. -/
theorem nameLength_of_le (h : nameLength (us ++ cs) ≤ us.length) :
    nameLength (us ++ cs) = nameLength us := by
  cases us with
  | nil => exact Nat.le_zero.1 h
  | cons u us =>
    rw [List.cons_append, nameLength] at h ⊢
    rw [nameLength]
    by_cases hu : (isAsciiLetter u || u == '_') = true
    · rw [if_pos hu] at h ⊢
      rw [if_pos hu, run_of_le (by rw [List.length_cons] at h; omega)]
    · rw [if_neg hu, if_neg hu]

/-- Whether a pattern looks for whole words. -/
def isWhole : Pattern → Bool
  | wholeWord _ => true
  | _ => false

/-- **What a pattern finds within a text does not depend on what follows**, unless it looks for
whole words. -/
theorem length_of_le {p : Pattern} (hp : p.isWhole = false) (hus : us ≠ [])
    (h : p.length (us ++ cs) ≤ us.length) : p.length (us ++ cs) = p.length us := by
  cases p with
  | real => exact realLength_of_le h
  | natural => exact run_of_le h
  | decimalTail => exact tailLength_of_le h
  | spelling ws => exact firstLength_of_le (fun w _ hw => wordLength_of_le hw) h
  | wholeWord ws => cases hp
  | symbol text shown => exact wordLength_of_le h
  | blanks => exact run_of_le h
  | letter =>
    obtain ⟨u, us, rfl⟩ := List.exists_cons_of_ne_nil hus
    rfl
  | identifier =>
    obtain ⟨u, us, rfl⟩ := List.exists_cons_of_ne_nil hus
    by_cases hu : u = '$'
    · subst hu
      rw [List.cons_append, identifier_length_dollar, List.length_cons] at h
      have hname : nameLength (us ++ cs) ≤ us.length := by
        split at h <;> omega
      rw [List.cons_append, identifier_length_dollar, identifier_length_dollar,
        nameLength_of_le hname]
    · rw [List.cons_append, identifier_length_cons hu, ← List.cons_append] at h ⊢
      rw [identifier_length_cons hu]
      exact nameLength_of_le h

/-! ## Matches before a space -/

/-- Whether a pattern of fixed texts looks for none with a space. -/
def isSpaceless (p : Pattern) : Bool := (p.words?.getD []).all fun w => !w.toList.contains ' '

/-- No run of characters that are no space has one. -/
theorem space_not_mem_takeWhile {q : Char → Bool} (hq : q ' ' = false) (ds : List Char) :
    ' ' ∉ ds.takeWhile q := by
  intro hmem
  rw [List.all_eq_true.1 List.all_takeWhile _ hmem] at hq
  cases hq

/-- No numeral with a point has a space. -/
theorem space_not_mem_real (ds : List Char) : ' ' ∉ ds.take (realLength ds) := by
  by_cases hzero : realLength ds = 0
  · rw [hzero]
    exact List.not_mem_nil
  · obtain ⟨ws, d, ps, es, htake, -, hws, hd, -, hps, hes⟩ := exists_of_realLength hzero
    have hdigit : isDecimalDigit ' ' = false := by decide
    have hexponent : ' ' ∉ es := by
      intro hmem
      have hspace : ' ' ∈ es.map asciiDigit := List.mem_map.2 ⟨' ', hmem, by decide⟩
      exact absurd (hes.isNumeralChar _ hspace).plain.2.2.2 (by decide)
    rw [htake, List.mem_append, List.mem_cons, List.mem_append]
    rintro (hmem | rfl | hmem | hmem)
    · exact Bool.false_ne_true (hdigit.symm.trans (hws _ hmem))
    · rcases hd with h | h <;> cases h
    · exact Bool.false_ne_true (hdigit.symm.trans (hps _ hmem))
    · exact hexponent hmem

/-- No decimal tail has a space. -/
theorem space_not_mem_tail (ds : List Char) : ' ' ∉ ds.take (tailLength ds) := by
  have hdigit : isDecimalDigit ' ' = false := by decide
  rcases tailLength_eq ds with hzero | ⟨a, b, rest, hdrop, ha, hb, hsome⟩
  · rw [hzero]
    exact List.not_mem_nil
  · rw [hsome, take_add_run, hdrop, List.mem_append]
    rintro (hmem | hmem)
    · exact space_not_mem_takeWhile hdigit ds hmem
    · simp only [List.take_succ_cons, List.take_zero, List.mem_cons, List.not_mem_nil,
        or_false] at hmem
      rcases hmem with h | rfl | rfl
      · cases h
      · exact Bool.false_ne_true (hdigit.symm.trans ha)
      · exact Bool.false_ne_true (hdigit.symm.trans hb)

/-- No name has a space. -/
theorem space_not_mem_identifier (ds : List Char) : ' ' ∉ ds.take (identifier.length ds) := by
  by_cases hzero : identifier.length ds = 0
  · rw [hzero]
    exact List.not_mem_nil
  · obtain ⟨⟨c, us, htake, hc, hus⟩, -⟩ := Lexicon.isWord_of_identifier hzero
    rw [htake, List.mem_cons]
    rintro (rfl | hmem)
    · exact absurd hc (by decide)
    · exact absurd (List.all_eq_true.1 hus _ hmem) (by decide)

/-- **What a pattern finds holds no space** where no blank stands. -/
theorem space_not_mem {p : Pattern} {c : Char} (hp : p.isSpaceless = true)
    (hc : isBlank c = false) : ' ' ∉ (c :: cs).take (p.length (c :: cs)) := by
  have hfixed : ∀ {ws}, p.words? = some ws → ' ' ∉ (c :: cs).take (p.length (c :: cs)) := by
    intro ws hws hmem
    by_cases hzero : p.length (c :: cs) = 0
    · rw [hzero] at hmem
      cases hmem
    · obtain ⟨w, hw, hprefix, hlength⟩ := exists_word_of_length hws hzero
      rw [hlength, ← List.prefix_iff_eq_take.1 hprefix] at hmem
      rw [isSpaceless, hws, Option.getD_some] at hp
      have hword := List.all_eq_true.1 hp w hw
      simp [hmem] at hword
  cases p with
  | real => exact space_not_mem_real _
  | natural =>
    have hdigits : (c :: cs).take (natural.length (c :: cs)) = _ :=
      take_run isDecimalDigit (c :: cs)
    rw [hdigits]
    exact space_not_mem_takeWhile (by decide) _
  | decimalTail => exact space_not_mem_tail _
  | spelling ws => exact hfixed rfl
  | wholeWord ws => exact hfixed rfl
  | symbol text shown => exact hfixed rfl
  | blanks => simp [length, run, hc]
  | letter =>
    by_cases hletter : isAsciiLetter c = true
    · simp only [length, hletter, if_true, List.take_succ_cons, List.take_zero, List.mem_singleton]
      rintro rfl
      exact absurd hletter (by decide)
    · simp [length, hletter]
  | identifier => exact space_not_mem_identifier _

/-- What holds no space of a text ends before its first one. -/
theorem le_of_space_not_mem {n : Nat} (hn : n ≤ (us ++ ' ' :: cs).length)
    (h : ' ' ∉ (us ++ ' ' :: cs).take n) : n ≤ us.length := by
  by_contra hlt
  obtain ⟨k, rfl⟩ : ∃ k, n = us.length + (k + 1) := ⟨n - us.length - 1, by omega⟩
  rw [List.take_length_add_append, List.take_succ_cons] at h
  exact h (List.mem_append_right us List.mem_cons_self)

/-- **A space behind a match changes nothing**, unless the pattern looks for whole words. -/
theorem length_insert_space {p : Pattern} {c : Char} (hp : p.isWhole = false)
    (hs : p.isSpaceless = true) (hc : isBlank c = false)
    (h : p.length (c :: us ++ cs) ≤ (c :: us).length) :
    p.length (c :: us ++ ' ' :: cs) = p.length (c :: us ++ cs) := by
  have hbefore : p.length (c :: us ++ ' ' :: cs) ≤ (c :: us).length :=
    le_of_space_not_mem (length_le p _) (space_not_mem hs hc)
  rw [length_of_le hp (List.cons_ne_nil c us) hbefore, length_of_le hp (List.cons_ne_nil c us) h]

end Pattern

end Formula
