/-
# Control words

LaTeX reads a backslash with all the letters behind it as one control word. Texts in a row have the
control words of each (`controlWords_append`), unless the second one goes on with a letter where the
first one ends within a control word. A separator between two texts prevents that, and **a letter
behind an open control word spoils it for good** (`not_intact_of_spoiled`).
-/
import Formula.Expr.Latex
import Formula.Text.Digit
import Mathlib.Tactic.ByContra

namespace Formula

/-! ## Control words of a text -/

/-- **The control words of a text**: all letters behind each backslash that has some. -/
def controlWords : List Char → List (List Char)
  | [] => []
  | c :: cs =>
    if c = '\\' ∧ cs.takeWhile isAsciiLetter ≠ [] then
      cs.takeWhile isAsciiLetter :: controlWords cs
    else controlWords cs

/-- The control words that are printed. -/
def knownWords : List String :=
  ["frac", "pi", "infty", "cdot", "mathrm", "neq", "geq", "leq", "land", "lor", "neg", "begin",
   "end", "text", "sqrt", "lvert", "rvert", "log", "operatorname"] ++ latexFunctions

/-- Whether all control words of a text are known. -/
def Intact (text : String) : Prop := ∀ w ∈ controlWords text.toList, String.ofList w ∈ knownWords

/-- Whether a text ends within a control word. -/
def Dangles (cs : List Char) : Prop :=
  ∃ us ws, cs = us ++ '\\' :: ws ∧ ∀ c ∈ ws, isAsciiLetter c = true

section ControlWords

variable {us vs : List Char} {c : Char}

/-- A text without backslash has no control words. -/
theorem controlWords_eq_nil (h : '\\' ∉ us) : controlWords us = [] := by
  induction us with
  | nil => rfl
  | cons c us ih =>
    rw [List.mem_cons, not_or] at h
    rw [controlWords, if_neg fun hc => h.1 hc.1.symm, ih h.2]

/-- A text that ends with another character does not dangle. -/
theorem not_dangles_of_getLast? (h : us.getLast? = some c) (hc : isAsciiLetter c = false)
    (hbackslash : c ≠ '\\') : ¬Dangles us := by
  rintro ⟨us', ws, rfl, hws⟩
  rw [List.getLast?_append, List.getLast?_cons] at h
  cases hlast : ws.getLast? with
  | none =>
    rw [hlast] at h
    exact hbackslash (Option.some.inj h).symm
  | some d =>
    rw [hlast] at h
    obtain rfl : d = c := Option.some.inj h
    rw [hws d (List.mem_of_getLast? hlast)] at hc
    cases hc

/-- A run of letters goes on with what follows only where it reaches the end of the text. -/
theorem takeWhile_append_of_stops {p : Char → Bool}
    (h : (∃ c ∈ us, p c = false) ∨ ∀ c ∈ vs.head?, p c = false) :
    (us ++ vs).takeWhile p = us.takeWhile p := by
  induction us with
  | nil =>
    rcases h with ⟨c, hc, -⟩ | h
    · cases hc
    · cases vs with
      | nil => rfl
      | cons v vs => simp [h v rfl]
  | cons u us ih =>
    cases hu : p u with
    | false => simp [hu]
    | true =>
      rw [List.cons_append, List.takeWhile_cons_of_pos hu, List.takeWhile_cons_of_pos hu, ih]
      rcases h with ⟨c, hc, hstop⟩ | h
      · rcases List.mem_cons.1 hc with rfl | hc
        · rw [hu] at hstop
          cases hstop
        · exact .inl ⟨c, hc, hstop⟩
      · exact .inr h

/-- **The control words of two texts in a row** are those of each, unless the second one goes on
with a letter where the first one ends within a control word. -/
theorem controlWords_append (h : ¬Dangles us ∨ ∀ c ∈ vs.head?, isAsciiLetter c = false) :
    controlWords (us ++ vs) = controlWords us ++ controlWords vs := by
  induction us with
  | nil => rfl
  | cons u us ih =>
    have hrest : ¬Dangles us ∨ ∀ c ∈ vs.head?, isAsciiLetter c = false := by
      refine h.imp_left fun hu hdangles => hu ?_
      obtain ⟨us', ws, rfl, hws⟩ := hdangles
      exact ⟨u :: us', ws, rfl, hws⟩
    rw [List.cons_append, controlWords, controlWords, ih hrest]
    by_cases hu : u = '\\'
    · have hsame : (us ++ vs).takeWhile isAsciiLetter = us.takeWhile isAsciiLetter := by
        refine takeWhile_append_of_stops (h.imp_left fun hdangles => ?_)
        by_contra hall
        refine hdangles ⟨[], us, by rw [hu]; rfl, fun c hc => ?_⟩
        by_contra hletter
        exact hall ⟨c, hc, Bool.eq_false_iff.2 hletter⟩
      rw [hsame]
      split <;> rfl
    · rw [if_neg fun hc => hu hc.1, if_neg fun hc => hu hc.1]

/-- Where two texts in a row end within a control word, the second one does. -/
theorem Dangles.of_append (h : Dangles (us ++ vs)) (hne : vs ≠ [])
    (hseam : ¬Dangles us ∨ ∀ c ∈ vs.head?, isAsciiLetter c = false) : Dangles vs := by
  obtain ⟨us', ws, heq, hws⟩ := h
  rcases List.append_eq_append_iff.1 heq with ⟨zs, rfl, hvs⟩ | ⟨zs, rfl, hvs⟩
  · exact ⟨zs, ws, hvs, hws⟩
  · cases zs with
    | nil => exact ⟨[], ws, hvs.symm, hws⟩
    -- the control word starts in the first text, and the second one goes on with letters
    | cons z zs =>
      cases hvs
      rcases hseam with hu | hv
      · exact absurd ⟨us', zs, rfl, fun c hc => hws c (List.mem_append_left vs hc)⟩ hu
      · obtain ⟨v, vs, rfl⟩ := List.exists_cons_of_ne_nil hne
        have hletter := hws v (List.mem_append_right zs List.mem_cons_self)
        rw [hv v rfl] at hletter
        cases hletter

end ControlWords

/-! ## Intact texts -/

/-- Whether all control words of a text are known and none reaches the end of the text. -/
structure Sealed (text : String) : Prop where
  intact : Intact text
  closed : ¬Dangles text.toList

/-- Whether a text between two others leaves their control words alone: it neither starts nor ends
within one, and its own control words are known. -/
def separates (text : String) : Bool :=
  text.toList.head?.all (!isAsciiLetter ·) &&
    text.toList.getLast?.any (fun c => !isAsciiLetter c && c != '\\') &&
      (controlWords text.toList).all fun w => knownWords.contains (String.ofList w)

section Intact

variable {s t : String}

/-- A text without backslash is intact, and ends within no control word. -/
theorem sealed_of_no_backslash (h : '\\' ∉ s.toList) : Sealed s where
  intact := by
    rw [Intact, controlWords_eq_nil h]
    exact List.forall_mem_nil _
  closed := by
    rintro ⟨us, ws, heq, -⟩
    refine h ?_
    rw [heq]
    exact List.mem_append_right us List.mem_cons_self

/-- Texts in a row are intact if each is and no letter follows a control word. -/
theorem Intact.append (hs : Intact s) (ht : Intact t)
    (hseam : ¬Dangles s.toList ∨ ∀ c ∈ t.toList.head?, isAsciiLetter c = false) :
    Intact (s ++ t) := by
  rw [Intact, String.toList_append, controlWords_append hseam]
  exact List.forall_mem_append.2 ⟨hs, ht⟩

/-- Behind a sealed text, any intact one may stand. -/
theorem Sealed.append (hs : Sealed s) (ht : Intact t) : Intact (s ++ t) :=
  hs.intact.append ht (.inl hs.closed)

/-- A separator is sealed. -/
theorem sealed_of_separates (ht : separates t = true) : Sealed t := by
  simp only [separates, Bool.and_eq_true, List.all_eq_true, List.contains_iff_mem,
    Option.any_eq_true] at ht
  obtain ⟨⟨-, c, hlast, hc⟩, hwords⟩ := ht
  simp only [Bool.not_eq_eq_eq_not, Bool.not_true, bne_iff_ne] at hc
  exact ⟨hwords, not_dangles_of_getLast? hlast hc.1 hc.2⟩

/-- **Behind any intact text, a separator closes.** -/
theorem Intact.closedBy (hs : Intact s) (ht : separates t = true) : Sealed (s ++ t) := by
  have hsealed := sealed_of_separates ht
  simp only [separates, Bool.and_eq_true, Option.all_eq_true, Option.any_eq_true] at ht
  obtain ⟨⟨hfirst, c, hlast, -⟩, -⟩ := ht
  have hseam : ∀ c ∈ t.toList.head?, isAsciiLetter c = false := by
    intro c hc
    simpa using hfirst c hc
  refine ⟨hs.append hsealed.intact (.inr hseam), fun hdangles => hsealed.closed ?_⟩
  rw [String.toList_append] at hdangles
  refine hdangles.of_append ?_ (.inr hseam)
  intro hnil
  rw [hnil] at hlast
  cases hlast

/-- Brackets keep a text intact. -/
theorem Intact.bracketed {needed : Bool} (hs : Intact s) : Intact (Expr.bracketed needed s) := by
  cases needed with
  | false => exact hs
  | true =>
    have hopen : Sealed "(" := sealed_of_separates (by decide)
    exact ((hopen.append hs).closedBy (by decide)).intact

/-- **Braces seal a text.** -/
theorem Intact.inBraces (hs : Intact s) (ht : Intact t) : Sealed (s ++ inBraces t) := by
  have hopen : Sealed (s ++ "\x7b") := hs.closedBy (by decide)
  have hclose := (hopen.append ht).closedBy (t := "\x7d") (by decide)
  simpa only [Formula.inBraces, String.append_assoc] using hclose

end Intact

/-! ## Spoiled control words -/

/-- The control words with an open end. -/
def openWords : List (List Char) := ["pi".toList, "infty".toList]

/-- **Whether a letter follows an open control word** somewhere in a text. -/
def Spoiled (cs : List Char) : Prop :=
  ∃ us w c vs, cs = us ++ '\\' :: (w ++ c :: vs) ∧ w ∈ openWords ∧ isAsciiLetter c = true

/-- What stands around a text spoils no less. -/
theorem Spoiled.of_part {us vs : List Char} (h : Spoiled us) (hpart : us <:+: vs) :
    Spoiled vs := by
  obtain ⟨ps, w, c, ss, rfl, hw, hc⟩ := h
  obtain ⟨as, bs, rfl⟩ := hpart
  exact ⟨as ++ ps, w, c, ss ++ bs, by simp, hw, hc⟩

/-- The letters behind a backslash are a control word of the text. -/
theorem mem_controlWords {us ws : List Char} (h : ws.takeWhile isAsciiLetter ≠ []) :
    ws.takeWhile isAsciiLetter ∈ controlWords (us ++ '\\' :: ws) := by
  induction us with
  | nil =>
    rw [List.nil_append, controlWords, if_pos ⟨rfl, h⟩]
    exact List.mem_cons_self
  | cons u us ih =>
    rw [List.cons_append, controlWords]
    split
    · exact List.mem_cons_of_mem _ ih
    · exact ih

/-- **A spoiled text has an unknown control word.** -/
theorem not_intact_of_spoiled {text : String} (h : Spoiled text.toList) : ¬Intact text := by
  obtain ⟨us, w, c, vs, htext, hw, hc⟩ := h
  have hletters : ∀ w ∈ openWords, w.all isAsciiLetter = true := by decide
  have hrun : (w ++ c :: vs).takeWhile isAsciiLetter = w ++ c :: vs.takeWhile isAsciiLetter := by
    rw [List.takeWhile_append_of_pos (List.all_eq_true.1 (hletters w hw)),
      List.takeWhile_cons_of_pos hc]
  have hmem : (w ++ c :: vs).takeWhile isAsciiLetter ∈
      controlWords (us ++ '\\' :: (w ++ c :: vs)) := mem_controlWords (by rw [hrun]; simp)
  rw [← htext, hrun] at hmem
  intro hintact
  have hknown := hintact _ hmem
  -- a known word that starts like an open one is no longer than it
  have hlongest : ∀ w ∈ openWords, ∀ k ∈ knownWords, w <+: k.toList → k.toList = w := by
    decide
  have hsame := hlongest w hw _ hknown (by rw [String.toList_ofList]; exact List.prefix_append _ _)
  rw [String.toList_ofList] at hsame
  have hlength := congrArg List.length hsame
  simp at hlength

end Formula
