/-
# Complex literals

A complex literal is a numeral, an imaginary numeral, or one of each (`Complex.Literal`). A text is
cut at its signs (`Parts.ofText?_eq_some_iff`) and each part is read as what it denotes
(`readPart_cases`). **So what is read as a complex number is a literal, with the number it denotes**
(`reads_literals`), where nothing and a lone sign count as zero and a lone quotient may have blanks
around its slash. Only an imaginary numeral behind two signs is read as well.
-/
import Formula.Proofs.WrittenDecimals

namespace Formula

namespace Complex

open Double Rational

/-! ## Literals -/

/-- The text that is read: without outer blanks and without spaces. -/
def compact (s : String) : List Char := (trimBoth isBlank s.toList).filter (· != ' ')

/-- An optional sign, and whether it is a minus sign. -/
inductive Sign : List Char → Bool → Prop where
  | none : Sign [] false
  | plus : Sign ['+'] false
  | minus : Sign ['-'] true

/-- **An unsigned numeral** and the rational that it denotes: digits, two rows of digits with a
slash between them, or digits on both sides of a point or a comma. Around the slash there may be
what `gap` allows. -/
inductive Unsigned (gap : List Char → Prop) : List Char → Rat → Prop where
  | whole {ds : List Char} (h : IsDigits ds) : Unsigned gap ds (digitsValue ds)
  | quotient {ns b₁ b₂ ds : List Char} (hn : IsDigits ns) (hb₁ : gap b₁) (hb₂ : gap b₂)
    (hd : IsDigits ds) (hne : digitsValue ds ≠ 0) :
    Unsigned gap (ns ++ b₁ ++ '/' :: (b₂ ++ ds)) (digitsValue ns / digitsValue ds)
  | decimal {ws ps : List Char} {c : Char} (hw : IsDigits ws) (hc : c = ',' ∨ c = '.')
    (hp : IsDigits ps) :
    Unsigned gap (ws ++ c :: ps) (digitsValue (ws ++ ps) / (10 ^ ps.length : Nat))

/-- The numeral in front of the imaginary unit: an absent one is one. -/
inductive Coefficient : List Char → Rat → Prop where
  | one : Coefficient [] 1
  | numeral {u : List Char} {a : Rat} (h : Unsigned (· = []) u a) : Coefficient u a

/-- **The complex literals**, with the real and the imaginary part that they denote. -/
inductive Literal (gap : List Char → Prop) : List Char → Rat → Rat → Prop where
  | real {s u : List Char} {m : Bool} {a : Rat} (hs : Sign s m) (hu : Unsigned gap u a) :
    Literal gap (s ++ u) (signed m a) 0
  | imaginary {s v : List Char} {m : Bool} {b : Rat} (hs : Sign s m) (hv : Coefficient v b) :
    Literal gap (s ++ (v ++ ['i'])) 0 (signed m b)
  | complex {s u t v : List Char} {m k : Bool} {a b : Rat} (hs : Sign s m)
    (hu : Unsigned (· = []) u a) (ht : Sign t k) (hne : t ≠ []) (hv : Coefficient v b) :
    Literal gap (s ++ (u ++ t ++ v ++ ['i'])) (signed m a) (signed k b)

/-- Whether a text is an imaginary numeral behind two signs. -/
def DoublySigned (cs : List Char) : Prop :=
  ∃ c d u, isSign c = true ∧ isSign d = true ∧ cs = c :: d :: (u ++ ['i'])

/-! ## Cutting a text into its parts -/

/-- **The ways in which a text is cut into parts**: without a sign inside, behind two signs, or
between two numerals. -/
inductive Cuts : List Char → Parts → Prop where
  | alone {s v : List Char} {m : Bool} (hs : Sign s m) (hv : ∀ c ∈ v, isPartChar c = true) :
    Cuts (s ++ (v ++ ['i'])) ⟨false, ['0'], m, v⟩
  | doubled {s v : List Char} {m : Bool} {c : Char} (hs : Sign s m) (hne : s ≠ [])
    (hc : isSign c = true) (hv : ∀ c ∈ v, isPartChar c = true) :
    Cuts (s ++ (c :: v ++ ['i'])) ⟨false, ['0'], m, v⟩
  | both {s u v : List Char} {m : Bool} {c : Char} (hs : Sign s m)
    (hu : ∀ c ∈ u, isPartChar c = true) (hne : u ≠ []) (hc : isSign c = true)
    (hv : ∀ c ∈ v, isPartChar c = true) :
    Cuts (s ++ (u ++ c :: v ++ ['i'])) ⟨m, u, c == '-', v⟩

variable {cs s t u v : List Char} {a b : Rat} {m k : Bool} {x : Double} {c : Char}

/-- A sign is a character of signs. -/
theorem Sign.forall_mem (h : Sign s m) : ∀ c ∈ s, isSign c = true := by
  cases h with
  | none => exact nofun
  | plus => exact forall_mem_of_all (by decide)
  | minus => exact forall_mem_of_all (by decide)

/-- A character of signs is a sign. -/
theorem sign_of_isSign {c : Char} (h : isSign c = true) : Sign [c] (c == '-') := by
  rw [isSign, Bool.or_eq_true, beq_iff_eq, beq_iff_eq] at h
  rcases h with rfl | rfl
  · exact .plus
  · exact .minus

/-- Every text starts with an optional sign. -/
theorem exists_sign (cs : List Char) : ∃ s m rest, Sign s m ∧ cs = s ++ rest ∧
    (s = [] → ∀ c ∈ rest.head?, isSign c = false) := by
  cases cs with
  | nil => exact ⟨[], false, [], .none, rfl, fun _ => nofun⟩
  | cons c rest =>
    by_cases hc : isSign c = true
    · exact ⟨[c], _, rest, sign_of_isSign hc, rfl, fun h => absurd h (List.cons_ne_nil _ _)⟩
    · refine ⟨[], false, c :: rest, .none, rfl, ?_⟩
      rintro - a ⟨⟩
      exact Bool.eq_false_iff.2 hc

/-- The sign is taken off a text. -/
theorem Sign.takeOff (hs : Sign s m) {rest : List Char}
    (hrest : s = [] → ∀ c ∈ rest.head?, isSign c = false) :
    (s ++ rest).head?.filter isSign = s.head? ∧
      (if s.head?.isSome then (s ++ rest).drop 1 else s ++ rest) = rest ∧
      (s.head? == some '-') = m := by
  cases hs with
  | none =>
    refine ⟨?_, rfl, rfl⟩
    cases rest with
    | nil => rfl
    | cons c rest =>
      have hc := hrest rfl c rfl
      simp [hc]
  | plus => exact ⟨rfl, rfl, rfl⟩
  | minus => exact ⟨rfl, rfl, rfl⟩

section Inner

variable {inner im : List Char} (hs : Sign s m)
  (hrest : s = [] → ∀ c ∈ (inner ++ ['i']).head?, isSign c = false)

include hs hrest

/-- Between the sign and the imaginary unit there is one numeral. -/
theorem ofText?_of_nil (hdrop : inner.dropWhile isPartChar = []) :
    Parts.ofText? (s ++ (inner ++ ['i']))
      = some ⟨false, ['0'], m, inner.takeWhile isPartChar⟩ := by
  obtain ⟨hfirst, hbody, hminus⟩ := hs.takeOff hrest
  have hlast : (inner ++ ['i']).getLast? = some 'i' := List.getLast?_concat
  simp only [Parts.ofText?, hfirst, hbody, hminus, hlast, hdrop, List.dropLast_concat, ne_eq,
    not_true_eq_false, if_false]

/-- Between the sign and the imaginary unit there is another sign. -/
theorem ofText?_of_cons (hdrop : inner.dropWhile isPartChar = c :: im) :
    Parts.ofText? (s ++ (inner ++ ['i'])) =
      if !isSign c || !im.all isPartChar then none
      else if (inner.takeWhile isPartChar).isEmpty then some ⟨false, ['0'], m, im⟩
      else some ⟨m, inner.takeWhile isPartChar, c == '-', im⟩ := by
  obtain ⟨hfirst, hbody, hminus⟩ := hs.takeOff hrest
  have hlast : (inner ++ ['i']).getLast? = some 'i' := List.getLast?_concat
  simp only [Parts.ofText?, hfirst, hbody, hminus, hlast, hdrop, List.dropLast_concat, ne_eq,
    not_true_eq_false, if_false]

end Inner

/-- Only a text that ends in the imaginary unit is cut. -/
theorem exists_inner {p : Parts} (h : Parts.ofText? cs = some p) : ∃ s m inner, Sign s m ∧
    cs = s ++ (inner ++ ['i']) ∧ (s = [] → ∀ c ∈ (inner ++ ['i']).head?, isSign c = false) := by
  obtain ⟨s, m, rest, hs, rfl, hrest⟩ := exists_sign cs
  obtain ⟨hfirst, hbody, -⟩ := hs.takeOff hrest
  simp only [Parts.ofText?, hfirst, hbody] at h
  split at h
  · cases h
  · rename_i hlast
    have hsplit := List.dropLast_append_getLast? 'i' (not_not.1 hlast)
    refine ⟨s, m, rest.dropLast, hs, ?_, ?_⟩
    · rw [hsplit]
    · rwa [hsplit]

/-- The characters of parts are digits and three marks. -/
theorem mem_of_isPartChar (h : isPartChar c = true) : c ∈ digitChars ++ ['/', ',', '.'] := by
  simp only [isPartChar, Bool.or_eq_true, beq_iff_eq] at h
  rcases h with ((h | rfl) | rfl) | rfl
  · have hdigit : c.isDigit = true := h
    exact List.mem_append_left _ (mem_of_isDigit hdigit)
  · decide
  · decide
  · decide

/-- No character of a part is a sign or a blank. -/
theorem plain_of_isPartChar (h : isPartChar c = true) : isSign c = false ∧ isBlank c = false := by
  have hall : ∀ c ∈ digitChars ++ ['/', ',', '.'], isSign c = false ∧ isBlank c = false :=
    forall_mem_of_all (by decide)
  exact hall c (mem_of_isPartChar h)

/-- A text is cut in one of these ways. -/
theorem cuts_of_ofText? {p : Parts} (h : Parts.ofText? cs = some p) : Cuts cs p := by
  obtain ⟨s, m, inner, hs, rfl, hrest⟩ := exists_inner h
  have hinner := List.takeWhile_append_dropWhile (p := isPartChar) (l := inner)
  have hre : ∀ c ∈ inner.takeWhile isPartChar, isPartChar c = true :=
    List.all_eq_true.1 List.all_takeWhile
  cases hdrop : inner.dropWhile isPartChar with
  | nil =>
    rw [ofText?_of_nil hs hrest hdrop] at h
    cases h
    rw [hdrop, List.append_nil] at hinner
    rw [hinner] at hre ⊢
    exact .alone hs hre
  | cons c im =>
    rw [ofText?_of_cons hs hrest hdrop] at h
    rw [hdrop] at hinner
    split at h
    · cases h
    · rename_i hguard
      simp only [Bool.or_eq_true, Bool.not_eq_true', not_or, Bool.not_eq_false,
        List.all_eq_true] at hguard
      obtain ⟨hc, him⟩ := hguard
      split at h
      · rename_i hempty
        cases h
        rw [List.isEmpty_iff.1 hempty, List.nil_append] at hinner
        rw [← hinner] at hrest ⊢
        refine .doubled hs ?_ hc him
        -- without a first sign, the text would start with this one
        intro hnil
        rw [hrest hnil c rfl] at hc
        cases hc
      · rename_i hempty
        cases h
        have hne : inner.takeWhile isPartChar ≠ [] := fun h => hempty (by rw [h]; rfl)
        have hboth := Cuts.both hs hre hne hc him
        rwa [hinner] at hboth

/-- Behind a part, a text is cut at a character that belongs to no part. -/
theorem cut_at_sign (hu : ∀ c ∈ u, isPartChar c = true) (hc : isSign c = true) (v : List Char) :
    (u ++ c :: v).takeWhile isPartChar = u ∧ (u ++ c :: v).dropWhile isPartChar = c :: v := by
  have hpart : isPartChar c = false := by
    rw [Bool.eq_false_iff]
    intro h
    rw [(plain_of_isPartChar h).1] at hc
    cases hc
  rw [List.takeWhile_append_of_pos hu, List.dropWhile_append_of_pos hu]
  simp [hpart]

/-- What is cut in one of these ways is cut so. -/
theorem ofText?_of_cuts {p : Parts} (h : Cuts cs p) : Parts.ofText? cs = some p := by
  cases h with
  | @alone s v m hs hv =>
    have hrest : s = [] → ∀ c ∈ (v ++ ['i']).head?, isSign c = false := by
      rintro - c hc
      rcases List.mem_append.1 (List.mem_of_mem_head? hc) with hc | hc
      · exact (plain_of_isPartChar (hv c hc)).1
      · obtain rfl := List.mem_singleton.1 hc
        decide
    rw [ofText?_of_nil hs hrest (List.dropWhile_eq_nil_iff.2 hv), List.takeWhile_eq_self_iff.2 hv]
  | @doubled s v m c hs hne hc hv =>
    obtain ⟨htake, hdrop⟩ := cut_at_sign (u := []) nofun hc v
    rw [List.nil_append] at htake hdrop
    rw [ofText?_of_cons hs (fun h => absurd h hne) hdrop, htake]
    simp [hc, List.all_eq_true.2 hv]
  | @both s u v m c hs hu hne hc hv =>
    obtain ⟨htake, hdrop⟩ := cut_at_sign hu hc v
    have hrest : s = [] → ∀ d ∈ (u ++ c :: v ++ ['i']).head?, isSign d = false := by
      obtain ⟨d, u', rfl⟩ := List.exists_cons_of_ne_nil hne
      rintro - a ⟨⟩
      exact (plain_of_isPartChar (hu d List.mem_cons_self)).1
    rw [ofText?_of_cons hs hrest hdrop, htake]
    simp [hc, List.all_eq_true.2 hv, hne]

/-- **A text is cut into its parts in exactly these ways.** -/
theorem Parts.ofText?_eq_some_iff {p : Parts} : Parts.ofText? cs = some p ↔ Cuts cs p :=
  ⟨cuts_of_ofText?, ofText?_of_cuts⟩

/-! ## Reading a part -/

/-- A whole number is a row of digits behind an optional minus sign. -/
theorem exists_minus_of_isWhole {n : Int} (h : IsWhole cs n) :
    ∃ m ds, cs = minusText m ++ ds ∧ IsDigits ds ∧ (n : Rat) = signed m (digitsValue ds) := by
  cases h with
  | unsigned hd => exact ⟨false, cs, rfl, hd, Int.cast_natCast _⟩
  | @negative ds hd =>
    refine ⟨true, ds, rfl, hd, ?_⟩
    rw [Int.cast_neg, Int.cast_natCast]
    rfl

/-- A gap at the start of a text that starts with no blank is empty. -/
theorem gap_eq_nil (hg : IsGap s) (h : ∀ c ∈ (s ++ u).head?, isBlank c = false) : s = [] := by
  cases s with
  | nil => rfl
  | cons c s =>
    have hblank := hg c List.mem_cons_self
    rw [h c rfl] at hblank
    cases hblank

/-- A gap at the end of a text that ends with no blank is empty. -/
theorem gap_eq_nil_right (hg : IsGap s) (h : ∀ c ∈ (u ++ s).getLast?, isBlank c = false) :
    s = [] := by
  by_contra hne
  rw [List.getLast?_append_of_ne_nil _ hne] at h
  have hlast := List.getLast?_eq_some_getLast hne
  have hblank := hg _ (List.getLast_mem hne)
  rw [h _ hlast] at hblank
  cases hblank

/-- A quotient has the sign of its numerator. -/
theorem signed_div_right (m : Bool) (a b : Rat) : signed m a / b = signed m (a / b) := by
  cases m
  · rfl
  · exact neg_div b a

/-- **A written rational without outer blanks** is an unsigned numeral behind an optional minus
sign. -/
theorem exists_unsigned_of_writes {n : Int} {d : Nat} (h : Rational.Writes cs n d) (hd : d ≠ 0)
    (hhead : ∀ c ∈ cs.head?, isBlank c = false) (hlast : ∀ c ∈ cs.getLast?, isBlank c = false) :
    ∃ m u a, cs = minusText m ++ u ∧ Unsigned IsGap u a ∧ (n : Rat) / d = signed m a := by
  cases h with
  | @whole b ns b' n hb hn hb' =>
    obtain rfl := gap_eq_nil_right hb' hlast
    rw [List.append_nil] at hhead ⊢
    obtain rfl := gap_eq_nil hb hhead
    obtain ⟨m, ds, rfl, hds, hvalue⟩ := exists_minus_of_isWhole hn
    exact ⟨m, ds, _, rfl, .whole hds, by rw [hvalue, Nat.cast_one, div_one]⟩
  | @quotient b ns b₁ b₂ ds b' n hb hn hb₁ hb₂ hd' hb' =>
    obtain rfl := gap_eq_nil_right hb' hlast
    rw [List.append_nil] at hhead ⊢
    obtain rfl := gap_eq_nil hb hhead
    obtain ⟨m, ms, rfl, hms, hvalue⟩ := exists_minus_of_isWhole hn
    refine ⟨m, _, _, ?_, .quotient hms hb₁ hb₂ hd' hd, by rw [hvalue, signed_div_right]⟩
    simp

/-- What may stand behind the sign of a decimal: a row of digits, or two with a point or a comma
between them. -/
theorem digits_or_decimal {rest : List Char}
    (h : (!(rest.takeWhile isDecimalDigit).isEmpty &&
      match rest.dropWhile isDecimalDigit with
      | [] => true
      | c :: decimals =>
        (c == ',' || c == '.') && !decimals.isEmpty && decimals.all isDecimalDigit) = true) :
    IsDigits rest ∨ ∃ ws c ps, rest = ws ++ c :: ps ∧ IsDigits ws ∧ (c = ',' ∨ c = '.') ∧
      IsDigits ps := by
  rw [Bool.and_eq_true, Bool.not_eq_true', List.isEmpty_eq_false_iff] at h
  obtain ⟨hne, hplaces⟩ := h
  have hwhole : IsDigits (rest.takeWhile isDecimalDigit) :=
    ⟨hne, List.all_eq_true.1 List.all_takeWhile⟩
  have hsplit := List.takeWhile_append_dropWhile (p := isDecimalDigit) (l := rest)
  split at hplaces
  · rename_i hnil
    rw [hnil, List.append_nil] at hsplit
    rw [hsplit] at hwhole
    exact .inl hwhole
  · rename_i c ps hcons
    simp only [Bool.and_eq_true, Bool.or_eq_true, beq_iff_eq, Bool.not_eq_true',
      List.isEmpty_eq_false_iff, List.all_eq_true] at hplaces
    rw [hcons] at hsplit
    exact .inr ⟨_, c, ps, hsplit.symm, hwhole, hplaces.1.1, hplaces.1.2, hplaces.2⟩

/-- A text that counts as a decimal is a row of digits or two of them, behind an optional minus
sign. -/
theorem exists_of_isPlainDecimal (h : isPlainDecimal cs = true) : ∃ m rest,
    cs = minusText m ++ rest ∧ (IsDigits rest ∨ ∃ ws c ps, rest = ws ++ c :: ps ∧ IsDigits ws ∧
      (c = ',' ∨ c = '.') ∧ IsDigits ps) := by
  unfold isPlainDecimal at h
  dsimp only at h
  split at h
  · exact ⟨true, _, rfl, digits_or_decimal h⟩
  · exact ⟨false, _, rfl, digits_or_decimal h⟩

/-- A row of digits behind an optional minus sign writes a whole number. -/
theorem writes_digits (m : Bool) {ds : List Char} (hds : IsDigits ds) :
    Rational.Writes (String.ofList (minusText m ++ ds)).toList
      (if m then -(digitsValue ds : Int) else digitsValue ds) 1 := by
  have hgap : IsGap [] := nofun
  cases m with
  | false => simpa [minusText] using Rational.Writes.whole hgap (.unsigned hds) hgap
  | true => simpa [minusText] using Rational.Writes.whole hgap (.negative hds) hgap

/-- The double of a rational, where it is finite. -/
theorem eq_ofRat_of_elim {q : Rat}
    (h : (Double.ofRat? q).elim (.error .overflow) .ok = Except.ok (ε := Error) x) :
    x = ofRat q := by
  unfold Double.ofRat? at h
  split at h
  · exact (Except.ok.inj h).symm
  · cases h

/-- **What a part is read as**: an empty part or a lone sign is zero, and any other part is a
numeral behind an optional minus sign. -/
theorem readPart_cases (h : readPart cs = .ok x) (hhead : ∀ c ∈ cs.head?, isBlank c = false)
    (hlast : ∀ c ∈ cs.getLast?, isBlank c = false) :
    ((∃ m, Sign cs m) ∧ x = .zero) ∨
    ∃ m u a, cs = minusText m ++ u ∧ Unsigned IsGap u a ∧ x.Rounds (signed m a) := by
  unfold readPart at h
  split at h
  · rename_i hsign
    refine .inl ⟨?_, (Except.ok.inj h).symm⟩
    rcases hsign with rfl | rfl | rfl
    · exact ⟨_, .none⟩
    · exact ⟨_, .plus⟩
    · exact ⟨_, .minus⟩
  · right
    split at h
    · rename_i q hq
      obtain ⟨n, d, hwrites, hd, rfl⟩ := read_eq_ok_iff.1 hq
      rw [String.toList_ofList] at hwrites
      obtain ⟨m, u, a, hcs, hu, hvalue⟩ := exists_unsigned_of_writes hwrites hd hhead hlast
      refine ⟨m, u, a, hcs, hu, ?_⟩
      rw [← hvalue, eq_ofRat_of_elim h]
      exact rounds_ofRat _
    · rename_i hinvalid
      by_cases hplain : isPlainDecimal cs = true
      · rw [if_pos hplain] at h
        obtain ⟨m, rest, rfl, hds | ⟨ws, c, ps, rfl, hws, hc, hps⟩⟩ :=
          exists_of_isPlainDecimal hplain
        · -- a row of digits is read as a rational
          have hok := read_eq_ok_iff.2 ⟨_, 1, writes_digits m hds, one_ne_zero, rfl⟩
          rw [hok] at hinvalid
          cases hinvalid
        · rw [read?_decimal m hws hc hps] at h
          obtain rfl := Except.ok.inj h
          exact ⟨m, _, _, rfl, .decimal hws hc hps, rounds_ofScientific m _ _⟩
      · rw [if_neg hplain] at h
        cases h
    · cases h

/-- **A row of digits is read as the number that it shows**, behind an optional minus sign. -/
theorem readPart_digits (m : Bool) {ds : List Char} (hds : IsDigits ds)
    (hfinite : (ofRat (signed m (digitsValue ds))).isFinite = true) :
    readPart (minusText m ++ ds) = .ok (ofRat (signed m (digitsValue ds))) := by
  have hsign : ¬ (minusText m ++ ds = [] ∨ minusText m ++ ds = ['+'] ∨
      minusText m ++ ds = ['-']) := by
    obtain ⟨c, ds', rfl⟩ := List.exists_cons_of_ne_nil hds.1
    have hc := hds.2 c List.mem_cons_self
    cases m with
    | false =>
      rintro (h | h | h) <;> cases h
      · exact absurd hc (by decide)
      · exact absurd hc (by decide)
    | true => rintro (h | h | h) <;> cases h
  have hread : Rational.read (String.ofList (minusText m ++ ds))
      = .ok (signed m (digitsValue ds)) := by
    refine read_eq_ok_iff.2 ⟨_, 1, writes_digits m hds, one_ne_zero, ?_⟩
    cases m <;> simp [signed]
  rw [readPart, if_neg hsign, hread]
  simp only [ofRat?, hfinite, if_true, Option.elim_some]

/-- A row of digits that shows a value is read as that value. -/
theorem rounds_of_readPart_digits {ds : List Char} {y : Double} (hds : IsDigits ds)
    (hvalue : (digitsValue ds : Rat) = a) (hy : y.toRat? = some a) (h : readPart ds = .ok x) :
    x.Rounds a := by
  have hfinite : (ofRat (signed false (digitsValue ds))).isFinite = true := by
    rw [signed, if_neg Bool.false_ne_true, hvalue]
    exact isFinite_of_toRat? ((rounds_ofRat a).toRat? hy)
  have hread := readPart_digits false hds hfinite
  rw [signed, if_neg Bool.false_ne_true, hvalue, show minusText false ++ ds = ds from rfl,
    h] at hread
  exact Except.ok.inj hread ▸ rounds_ofRat a

/-! ## Parts of imaginary numerals -/

/-- A gap among the characters of parts is empty. -/
theorem gap_eq_nil_of_isPartChar (hg : IsGap s) (h : ∀ c ∈ s, isPartChar c = true) : s = [] := by
  rw [List.eq_nil_iff_forall_not_mem]
  intro c hc
  have hblank := hg c hc
  rw [(plain_of_isPartChar (h c hc)).2] at hblank
  cases hblank

/-- Among the characters of parts, a slash has no blanks around it. -/
theorem Unsigned.tight (h : Unsigned IsGap u a) (hu : ∀ c ∈ u, isPartChar c = true) :
    Unsigned (· = []) u a := by
  cases h with
  | whole hd => exact .whole hd
  | decimal hw hc hp => exact .decimal hw hc hp
  | quotient hn hb₁ hb₂ hd hne =>
    refine .quotient hn (gap_eq_nil_of_isPartChar hb₁ fun c hc => hu c ?_)
      (gap_eq_nil_of_isPartChar hb₂ fun c hc => hu c ?_) hd hne
    · simp [hc]
    · simp [hc]

/-- What the characters of parts are read as. -/
theorem exists_unsigned_of_readPart (h : readPart u = .ok x) (hne : u ≠ [])
    (hu : ∀ c ∈ u, isPartChar c = true) : ∃ a, Unsigned (· = []) u a ∧ x.Rounds a := by
  have hblank := fun c hc => (plain_of_isPartChar (hu c hc)).2
  rcases readPart_cases h (fun c hc => hblank c (List.mem_of_mem_head? hc))
    (fun c hc => hblank c (List.mem_of_getLast? hc)) with ⟨⟨m, hs⟩, -⟩ | ⟨m, v, a, rfl, hv, hx⟩
  · obtain ⟨c, u', rfl⟩ := List.exists_cons_of_ne_nil hne
    have hsign := hs.forall_mem c List.mem_cons_self
    rw [(plain_of_isPartChar (hu c List.mem_cons_self)).1] at hsign
    cases hsign
  · cases m with
    | false => exact ⟨a, hv.tight hu, hx⟩
    | true =>
      have hminus := hu '-' List.mem_cons_self
      exact absurd hminus (by decide)

/-- What the numeral of an imaginary part is read as. -/
theorem exists_coefficient_of_readPart
    (h : readPart (if v.isEmpty then ['1'] else v) = .ok x)
    (hv : ∀ c ∈ v, isPartChar c = true) : ∃ b, Coefficient v b ∧ x.Rounds b := by
  by_cases hne : v = []
  · subst hne
    have hvalue : (digitsValue ['1'] : Rat) = 1 := by
      rw [show digitsValue ['1'] = 1 by decide, Nat.cast_one]
    have hone : Double.one.toRat? = some 1 := toRat?_one.trans (by rw [Int.cast_one])
    exact ⟨1, .one, rounds_of_readPart_digits (by decide) hvalue hone h⟩
  · rw [if_neg (by simpa using hne)] at h
    obtain ⟨b, hb, hx⟩ := exists_unsigned_of_readPart h hne hv
    exact ⟨b, .numeral hb, hx⟩

/-! ## Reading a text -/

/-- A text to read starts with no blank. -/
theorem head?_compact (s : String) : ∀ c ∈ (compact s).head?, isBlank c = false := by
  have hhead := head?_trimBoth isBlank s.toList
  rw [compact, head?_filter]
  · exact hhead
  · intro c hc
    rw [bne_iff_ne]
    rintro rfl
    exact absurd (hhead _ hc) (by decide)

/-- A text to read ends with no blank. -/
theorem getLast?_compact (s : String) : ∀ c ∈ (compact s).getLast?, isBlank c = false := by
  have hlast := getLast?_trimBoth isBlank s.toList
  rw [compact, getLast?_filter]
  · exact hlast
  · intro c hc
    rw [bne_iff_ne]
    rintro rfl
    exact absurd (hlast _ hc) (by decide)

/-- A minus sign is a sign. -/
theorem sign_minusText (m : Bool) : Sign (minusText m) m := by
  cases m
  · exact .none
  · exact .minus

/-- A part with a sign. -/
theorem rounds_signed (m : Bool) (h : x.Rounds a) : (if m then -x else x).Rounds (signed m a) := by
  cases m
  · exact h
  · exact h.neg

/-- A text that is cut is read part by part. -/
theorem read_of_some {text : String} {p : Parts} (hp : Parts.ofText? (compact text) = some p) :
    read text = (do
      let x ← readPart p.re
      let y ← readPart (if p.im.isEmpty then ['1'] else p.im)
      return ⟨if p.negativeRe then -x else x, if p.negativeIm then -y else y⟩) := by
  rw [compact] at hp
  delta read
  simp only [hp]

/-- A text that is not cut is read as a real part. -/
theorem read_of_none {text : String} (hp : Parts.ofText? (compact text) = none) :
    read text = (readPart (compact text)).map ofReal := by
  rw [compact] at hp ⊢
  delta read
  simp only [hp]

/-- The parts of a text that is read. -/
theorem exists_parts_of_read {text : String} {z : Complex} {p : Parts}
    (hp : Parts.ofText? (compact text) = some p) (h : read text = .ok z) : ∃ x y,
    readPart p.re = .ok x ∧ readPart (if p.im.isEmpty then ['1'] else p.im) = .ok y ∧
      z = ⟨if p.negativeRe then -x else x, if p.negativeIm then -y else y⟩ := by
  rw [read_of_some hp] at h
  cases hx : readPart p.re with
  | error e =>
    rw [hx] at h
    cases h
  | ok x =>
    cases hy : readPart (if p.im.isEmpty then ['1'] else p.im) with
    | error e =>
      rw [hx, hy] at h
      cases h
    | ok y =>
      rw [hx, hy] at h
      exact ⟨x, y, rfl, rfl, (Except.ok.inj h).symm⟩

/-- The real part of a text that is read without being cut. -/
theorem exists_part_of_read {text : String} {z : Complex}
    (hp : Parts.ofText? (compact text) = none) (h : read text = .ok z) :
    ∃ x, readPart (compact text) = .ok x ∧ z = ofReal x := by
  rw [read_of_none hp] at h
  cases hx : readPart (compact text) with
  | error e =>
    rw [hx] at h
    cases h
  | ok x =>
    rw [hx] at h
    exact ⟨x, rfl, (Except.ok.inj h).symm⟩

/-- The real part of an imaginary numeral is zero. -/
theorem readPart_zero (h : readPart ['0'] = .ok x) : x.Rounds 0 := by
  have hvalue : (digitsValue ['0'] : Rat) = 0 := by
    rw [show digitsValue ['0'] = 0 by decide, Nat.cast_zero]
  have hzero : Double.zero.toRat? = some 0 := toRat?_zero.trans (by rw [Int.cast_zero])
  exact rounds_of_readPart_digits (by decide) hvalue hzero h

/-- **What is read as a complex number is a literal**, and each part is the double that the part of
the literal rounds to, where a lone quotient may have blanks around its slash; nothing and a lone
sign are zero. An imaginary numeral behind two signs is left out. -/
theorem reads_literals {text : String} {z : Complex} (h : read text = .ok z)
    (hsigns : ¬ DoublySigned (compact text)) :
    ((∃ m, Sign (compact text) m) ∧ z = zero) ∨
      ∃ a b, Literal IsGap (compact text) a b ∧ z.re.Rounds a ∧ z.im.Rounds b := by
  cases hp : Parts.ofText? (compact text) with
  | none =>
    obtain ⟨x, hx, rfl⟩ := exists_part_of_read hp h
    rcases readPart_cases hx (head?_compact text) (getLast?_compact text) with
      ⟨hsign, rfl⟩ | ⟨m, u, a, hcs, hu, hround⟩
    · exact .inl ⟨hsign, rfl⟩
    · refine .inr ⟨signed m a, 0, ?_, hround, ?_⟩
      · rw [hcs]
        exact .real (sign_minusText m) hu
      · show some 0 = some (placeOf 0)
        rw [placeOf_zero]
  | some p =>
    obtain ⟨x, y, hx, hy, rfl⟩ := exists_parts_of_read hp h
    have hcuts := Parts.ofText?_eq_some_iff.1 hp
    generalize compact text = cs at hcuts hsigns
    right
    cases hcuts with
    | @alone s v m hs hv =>
      obtain ⟨b, hb, hround⟩ := exists_coefficient_of_readPart hy hv
      exact ⟨0, signed m b, .imaginary hs hb, readPart_zero hx, rounds_signed m hround⟩
    | @doubled s v m c hs hne hc hv =>
      obtain ⟨d, s', rfl⟩ := List.exists_cons_of_ne_nil hne
      have hd := hs.forall_mem d List.mem_cons_self
      cases hs with
      | plus => exact absurd ⟨_, c, v, hd, hc, rfl⟩ hsigns
      | minus => exact absurd ⟨_, c, v, hd, hc, rfl⟩ hsigns
    | @both s u v m c hs hu hne hc hv =>
      obtain ⟨a, ha, hre⟩ := exists_unsigned_of_readPart hx hne hu
      obtain ⟨b, hb, him⟩ := exists_coefficient_of_readPart hy hv
      refine ⟨signed m a, signed (c == '-') b, ?_, rounds_signed m hre, rounds_signed _ him⟩
      have hliteral : Literal IsGap _ _ _ :=
        .complex hs ha (sign_of_isSign hc) (List.cons_ne_nil _ _) hb
      simpa using hliteral

/-- The theorem for a quotient and an imaginary numeral. -/
theorem reads_literals_half : ∃ z, (read "1/2 - 3i" = .ok z ∧
    ¬ DoublySigned (compact "1/2 - 3i")) ∧ ∃ a b, Literal IsGap (compact "1/2 - 3i") a b ∧
      z.re.Rounds a ∧ z.im.Rounds b := by
  obtain ⟨z, hread, hne⟩ : ∃ z, read "1/2 - 3i" = .ok z ∧ z ≠ zero :=
    ⟨⟨ofRat (1 / 2), (ofRat 3).neg⟩, by decide +kernel, by decide +kernel⟩
  have hsigns : ¬ DoublySigned (compact "1/2 - 3i") := by
    rw [show compact "1/2 - 3i" = ['1', '/', '2', '-', '3', 'i'] by decide]
    rintro ⟨c, d, u, hc, -, h⟩
    rw [← (List.cons.inj h).1] at hc
    exact absurd hc (by decide)
  exact ⟨z, ⟨hread, hsigns⟩, (reads_literals hread hsigns).resolve_left fun h => hne h.2⟩

/-- No literal is empty. -/
theorem Literal.ne_nil {gap : List Char → Prop} (h : Literal gap cs a b) : cs ≠ [] := by
  cases h with
  | real hs hu =>
    cases hu with
    | whole hd => simpa using fun _ => hd.1
    | quotient => simp
    | decimal => simp
  | imaginary => simp
  | complex => simp

/-- Nothing is read as zero, and is no literal. -/
theorem reads_nothing :
    read "" = .ok zero ∧ ¬ ∃ a b, Literal (· = []) (compact "") a b := by
  refine ⟨by decide, ?_⟩
  rintro ⟨a, b, h⟩
  exact h.ne_nil (by decide)

end Complex

end Formula
