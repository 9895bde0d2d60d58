/-
# Values of tokens

The value of every token of a built-in lexicon can be read as its kind asks: natural numerals are
whole numbers, decimal numerals are doubles, whatever the script of their digits, and the value of
an operator is its symbol (`converts_of_tokenize`).
-/
import Formula.Lexicon
import Formula.Proofs.Numeral
import Formula.Proofs.Scanning

namespace Formula

/-! ## Digits of every script -/

/-- The value of a digit is below ten. -/
theorem lt_ten_of_digitValue? {c : Char} {v : Nat} (h : digitValue? c = some v) : v < 10 := by
  obtain ⟨z, hz, rfl⟩ := Option.map_eq_some_iff.1 h
  have hrange : z ≤ c.toNat ∧ c.toNat < z + 10 := by simpa using List.find?_some hz
  omega

/-- The ASCII form of a decimal digit is the ASCII digit of its value. -/
theorem isDigit_asciiDigit {c : Char} (h : isDecimalDigit c = true) :
    (asciiDigit c).isDigit = true ∧ digitValue? (asciiDigit c) = digitValue? c := by
  obtain ⟨v, hv⟩ := Option.isSome_iff_exists.1 h
  have hall : ∀ v < 10, (Char.ofNat (48 + v)).isDigit = true ∧
      digitValue? (Char.ofNat (48 + v)) = some v := by decide
  rw [asciiDigit, hv]
  exact hall v (lt_ten_of_digitValue? hv)

/-- Decimal digits are ASCII digits in their ASCII form. -/
theorem isDigit_of_mem_map {ds : List Char} (h : ∀ c ∈ ds, isDecimalDigit c = true) :
    ∀ c ∈ ds.map asciiDigit, c.isDigit = true := by
  intro c hc
  obtain ⟨d, hd, rfl⟩ := List.mem_map.1 hc
  exact (isDigit_asciiDigit (h d hd)).1

/-- Decimal digits have the value of their ASCII forms. -/
theorem digitsValue_map {ds : List Char} (h : ∀ c ∈ ds, isDecimalDigit c = true) :
    digitsValue (ds.map asciiDigit) = digitsValue ds := by
  rw [digitsValue, digitsValue, List.foldl_map]
  refine List.foldl_ext _ _ _ fun n c hc => ?_
  rw [(isDigit_asciiDigit (h c hc)).2]

/-- A row of digits has a value of as many digits. -/
theorem digitsValue_lt {ds : List Char} (h : ∀ c ∈ ds, isDecimalDigit c = true) :
    digitsValue ds < 10 ^ ds.length := by
  induction ds with
  | nil => decide
  | cons d ds ih =>
    have hrest := ih fun c hc => h c (List.mem_cons_of_mem d hc)
    obtain ⟨v, hv⟩ := Option.isSome_iff_exists.1 (h d List.mem_cons_self)
    have hfirst : digitsValue [d] = v := by
      rw [digitsValue, List.foldl_cons, hv]
      exact Nat.zero_add v
    have hlt := lt_ten_of_digitValue? hv
    rw [← List.singleton_append, digitsValue_append, hfirst, List.length_append, List.length_cons,
      List.length_nil, Nat.pow_add]
    calc v * 10 ^ ds.length + digitsValue ds < (v + 1) * 10 ^ ds.length := by
          rw [Nat.add_mul, Nat.one_mul]
          exact Nat.add_lt_add_left hrest _
      _ ≤ 10 ^ (0 + 1) * 10 ^ ds.length := Nat.mul_le_mul_right _ hlt

/-- A row of ASCII digits is read as its value. -/
theorem readDigits?_of_isDigit {ds : List Char} (hne : ds ≠ []) (h : ∀ c ∈ ds, c.isDigit = true) :
    readDigits? ds = some (digitsValue ds) :=
  if_pos ⟨hne, List.all_eq_true.2 fun c hc => isAsciiDigit_of_isDigit (h c hc)⟩

/-- An ASCII digit is no sign. -/
theorem ne_sign_of_isDigit {c : Char} (h : c.isDigit = true) : c ≠ '-' ∧ c ≠ '+' := by
  constructor <;> (rintro rfl; cases h)

/-! ## Natural numerals -/

/-- **A row of decimal digits is a whole number**, whatever its script. -/
theorem readWhole?_of_digits {ds : List Char} (hne : ds ≠ [])
    (h : ∀ c ∈ ds, isDecimalDigit c = true) :
    readWhole? (String.ofList ds) = some (digitsValue ds) := by
  have hdigits := isDigit_of_mem_map h
  have hjoin : joinDigits? none (trimBoth isNumeralBlank (ds.map asciiDigit))
      = some (ds.map asciiDigit) := joinDigits?_trimBoth fun c hc => .inl (hdigits c hc)
  have hne' : ds.map asciiDigit ≠ [] := by simpa using hne
  have hread := readDigits?_of_isDigit hne' hdigits
  obtain ⟨c, cs, hcs⟩ := List.exists_cons_of_ne_nil hne'
  obtain ⟨hminus, hplus⟩ := ne_sign_of_isDigit (hdigits c (by rw [hcs]; exact List.mem_cons_self))
  rw [readWhole?, String.toList_ofList, hjoin]
  rw [digitsValue_map h] at hread
  split
  · rename_i h'
    rw [hcs] at h'
    exact absurd (List.cons.inj (Option.some.inj h')).1 hminus
  · rename_i h'
    rw [hcs] at h'
    exact absurd (List.cons.inj (Option.some.inj h')).1 hplus
  · rename_i h'
    rw [← Option.some.inj h', hread]
    rfl
  · rename_i h'
    cases h'

/-! ## Decimal numerals -/

/-- An exponent as it is written: nothing, or `e` with an optional sign and digits. -/
inductive IsExponent : List Char → Prop where
  | none : IsExponent []
  | some {sign ds : List Char} : sign ∈ [[], ['+'], ['-']] → ds ≠ [] →
      (∀ c ∈ ds, isDecimalDigit c = true) → IsExponent ('e' :: (sign ++ ds))

/-- The characters that a run counts. -/
theorem take_run (p : Char → Bool) (cs : List Char) :
    cs.take (Pattern.run p cs) = cs.takeWhile p :=
  (List.prefix_iff_eq_take.1 (List.takeWhile_prefix p)).symm

/-- Behind a run, what follows is taken. -/
theorem take_add_run {p : Char → Bool} {cs : List Char} (n : Nat) :
    cs.take (Pattern.run p cs + n) = cs.takeWhile p ++ (cs.drop (Pattern.run p cs)).take n := by
  rw [List.take_add, take_run]

/-- A run that is not empty consists of what it counts. -/
theorem of_run_ne_zero {p : Char → Bool} {cs : List Char} (h : Pattern.run p cs ≠ 0) :
    cs.takeWhile p ≠ [] ∧ ∀ c ∈ cs.takeWhile p, p c = true :=
  ⟨fun h0 => h (by rw [Pattern.run, h0]; rfl), List.all_eq_true.1 List.all_takeWhile⟩

/-- The length of an exponent is that of its letter, its sign and its digits. -/
theorem exponentLength_cons (rest : List Char) :
    ∃ sign r, rest = sign ++ r ∧ sign ∈ [[], ['+'], ['-']] ∧ Pattern.exponentLength ('e' :: rest)
      = if Pattern.run isDecimalDigit r = 0 then 0
        else 1 + sign.length + Pattern.run isDecimalDigit r := by
  cases rest with
  | nil => exact ⟨[], [], rfl, by simp, rfl⟩
  | cons c r =>
    by_cases hplus : c = '+'
    · subst hplus
      exact ⟨['+'], r, rfl, by simp, rfl⟩
    · by_cases hminus : c = '-'
      · subst hminus
        exact ⟨['-'], r, rfl, by simp, rfl⟩
      · exact ⟨[], c :: r, rfl, by simp, by simp [Pattern.exponentLength, hplus, hminus]⟩

/-- What is found as an exponent is one. -/
theorem isExponent_take (cs : List Char) :
    IsExponent (cs.take (Pattern.exponentLength cs)) := by
  by_cases he : ∃ rest, cs = 'e' :: rest
  · obtain ⟨rest, rfl⟩ := he
    obtain ⟨sign, r, rfl, hsign, hlength⟩ := exponentLength_cons rest
    rw [hlength]
    split
    · exact .none
    · rename_i hn
      have htake : ('e' :: (sign ++ r)).take (1 + sign.length + Pattern.run isDecimalDigit r)
          = 'e' :: (sign ++ r.takeWhile isDecimalDigit) := by
        rw [Nat.add_assoc, Nat.add_comm 1, List.take_succ_cons, List.take_length_add_append,
          take_run]
      rw [htake]
      exact .some hsign (of_run_ne_zero hn).1 (of_run_ne_zero hn).2
  · have hnone : Pattern.exponentLength cs = 0 := by
      unfold Pattern.exponentLength
      split
      · exact absurd ⟨_, rfl⟩ he
      · rfl
    rw [hnone]
    exact .none

/-- **A written exponent is read.** -/
theorem IsExponent.isSome_readExponent? {es : List Char} (h : IsExponent es) :
    (readExponent? (es.map asciiDigit)).isSome = true := by
  cases h with
  | none => rfl
  | @some sign ds hsign hne hds =>
    have hdigits := isDigit_of_mem_map hds
    have hne' : ds.map asciiDigit ≠ [] := by simpa using hne
    have hread := readDigits?_of_isDigit hne' hdigits
    have he : asciiDigit 'e' = 'e' := by decide
    have hplus : asciiDigit '+' = '+' := by decide
    have hminus : asciiDigit '-' = '-' := by decide
    simp only [List.mem_cons, List.not_mem_nil, or_false] at hsign
    rcases hsign with rfl | rfl | rfl
    · -- the digits start with no sign
      obtain ⟨c, cs, hcs⟩ := List.exists_cons_of_ne_nil hne'
      obtain ⟨hc, hc'⟩ := ne_sign_of_isDigit (hdigits c (by rw [hcs]; exact List.mem_cons_self))
      rw [hcs] at hread
      simp [readExponent?, he, hcs, hc, hc', hread]
    · simp [readExponent?, he, hplus, hread]
    · simp [readExponent?, he, hminus, hread]

/-- The characters of a written exponent are those of numerals. -/
theorem IsExponent.isNumeralChar {es : List Char} (h : IsExponent es) :
    ∀ c ∈ es.map asciiDigit, IsNumeralChar c := by
  cases h with
  | none => exact nofun
  | @some sign ds hsign hne hds =>
    simp only [List.mem_cons, List.not_mem_nil, or_false] at hsign
    intro c hc
    rw [List.map_cons, List.map_append] at hc
    rcases List.mem_cons.1 hc with rfl | hc
    · exact .inr (by decide)
    · rcases List.mem_append.1 hc with hc | hc
      · rcases hsign with rfl | rfl | rfl
        · cases hc
        · cases List.mem_singleton.1 hc
          exact .inr (by decide)
        · cases List.mem_singleton.1 hc
          exact .inr (by decide)
      · exact .inl (isDigit_of_mem_map hds c hc)

/-- An exponent starts with its letter. -/
theorem IsExponent.eq_of_mem_head? {es : List Char} (h : IsExponent es) {c : Char}
    (hc : c ∈ (es.map asciiDigit).head?) : c = 'e' := by
  cases h with
  | none => cases hc
  | some => exact (Option.some.inj hc).symm

/-- No exponent has a comma. -/
theorem IsExponent.ne_comma {es : List Char} (h : IsExponent es) : ∀ c ∈ es, c ≠ ',' := by
  rintro c hc rfl
  have hcomma : ',' ∈ es.map asciiDigit := List.mem_map.2 ⟨',', hc, by decide⟩
  exact (h.isNumeralChar _ hcomma).plain.1 rfl

/-- No digit is a comma. -/
theorem ne_comma_of_isDecimalDigit {c : Char} (h : isDecimalDigit c = true) : c ≠ ',' := by
  rintro rfl
  exact absurd h (by decide)

/-- **What is found as a decimal numeral is one.** -/
theorem exists_of_realLength {cs : List Char} (h : Pattern.realLength cs ≠ 0) :
    ∃ ds c ps es, cs.take (Pattern.realLength cs) = ds ++ c :: (ps ++ es) ∧ ds ≠ [] ∧
      (∀ d ∈ ds, isDecimalDigit d = true) ∧ (c = '.' ∨ c = ',') ∧ ps ≠ [] ∧
        (∀ d ∈ ps, isDecimalDigit d = true) ∧ IsExponent es := by
  cases hrest : cs.drop (Pattern.run isDecimalDigit cs) with
  | nil =>
    simp only [Pattern.realLength, hrest] at h
    exact absurd rfl h
  | cons c rest =>
    simp only [Pattern.realLength, hrest] at h ⊢
    split at h
    · exact absurd rfl h
    · rename_i hparts
      rw [if_neg hparts]
      simp only [not_or, Bool.not_eq_true', Bool.not_eq_false, Bool.or_eq_true,
        beq_iff_eq] at hparts
      obtain ⟨hwhole, hplaces, hc⟩ := hparts
      refine ⟨cs.takeWhile isDecimalDigit, c, rest.takeWhile isDecimalDigit, _, ?_,
        (of_run_ne_zero hwhole).1, (of_run_ne_zero hwhole).2, hc, (of_run_ne_zero hplaces).1,
        (of_run_ne_zero hplaces).2, isExponent_take (rest.drop (Pattern.run isDecimalDigit rest))⟩
      have hrest' : rest.take (Pattern.run isDecimalDigit rest +
            Pattern.exponentLength (rest.drop (Pattern.run isDecimalDigit rest)))
          = rest.takeWhile isDecimalDigit ++ _ := take_add_run _
      rw [Nat.add_assoc, Nat.add_assoc, take_add_run, hrest, Nat.add_comm 1, List.take_succ_cons,
        hrest']

/-- The ASCII form of a decimal numeral, with a point for a comma. -/
theorem ascii_numeral {ds ps es : List Char} {c : Char} (hd : ∀ d ∈ ds, isDecimalDigit d = true)
    (hc : c = '.' ∨ c = ',') (hp : ∀ d ∈ ps, isDecimalDigit d = true) (he : IsExponent es) :
    ((ds ++ c :: (ps ++ es)).map fun c => if c = ',' then '.' else c).map asciiDigit
      = ds.map asciiDigit ++ '.' :: (ps.map asciiDigit ++ es.map asciiDigit) := by
  have hkeep : ∀ {cs : List Char}, (∀ d ∈ cs, d ≠ ',') →
      (cs.map fun c => if c = ',' then '.' else c) = cs :=
    fun h => map_eq_self fun d hd => if_neg (h d hd)
  have hpoint : asciiDigit (if c = ',' then '.' else c) = '.' := by
    rcases hc with rfl | rfl <;> decide
  simp only [List.map_append, List.map_cons, hpoint, hkeep he.ne_comma,
    hkeep fun d h => ne_comma_of_isDecimalDigit (hd d h),
    hkeep fun d h => ne_comma_of_isDecimalDigit (hp d h)]

/-- A magnitude with a point is read. -/
theorem isSome_readMagnitude? {ds ps es : List Char} (hds : ds ≠ [])
    (hd : ∀ d ∈ ds, d.isDigit = true) (hp : ∀ d ∈ ps, d.isDigit = true)
    (hes : ∀ c ∈ es.head?, c = 'e') (he : (readExponent? es).isSome = true) :
    (readMagnitude? (ds ++ '.' :: (ps ++ es))).isSome = true := by
  have hpoint : ∀ c ∈ ('.' :: (ps ++ es)).head?, isAsciiDigit c = false := by
    rintro c ⟨⟩
    decide
  have hletter : ∀ c ∈ es.head?, isAsciiDigit c = false := by
    intro c hc
    rw [hes c hc]
    decide
  obtain ⟨hw, hw'⟩ := takeWhile_isAsciiDigit hd hpoint
  obtain ⟨hq, hq'⟩ := takeWhile_isAsciiDigit hp hletter
  rw [readMagnitude?, hw, hw']
  simp only [hq, hq', hds, false_and, if_false]
  rwa [Option.isSome_map]

/-- A text is read by the ASCII forms of its digits. -/
theorem Double.read?_map_asciiDigit (cs : List Char) :
    Double.read? (String.ofList (cs.map asciiDigit)) = Double.read? (String.ofList cs) := by
  have htwice : ∀ c, asciiDigit (asciiDigit c) = asciiDigit c := by
    intro c
    by_cases hc : isDecimalDigit c = true
    · exact (IsNumeralChar.plain (.inl (isDigit_asciiDigit hc).1)).2.2.1
    · have hnone : asciiDigit c = c := by
        rw [asciiDigit, Option.not_isSome_iff_eq_none.1 hc]
      rw [hnone, hnone]
  rw [Double.read?, Double.read?, String.toList_ofList, String.toList_ofList, List.map_map]
  simp only [Function.comp_def, htwice]

/-- A decimal in scientific notation has the sign that it is given. -/
theorem signBit_ofScientific (negative : Bool) (c : Nat) (e : Int) :
    (Double.ofScientific negative c e).signBit = negative := by
  unfold Double.ofScientific Double.ofUnits
  split_ifs <;> rfl

/-- What is read without sign has none. -/
theorem signBit_readUnsigned? {cs : List Char} {x : Double}
    (h : Double.readUnsigned? false cs = some x) : x.signBit = false := by
  unfold Double.readUnsigned? at h
  split_ifs at h
  · cases h
    rfl
  · cases h
    rfl
  · obtain ⟨m, -, rfl⟩ := Option.map_eq_some_iff.1 h
    exact signBit_ofScientific _ _ _

/-- **A decimal numeral is a double without sign**, with a point or a comma. -/
theorem exists_read?_of_numeral {ds ps es : List Char} {c : Char} (hds : ds ≠ [])
    (hd : ∀ d ∈ ds, isDecimalDigit d = true) (hc : c = '.' ∨ c = ',')
    (hp : ∀ d ∈ ps, isDecimalDigit d = true) (he : IsExponent es) :
    ∃ x, Double.read? (String.ofList ((ds ++ c :: (ps ++ es)).map fun c =>
      if c = ',' then '.' else c)) = some x ∧ x.signBit = false := by
  have hd' := isDigit_of_mem_map hd
  have hp' := isDigit_of_mem_map hp
  have hds' : ds.map asciiDigit ≠ [] := by simpa using hds
  have hmagnitude := isSome_readMagnitude? hds' hd' hp' (fun _ => he.eq_of_mem_head?)
    he.isSome_readExponent?
  have hnumeral : ∀ d ∈ ds.map asciiDigit ++ '.' :: (ps.map asciiDigit ++ es.map asciiDigit),
      IsNumeralChar d := by
    intro d h
    rcases List.mem_append.1 h with h | h
    · exact .inl (hd' d h)
    · rcases List.mem_cons.1 h with rfl | h
      · exact .inr (by decide)
      · rcases List.mem_append.1 h with h | h
        · exact .inl (hp' d h)
        · exact he.isNumeralChar d h
  have hjoin := joinDigits?_trimBoth hnumeral
  -- the numeral starts with a digit, so no sign is taken off
  obtain ⟨a, as, has⟩ := List.exists_cons_of_ne_nil hds'
  obtain ⟨hminus, hplus⟩ := ne_sign_of_isDigit (hd' a (by rw [has]; exact List.mem_cons_self))
  rw [has, List.cons_append] at hjoin hmagnitude
  rw [Double.read?, String.toList_ofList, ascii_numeral hd hc hp he, has, List.cons_append, hjoin]
  split
  · rename_i h
    exact absurd (List.cons.inj (Option.some.inj h)).1 hminus
  · rename_i h
    exact absurd (List.cons.inj (Option.some.inj h)).1 hplus
  · rename_i h
    rw [← Option.some.inj h]
    have hread : (Double.readUnsigned? false (a :: (as ++ '.' :: (ps.map asciiDigit
        ++ es.map asciiDigit)))).isSome = true := by
      rw [Double.readUnsigned?]
      split
      · rfl
      · split
        · rfl
        · rwa [Option.isSome_map]
    obtain ⟨x, hx⟩ := Option.isSome_iff_exists.1 hread
    exact ⟨x, hx, signBit_readUnsigned? hx⟩
  · rename_i h
    cases h

/-! ## Tokens -/

/-- **Whether the value of a token is read as its kind asks**: natural numerals are whole numbers,
decimal numerals are doubles, and operators are symbols. -/
def Token.Converts (t : Token) : Prop :=
  match t.kind with
  | .natural => readWhole? t.value = some (digitsValue t.value.toList)
  | .real => Double.read? (String.ofList (t.value.toList.map fun c => if c = ',' then '.' else c))
      = some (Grammar.numeralValue t.value)
  | .operator op => Operator.ofSymbol? t.value = some op
  | _ => True

/-- Whether what a definition finds has a value that its kind reads. -/
def Definition.isSound (d : Definition) : Bool :=
  match d.kind with
  | .natural => d.pattern == .natural && d.value.isNone
  | .real => d.pattern == .real && d.value.isNone
  | .operator op =>
    match d.value, d.pattern with
    | some value, _ => value == op.symbol
    | none, .symbol text _ => text == op.symbol
    | none, _ => false
  | _ => true

/-- A word that is found is the one that is looked for. -/
theorem take_wordLength {w : String} {cs : List Char} (h : Pattern.wordLength w cs ≠ 0) :
    String.ofList (cs.take (Pattern.wordLength w cs)) = w := by
  unfold Pattern.wordLength at h ⊢
  split at h
  · rename_i hprefix
    rw [if_pos hprefix, ← String.length_toList,
      ← List.prefix_iff_eq_take.1 (List.isPrefixOf_iff_prefix.1 hprefix), String.ofList_toList]
  · exact absurd rfl h

/-- The symbol of an operator belongs to it. -/
theorem ofSymbol?_symbol (op : Operator) : Operator.ofSymbol? op.symbol = some op := by
  cases op <;> decide

/-- What is found as a decimal numeral is read as a double without sign. -/
theorem exists_read?_of_realLength {cs : List Char} (h : Pattern.realLength cs ≠ 0) :
    ∃ x, Double.read? (String.ofList ((cs.take (Pattern.realLength cs)).map fun c =>
      if c = ',' then '.' else c)) = some x ∧ x.signBit = false := by
  obtain ⟨ds, c, ps, es, htake, hds, hdigits, hc, -, hplaces, he⟩ := exists_of_realLength h
  rw [htake]
  exact exists_read?_of_numeral hds hdigits hc hplaces he

/-- **What a sound definition finds has a value that its kind reads.** -/
theorem Definition.converts {d : Definition} {position : Nat} {cs : List Char} {t : Token}
    (hd : d.isSound = true) (h : d.token? position cs = some t) : t.Converts := by
  obtain ⟨pattern, kind, value⟩ := d
  simp only [token?] at h
  split at h
  · cases h
  · rename_i hn
    cases h
    cases kind with
    | natural =>
      simp only [isSound, Bool.and_eq_true, beq_iff_eq, Option.isNone_iff_eq_none] at hd
      obtain ⟨rfl, rfl⟩ := hd
      obtain ⟨hne, hdigits⟩ := of_run_ne_zero hn
      have hread := readWhole?_of_digits hne hdigits
      simpa [Token.Converts, Pattern.length, take_run] using hread
    | real =>
      simp only [isSound, Bool.and_eq_true, beq_iff_eq, Option.isNone_iff_eq_none] at hd
      obtain ⟨rfl, rfl⟩ := hd
      obtain ⟨x, hx, -⟩ := exists_read?_of_realLength hn
      simp only [Token.Converts, Option.getD_none, Pattern.length, String.toList_ofList,
        Grammar.numeralValue, hx, Option.getD_some]
    | operator op =>
      cases value with
      | some value =>
        obtain rfl := beq_iff_eq.1 hd
        exact ofSymbol?_symbol op
      | none =>
        cases pattern with
        | symbol text shown =>
          obtain rfl := beq_iff_eq.1 hd
          have hlexeme := take_wordLength hn
          simp only [Token.Converts, Option.getD_none, Pattern.length, hlexeme]
          exact ofSymbol?_symbol op
        | _ => cases hd
    | _ => trivial

/-- **What a sound definition finds as a decimal numeral has no sign.** -/
theorem Definition.signBit_numeralValue {d : Definition} {position : Nat} {cs : List Char}
    {t : Token} (hd : d.isSound = true) (h : d.token? position cs = some t)
    (hk : t.kind = .real) : (Grammar.numeralValue t.value).signBit = false := by
  obtain ⟨pattern, kind, value⟩ := d
  simp only [token?] at h
  split at h
  · cases h
  · rename_i hn
    cases h
    cases hk
    simp only [isSound, Bool.and_eq_true, beq_iff_eq, Option.isNone_iff_eq_none] at hd
    obtain ⟨rfl, rfl⟩ := hd
    obtain ⟨x, hx, hs⟩ := exists_read?_of_realLength hn
    simpa only [Grammar.numeralValue, Option.getD_none, String.toList_ofList, Pattern.length, hx,
      Option.getD_some] using hs

namespace Lexicon

/-- The built-in lexicons. -/
def builtin : List Lexicon := [standard, complex, logic, pricing]

/-- All definitions of the built-in lexicons are sound. -/
theorem isSound_of_builtin {l : Lexicon} (hl : l ∈ builtin) : ∀ d ∈ l, d.isSound = true := by
  have hall : ∀ l ∈ builtin, ∀ d ∈ l, d.isSound = true := by decide
  exact hall l hl

/-- **Every token of a built-in lexicon has a value that its kind reads.** -/
theorem converts_of_tokenize {l : Lexicon} (hl : l ∈ builtin) {text : String} {ts : List Token}
    (h : l.tokenize text = .ok ts) : ∀ t ∈ ts, t.Converts := by
  intro t ht
  obtain ⟨position, cs, hfirst⟩ := exists_first?_of_scan h t ht
  obtain ⟨d, hd, htoken⟩ := List.exists_of_findSome?_eq_some hfirst
  exact Definition.converts (isSound_of_builtin hl d hd) htoken

end Lexicon

end Formula
