/-
# Folding keeps integers exact, but for powers of powers

Folding keeps the exact value of integer arithmetic. It also keeps that the powers fit, unless it
makes one power of a power of a power: whether a power is small enough is told by the length of its
base, and the merged power has a shorter base with a longer exponent. **The folded expression has
the integer value of the plain one exactly if its own powers fit**
(`value_of_simplified_integer`), which they do when no powers are merged.
-/
import Formula.Lexicon
import Formula.Proofs.IntegerArithmetic

namespace Formula

open Grammar

/-! ## Folding integers -/

namespace Simplify

open Formula.Expr

variable {s : Scope} {op : Operator} {l r e : Expr}

/-- Whether folding makes one power of a power of a power: the base is a power with an integer as
exponent, and the exponent is an integer other than zero and one. -/
def mergesPowers : Expr → Expr → Bool
  | operation .pow _ (number (.integer _)), number (.integer n) => n != 0 && n != 1
  | _, _ => false

/-- Whether a folded operation is an integral expression whose powers fit when those of its operands
do. -/
def KeepsPowers (s : Scope) (l r e : Expr) : Prop :=
  e.Integral ∧ (l.PowersFit s → r.PowersFit s → e.PowersFit s)

/-- An integer keeps everything. -/
theorem KeepsPowers.integer (n : Int) : KeepsPowers s l r (integer n) :=
  ⟨.integer n, fun _ _ => powersFit_integer n⟩

/-- Either operand is kept as it is. -/
theorem KeepsPowers.left (hl : l.Integral) : KeepsPowers s l r l := ⟨hl, fun h _ => h⟩

/-- Either operand is kept as it is. -/
theorem KeepsPowers.right (hr : r.Integral) : KeepsPowers s l r r := ⟨hr, fun _ h => h⟩

/-- The operation itself is kept, when it is no power that is too long. -/
theorem KeepsPowers.plain (hop : op ∈ integralOperators) (hl : l.Integral) (hr : r.Integral)
    (hfits : op = .pow → FitsPower s l r) : KeepsPowers s l r (operation op l r) :=
  ⟨.operation hop hl hr, fun h h' => powersFit_operation.2 ⟨hfits, h, h'⟩⟩

/-- The sum of integral expressions is integral. -/
theorem exists_sum (hl : l.Integral) (hr : r.Integral) :
    ∃ e, sum l r = .ok e ∧ KeepsPowers s l r e := by
  unfold sum
  split
  · obtain ⟨m, rfl⟩ := hl.exists_integer
    obtain ⟨n, rfl⟩ := hr.exists_integer
    exact ⟨_, rfl, .integer _⟩
  · split_ifs
    · exact ⟨r, rfl, .right hr⟩
    · exact ⟨l, rfl, .left hl⟩
    · exact ⟨_, rfl, .plain (by decide) hl hr nofun⟩

/-- The negation of an integral expression is integral, with the same powers. -/
theorem opposite_keeps (he : e.Integral) : KeepsPowers s l e (opposite e) := by
  unfold opposite
  split
  · cases he with
    | negated he => exact ⟨he, fun _ h => powersFit_negated.1 h⟩
    | operation _ _ hr => cases hr
  · obtain ⟨n, rfl⟩ := he.exists_integer
    exact .integer _
  · exact ⟨.negated he, fun _ h => powersFit_negated.2 h⟩

/-- The difference of integral expressions is integral. -/
theorem exists_difference (hl : l.Integral) (hr : r.Integral) :
    ∃ e, difference l r = .ok e ∧ KeepsPowers s l r e := by
  unfold difference
  split
  · obtain ⟨m, rfl⟩ := hl.exists_integer
    obtain ⟨n, rfl⟩ := hr.exists_integer
    exact ⟨_, rfl, .integer _⟩
  · split_ifs
    · exact ⟨l, rfl, .left hl⟩
    · exact ⟨_, rfl, opposite_keeps hr⟩
    · exact ⟨_, rfl, .integer 0⟩
    · exact ⟨_, rfl, .plain (by decide) hl hr nofun⟩

/-- The product of integral expressions is integral. -/
theorem exists_product (hl : l.Integral) (hr : r.Integral) :
    ∃ e, product l r = .ok e ∧ KeepsPowers s l r e := by
  unfold product
  split
  · obtain ⟨m, rfl⟩ := hl.exists_integer
    obtain ⟨n, rfl⟩ := hr.exists_integer
    exact ⟨_, rfl, .integer _⟩
  · split_ifs
    · exact ⟨_, rfl, .integer 0⟩
    · exact ⟨r, rfl, .right hr⟩
    · exact ⟨l, rfl, .left hl⟩
    · exact ⟨_, rfl, .plain (by decide) hl hr nofun⟩

/-- A power of integers folds to an integer or stays, unless it divides by zero. -/
theorem exists_numberPower {m k : Int} (h : m ≠ 0 ∨ 0 < k) :
    ∃ e, numberPower (.integer m) (.integer k) = .ok e ∧
      ((∃ j, e = integer j) ∨ e = operation .pow (integer m) (integer k)) := by
  unfold numberPower exactPower
  dsimp only
  by_cases hk : k < 0
  · have hm : ¬ (m : Rat) = 0 := by
      intro h0
      have hm0 : m = 0 := by exact_mod_cast h0
      omega
    rw [if_pos hk, if_neg hm]
    exact ⟨_, rfl, Or.inr rfl⟩
  · rw [if_neg hk]
    split_ifs
    · exact ⟨_, rfl, Or.inl ⟨_, rfl⟩⟩
    · exact ⟨_, rfl, Or.inr rfl⟩

/-- **A power of integral expressions folds to an integral one** when it has an exact value, however
many powers it merges. -/
theorem exists_power : ∀ {x y v : Rat}, l.Integral → r.Integral → l.exactValue s = .ok x →
    r.exactValue s = .ok y → Rational.power x y = .ok v →
      ∃ e, power l r = .ok e ∧ e.Integral := by
  -- along the nested powers that the definition unfolds
  fun_induction power l r with
  | case1 l n hn hl =>
    intro x y v _ _ hx hy hv
    obtain rfl := eq_zero_of_isZero hl hx
    obtain rfl := eq_zero_of_isZero (e := number n) hn hy
    cases hv
  | case2 => exact fun _ _ _ _ _ => ⟨_, rfl, .integer 1⟩
  | case3 l => exact fun hl _ _ _ _ => ⟨l, rfl, hl⟩
  | case4 n hn ho b =>
    intro x y v hl hr hx hy hv
    obtain ⟨m, rfl⟩ := hl.exists_integer
    obtain ⟨k, rfl⟩ := hr.exists_integer
    cases hx
    cases hy
    have hne : m ≠ 0 ∨ 0 < k :=
      (Rational.power_intCast_eq_ok.1 hv).1.imp_left fun hm h0 => hm (by rw [h0, Int.cast_zero])
    obtain ⟨e, he, hcases⟩ := exists_numberPower hne
    refine ⟨e, he, ?_⟩
    rcases hcases with ⟨j, rfl⟩ | rfl
    · exact .integer j
    · exact .operation (by decide) hl hr
  | case5 e₀ a m _ _ ih =>
    intro x y v hl hr hx hy hv
    cases hy
    obtain ⟨x₀, _, hx₀, ha, hx⟩ := (exactValue_operation_eq_ok rfl).1 hx
    cases ha
    cases hl with | operation _ hl₀ _ =>
    exact ih hl₀ (.integer _) hx₀ rfl (Rational.power_power hx hv)
  | case6 l n => exact fun hl hr _ _ _ => ⟨_, rfl, .operation (by decide) hl hr⟩
  | case7 l r => exact fun hl hr _ _ _ => ⟨_, rfl, .operation (by decide) hl hr⟩

/-- **A power that fits folds to an expression whose powers fit**, when it merges no powers. -/
theorem powersFit_power (hl : l.Integral) (hr : r.Integral) (h : power l r = .ok e)
    (hmerges : mergesPowers l r = false) (hfits : FitsPower s l r) (hfl : l.PowersFit s)
    (hfr : r.PowersFit s) : e.PowersFit s := by
  have hplain : (operation .pow l r).PowersFit s := powersFit_operation.2 ⟨fun _ => hfits, hfl, hfr⟩
  unfold power at h
  split at h
  · rename_i n
    split_ifs at h with hz hlz ho
    · cases h
      exact powersFit_integer 1
    · cases h
      exact hfl
    · split at h
      · rename_i b
        obtain ⟨m, rfl⟩ := hl.exists_integer
        obtain ⟨k, rfl⟩ := hr.exists_integer
        have hk : 0 < k := by
          obtain ⟨_, k', _, hk', hsome⟩ := hfits
          obtain rfl : k = k' := Rat.intCast_inj.1 (Except.ok.inj hk')
          obtain ⟨j, hj⟩ := Option.isSome_iff_exists.1 hsome
          have hle : 0 ≤ k := (Option.ite_none_right_eq_some.1 hj).1.1
          have hne : k ≠ 0 := by
            rintro rfl
            exact hz rfl
          omega
        obtain ⟨e', he', hcases⟩ := exists_numberPower (m := m) (Or.inr hk)
        cases he'.symm.trans h
        rcases hcases with ⟨j, rfl⟩ | rfl
        · exact powersFit_integer j
        · exact hplain
      · rename_i e₀ a m
        have hm0 : m ≠ 0 := by
          rintro rfl
          exact hz rfl
        have hm1 : m ≠ 1 := by
          rintro rfl
          exact ho rfl
        exact absurd hmerges (by simp [mergesPowers, hm0, hm1])
      · cases h
        exact hplain
  · cases h
    exact hplain

/-- **An integral operation with an exact value folds to an integral expression**, whose powers fit
when those of the operands do, and the operation fits and merges no powers if it is a power. -/
theorem exists_build {x y v : Rat} (hop : op ∈ integralOperators) (hl : l.Integral)
    (hr : r.Integral) (hx : l.exactValue s = .ok x) (hy : r.exactValue s = .ok y)
    (hv : exactArithmetic op x y = .ok v) :
    ∃ e, build op l r = .ok e ∧ e.Integral ∧
      ((op = .pow → FitsPower s l r ∧ mergesPowers l r = false) → l.PowersFit s → r.PowersFit s →
        e.PowersFit s) := by
  simp only [integralOperators, List.mem_cons, List.not_mem_nil, or_false] at hop
  rcases hop with rfl | rfl | rfl | rfl
  · obtain ⟨e, he, hkeeps⟩ := exists_sum (s := s) hl hr
    exact ⟨e, he, hkeeps.1, fun _ => hkeeps.2⟩
  · obtain ⟨e, he, hkeeps⟩ := exists_difference (s := s) hl hr
    have hbuild : build .sub l r = difference l r := by
      rw [build, hr.isHole_eq_false, if_neg Bool.false_ne_true]
    exact ⟨e, hbuild.trans he, hkeeps.1, fun _ => hkeeps.2⟩
  · obtain ⟨e, he, hkeeps⟩ := exists_product (s := s) hl hr
    exact ⟨e, he, hkeeps.1, fun _ => hkeeps.2⟩
  · obtain ⟨e, he, hintegral⟩ := exists_power hl hr hx hy hv
    refine ⟨e, he, hintegral, fun h => ?_⟩
    obtain ⟨hfits, hmerges⟩ := h rfl
    exact powersFit_power hl hr he hmerges hfits

end Simplify

namespace Expr

variable {s : Scope} {e : Expr}

/-- Whether folding an operation merges powers. -/
def mergesAt (o : Operator × Expr × Expr) : Bool :=
  o.1 == .pow &&
    match o.2.1.simplified, o.2.2.simplified with
    | .ok l, .ok r => Simplify.mergesPowers l r
    | _, _ => false

/-- **Whether folding an expression merges powers** somewhere. -/
def mergesPowers (e : Expr) : Bool := e.operations.any mergesAt

/-- An operation merges powers where it is folded, or in its operands. -/
theorem mergesPowers_operation {op : Operator} {l r : Expr} :
    (operation op l r).mergesPowers = false ↔
      mergesAt (op, l, r) = false ∧ l.mergesPowers = false ∧ r.mergesPowers = false := by
  simp only [mergesPowers, operations, List.any_cons, List.any_append, Bool.or_eq_false_iff]

/-- **Integral expressions fold to integral ones with the same exact value**, and powers that fit
still do unless they are merged. -/
theorem Integral.exists_simplified (h : e.Integral) {v : Rat} (hv : e.exactValue s = .ok v) :
    ∃ e', e.simplified = .ok e' ∧ e'.Integral ∧ e'.exactValue s = .ok v ∧
      (e.PowersFit s → e.mergesPowers = false → e'.PowersFit s) := by
  induction h generalizing v with
  | integer n => exact ⟨_, rfl, .integer n, hv, fun h _ => h⟩
  | @negated e he ih =>
    obtain ⟨x, hx, rfl⟩ := exactValue_negated_eq_ok.1 hv
    obtain ⟨e', he', hintegral, hexact, hfit⟩ := ih hx
    obtain ⟨hopposite, hkeeps⟩ := Simplify.opposite_keeps (s := s) (l := e') hintegral
    refine ⟨Simplify.opposite e', ?_, hopposite, Simplify.exactValue_opposite hexact, ?_⟩
    · rw [simplified_operation he' rfl]
      rfl
    · intro hfits hmerges
      have hfit' := hfit (powersFit_negated.1 hfits) (mergesPowers_operation.1 hmerges).2.1
      exact hkeeps hfit' hfit'
  | @operation op l r hop hl hr ihl ihr =>
    obtain ⟨x, y, hx, hy, hxy⟩ := (exactValue_operation_eq_ok hr.isHole_eq_false).1 hv
    obtain ⟨l', hl', hlintegral, hlexact, hlfit⟩ := ihl hx
    obtain ⟨r', hr', hrintegral, hrexact, hrfit⟩ := ihr hy
    obtain ⟨e', he', hintegral, hfit⟩ :=
      Simplify.exists_build hop hlintegral hrintegral hlexact hrexact hxy
    refine ⟨e', simplified_operation_eq_ok.2 ⟨l', r', hl', hr', he'⟩, hintegral,
      Simplify.exactValue_build he' hlexact hrexact hxy, ?_⟩
    intro hfits hmerges
    obtain ⟨hpow, hfl, hfr⟩ := powersFit_operation.1 hfits
    obtain ⟨hmerge, hml, hmr⟩ := mergesPowers_operation.1 hmerges
    refine hfit (fun hop' => ⟨?_, ?_⟩) (hlfit hfl hml) (hrfit hfr hmr)
    · -- folding keeps the exact values, and with them the size of the power
      obtain ⟨m, n, hm, hn, hsome⟩ := hpow hop'
      cases hx.symm.trans hm
      cases hy.symm.trans hn
      exact ⟨m, n, hlexact, hrexact, hsome⟩
    · rw [mergesAt, hl', hr', hop'] at hmerge
      exact hmerge

/-! ## The main result -/

/-- **Simplification keeps exact integers exact where the powers of the folded expression fit**: for
every text of numerals, `+`, `-`, `*`, `^` and parentheses whose plain expression has an integer
value, the simplifying parse succeeds and its expression has that exact value. Its value over the
reals is this integer or a double, and it is the integer exactly if all powers that are left fit, so
always where no power of a power became one power. -/
theorem value_of_simplified_integer {o : Options} {ts : List Token} {n : Int}
    (ht : ∀ t ∈ ts, t.kind.isIntegral = true) (h : parse { o with simplify := false } ts = .ok e)
    (hv : e.value .arithmetic s = .ok (.integer n)) :
    ∃ e', parse { o with simplify := true } ts = .ok e' ∧ e'.exactValue s = .ok (n : Rat) ∧
      (∀ v, e'.value .arithmetic s = .ok v → v = .integer n ∨ ∃ x, v = .float x) ∧
        (e'.value .arithmetic s = .ok (.integer n) ↔ e'.PowersFit s) ∧
          (e.mergesPowers = false → e'.value .arithmetic s = .ok (.integer n)) := by
  have hintegral : e.Integral := integral_of_parse (o := { o with simplify := false }) rfl ht h
  obtain ⟨hexact, hfit⟩ := hintegral.value_eq_integer_iff.1 hv
  obtain ⟨e', he', hintegral', hexact', hfit'⟩ := hintegral.exists_simplified hexact
  have hiff : e'.value .arithmetic s = .ok (.integer n) ↔ e'.PowersFit s :=
    hintegral'.value_eq_integer_iff.trans ⟨And.right, fun hfit => ⟨hexact', hfit⟩⟩
  refine ⟨e', (parse_simplified h).trans he', hexact', ?_, hiff, ?_⟩
  · intro v hv
    rcases hintegral'.exactOrFloat hv with ⟨m, rfl, hm, -⟩ | hx
    · rw [Rat.intCast_inj.1 (Except.ok.inj (hexact'.symm.trans hm))]
      exact Or.inl rfl
    · exact Or.inr hx
  · exact fun hmerges => hiff.2 (hfit' hfit hmerges)

/-- A square of a sum with a long power in it, less another long power. -/
theorem value_of_simplified_integer_square :
    let text := "(2^600+1)^2-(-3)*2^1100"
    let ts := (Lexicon.standard.tokenize text).toOption.getD []
    let s := Scope.standard []
    let long (n : Int) : Expr := operation .pow (integer 2) (integer n)
    let e' : Expr := operation .sub
      (operation .pow (operation .add (long 600) (integer 1)) (integer 2))
      (operation .mul (integer (-3)) (long 1100))
    Lexicon.standard.tokenize text = .ok ts ∧ (∀ t ∈ ts, t.kind.isIntegral = true) ∧
      parse ⟨true, true, false⟩ ts = .ok e' ∧
        e'.value .arithmetic s = .ok (.integer ((2 ^ 600 + 1) ^ 2 + 3 * 2 ^ 1100)) := by
  intro text ts s long e'
  let e : Expr := operation .sub
    (operation .pow (operation .add (long 600) (integer 1)) (integer 2))
    (operation .mul (negated (integer 3)) (long 1100))
  -- what is read off the text is computed at once, so that the text is cut only once
  obtain ⟨hts, ht, he, he'⟩ : Lexicon.standard.tokenize text = .ok ts ∧
      (∀ t ∈ ts, t.kind.isIntegral = true) ∧ parse ⟨true, false, false⟩ ts = .ok e ∧
        parse ⟨true, true, false⟩ ts = .ok e' := by
    decide +kernel
  have hv : e.value .arithmetic s = .ok (.integer ((2 ^ 600 + 1) ^ 2 + 3 * 2 ^ 1100)) := by
    decide +kernel
  obtain ⟨e'', he'', -, -, -, hvalue⟩ :=
    value_of_simplified_integer (o := ⟨true, true, false⟩) ht he hv
  cases he''.symm.trans he'
  exact ⟨hts, ht, he', hvalue (by decide +kernel)⟩

/-- **A merged power is too long where the power of a power is exact**: the plain expression raises
a number of 1001 binary digits to the fourth power, and the value of the folded one is no integer
any more, but the power of two doubles. -/
theorem value_of_merged_power :
    let text := "(2^1000)^4"
    let ts := (Lexicon.standard.tokenize text).toOption.getD []
    let s := Scope.standard []
    let e : Expr := operation .pow (operation .pow (integer 2) (integer 1000)) (integer 4)
    let e' : Expr := operation .pow (integer 2) (integer 4000)
    Lexicon.standard.tokenize text = .ok ts ∧ (∀ t ∈ ts, t.kind.isIntegral = true) ∧
      parse ⟨true, false, false⟩ ts = .ok e ∧ parse ⟨true, true, false⟩ ts = .ok e' ∧
        e.value .arithmetic s = .ok (.integer (2 ^ 4000)) ∧
          e'.value .arithmetic s = .float <$> Value.doublePower (.ofInt 2) (.ofInt 4000) ∧
            ∀ n, e'.value .arithmetic s ≠ .ok (.integer n) := by
  intro text ts s e e'
  obtain ⟨hts, ht, he, he'⟩ : Lexicon.standard.tokenize text = .ok ts ∧
      (∀ t ∈ ts, t.kind.isIntegral = true) ∧ parse ⟨true, false, false⟩ ts = .ok e ∧
        parse ⟨true, true, false⟩ ts = .ok e' := by
    decide +kernel
  have hv : e.value .arithmetic s = .ok (.integer (2 ^ 4000)) := by decide +kernel
  have hv' : e'.value .arithmetic s = .float <$> Value.doublePower (.ofInt 2) (.ofInt 4000) := by
    -- 4000 times the two digits of the base are more than 4096
    have hexact : Value.exactPower? (.integer 2) (.integer 4000) = none := by decide +kernel
    have hbase : (Value.integer 2).toDouble = .ok (.ofInt 2) := by decide +kernel
    have hexponent : (Value.integer 4000).toDouble = .ok (.ofInt 4000) := by decide +kernel
    have hfloat : Value.floatPower (.integer 2) (.integer 4000)
        = Value.doublePower (.ofInt 2) (.ofInt 4000) := by
      rw [Value.floatPower, hbase, hexponent]
    have hzero : (Value.integer 2).isZero = false := by decide
    have hpower : ∀ m n, (operation .pow (integer m) (integer n)).value .arithmetic s
        = (Value.integer m).power (.integer n) := fun _ _ => rfl
    rw [hpower, Value.power, hzero, hexact, hfloat]
    rfl
  refine ⟨hts, ht, he, he', hv, hv', fun n hn => ?_⟩
  rw [hv'] at hn
  cases hpower : Value.doublePower (.ofInt 2) (.ofInt 4000) with
  | error x =>
    rw [hpower] at hn
    cases hn
  | ok x =>
    rw [hpower] at hn
    cases hn

end Expr

end Formula
