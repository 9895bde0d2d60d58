/-
# Integer arithmetic over the reals

Sums, differences, products and powers of integers are integers as long as every power is small
enough to be computed exactly; a longer power is a double, and what is computed with it is one too.
So an integer value tells two things, **the exact value and that all powers fit**
(`Integral.value_eq_integer_iff`). Texts of numerals, signs and parentheses are read as such
expressions (`integral_of_parse`).
-/
import Formula.Proofs.Certain
import Formula.Proofs.Inherited
import Formula.Proofs.Simplified

namespace Formula

open Grammar

/-! ## Integer arithmetic -/

/-- The operators of integer arithmetic. -/
def integralOperators : List Operator := [.add, .sub, .mul, .pow]

namespace Expr

/-- **The expressions of integer arithmetic.** -/
inductive Integral : Expr → Prop where
  | integer (n : Int) : Integral (integer n)
  | negated {e : Expr} (he : Integral e) : Integral (negated e)
  | operation {op : Operator} {l r : Expr} (hop : op ∈ integralOperators) (hl : Integral l)
    (hr : Integral r) : Integral (Expr.operation op l r)

namespace Integral

variable {e : Expr}

/-- An integral expression is there. -/
theorem isHole_eq_false (h : e.Integral) : e.isHole = false := by
  cases h <;> rfl

/-- A number in integer arithmetic is an integer. -/
theorem exists_integer {n : Number} (h : (number n).Integral) : ∃ k, n = .integer k := by
  cases h
  exact ⟨_, rfl⟩

/-- No integral expression is the constant `e`. -/
theorem isEuler_eq_false (h : e.Integral) : e.isEuler = false := by
  cases h <;> rfl

end Integral

/-! ## Powers that fit -/

/-- Whether two operands have integer values whose power is small enough to be exact. -/
def FitsPower (s : Scope) (l r : Expr) : Prop :=
  ∃ m n : Int, l.exactValue s = .ok m ∧ r.exactValue s = .ok n ∧
    (Value.exactPower? (.integer m) (.integer n)).isSome = true

/-- **Whether every power in an expression fits.** -/
def PowersFit (s : Scope) (e : Expr) : Prop :=
  ∀ o ∈ e.operations, o.1 = .pow → FitsPower s o.2.1 o.2.2

variable {s : Scope} {op : Operator} {l r e : Expr}

/-- In an integer there is no power. -/
theorem powersFit_integer (n : Int) : (integer n).PowersFit s := nofun

/-- The powers of an operation fit when those of its operands do, and it fits if it is a power. -/
theorem powersFit_operation : (operation op l r).PowersFit s ↔
    (op = .pow → FitsPower s l r) ∧ l.PowersFit s ∧ r.PowersFit s := by
  simp only [PowersFit, operations, List.forall_mem_cons, List.forall_mem_append]

/-- The powers of a negation are those of its operand. -/
theorem powersFit_negated : (negated e).PowersFit s ↔ e.PowersFit s := by
  rw [powersFit_operation]
  exact ⟨fun h => h.2.1, fun h => ⟨nofun, h, nofun⟩⟩

/-! ## Values of integer arithmetic -/

open Value

variable {a b v : Value} {m n k : Int}

/-- **A power is exact where it fits**, and a double elsewhere. -/
theorem power_cases (h : a.power b = .ok v) :
    (a.isZero && b.isZero) = false ∧
      match exactPower? a b with
      | some k => v = .integer k
      | none => ∃ x, v = .float x := by
  cases hz : a.isZero && b.isZero with
  | true =>
    rw [power, hz, if_pos rfl] at h
    cases h
  | false =>
    refine ⟨rfl, ?_⟩
    rw [power, hz, if_neg Bool.false_ne_true] at h
    have hrest : (match exactPower? a b with
        | some k => .ok (.integer k)
        | none => .float <$> floatPower a b) = Except.ok v := by
      dsimp only at h
      cases ha : a.isZero with
      | false =>
        rw [ha, if_neg Bool.false_ne_true] at h
        exact h
      | true =>
        rw [ha, if_pos rfl] at h
        obtain ⟨c, -, h⟩ := bind_eq_ok.1 h
        cases c with
        | false => exact h
        | true => cases h
    cases hexact : exactPower? a b with
    | some k =>
      rw [hexact] at hrest
      cases hrest
      rfl
    | none =>
      rw [hexact] at hrest
      cases hx : floatPower a b with
      | error x =>
        rw [hx] at hrest
        cases hrest
      | ok x =>
        rw [hx] at hrest
        cases hrest
        exact ⟨x, rfl⟩

/-- The power of two integers that fits is the exact one. -/
theorem exactArithmetic_of_exactPower?
    (hz : ((Value.integer m).isZero && (Value.integer n).isZero) = false)
    (h : exactPower? (.integer m) (.integer n) = some k) :
    exactArithmetic .pow m n = .ok (k : Rat) := by
  obtain ⟨⟨hn, -⟩, hk⟩ := Option.ite_none_right_eq_some.1 h
  cases hk
  have hne : (m : Rat) ≠ 0 ∨ 0 < n := by
    by_contra hboth
    push Not at hboth
    obtain ⟨hm, hle⟩ := hboth
    have hm' : m = 0 := by exact_mod_cast hm
    have hn' : n = 0 := by omega
    subst hm' hn'
    exact absurd hz (by decide)
  refine Rational.power_intCast_eq_ok.2 ⟨hne, ?_⟩
  rw [Int.cast_pow, ← zpow_natCast, Int.toNat_of_nonneg hn]

/-- Numbers that combine give an integer for two integers only, and else a double. -/
theorem combine_cases {f : Int → Int → Int} {g : Rat → Rat → Rat}
    {d : Double → Double → Double} {p q c : Number} (hp : p.rank ≠ 1) (hq : q.rank ≠ 1)
    (h : Number.combine f g d p q = .ok c) :
    (∃ m n, p = .integer m ∧ q = .integer n ∧ c = .integer (f m n)) ∨ ∃ x, c = .float x := by
  unfold Number.combine at h
  split at h
  · cases h
    exact Or.inl ⟨_, _, rfl, rfl, rfl⟩
  · exact absurd rfl hq
  · exact absurd rfl hp
  · exact absurd rfl hp
  · obtain ⟨x, -, h⟩ := bind_eq_ok.1 h
    obtain ⟨y, -, h⟩ := bind_eq_ok.1 h
    cases h
    exact Or.inr ⟨_, rfl⟩

/-- Whether a value is the exact one of an operation on two integers, which fits if it is a
power. -/
def IsExact (op : Operator) (p q : Number) (v : Value) : Prop :=
  ∃ m n k : Int, p = .integer m ∧ q = .integer n ∧ v = .integer k ∧
    exactArithmetic op m n = .ok (k : Rat) ∧
      (op = .pow → (exactPower? (.integer m) (.integer n)).isSome = true)

/-- **An operation of integer arithmetic on integers and doubles** has the exact value, or a double
as value. -/
theorem arithmeticValue_cases {p q : Number} (hop : op ∈ integralOperators) (hp : p.rank ≠ 1)
    (hq : q.rank ≠ 1) (h : arithmeticValue op (.number p) (.number q) = .ok v) :
    IsExact op p q v ∨ ∃ x, v = .float x := by
  -- sums, differences and products combine in the tower
  have htower : ∀ {f : Int → Int → Int} {g : Rat → Rat → Rat} {d : Double → Double → Double},
      (∀ m n : Int, exactArithmetic op m n = .ok ((f m n : Int) : Rat)) → op ≠ .pow →
      (Number.combine f g d p q).map Value.number = .ok v →
        IsExact op p q v ∨ ∃ x, v = .float x := by
    intro f g d hexact hpow h
    cases hc : Number.combine f g d p q with
    | error x =>
      rw [hc] at h
      cases h
    | ok c =>
      rw [hc] at h
      cases h
      rcases combine_cases hp hq hc with ⟨m, n, rfl, rfl, rfl⟩ | ⟨x, rfl⟩
      · exact Or.inl ⟨m, n, f m n, rfl, rfl, rfl, hexact m n, fun h => absurd h hpow⟩
      · exact Or.inr ⟨x, rfl⟩
  simp only [integralOperators, List.mem_cons, List.not_mem_nil, or_false] at hop
  rcases hop with rfl | rfl | rfl | rfl
  · rw [arithmeticValue, add_number] at h
    exact htower (fun m n => by rw [Int.cast_add]; rfl) (by decide) h
  · exact htower (fun m n => by rw [Int.cast_sub]; rfl) (by decide) h
  · rw [arithmeticValue, mul_number] at h
    exact htower (fun m n => by rw [Int.cast_mul]; rfl) (by decide) h
  · obtain ⟨hz, hcases⟩ := power_cases h
    cases hexact : exactPower? (.number p) (.number q) with
    | none =>
      rw [hexact] at hcases
      exact Or.inr hcases
    | some k =>
      rw [hexact] at hcases
      cases p with
      | integer m =>
        cases q with
        | integer n =>
          refine Or.inl ⟨m, n, k, rfl, rfl, hcases, exactArithmetic_of_exactPower? hz hexact, ?_⟩
          exact fun _ => Option.isSome_iff_exists.2 ⟨k, hexact⟩
        | rational y => cases hexact
        | float y => cases hexact
      | rational x => cases hexact
      | float x => cases hexact

/-- **An operation of integer arithmetic that fits has its exact value**, an integer. -/
theorem arithmeticValue_integer {x : Rat} (hop : op ∈ integralOperators)
    (h : exactArithmetic op m n = .ok x)
    (hfits : op = .pow → (exactPower? (.integer m) (.integer n)).isSome = true) :
    ∃ k : Int, x = k ∧ arithmeticValue op (.integer m) (.integer n) = .ok (.integer k) := by
  simp only [integralOperators, List.mem_cons, List.not_mem_nil, or_false] at hop
  rcases hop with rfl | rfl | rfl | rfl
  · cases h
    exact ⟨m + n, by rw [Int.cast_add], rfl⟩
  · cases h
    exact ⟨m - n, by rw [Int.cast_sub], rfl⟩
  · cases h
    refine ⟨m * n, by rw [Int.cast_mul], ?_⟩
    rw [arithmeticValue, mul_number]
    rfl
  · obtain ⟨k, hk⟩ := Option.isSome_iff_exists.1 (hfits rfl)
    obtain ⟨⟨hn, hbits⟩, -⟩ := Option.ite_none_right_eq_some.1 hk
    obtain ⟨hne, rfl⟩ := Rational.power_intCast_eq_ok.1 h
    have hne' : m ≠ 0 ∨ 0 < n := hne.imp_left fun hm h0 => hm (by rw [h0, Int.cast_zero])
    refine ⟨m ^ n.toNat, ?_, power_integer hne' hn hbits⟩
    rw [Int.cast_pow, ← zpow_natCast, Int.toNat_of_nonneg hn]

/-! ## Values of integral expressions -/

/-- The value of an integral operation is the one that its operator gives. -/
theorem value_integral (hop : op ∈ integralOperators) (hl : l.Integral) (hr : r.Integral) :
    (operation op l r).value .arithmetic s = .ok v ↔ ∃ a b, l.value .arithmetic s = .ok a ∧
      r.value .arithmetic s = .ok b ∧ arithmeticValue op a b = .ok v := by
  have hlogical : op.isLogical = false := by
    revert op
    decide
  refine value_arithmetic hlogical hl.isHole_eq_false hr.isHole_eq_false ?_
  rw [hl.isEuler_eq_false, Bool.and_false]

/-- Whether a value is the exact integer value of an expression whose powers fit, or a double. -/
def ExactOrFloat (s : Scope) (e : Expr) (v : Value) : Prop :=
  (∃ n : Int, v = .integer n ∧ e.exactValue s = .ok (n : Rat) ∧ e.PowersFit s) ∨ ∃ x, v = .float x

/-- An exact integer and a double are numbers. -/
theorem ExactOrFloat.exists_number (h : ExactOrFloat s e v) :
    ∃ p : Number, v = .number p ∧ p.rank ≠ 1 := by
  rcases h with ⟨n, rfl, -⟩ | ⟨x, rfl⟩
  · exact ⟨.integer n, rfl, by simp [Number.rank]⟩
  · exact ⟨.float x, rfl, by simp [Number.rank]⟩

/-- An integer is no double. -/
theorem ExactOrFloat.exact (h : ExactOrFloat s e (.integer n)) :
    e.exactValue s = .ok (n : Rat) ∧ e.PowersFit s := by
  rcases h with ⟨m, hm, hexact⟩ | ⟨x, hx⟩
  · cases hm
    exact hexact
  · cases hx

/-- **An integral expression has its exact integer value and all its powers fit**, or its value is a
double. -/
theorem Integral.exactOrFloat (h : e.Integral) (hv : e.value .arithmetic s = .ok v) :
    ExactOrFloat s e v := by
  induction h generalizing v with
  | integer n =>
    cases hv
    exact Or.inl ⟨n, rfl, rfl, powersFit_integer n⟩
  | negated he ih =>
    obtain ⟨a, ha, hneg⟩ := (value_negated he.isHole_eq_false).1 hv
    rcases ih ha with ⟨n, rfl, hexact, hfit⟩ | ⟨x, rfl⟩
    · cases hneg
      refine Or.inl ⟨-n, rfl, ?_, powersFit_negated.2 hfit⟩
      exact exactValue_negated_eq_ok.2 ⟨n, hexact, by rw [Int.cast_neg]⟩
    · cases hneg
      exact Or.inr ⟨_, rfl⟩
  | @operation op l r hop hl hr ihl ihr =>
    obtain ⟨a, b, ha, hb, hab⟩ := (value_integral hop hl hr).1 hv
    obtain ⟨p, rfl, hp⟩ := (ihl ha).exists_number
    obtain ⟨q, rfl, hq⟩ := (ihr hb).exists_number
    rcases arithmeticValue_cases hop hp hq hab with ⟨m, n, k, rfl, rfl, rfl, hexact, hfits⟩ | hx
    · obtain ⟨hlexact, hlfit⟩ := (ihl ha).exact
      obtain ⟨hrexact, hrfit⟩ := (ihr hb).exact
      refine Or.inl ⟨k, rfl, ?_, powersFit_operation.2 ⟨?_, hlfit, hrfit⟩⟩
      · exact (exactValue_operation_eq_ok hr.isHole_eq_false).2 ⟨m, n, hlexact, hrexact, hexact⟩
      · exact fun hpow => ⟨m, n, hlexact, hrexact, hfits hpow⟩
    · exact Or.inr hx

/-- The exact value of an integral expression whose powers fit is an integer, and its value. -/
theorem Integral.value_of_powersFit (h : e.Integral) {x : Rat} (hx : e.exactValue s = .ok x)
    (hfit : e.PowersFit s) : ∃ n : Int, x = n ∧ e.value .arithmetic s = .ok (.integer n) := by
  induction h generalizing x with
  | integer n =>
    cases hx
    exact ⟨n, rfl, rfl⟩
  | negated he ih =>
    obtain ⟨y, hy, rfl⟩ := exactValue_negated_eq_ok.1 hx
    obtain ⟨n, rfl, hn⟩ := ih hy (powersFit_negated.1 hfit)
    exact ⟨-n, by rw [Int.cast_neg], (value_negated he.isHole_eq_false).2 ⟨_, hn, rfl⟩⟩
  | @operation op l r hop hl hr ihl ihr =>
    obtain ⟨y, z, hy, hz, hyz⟩ := (exactValue_operation_eq_ok hr.isHole_eq_false).1 hx
    obtain ⟨hfits, hlfit, hrfit⟩ := powersFit_operation.1 hfit
    obtain ⟨m, rfl, hm⟩ := ihl hy hlfit
    obtain ⟨n, rfl, hn⟩ := ihr hz hrfit
    have hpow : op = .pow → (exactPower? (.integer m) (.integer n)).isSome = true := by
      intro hpow
      obtain ⟨m', n', hm', hn', hsome⟩ := hfits hpow
      obtain rfl : m = m' := Rat.intCast_inj.1 (Except.ok.inj (hy.symm.trans hm'))
      obtain rfl : n = n' := Rat.intCast_inj.1 (Except.ok.inj (hz.symm.trans hn'))
      exact hsome
    obtain ⟨k, rfl, hk⟩ := arithmeticValue_integer hop hyz hpow
    exact ⟨k, rfl, (value_integral hop hl hr).2 ⟨_, _, hm, hn, hk⟩⟩

/-- **An integral expression has an integer value exactly if that is its exact value and all its
powers fit.** -/
theorem Integral.value_eq_integer_iff (h : e.Integral) :
    e.value .arithmetic s = .ok (.integer n) ↔ e.exactValue s = .ok (n : Rat) ∧ e.PowersFit s := by
  constructor
  · exact fun hv => (h.exactOrFloat hv).exact
  · rintro ⟨hexact, hfit⟩
    obtain ⟨m, hm, hv⟩ := h.value_of_powersFit hexact hfit
    rwa [Rat.intCast_inj.1 hm]

end Expr

/-! ## Texts of integer arithmetic -/

/-- Whether a kind of token belongs to integer arithmetic. -/
def Kind.isIntegral : Kind → Bool
  | .natural | .opening .paren | .closing .paren | .blank => true
  | .operator op => integralOperators.contains op
  | _ => false

namespace Grammar

/-- A token of integer arithmetic that is an operand stands for an integer. -/
theorem integral_of_operand? {t : Token} {e : Expr} (ht : t.kind.isIntegral = true)
    (h : operand? t = some e) : e.Integral := by
  unfold operand? at h
  split at h <;> cases h
  · exact .integer _
  all_goals simp_all [Kind.isIntegral]

/-- **Reading tokens of integer arithmetic hands on that expressions are integral.** -/
theorem inherits_integral :
    Inherits false (fun t => t.kind.isIntegral = true) False Expr.Integral := by
  -- denials, marks and words are no tokens of integer arithmetic
  have hforeign : ∀ {t : Token} {k : Kind}, t.kind.isIntegral = true → t.kind = k →
      k.isIntegral = true :=
    fun ht hk => hk ▸ ht
  refine ⟨integral_of_operand?, ?_, ?_, ?_, ?_, ?_, ?_, fun hb => hb.elim⟩
  · rintro t op l r e ht hk - hl hr ⟨⟩
    have hop : integralOperators.contains op = true := hforeign ht hk
    exact .operation (List.contains_iff_mem.1 hop) hl hr
  · rintro t l e - - hl ⟨⟩
    exact .negated hl
  · intro t l e ht hk
    exact absurd (hforeign ht hk) (by decide)
  · intro t a e ht hk
    rcases Kind.factorial_cases hk with hk | hk
    · exact absurd (hforeign ht hk) (by decide)
    · exact absurd (hforeign ht hk) (by decide)
  · intro t es e ht hk
    exact absurd (hforeign ht hk) (by decide)
  · intro t ht hk
    exact absurd (hforeign ht hk) (by decide)

end Grammar

/-- **A text of integer arithmetic is parsed as an integral expression.** -/
theorem Expr.integral_of_parse {o : Options} {ts : List Token} {e : Expr}
    (ho : o.simplify = false) (ht : ∀ t ∈ ts, t.kind.isIntegral = true) (h : parse o ts = .ok e) :
    e.Integral := by
  have hintegral := inherits_integral
  rw [← ho] at hintegral
  exact inherits_of_parse hintegral (fun _ => rfl) ht h

end Formula
