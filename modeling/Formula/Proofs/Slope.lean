/-
# Derivatives of rational functions

A rational function is written with integers, rationals, variables, the four operations of a field,
minus signs and whole powers. Over the dual numbers, where `ε ^ 2 = 0`, its value with a variable
moved by `ε` has its derivative as the coefficient of `ε`. **The expression that differentiation
builds has that coefficient as its exact value** (`exactValue_derivative`), wherever the function
has a value. The rule for powers takes a base for constant when the double nearest to its
derivative is zero, so the theorem asks that such a derivative is zero itself (`slopesShow`).
-/
import Mathlib.Algebra.DualNumber
import Mathlib.Algebra.Order.Field.Basic
import Mathlib.Tactic.FieldSimp
import Mathlib.Tactic.Ring
import Formula.Derivative
import Formula.Proofs.Folding

namespace Formula

open scoped DualNumber

/-! ## Whole powers of dual numbers -/

/-- A dual number to a whole power. -/
def dualPower (a : Rat[ε]) : Int → Rat[ε]
  | .ofNat n => a ^ n
  | .negSucc n => (a ^ (n + 1))⁻¹

/-- The real part of a power is the power of the real part. -/
theorem fst_dualPower (a : Rat[ε]) (n : Int) : (dualPower a n).fst = a.fst ^ n := by
  cases n with
  | ofNat n => exact (TrivSqZeroExt.fst_pow a n).trans (zpow_natCast a.fst n).symm
  | negSucc n => rw [dualPower, TrivSqZeroExt.fst_inv, TrivSqZeroExt.fst_pow, zpow_negSucc]

/-- **The rule for powers** over the dual numbers. -/
theorem snd_dualPower (a : Rat[ε]) (n : Int) :
    (dualPower a n).snd = n * (a.fst ^ (n - 1) * a.snd) := by
  cases n with
  | ofNat n =>
    rw [dualPower, TrivSqZeroExt.snd_pow]
    cases n with
    | zero => simp
    | succ n => simp
  | negSucc n =>
    rw [dualPower, TrivSqZeroExt.snd_inv, TrivSqZeroExt.snd_pow, TrivSqZeroExt.fst_pow]
    have hn : Int.negSucc n - 1 = -((n + 2 : Nat) : Int) := by omega
    rw [hn, zpow_neg, zpow_natCast]
    -- at zero both sides vanish, elsewhere they are one fraction
    by_cases ha : a.fst = 0
    · simp [ha]
    · simp only [Nat.pred_succ, nsmul_eq_mul, smul_eq_mul, MulOpposite.smul_eq_mul_unop,
        MulOpposite.unop_op, Int.cast_negSucc]
      field_simp
      ring

namespace Expr

variable {s : Scope} {x : String}

/-! ## Rational functions -/

/-- The operators of a field. -/
def fieldOperators : List Operator := [.add, .sub, .mul, .div]

/-- **Rational functions** with integers as exponents. -/
inductive RationalFunction : Expr → Prop where
  | integer (n : Int) : RationalFunction (integer n)
  | rational (q : Rat) : RationalFunction (rational q)
  | identifier (name : String) : RationalFunction (identifier name)
  | negated {e : Expr} (he : e.RationalFunction) : RationalFunction (negated e)
  | operation {op : Operator} {l r : Expr} (hop : op ∈ fieldOperators)
      (hl : l.RationalFunction) (hr : r.RationalFunction) : RationalFunction (operation op l r)
  | power {e : Expr} (he : e.RationalFunction) (n : Int) :
      RationalFunction (operation .pow e (integer n))

/-- The exact value of an operand, or zero where there is none. -/
def exactOrZero (s : Scope) (e : Expr) : Rat := (e.exactValue s).toOption.getD 0

/-- An operand with an exact value has it. -/
theorem exactOrZero_eq {e : Expr} {v : Rat} (h : e.exactValue s = .ok v) :
    e.exactOrZero s = v := by
  rw [exactOrZero, h]
  rfl

/-- **The value over the dual numbers** of an expression with the variable `x` moved by `ε`. -/
def dual (s : Scope) (x : String) : Expr → Rat[ε]
  | identifier name =>
    TrivSqZeroExt.inl ((identifier name).exactOrZero s) + if name = x then ε else 0
  | operation op l r =>
    match op with
    | .add => l.dual s x + r.dual s x
    | .sub => if r.isHole then -l.dual s x else l.dual s x - r.dual s x
    | .mul => l.dual s x * r.dual s x
    | .div => l.dual s x * (r.dual s x)⁻¹
    | .pow =>
      match r with
      | number (.integer n) => dualPower (l.dual s x) n
      | _ => 0
    | _ => 0
  | e => TrivSqZeroExt.inl (e.exactOrZero s)

/-- A rational function is an operand. -/
theorem RationalFunction.isHole_eq_false {e : Expr} (he : e.RationalFunction) :
    e.isHole = false := by
  cases he <;> rfl

/-- **The real part of the value over the dual numbers** is the exact value. -/
theorem fst_dual {e : Expr} (he : e.RationalFunction) :
    ∀ {v : Rat}, e.exactValue s = .ok v → (e.dual s x).fst = v := by
  induction he with
  | integer n => intro v h; exact exactOrZero_eq h
  | rational q => intro v h; exact exactOrZero_eq h
  | identifier name =>
    intro v h
    rw [dual, TrivSqZeroExt.fst_add, TrivSqZeroExt.fst_inl, exactOrZero_eq h]
    split <;> simp
  | negated he ih =>
    intro v h
    obtain ⟨a, ha, rfl⟩ := exactValue_negated_eq_ok.1 h
    rw [← ih ha]
    rfl
  | @operation op l r hop hl hr ihl ihr =>
    intro v h
    have hh : r.isHole = false := hr.isHole_eq_false
    obtain ⟨a, b, ha, hb, hv⟩ := (exactValue_operation_eq_ok hh).1 h
    simp only [fieldOperators, List.mem_cons, List.not_mem_nil, or_false] at hop
    rcases hop with rfl | rfl | rfl | rfl
    · cases hv
      simp [dual, ihl ha, ihr hb]
    · cases hv
      simp [dual, hh, ihl ha, ihr hb]
    · cases hv
      simp [dual, ihl ha, ihr hb]
    · rw [exactArithmetic] at hv
      split at hv
      · cases hv
      · cases hv
        simp [dual, ihl ha, ihr hb, div_eq_mul_inv]
  | power he n ih =>
    intro v h
    obtain ⟨a, b, ha, hb, hv⟩ := (exactValue_operation_eq_ok rfl).1 h
    cases hb
    obtain ⟨_, rfl⟩ := Rational.power_intCast_eq_ok.1 hv
    rw [dual, fst_dualPower, ih ha]

/-! ## Derivatives that count as zero -/

/-- The magnitude of a rational in halves of a unit. -/
theorem two_mul_natAbs_le_den {q : Rat} (k : Nat) :
    2 * (q.num.natAbs * 2 ^ k) ≤ q.den ↔ |q| ≤ 1 / 2 ^ (k + 1) := by
  have hd : (0 : Rat) < q.den := by exact_mod_cast q.den_pos
  have hq : |q| = q.num.natAbs / q.den := by
    rw [Nat.cast_natAbs, Int.cast_abs, ← Nat.abs_cast q.den, ← abs_div, Rat.num_div_den]
  rw [hq, div_le_div_iff₀ hd (pow_pos two_pos (k + 1)), one_mul, ← Nat.cast_le (α := Rat), pow_succ]
  push_cast
  rw [mul_left_comm, mul_comm 2]

/-- **A rational counts as zero** up to half of the least magnitude. -/
theorem vanishes_rational {q : Rat} :
    (rational q).vanishes = true ↔ |q| ≤ 1 / 2 ^ 1075 :=
  (Double.isZero_ofUnits q.den_pos).trans (two_mul_natAbs_le_den 1074)

/-! ## The rules -/

/-- The value of a square. -/
theorem exactValue_square {r d : Expr} {b : Rat} (h : square r = .ok d)
    (hr : r.exactValue s = .ok b) : d.exactValue s = .ok (b ^ 2) := by
  refine Simplify.exactValue_power h hr (y := ((2 : Int) : Rat)) rfl ?_
  exact Rational.power_intCast_eq_ok.2 ⟨Or.inr (by decide), zpow_natCast b 2⟩

/-- The value of the numerator in the rule for quotients. -/
theorem exactValue_crossDifference {f g f' g' d : Expr} {a b a' b' : Rat}
    (h : crossDifference f g f' g' = .ok d) (hf : f.exactValue s = .ok a)
    (hg : g.exactValue s = .ok b) (hf' : f'.exactValue s = .ok a')
    (hg' : g'.exactValue s = .ok b') : d.exactValue s = .ok (a' * b - a * b') := by
  simp only [crossDifference, bind_eq_ok] at h
  obtain ⟨left, hleft, right, hright, h⟩ := h
  split at h
  -- the factors are their own derivatives, so the two products are one
  · rename_i hself
    obtain ⟨rfl, rfl⟩ := hself
    cases h
    cases hf.symm.trans hf'
    cases hg.symm.trans hg'
    rw [sub_self]
    rfl
  · exact Simplify.exactValue_difference h (Simplify.exactValue_product hleft hf' hg)
      (Simplify.exactValue_product hright hf hg')

/-- The value of a base with its exponent lowered by one. -/
theorem exactValue_lowered {base d : Expr} {n : Int} {a : Rat}
    (h : Simplify.power base (integer (n - 1)) = .ok d) (hb : base.exactValue s = .ok a)
    (hn : a ≠ 0 ∨ 0 < n) : d.exactValue s = .ok (a ^ (n - 1)) := by
  by_cases h1 : n = 1
  -- the power with exponent zero is one, even where the base is zero
  · subst h1
    unfold Simplify.power at h
    rw [if_pos (by rfl)] at h
    split at h
    · cases h
    · cases h
      rw [sub_self, zpow_zero]
      rfl
  · refine Simplify.exactValue_power h hb (y := ((n - 1 : Int) : Rat)) rfl ?_
    refine Rational.power_intCast_eq_ok.2 ⟨?_, rfl⟩
    rcases hn with ha | hn
    · exact Or.inl ha
    · exact Or.inr (by omega)

/-- **The value of the derivative of a whole power**: a base whose derivative counts as zero is
taken for a constant. -/
theorem exactValue_powerRule {base base' d : Expr} {n : Int} {a a' : Rat}
    (h : powerRule base (integer n) base' = .ok d) (hb : base.exactValue s = .ok a)
    (hb' : base'.exactValue s = .ok a') (hn : a ≠ 0 ∨ 0 < n) :
    d.exactValue s = .ok (if base'.vanishes then 0 else n * (a ^ (n - 1) * a')) := by
  unfold powerRule at h
  split at h
  · rename_i hv
    cases h
    rw [if_pos hv]
    rfl
  · rename_i hv
    simp only [bind_eq_ok] at h
    obtain ⟨exponent, hexp, lowered, hlow, inner, hinner, h⟩ := h
    cases hexp
    rw [if_neg hv]
    have hvalue := Simplify.exactValue_product hinner (exactValue_lowered hlow hb hn) hb'
    exact Simplify.exactValue_product h rfl hvalue

/-- The slope of an operation of a field, from the values and the slopes of its operands. -/
def fieldSlope (op : Operator) (a b a' b' : Rat) : Rat :=
  match op with
  | .add => a' + b'
  | .sub => a' - b'
  | .mul => a * b' + a' * b
  | .div => (a' * b - a * b') / b ^ 2
  | _ => 0

/-- **The rules for the operations of a field**: the derivative of an operation has a value once
those of its operands have values. -/
theorem exactValue_fieldRule {op : Operator} {l r d : Expr} {a b v : Rat}
    (hop : op ∈ fieldOperators) (ha : l.exactValue s = .ok a) (hb : r.exactValue s = .ok b)
    (hv : exactArithmetic op a b = .ok v) (hd : (operation op l r).derivative x = .ok d) :
    ∃ l' r', l.derivative x = .ok l' ∧ r.derivative x = .ok r' ∧
      ∀ {a' b' : Rat}, l'.exactValue s = .ok a' → r'.exactValue s = .ok b' →
        d.exactValue s = .ok (fieldSlope op a b a' b') := by
  have hh : r.isHole = false := isHole_of_exactValue hb
  have hlack : lacksOperand op l r = false := by
    rw [lacksOperand, isHole_of_exactValue ha, hh]
    rfl
  simp only [fieldOperators, List.mem_cons, List.not_mem_nil, or_false] at hop
  rcases hop with rfl | rfl | rfl | rfl
  all_goals
    simp only [derivative, hlack, hh, Bool.false_eq_true, if_false, bind_eq_ok] at hd
  · obtain ⟨l', hl', r', hr', hd⟩ := hd
    exact ⟨l', r', hl', hr', Simplify.exactValue_sum hd⟩
  · obtain ⟨l', hl', r', hr', hd⟩ := hd
    exact ⟨l', r', hl', hr', Simplify.exactValue_difference hd⟩
  · obtain ⟨r', hr', right, hright, l', hl', left, hleft, hd⟩ := hd
    refine ⟨l', r', hl', hr', fun ha' hb' => ?_⟩
    exact Simplify.exactValue_sum hd (Simplify.exactValue_product hright ha hb')
      (Simplify.exactValue_product hleft ha' hb)
  · obtain ⟨l', hl', r', hr', cross, hcross, below, hbelow, hd⟩ := hd
    refine ⟨l', r', hl', hr', fun ha' hb' => ?_⟩
    -- the divisor is not zero where the quotient has a value
    have hb0 : b ≠ 0 := by
      rintro rfl
      cases hv
    exact Simplify.exactValue_quotient hd (exactValue_crossDifference hcross ha hb ha' hb')
      (exactValue_square hbelow hb) (pow_ne_zero 2 hb0)

/-- **The rules hold over the dual numbers.** -/
theorem snd_dual_operation {op : Operator} {l r : Expr} (hop : op ∈ fieldOperators)
    (hr : r.isHole = false) :
    ((operation op l r).dual s x).snd =
      fieldSlope op (l.dual s x).fst (r.dual s x).fst (l.dual s x).snd (r.dual s x).snd := by
  simp only [fieldOperators, List.mem_cons, List.not_mem_nil, or_false] at hop
  rcases hop with rfl | rfl | rfl | rfl
  · rfl
  · simp only [dual, hr]
    rfl
  · rw [dual, DualNumber.snd_mul]
    rfl
  · rw [dual, DualNumber.snd_mul, TrivSqZeroExt.fst_inv, TrivSqZeroExt.snd_inv]
    simp only [smul_eq_mul, MulOpposite.smul_eq_mul_unop, MulOpposite.unop_op, fieldSlope]
    by_cases hb : (r.dual s x).fst = 0
    · simp [hb]
    · field_simp
      ring

/-! ## The derivative of a rational function -/

/-- Whether a derivative that counts as zero is zero. -/
def slopeShows : Except Error Expr → Bool
  | .ok d => !d.vanishes || d.isZero
  | .error _ => true

/-- **Whether every base that counts as constant has the derivative zero**: none of the derivatives
is another number so small that the nearest double is zero. -/
def slopesShow (x : String) : Expr → Bool
  | operation op l r =>
    l.slopesShow x && r.slopesShow x && (op != .pow || slopeShows (l.derivative x))
  | _ => true

/-- The slopes of both operands show when those of the operation do. -/
theorem slopesShow_operands {op : Operator} {l r : Expr}
    (h : (operation op l r).slopesShow x = true) :
    l.slopesShow x = true ∧ r.slopesShow x = true := by
  simp only [slopesShow, Bool.and_eq_true] at h
  exact h.1

/-- The base of a power that counts as constant has the slope zero. -/
theorem eq_zero_of_vanishes {l l' r : Expr} {a' : Rat}
    (h : (operation .pow l r).slopesShow x = true) (hl : l.derivative x = .ok l')
    (ha' : l'.exactValue s = .ok a') (hv : l'.vanishes = true) : a' = 0 := by
  simp only [slopesShow, slopeShows, hl, hv, Bool.and_eq_true] at h
  have hz : l'.isZero = true := by simpa using h.2
  exact eq_zero_of_isZero hz ha'

/-- The derivative behind a minus sign comes from the derivative of the operand. -/
theorem derivative_negated_eq_ok {e d : Expr} (he : e.isHole = false)
    (h : (negated e).derivative x = .ok d) :
    ∃ e', e.derivative x = .ok e' ∧ Simplify.opposite e' = d := by
  have hlack : lacksOperand .sub e hole = false := by
    rw [lacksOperand, he]
    rfl
  rw [derivative, hlack] at h
  cases he' : e.derivative x with
  | error y => rw [he'] at h; cases h
  | ok e' =>
    rw [he'] at h
    cases h
    exact ⟨e', rfl, rfl⟩

/-- The derivative of a whole power comes from the derivative of its base. -/
theorem derivative_power_eq_ok {l d : Expr} {n : Int} (hl : l.isHole = false)
    (h : (operation .pow l (integer n)).derivative x = .ok d) :
    ∃ l', l.derivative x = .ok l' ∧ powerRule l (integer n) l' = .ok d := by
  have hlack : lacksOperand .pow l (integer n) = false := by
    rw [lacksOperand, hl]
    rfl
  simpa [derivative, hlack, isNumber, bind_eq_ok] using h

/-- **The derivative of a rational function has an exact value wherever the function has one**, and
where every derivative of a base shows, this is the coefficient of `ε`. -/
theorem exactValue_derivative {e : Expr} (he : e.RationalFunction) :
    ∀ {v : Rat} {d : Expr}, e.exactValue s = .ok v → e.derivative x = .ok d →
      ∃ w, d.exactValue s = .ok w ∧ (e.slopesShow x = true → w = (e.dual s x).snd) := by
  induction he with
  | integer n =>
    intro v d hv hd
    cases hd
    exact ⟨0, rfl, fun _ => rfl⟩
  | rational q =>
    intro v d hv hd
    cases hd
    exact ⟨0, rfl, fun _ => rfl⟩
  | identifier name =>
    intro v d hv hd
    cases hd
    refine ⟨if name = x then 1 else 0, ?_, fun _ => ?_⟩
    · split <;> rfl
    · rw [dual, TrivSqZeroExt.snd_add, TrivSqZeroExt.snd_inl, zero_add]
      split <;> rfl
  | @negated e he ih =>
    intro v d hv hd
    obtain ⟨a, ha, rfl⟩ := exactValue_negated_eq_ok.1 hv
    obtain ⟨e', he', rfl⟩ := derivative_negated_eq_ok he.isHole_eq_false hd
    obtain ⟨a', ha', hslope⟩ := ih ha he'
    refine ⟨-a', Simplify.exactValue_opposite ha', fun h => ?_⟩
    rw [hslope (slopesShow_operands h).1]
    rfl
  | @operation op l r hop hl hr ihl ihr =>
    intro v d hv hd
    obtain ⟨a, b, ha, hb, hv⟩ := (exactValue_operation_eq_ok hr.isHole_eq_false).1 hv
    obtain ⟨l', r', hl', hr', hvalue⟩ := exactValue_fieldRule hop ha hb hv hd
    obtain ⟨a', ha', hsl⟩ := ihl ha hl'
    obtain ⟨b', hb', hsr⟩ := ihr hb hr'
    refine ⟨fieldSlope op a b a' b', hvalue ha' hb', fun h => ?_⟩
    obtain ⟨hshow, hshow'⟩ := slopesShow_operands h
    rw [snd_dual_operation hop hr.isHole_eq_false, fst_dual hl ha, fst_dual hr hb, hsl hshow,
      hsr hshow']
  | @power e he n ih =>
    intro v d hv hd
    obtain ⟨a, b, ha, hb, hv⟩ := (exactValue_operation_eq_ok rfl).1 hv
    cases hb
    obtain ⟨hn, rfl⟩ := Rational.power_intCast_eq_ok.1 hv
    obtain ⟨e', he', hd⟩ := derivative_power_eq_ok he.isHole_eq_false hd
    obtain ⟨a', ha', hslope⟩ := ih ha he'
    refine ⟨_, exactValue_powerRule hd ha ha' hn, fun h => ?_⟩
    rw [dual, snd_dualPower, fst_dual he ha, ← hslope (slopesShow_operands h).1]
    split
    -- the shortcut is right where the slope of the base shows
    · rename_i hvanish
      rw [eq_zero_of_vanishes h he' ha' hvanish, mul_zero, mul_zero]
    · rfl

/-- The slope of a quotient with a power below. -/
theorem exactValue_derivative_quotient :
    let s : Scope := .standard [("x", .rational (1 / 2)), ("y", .integer 3)]
    let below : Expr := operation .sub (identifier "y") (operation .pow (identifier "x") (integer 3))
    let e : Expr := operation .div (negated (identifier "x")) below
    let d : Expr := (e.derivative "x").toOption.getD hole
    e.RationalFunction ∧ e.exactValue s = .ok (-4 / 23) ∧ e.derivative "x" = .ok d ∧
      e.slopesShow "x" = true ∧ d.exactValue s = .ok (e.dual s "x").snd ∧
        (e.dual s "x").snd = -208 / 529 := by
  intro s below e d
  have he : e.RationalFunction :=
    .operation (by decide) (.negated (.identifier "x"))
      (.operation (by decide) (.identifier "y") (.power (.identifier "x") 3))
  have hv : e.exactValue s = .ok (-4 / 23) := by decide +kernel
  have hd : e.derivative "x" = .ok d := by decide +kernel
  have hshow : e.slopesShow "x" = true := by decide +kernel
  obtain ⟨w, hw, hslope⟩ := exactValue_derivative he hv hd
  rw [hslope hshow] at hw
  exact ⟨he, hv, hd, hshow, hw, by decide +kernel⟩

/-- **A tiny slope is lost**: the square of `q * x` has the slope `2 * q ^ 2 * x`, but differentiation
finds it constant when the double nearest to `q` is zero. -/
theorem derivative_tinySlope :
    let s : Scope := .standard [("x", .integer 1)]
    let q : Rat := 1 / 2 ^ 1100
    let e : Expr := operation .pow (operation .mul (rational q) (identifier "x")) (integer 2)
    e.RationalFunction ∧ e.exactValue s = .ok (q ^ 2) ∧ e.derivative "x" = .ok nought ∧
      nought.exactValue s = .ok 0 ∧ (e.dual s "x").snd = 2 * q ^ 2 ∧ 2 * q ^ 2 ≠ 0 := by
  intro s q e
  have he : e.RationalFunction :=
    .power (.operation (by decide) (.rational q) (.identifier "x")) 2
  exact ⟨he, by decide +kernel, by decide +kernel, rfl, by decide +kernel, by decide +kernel⟩

end Expr

end Formula
