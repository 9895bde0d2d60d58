/-
# Folding over the rationals

The simplifying constructors and the exact values of expressions. A constructor that yields an
expression for operands with values yields one with the value that the operator gives for them:
**folding neither loses nor changes an exact value** (`exactValue_build`). The side conditions of
the rules, such as a base that is not zero, come from the value of the operation that is folded.
-/
import Mathlib.Algebra.Order.Field.Rat
import Mathlib.Algebra.Order.Ring.Int
import Formula.Evaluation.Exact
import Formula.Expr.Simplify
import Formula.Rational.Power

namespace Formula

/-! ## Steps that may fail -/

/-- Two steps succeed when the first one does and the second one does behind it. -/
theorem bind_eq_ok {α β : Type} {m : Except Error α} {f : α → Except Error β} {b : β} :
    m >>= f = .ok b ↔ ∃ a, m = .ok a ∧ f a = .ok b := by
  cases m <;> simp [bind, Except.bind]

/-! ## Exact numbers -/

namespace Number

/-- An integer that counts as zero is zero. -/
theorem eq_zero_of_isZero_integer {n : Int} (h : (integer n).isZero = true) : n = 0 := by
  simpa [isZero, eqv, compare?] using h

/-- An integer that counts as one is one. -/
theorem eq_one_of_isOne_integer {n : Int} (h : (integer n).isOne = true) : n = 1 := by
  simpa [isOne, eqv, compare?] using h

/-- Rationals that compare as equal are equal. -/
theorem eq_of_compareRat {p q : Rat} (h : compareRat p q = .eq) : p = q := by
  unfold compareRat at h
  split at h
  · cases h
  · split at h
    · assumption
    · cases h

/-- A rational that counts as zero is zero. -/
theorem eq_zero_of_isZero_rational {q : Rat} (h : (rational q).isZero = true) : q = 0 := by
  have hc : compareRat q (0 : Int) = .eq := by simpa [isZero, eqv, compare?] using h
  simpa using eq_of_compareRat hc

/-- A rational is zero when it counts as zero, and only then. -/
theorem isZero_rational_iff {q : Rat} : (rational q).isZero = true ↔ q = 0 := by
  constructor
  · exact eq_zero_of_isZero_rational
  · rintro rfl
    rfl

/-- A rational that counts as one is one. -/
theorem eq_one_of_isOne_rational {q : Rat} (h : (rational q).isOne = true) : q = 1 := by
  have hc : compareRat q (1 : Int) = .eq := by simpa [isOne, eqv, compare?] using h
  simpa using eq_of_compareRat hc

/-- A number that may be kept is kept as it is. -/
theorem eq_of_checked {n m : Number} (h : n.checked = .ok m) : m = n := by
  unfold checked at h
  split at h
  · split at h
    · cases h
      rfl
    · cases h
  · cases h
    rfl

end Number

/-! ## Exact values of operations -/

namespace Expr

variable {s : Scope}

/-- A hole has no value. -/
theorem isHole_of_exactValue {e : Expr} {v : Rat} (h : e.exactValue s = .ok v) :
    e.isHole = false := by
  cases e <;> first | rfl | cases h

/-- Logical operators have no value over the rationals. -/
theorem isLogical_of_exactArithmetic {op : Operator} {a b v : Rat}
    (h : exactArithmetic op a b = .ok v) : op.isLogical = false := by
  cases op <;> first | rfl | cases h

/-- **A two-sided operation has the value that its operator gives.** -/
theorem exactValue_operation_eq_ok {op : Operator} {l r : Expr} {v : Rat}
    (hr : r.isHole = false) :
    (operation op l r).exactValue s = .ok v ↔
      ∃ a b, l.exactValue s = .ok a ∧ r.exactValue s = .ok b ∧
        exactArithmetic op a b = .ok v := by
  constructor
  · intro h
    rw [exactValue, hr] at h
    split at h
    · cases h
    · split at h
      · cases h
      · cases ha : l.exactValue s with
        | error e => rw [ha] at h; cases h
        | ok a =>
          cases hb : r.exactValue s with
          | error e => rw [ha, hb] at h; cases h
          | ok b =>
            rw [ha, hb] at h
            exact ⟨a, b, rfl, rfl, h⟩
  · rintro ⟨a, b, ha, hb, h⟩
    have hl : lacksOperand op l r = false := by
      rw [lacksOperand, isHole_of_exactValue ha, hr]
      rfl
    rw [exactValue, hl, isLogical_of_exactArithmetic h, hr, ha, hb]
    exact h

/-- **A one-sided minus has the opposite value.** -/
theorem exactValue_negated_eq_ok {e : Expr} {v : Rat} :
    (negated e).exactValue s = .ok v ↔ ∃ a, e.exactValue s = .ok a ∧ -a = v := by
  constructor
  · intro h
    rw [exactValue] at h
    split at h
    · cases h
    · cases ha : e.exactValue s with
      | error e => rw [ha] at h; cases h
      | ok a =>
        rw [ha] at h
        cases h
        exact ⟨a, rfl, rfl⟩
  · rintro ⟨a, ha, rfl⟩
    have hl : lacksOperand .sub e hole = false := by
      rw [lacksOperand, isHole_of_exactValue ha]
      rfl
    rw [exactValue, hl, ha]
    rfl

/-- No other operator has a value with one operand. -/
theorem exactValue_operation_hole {op : Operator} {l : Expr} {v : Rat} (hop : op ≠ .sub) :
    (operation op l hole).exactValue s ≠ .ok v := by
  intro h
  rw [exactValue] at h
  cases op <;> first | exact hop rfl | (cases l <;> cases h)

/-- A function of one argument has the value that it takes at the value of the argument. -/
theorem exactValue_call_eq_ok {name : String} {a : Expr} {v : Rat} :
    (call name a).exactValue s = .ok v ↔ ∃ f x, exactFunction s name = .ok f ∧
      a.exactValue s = .ok x ∧ exactApply f [x] = .ok v := by
  rw [exactValue]
  cases exactFunction s name with
  | error e => constructor <;> simp [bind, Except.bind]
  | ok f => cases a.exactValue s <;> simp [bind, Except.bind]

/-- The function of two arguments has the value that it takes at the values of its arguments. -/
theorem exactValue_ending_eq_ok {p t : Expr} {v : Rat} :
    (ending p t).exactValue s = .ok v ↔ ∃ f x y, exactFunction s endingName = .ok f ∧
      p.exactValue s = .ok x ∧ t.exactValue s = .ok y ∧ exactApply f [x, y] = .ok v := by
  rw [exactValue]
  cases exactFunction s endingName with
  | error e => constructor <;> simp [bind, Except.bind]
  | ok f => cases p.exactValue s <;> cases t.exactValue s <;> simp [bind, Except.bind]

/-! ## Numbers that are recognised -/

/-- An expression that counts as zero has the value zero or none. -/
theorem eq_zero_of_isZero {e : Expr} {v : Rat} (hz : e.isZero = true)
    (h : e.exactValue s = .ok v) : v = 0 := by
  match e, hz with
  | number (.integer n), hz =>
    cases h
    rw [Number.eq_zero_of_isZero_integer hz]
    rfl
  | number (.rational q), hz =>
    cases h
    exact Number.eq_zero_of_isZero_rational hz
  | number (.float x), hz => cases h

/-- An expression that counts as one has the value one or none. -/
theorem eq_one_of_isOne {e : Expr} {v : Rat} (hz : e.isOne = true)
    (h : e.exactValue s = .ok v) : v = 1 := by
  match e, hz with
  | number (.integer n), hz =>
    cases h
    rw [Number.eq_one_of_isOne_integer hz]
    rfl
  | number (.rational q), hz =>
    cases h
    exact Number.eq_one_of_isOne_rational hz
  | number (.float x), hz => cases h

/-- Equal numbers with a value are identical. -/
theorem eq_of_same_number {a b : Number} {v : Rat} (h : a.same b = true)
    (ha : exactNumber a = .ok v) : a = b := by
  cases a <;> cases b <;> first | cases h | cases ha
  · rw [beq_iff_eq.1 h]
  · rw [beq_iff_eq.1 h]

/-- **Equal expressions with a value are identical**: structural equality only identifies doubles
that differ, and a double has no value. -/
theorem eq_of_same {l : Expr} : ∀ {r : Expr} {v : Rat}, l.same r = true →
    l.exactValue s = .ok v → l = r := by
  induction l with
  | number a =>
    intro r v h hv
    cases r <;> first | cases h | exact congrArg number (eq_of_same_number h hv)
  | identifier a =>
    intro r v h _
    cases r <;> first | cases h | exact congrArg _ (by simpa [same] using h)
  | operation op a b iha ihb =>
    intro r v h hv
    cases r <;> try cases h
    rename_i op' a' b'
    simp only [same, Bool.and_eq_true, beq_iff_eq] at h
    obtain ⟨⟨rfl, ha⟩, hb⟩ := h
    -- a missing right operand has no value of its own, so it is compared by its shape
    cases hh : b.isHole with
    | false =>
      obtain ⟨x, y, hx, hy, _⟩ := (exactValue_operation_eq_ok hh).1 hv
      rw [iha ha hx, ihb hb hy]
    | true =>
      cases b <;> try cases hh
      by_cases hop : op = .sub
      · subst hop
        obtain ⟨x, hx, _⟩ := exactValue_negated_eq_ok.1 hv
        cases b' <;> try cases hb
        rw [iha ha hx]
      · exact absurd hv (exactValue_operation_hole hop)
  | call f a ih =>
    intro r v h hv
    cases r <;> try cases h
    simp only [same, Bool.and_eq_true, beq_iff_eq] at h
    obtain ⟨_, x, _, hx, _⟩ := exactValue_call_eq_ok.1 hv
    rw [h.1, ih h.2 hx]
  | ending p t ihp iht =>
    intro r v h hv
    cases r <;> try cases h
    simp only [same, Bool.and_eq_true] at h
    obtain ⟨_, x, y, _, hx, hy, _⟩ := exactValue_ending_eq_ok.1 hv
    rw [ihp h.1 hx, iht h.2 hy]
  | _ =>
    intro r v _ hv
    cases hv

end Expr

/-! ## Exact powers -/

namespace Rational

/-- **The power with a whole exponent** is the usual one, except that zero has positive powers
only. -/
theorem power_intCast_eq_ok {q v : Rat} {n : Int} :
    power q n = .ok v ↔ (q ≠ 0 ∨ 0 < n) ∧ q ^ n = v := by
  unfold power
  by_cases hq : q = 0
  · subst hq
    rcases lt_trichotomy n 0 with hn | rfl | hn
    · have h0 : (n : Rat) ≠ 0 := by exact_mod_cast hn.ne
      have h1 : (n : Rat) < 0 := by exact_mod_cast hn
      simp [h0, h1, hn.le]
    · simp
    · have h0 : (n : Rat) ≠ 0 := by exact_mod_cast hn.ne'
      have h1 : ¬ (n : Rat) < 0 := by exact_mod_cast not_lt.2 hn.le
      simp [h0, h1, hn, zero_zpow n hn.ne', eq_comm]
  · simp [hq, wholePower_eq]

/-- A power of a power multiplies whole exponents. -/
theorem power_power {q x v : Rat} {m n : Int} (hx : power q m = .ok x) (hv : power x n = .ok v) :
    power q (m * n : Int) = .ok v := by
  obtain ⟨hm, rfl⟩ := power_intCast_eq_ok.1 hx
  obtain ⟨hn, rfl⟩ := power_intCast_eq_ok.1 hv
  refine power_intCast_eq_ok.2 ⟨?_, zpow_mul q m n⟩
  by_cases hq : q = 0
  · subst hq
    have hm' : 0 < m := by simpa using hm
    have hn' : 0 < n := by simpa [zero_zpow m hm'.ne'] using hn
    exact Or.inr (mul_pos hm' hn')
  · exact Or.inl hq

end Rational

/-! ## Folding -/

namespace Simplify

open Formula.Expr

variable {s : Scope}

/-- A result is kept as the number it is. -/
theorem keep_eq_ok {r : Except Error Number} {e : Expr} (h : keep r = .ok e) :
    ∃ n, r = .ok n ∧ e = number n := by
  unfold keep at h
  split at h
  · rename_i n
    split at h
    · rename_i m hm
      cases h
      exact ⟨n, rfl, by rw [Number.eq_of_checked hm]⟩
    · cases h
  · cases h

/-- **Exact numbers combine by value**, in whatever place of the tower they meet. -/
theorem exactNumber_combine {f : Int → Int → Int} {g : Rat → Rat → Rat}
    {d : Double → Double → Double} (hfg : ∀ m n : Int, ((f m n : Int) : Rat) = g m n)
    {a b c : Number} {x y : Rat} (h : Number.combine f g d a b = .ok c)
    (ha : exactNumber a = .ok x) (hb : exactNumber b = .ok y) : exactNumber c = .ok (g x y) := by
  cases a <;> cases b <;> cases ha <;> cases hb <;> cases h
  · exact congrArg _ (hfg _ _)
  all_goals rfl

/-- Keeping the operation keeps its value. -/
theorem exactValue_operation {op : Operator} {l r : Expr} {x y v : Rat}
    (hl : l.exactValue s = .ok x) (hr : r.exactValue s = .ok y)
    (hv : exactArithmetic op x y = .ok v) : (operation op l r).exactValue s = .ok v :=
  (exactValue_operation_eq_ok (isHole_of_exactValue hr)).2 ⟨x, y, hl, hr, hv⟩

/-- **The simplified sum has the value of the sum.** -/
theorem exactValue_sum {l r e : Expr} {x y : Rat} (h : sum l r = .ok e)
    (hl : l.exactValue s = .ok x) (hr : r.exactValue s = .ok y) :
    e.exactValue s = .ok (x + y) := by
  unfold sum at h
  split at h
  · obtain ⟨n, hn, rfl⟩ := keep_eq_ok h
    exact exactNumber_combine Rat.intCast_add hn hl hr
  · split at h
    · rename_i hz
      cases h
      rw [eq_zero_of_isZero hz hl, zero_add, hr]
    · split at h
      · rename_i hz
        cases h
        rw [eq_zero_of_isZero hz hr, add_zero, hl]
      · cases h
        exact exactValue_operation hl hr rfl

/-- The simplified negation has the opposite value. -/
theorem exactValue_opposite {e : Expr} {x : Rat} (h : e.exactValue s = .ok x) :
    (opposite e).exactValue s = .ok (-x) := by
  unfold opposite
  split
  · obtain ⟨a, ha, rfl⟩ := exactValue_negated_eq_ok.1 h
    rw [ha, neg_neg]
  · rename_i n
    cases n <;> cases h
    · exact congrArg _ (Rat.intCast_neg _)
    · rfl
  · exact exactValue_negated_eq_ok.2 ⟨x, h, rfl⟩

/-- **The simplified difference has the value of the difference.** -/
theorem exactValue_difference {l r e : Expr} {x y : Rat} (h : difference l r = .ok e)
    (hl : l.exactValue s = .ok x) (hr : r.exactValue s = .ok y) :
    e.exactValue s = .ok (x - y) := by
  unfold difference at h
  split at h
  · obtain ⟨n, hn, rfl⟩ := keep_eq_ok h
    exact exactNumber_combine Rat.intCast_sub hn hl hr
  · split at h
    · rename_i hz
      cases h
      rw [eq_zero_of_isZero hz hr, sub_zero, hl]
    · split at h
      · rename_i hz
        cases h
        rw [eq_zero_of_isZero hz hl, zero_sub, exactValue_opposite hr]
      · split at h
        · rename_i hs
          obtain rfl := eq_of_same hs hl
          cases h
          cases hl.symm.trans hr
          rw [sub_self]
          rfl
        · cases h
          exact exactValue_operation hl hr rfl

/-- **The simplified product has the value of the product.** -/
theorem exactValue_product {l r e : Expr} {x y : Rat} (h : product l r = .ok e)
    (hl : l.exactValue s = .ok x) (hr : r.exactValue s = .ok y) :
    e.exactValue s = .ok (x * y) := by
  unfold product at h
  split at h
  · obtain ⟨n, hn, rfl⟩ := keep_eq_ok h
    exact exactNumber_combine Rat.intCast_mul hn hl hr
  · split at h
    · rename_i hz
      cases h
      have hxy : x * y = 0 := by
        rcases Bool.or_eq_true_iff.1 hz with hz | hz
        · rw [eq_zero_of_isZero hz hl, zero_mul]
        · rw [eq_zero_of_isZero hz hr, mul_zero]
      rw [hxy]
      rfl
    · split at h
      · rename_i ho
        cases h
        rw [eq_one_of_isOne ho hl, one_mul, hr]
      · split at h
        · rename_i ho
          cases h
          rw [eq_one_of_isOne ho hr, mul_one, hl]
        · cases h
          exact exactValue_operation hl hr rfl

/-- The quotient of exact numbers is exact. -/
theorem exactValue_numberQuotient {a b : Number} {e : Expr} {x y : Rat}
    (h : numberQuotient a b = .ok e) (ha : exactNumber a = .ok x) (hb : exactNumber b = .ok y) :
    e.exactValue s = .ok (x / y) := by
  cases a <;> cases b <;> cases ha <;> cases hb
  all_goals
    rw [numberQuotient] at h
    obtain ⟨n, hn, rfl⟩ := keep_eq_ok h
    cases hn
    rfl

/-- **The simplified quotient has the value of the quotient.** -/
theorem exactValue_quotient {l r e : Expr} {x y : Rat} (h : quotient l r = .ok e)
    (hl : l.exactValue s = .ok x) (hr : r.exactValue s = .ok y) (hy : y ≠ 0) :
    e.exactValue s = .ok (x / y) := by
  unfold quotient at h
  split at h
  · cases h
  · split at h
    · exact exactValue_numberQuotient h hl hr
    · split at h
      · rename_i hz
        cases h
        rw [eq_zero_of_isZero hz hl, zero_div]
        rfl
      · split at h
        · rename_i ho
          cases h
          rw [eq_one_of_isOne ho hr, div_one, hl]
        · split at h
          -- equal operands fold to one, which needs the divisor not to be zero
          · rename_i hs
            obtain rfl := eq_of_same hs hl
            cases h
            cases hl.symm.trans hr
            rw [div_self hy]
            rfl
          · cases h
            refine exactValue_operation hl hr ?_
            rw [exactArithmetic, if_neg hy]

/-- A folded power of an exact number is exact. -/
theorem exactValue_exactPower {b : Number} {q v : Rat} {n : Int} {wrap : Rat → Number} {e : Expr}
    (h : exactPower b q n wrap = .ok e) (hb : exactNumber b = .ok q)
    (hw : ∀ k : Nat, exactNumber (wrap (q ^ k)) = .ok (q ^ k)) (hv : Rational.power q n = .ok v) :
    e.exactValue s = .ok v := by
  have plain : (operation .pow (number b) (integer n)).exactValue s = .ok v :=
    exactValue_operation hb rfl hv
  unfold exactPower at h
  simp only at h
  split at h
  · split at h
    · cases h
    · cases h
      exact plain
  -- the exponent is not negative, so the power of naturals is the power of integers
  · rename_i hn
    split at h
    · obtain ⟨m, hm, rfl⟩ := keep_eq_ok h
      cases hm
      obtain ⟨_, rfl⟩ := Rational.power_intCast_eq_ok.1 hv
      have hq : q ^ n = q ^ n.natAbs := by
        rw [← zpow_natCast, Int.natAbs_of_nonneg (not_lt.1 hn)]
      rw [hq]
      exact hw _
    · cases h
      exact plain

/-- A folded power of numbers has the value of the power. -/
theorem exactValue_numberPower {a b : Number} {e : Expr} {x y v : Rat}
    (h : numberPower a b = .ok e) (ha : exactNumber a = .ok x) (hb : exactNumber b = .ok y)
    (hv : Rational.power x y = .ok v) : e.exactValue s = .ok v := by
  match a, b with
  | .integer m, .integer k =>
    cases ha
    cases hb
    rw [numberPower] at h
    refine exactValue_exactPower h rfl (fun j => ?_) hv
    rw [← Rat.intCast_pow]
    rfl
  | .rational q, .integer k =>
    cases ha
    cases hb
    exact exactValue_exactPower h rfl (fun j => rfl) hv
  | .integer _, .rational _ =>
    cases h
    exact exactValue_operation ha hb hv
  | .rational _, .rational _ =>
    cases h
    exact exactValue_operation ha hb hv
  | .float _, _ => cases ha
  | .integer _, .float _ => cases hb
  | .rational _, .float _ => cases hb

/-- **The simplified power has the value of the power.** -/
theorem exactValue_power {l r : Expr} : ∀ {e : Expr} {x y v : Rat}, power l r = .ok e →
    l.exactValue s = .ok x → r.exactValue s = .ok y → Rational.power x y = .ok v →
      e.exactValue s = .ok v := by
  -- along the nested powers that the definition unfolds
  fun_induction power l r with
  | case1 => exact fun h => by cases h
  | case2 l n hz =>
    intro e x y v h _ hr hv
    cases h
    obtain rfl : y = (0 : Int) := eq_zero_of_isZero (e := number n) hz hr
    obtain ⟨_, rfl⟩ := Rational.power_intCast_eq_ok.1 hv
    rw [zpow_zero]
    rfl
  | case3 l n _ ho =>
    intro e x y v h hl hr hv
    cases h
    obtain rfl : y = (1 : Int) := eq_one_of_isOne (e := number n) ho hr
    obtain ⟨_, rfl⟩ := Rational.power_intCast_eq_ok.1 hv
    rw [hl, zpow_one]
  | case4 n _ _ b =>
    intro e x y v h hl hr hv
    exact exactValue_numberPower h hl hr hv
  -- a power of a power folds to one with the product of the exponents
  | case5 e₀ a m _ _ ih =>
    intro e x y v h hl hr hv
    cases hr
    obtain ⟨x₀, _, hx₀, ha, hx⟩ := (exactValue_operation_eq_ok rfl).1 hl
    cases ha
    exact ih h hx₀ rfl (Rational.power_power hx hv)
  | case6 l n =>
    intro e x y v h hl hr hv
    cases h
    exact exactValue_operation hl hr hv
  | case7 l r =>
    intro e x y v h hl hr hv
    cases h
    exact exactValue_operation hl hr hv

/-- **Folding neither loses nor changes an exact value**: for operands with values, the simplified
operation has the value that the operator gives for them. -/
theorem exactValue_build {op : Operator} {l r e : Expr} {x y v : Rat} (h : build op l r = .ok e)
    (hl : l.exactValue s = .ok x) (hr : r.exactValue s = .ok y)
    (hv : exactArithmetic op x y = .ok v) : e.exactValue s = .ok v := by
  cases op with
  | add =>
    cases hv
    exact exactValue_sum h hl hr
  | sub =>
    cases hv
    rw [build, isHole_of_exactValue hr] at h
    exact exactValue_difference h hl hr
  | mul =>
    cases hv
    exact exactValue_product h hl hr
  | div =>
    rw [exactArithmetic] at hv
    split at hv
    · cases hv
    · rename_i hy
      cases hv
      exact exactValue_quotient h hl hr hy
  | pow => exact exactValue_power h hl hr hv
  | _ => cases hv

end Simplify

end Formula
