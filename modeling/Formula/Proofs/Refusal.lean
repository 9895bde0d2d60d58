/-
# Errors of simplification

A simplifying constructor refuses its operands for two reasons only: the operator has no value for
them, which is a division by zero or the form `0^0`, or a number leaves the range of doubles
(`refused_of_build`).
-/
import Formula.Proofs.Folding

namespace Formula

/-! ## Kinds of errors -/

namespace Error

/-- Whether an operator has no value for its operands. -/
def isIntrinsic : Error → Bool
  | divisionByZero _ | undefinedPower => true
  | _ => false

/-- Whether a number leaves the range of doubles: it is too large for one, or so small that it is
a floating zero where none may be. -/
def leavesRange : Error → Bool
  | overflow | uncheckedZero => true
  | _ => false

end Error

/-- Conversions to doubles only overflow. -/
theorem Number.toDouble_eq_error {n : Number} {x : Error} (h : n.toDouble = .error x) :
    x = .overflow := by
  cases n with
  | integer k =>
    rw [toDouble] at h
    cases hk : Double.ofInt? k <;> rw [hk] at h <;> cases h
    rfl
  | rational q =>
    rw [toDouble] at h
    cases hq : Double.ofRat? q <;> rw [hq] at h <;> cases h
    rfl
  | float y => cases h

namespace Simplify

open Formula.Expr

/-! ## Operands that are refused -/

/-- **Whether two numbers are too large to be folded**: one of them has no finite double, or their
exact result has none. -/
def TooLarge (op : Operator) (a b : Number) : Prop :=
  a.toDouble = .error .overflow ∨ b.toDouble = .error .overflow ∨
    ∃ p q v, exactNumber a = .ok p ∧ exactNumber b = .ok q ∧ exactArithmetic op p q = .ok v ∧
      (Double.ofRat v).isFinite = false

/-- **Why operands are refused**, and the error that says so. -/
inductive Refused : Operator → Expr → Expr → Error → Prop where
  /-- The divisor is zero. -/
  | divisor {l r : Expr} : r.isZero = true → Refused .div l r (.divisionByZero "/")
  /-- The base and the exponent are zero. -/
  | zeroPower {a b : Number} : a.isZero = true → b.isZero = true →
      Refused .pow (number a) (number b) .undefinedPower
  /-- The base is zero and the exponent is negative. -/
  | negativePower {a : Number} {n : Int} : a.isZero = true → n < 0 →
      Refused .pow (number a) (integer n) (.divisionByZero "^")
  /-- The exponents of a power of a power multiply before the base is looked at. -/
  | tower {e : Expr} {m n : Int} {x : Error} : Refused .pow e (integer (m * n)) x →
      Refused .pow (operation .pow e (integer m)) (integer n) x
  /-- A number is too large. -/
  | tooLarge {op : Operator} {a b : Number} : TooLarge op a b →
      Refused op (number a) (number b) .overflow
  /-- The double of a divisor that is not zero is zero. -/
  | vanishing {a b : Number} {y : Double} : b.isZero = false → b.toDouble = .ok y →
      y.isZero = true → Refused .div (number a) (number b) .uncheckedZero

variable {op : Operator} {l r : Expr} {a b : Number} {x : Error}

/-- **Operands are refused** because the operator has no value for them, or because a number leaves
the range of doubles. -/
theorem Refused.isIntrinsic_or_leavesRange (h : Refused op l r x) :
    x.isIntrinsic = true ∨ x.leavesRange = true := by
  induction h with
  | divisor => exact .inl rfl
  | zeroPower => exact .inl rfl
  | negativePower => exact .inl rfl
  | tower _ ih => exact ih
  | tooLarge => exact .inr rfl
  | vanishing => exact .inr rfl

/-! ## Numbers -/

/-- Numbers that are not kept: the computation fails, or its result is a rational without a finite
double. -/
theorem keep_eq_error {y : Except Error Number} (h : keep y = .error x) :
    y = .error x ∨ x = .overflow ∧
      ∃ q, y = .ok (.rational q) ∧ (Double.ofRat q).isFinite = false := by
  cases y with
  | error z =>
    cases h
    exact .inl rfl
  | ok n =>
    cases n with
    | rational q =>
      rw [keep, Number.checked] at h
      cases hq : (Double.ofRat q).isFinite with
      | true =>
        rw [if_pos hq] at h
        cases h
      | false =>
        rw [if_neg (Bool.eq_false_iff.1 hq)] at h
        cases h
        exact .inr ⟨rfl, q, rfl, hq⟩
    | _ => cases h

/-- Numbers whose exact result is not kept are refused. -/
theorem refused_of_keep {p q v : Rat} (ha : exactNumber a = .ok p) (hb : exactNumber b = .ok q)
    (hv : exactArithmetic op p q = .ok v) (h : keep (.ok (.rational v)) = .error x) :
    Refused op (number a) (number b) x := by
  rcases keep_eq_error h with h | ⟨rfl, w, hw, hfinite⟩
  · cases h
  · cases hw
    exact .tooLarge (.inr (.inr ⟨p, q, v, ha, hb, hv, hfinite⟩))

/-- Numbers are refused when one of them has no double, or by the computation on their doubles. -/
theorem refused_of_bind {α : Type} {f : Double → Double → Except Error α}
    (h : (do let p ← a.toDouble; let q ← b.toDouble; f p q) = .error x) :
    Refused op (number a) (number b) x ∨ ∃ p q, b.toDouble = .ok q ∧ f p q = .error x := by
  cases ha : a.toDouble with
  | error y =>
    rw [ha] at h
    cases h
    obtain rfl := Number.toDouble_eq_error ha
    exact .inl (.tooLarge (.inl ha))
  | ok p =>
    cases hb : b.toDouble with
    | error y =>
      rw [ha, hb] at h
      cases h
      obtain rfl := Number.toDouble_eq_error hb
      exact .inl (.tooLarge (.inr (.inl hb)))
    | ok q =>
      rw [ha, hb] at h
      exact .inr ⟨p, q, rfl, h⟩

/-- Numbers that do not combine are refused. -/
theorem refused_of_combine {f : Int → Int → Int} {g : Rat → Rat → Rat}
    {d : Double → Double → Double} (hop : ∀ p q, exactArithmetic op p q = .ok (g p q))
    (h : keep (Number.combine f g d a b) = .error x) : Refused op (number a) (number b) x := by
  unfold Number.combine at h
  split at h
  · cases h
  · exact refused_of_keep rfl rfl (hop _ _) h
  · exact refused_of_keep rfl rfl (hop _ _) h
  · exact refused_of_keep rfl rfl (hop _ _) h
  · rcases keep_eq_error h with h | ⟨-, q, hq, -⟩
    · rcases refused_of_bind h with h | ⟨_, _, _, h⟩
      · exact h
      · cases h
    · -- a computation on doubles yields a double
      obtain ⟨_, -, hq⟩ := bind_eq_ok.1 hq
      obtain ⟨_, -, hq⟩ := bind_eq_ok.1 hq
      cases hq

/-- The exact value of a number that is not zero. -/
theorem ne_zero_of_exactNumber {q : Rat} (hb : exactNumber b = .ok q) (h : b.isZero = false) :
    q ≠ 0 := by
  rintro rfl
  cases b with
  | integer n =>
    obtain rfl : n = 0 := by exact_mod_cast Except.ok.inj hb
    cases h
  | rational q =>
    obtain rfl : q = 0 := Except.ok.inj hb
    cases h
  | float x => cases hb

/-- Numbers that do not divide are refused. -/
theorem refused_of_numberQuotient (hz : b.isZero = false) (h : numberQuotient a b = .error x) :
    Refused .div (number a) (number b) x := by
  have hexact : ∀ {p q : Rat}, exactNumber a = .ok p → exactNumber b = .ok q →
      keep (.ok (.rational (p / q))) = .error x → Refused .div (number a) (number b) x :=
    fun ha hb h => refused_of_keep ha hb (if_neg (ne_zero_of_exactNumber hb hz)) h
  unfold numberQuotient at h
  split at h
  · exact hexact rfl rfl h
  · exact hexact rfl rfl h
  · exact hexact rfl rfl h
  · exact hexact rfl rfl h
  · rcases refused_of_bind h with h | ⟨_, y, hy, h⟩
    · exact h
    · split at h
      · rename_i hzero
        cases h
        exact .vanishing hz hy hzero
      · cases h

/-- A power of an exact number that does not fold is refused. -/
theorem refused_of_exactPower {q : Rat} {n : Int} {wrap : Rat → Number}
    (hb : exactNumber b = .ok q) (hn : n ≠ 0)
    (hwrap : ∀ v, wrap v = .integer v.num ∨ wrap v = .rational v)
    (h : exactPower b q n wrap = .error x) : Refused .pow (number b) (integer n) x := by
  unfold exactPower at h
  dsimp only at h
  split_ifs at h with hneg hzero
  · cases h
    refine .negativePower ?_ hneg
    by_contra hz
    exact ne_zero_of_exactNumber hb (Bool.not_eq_true _ ▸ hz) hzero
  · have hpower : q ^ n = q ^ n.natAbs := by
      rw [← zpow_natCast, Int.natAbs_of_nonneg (not_lt.1 hneg)]
    have hv : exactArithmetic .pow q n = .ok (q ^ n.natAbs) :=
      Rational.power_intCast_eq_ok.2 ⟨.inr (lt_of_le_of_ne (not_lt.1 hneg) hn.symm), hpower⟩
    rcases hwrap (q ^ n.natAbs) with hw | hw
    · -- an integer is kept whatever its size
      rw [hw] at h
      cases h
    · rw [hw] at h
      exact refused_of_keep hb rfl hv h

/-- Powers of numbers that do not fold are refused. -/
theorem refused_of_numberPower (hz : b.isZero = false) (h : numberPower a b = .error x) :
    Refused .pow (number a) (number b) x := by
  have hne : ∀ {n : Int}, b = .integer n → n ≠ 0 := by
    rintro n rfl rfl
    cases hz
  unfold numberPower at h
  split at h
  · exact refused_of_exactPower rfl (hne rfl) (fun _ => .inl rfl) h
  · exact refused_of_exactPower rfl (hne rfl) (fun _ => .inr rfl) h
  · cases h
  · cases h
  · cases h

/-! ## Simplifying constructors -/

/-- Operands without a sum are refused. -/
theorem refused_of_sum (h : sum l r = .error x) : Refused .add l r x := by
  unfold sum at h
  split at h
  · exact refused_of_combine (fun _ _ => rfl) h
  · split_ifs at h

/-- Operands without a difference are refused. -/
theorem refused_of_difference (h : difference l r = .error x) : Refused .sub l r x := by
  unfold difference at h
  split at h
  · exact refused_of_combine (fun _ _ => rfl) h
  · split_ifs at h

/-- Operands without a product are refused. -/
theorem refused_of_product (h : product l r = .error x) : Refused .mul l r x := by
  unfold product at h
  split at h
  · exact refused_of_combine (fun _ _ => rfl) h
  · split_ifs at h

/-- Operands without a quotient are refused. -/
theorem refused_of_quotient (h : quotient l r = .error x) : Refused .div l r x := by
  unfold quotient at h
  split at h
  · rename_i hz
    cases h
    exact .divisor hz
  · rename_i hz
    split at h
    · exact refused_of_numberQuotient (Bool.not_eq_true _ ▸ hz) h
    · split_ifs at h

/-- Operands without a power are refused. -/
theorem refused_of_power (h : power l r = .error x) : Refused .pow l r x := by
  -- along the nested powers that the definition unfolds
  fun_induction power l r with
  | case1 l n hn hl =>
    cases h
    cases l with
    | number a => exact .zeroPower hl hn
    | _ => cases hl
  | case2 => cases h
  | case3 => cases h
  | case4 _ _ hn => exact refused_of_numberPower (Bool.not_eq_true _ ▸ hn) h
  | case5 _ _ _ _ _ ih => exact .tower (ih h)
  | case6 => cases h
  | case7 => cases h

/-- **Every simplifying constructor that fails** refuses its operands. -/
theorem refused_of_build (h : build op l r = .error x) : Refused op l r x := by
  cases op with
  | add => exact refused_of_sum h
  | sub =>
    rw [build] at h
    split at h
    · cases h
    · exact refused_of_difference h
  | mul => exact refused_of_product h
  | div => exact refused_of_quotient h
  | pow => exact refused_of_power h
  | _ => cases h

end Simplify

end Formula
