/-
# Derivatives of constants

An expression is constant in a variable that does not occur in it. Every rule of differentiation
then combines literal zeros, and folding collapses the rest: zeros add and subtract to zero, and
zero absorbs a finite factor and any divisor but zero and NaN. So **the derivative of a constant is
a number whose value is zero** (`isNought_of_derivative`), wherever it stands in the tower, and
never a formula that only has that value.
-/
import Formula.Proofs.Approximation
import Formula.Proofs.Promotion
import Formula.Proofs.WellFormed

namespace Formula

/-! ## Zeros among doubles -/

namespace Double

variable {x y : Double}

/-- **Zero over anything but zero and NaN is zero**, over infinities too. -/
theorem toRat?_div_zero (hx : x.toRat? = some 0) (hy : y.isZero = false) (hnan : y ≠ nan) :
    (x.div y).toRat? = some 0 := by
  cases y with
  | nan => exact absurd rfl hnan
  | infinity t =>
    obtain ⟨s, r, hr, rfl, -⟩ := exists_finite_of_toRat? hx
    rw [Double.div, toRat?_finite, magnitude_zero]
    cases s <;> cases t <;> simp [signed]
  | finite t w hw =>
    have hvalue := toRat?_finite t w hw
    have hne : signed t (magnitude w) ≠ 0 := by
      intro hzero
      rw [hzero] at hvalue
      rw [isZero, (eqv_iff_of_toRat? hvalue Double.toRat?_zero).2 Int.cast_zero.symm] at hy
      cases hy
    have hround := rounds_div hx hvalue hne
    rw [zero_div] at hround
    exact hround.toRat?_zero

/-- What is rounded is never NaN. -/
theorem ofUnits_ne_nan (s : Bool) (n d : Nat) : ofUnits s n d ≠ nan := by
  unfold ofUnits
  split <;> rintro ⟨⟩

/-- A finite double and any other than NaN add to another than NaN. -/
theorem add_ne_nan (hx : x.isFinite = true) (hy : y ≠ nan) : x.add y ≠ nan := by
  cases x <;> cases hx
  cases y with
  | nan => exact absurd rfl hy
  | infinity t => rintro ⟨⟩
  | finite t w hw => exact ofUnits_ne_nan _ _ _

end Double

/-! ## Zeros in the tower -/

namespace Number

variable {a b c : Number} {p q : Rat}

/-- **A number counts as zero exactly if its value is zero.** -/
theorem isZero_iff : a.isZero = true ↔ a.toRat? = some 0 := by
  refine ⟨fun h => by simpa using toRat?_of_eqv_integer h, fun h => ?_⟩
  cases a with
  | integer n =>
    have hn : (n : Rat) = 0 := Option.some.inj h
    rw [Int.cast_eq_zero.1 hn]
    rfl
  | rational q =>
    obtain rfl : q = 0 := Option.some.inj h
    rfl
  | float x => exact (isZero_float_iff h).2 rfl

/-- The double nearest to a number with a value has one, which is zero if that of the number is. -/
theorem exists_toRat?_of_toDouble {x : Double} (h : a.toDouble = .ok x) (ha : a.toRat? = some p) :
    ∃ X, x.toRat? = some X ∧ (p = 0 → X = 0) := by
  -- integers and rationals are rounded alike
  have hrational : ∀ q : Rat, (rational q).toDouble = .ok x →
      ∃ X, x.toRat? = some X ∧ (q = 0 → X = 0) := by
    intro q hq
    rw [toDouble, Double.ofRat?] at hq
    split at hq
    · rename_i hfinite
      obtain ⟨X, hX⟩ := Double.exists_toRat? hfinite
      obtain rfl : Double.ofRat q = x := Except.ok.inj hq
      refine ⟨X, hX, ?_⟩
      rintro rfl
      exact Option.some.inj (hX.symm.trans (Double.rounds_ofRat 0).toRat?_zero)
    · cases hq
  cases a with
  | integer n =>
    obtain rfl : (n : Rat) = p := Option.some.inj ha
    refine hrational n ?_
    rw [toDouble, Double.ofRat?, Double.ofRat_intCast]
    exact h
  | rational q =>
    obtain rfl : q = p := Option.some.inj ha
    exact hrational q h
  | float y =>
    obtain rfl : y = x := Except.ok.inj h
    exact ⟨p, ha, id⟩

/-- **Numbers that combine to zero whatever they round to** combine to a zero. -/
theorem toRat?_combine_zero {f : Int → Int → Int} {g : Rat → Rat → Rat}
    {d : Double → Double → Double} (hfg : ∀ m n : Int, ((f m n : Int) : Rat) = g m n)
    (hd : ∀ {x y X Y}, x.toRat? = some X → y.toRat? = some Y → (d x y).Rounds (g X Y))
    (h : combine f g d a b = .ok c) (ha : a.toRat? = some p) (hb : b.toRat? = some q)
    (hz : ∀ X Y, (p = 0 → X = 0) → (q = 0 → Y = 0) → g X Y = 0) : c.toRat? = some 0 := by
  have hexact : g p q = 0 := hz p q id id
  cases a <;> cases b <;> simp only [combine] at h
  case integer.integer m n =>
    cases ha
    cases hb
    cases h
    exact congrArg some ((hfg m n).trans hexact)
  case integer.rational | rational.integer | rational.rational =>
    cases ha
    cases hb
    cases h
    exact congrArg some hexact
  -- a double among the operands makes the result one
  all_goals
    obtain ⟨x, hx, h⟩ := bind_eq_ok.1 h
    obtain ⟨y, hy, h⟩ := bind_eq_ok.1 h
    obtain ⟨X, hX, hpX⟩ := exists_toRat?_of_toDouble hx ha
    obtain ⟨Y, hY, hqY⟩ := exists_toRat?_of_toDouble hy hb
    cases h
    have hround := hd hX hY
    rw [hz X Y hpX hqY] at hround
    exact hround.toRat?_zero

end Number

/-! ## Literal zeros -/

namespace Expr

variable {l r e d : Expr}

/-- **Whether an expression is a literal zero**: a number whose value is zero. -/
def IsNought (e : Expr) : Prop := ∃ n, e = number n ∧ n.toRat? = some 0

/-- Whether an expression is no infinite number and no NaN. -/
def Tame (e : Expr) : Prop := ∀ n, e = number n → ∃ q, n.toRat? = some q

/-- The integer zero is a literal zero. -/
theorem isNought_nought : nought.IsNought := ⟨_, rfl, rfl⟩

/-- Literal zeros are tame. -/
theorem IsNought.tame (h : e.IsNought) : e.Tame := by
  obtain ⟨n, rfl, hn⟩ := h
  rintro _ ⟨⟩
  exact ⟨0, hn⟩

/-- What is no number is tame. -/
theorem tame_of_isNumber (h : e.isNumber = false) : e.Tame := by
  rintro n rfl
  cases h

/-- Literal zeros count as zero. -/
theorem IsNought.isZero (h : e.IsNought) : e.isZero = true := by
  obtain ⟨n, rfl, hn⟩ := h
  exact Number.isZero_iff.2 hn

/-- Literal zeros vanish. -/
theorem IsNought.vanishes (h : e.IsNought) : e.vanishes = true := by
  obtain ⟨n, rfl, hn⟩ := h
  have hdouble : ∀ {x : Double}, x.toRat? = some 0 → x.isZero = true := fun hx =>
    (Number.isZero_float _).symm.trans (Number.isZero_iff.2 hx)
  cases n with
  | integer m =>
    have hm : (m : Rat) = 0 := Option.some.inj hn
    rw [Int.cast_eq_zero.1 hm]
    rfl
  | rational q =>
    obtain rfl : q = 0 := Option.some.inj hn
    show (Double.ofRat 0).isZero = true
    exact hdouble (Double.rounds_ofRat 0).toRat?_zero
  | float x => exact hdouble hn

end Expr

namespace Simplify

open Formula.Expr

variable {l r e : Expr}

/-- The sum of literal zeros is one. -/
theorem isNought_sum (hl : l.IsNought) (hr : r.IsNought) (h : sum l r = .ok e) : e.IsNought := by
  obtain ⟨a, rfl, ha⟩ := hl
  obtain ⟨b, rfl, hb⟩ := hr
  obtain ⟨c, hc, rfl⟩ := keep_eq_ok h
  refine ⟨c, rfl, Number.toRat?_combine_zero Int.cast_add Double.rounds_add hc ha hb ?_⟩
  intro X Y hX hY
  rw [hX rfl, hY rfl, add_zero]

/-- The difference of literal zeros is one. -/
theorem isNought_difference (hl : l.IsNought) (hr : r.IsNought) (h : difference l r = .ok e) :
    e.IsNought := by
  obtain ⟨a, rfl, ha⟩ := hl
  obtain ⟨b, rfl, hb⟩ := hr
  obtain ⟨c, hc, rfl⟩ := keep_eq_ok h
  refine ⟨c, rfl, Number.toRat?_combine_zero Int.cast_sub Double.rounds_sub hc ha hb ?_⟩
  intro X Y hX hY
  rw [hX rfl, hY rfl, sub_zero]

/-- The opposite of a literal zero is one. -/
theorem isNought_opposite (he : e.IsNought) : (opposite e).IsNought := by
  obtain ⟨n, rfl, hn⟩ := he
  refine ⟨n.neg, rfl, ?_⟩
  cases n with
  | integer m =>
    have hm : (m : Rat) = 0 := Option.some.inj hn
    rw [Int.cast_eq_zero.1 hm]
    rfl
  | rational q =>
    obtain rfl : q = 0 := Option.some.inj hn
    rfl
  | float x => rw [← neg_zero, ← Double.toRat?_neg hn]; rfl

/-- **A literal zero absorbs a tame factor.** -/
theorem isNought_product (hl : l.Tame) (hr : r.Tame) (hz : l.IsNought ∨ r.IsNought)
    (h : product l r = .ok e) : e.IsNought := by
  unfold product at h
  split at h
  · rename_i a b
    obtain ⟨p, hp⟩ := hl a rfl
    obtain ⟨q, hq⟩ := hr b rfl
    obtain ⟨c, hc, rfl⟩ := keep_eq_ok h
    refine ⟨c, rfl, Number.toRat?_combine_zero Int.cast_mul Double.rounds_mul hc hp hq ?_⟩
    intro X Y hX hY
    rcases hz with ⟨n, hn, hn0⟩ | ⟨n, hn, hn0⟩ <;> cases hn
    · rw [hX (Option.some.inj (hp.symm.trans hn0)), zero_mul]
    · rw [hY (Option.some.inj (hq.symm.trans hn0)), mul_zero]
  · have hzero : (l.isZero || r.isZero) = true := by
      rcases hz with hz | hz <;> simp [hz.isZero]
    rw [if_pos hzero] at h
    cases h
    exact isNought_nought

/-- A zero over a number that is neither zero nor NaN is zero. -/
theorem isNought_numberQuotient {a b : Number} (ha : a.toRat? = some 0) (hb : b ≠ .float .nan)
    (h : numberQuotient a b = .ok e) : e.IsNought := by
  cases a <;> cases b <;> simp only [numberQuotient] at h
  case integer.integer m _ | integer.rational m _ =>
    obtain ⟨c, hc, rfl⟩ := keep_eq_ok h
    cases hc
    have hm : (m : Rat) = 0 := Option.some.inj ha
    exact ⟨_, rfl, congrArg some (by rw [hm, zero_div])⟩
  case rational.integer p _ | rational.rational p _ =>
    obtain ⟨c, hc, rfl⟩ := keep_eq_ok h
    cases hc
    obtain rfl : p = 0 := Option.some.inj ha
    exact ⟨_, rfl, congrArg some (zero_div _)⟩
  -- a double among the numbers makes the quotient one
  all_goals
    obtain ⟨x, hx, h⟩ := bind_eq_ok.1 h
    obtain ⟨y, hy, h⟩ := bind_eq_ok.1 h
    obtain ⟨X, hX, hzero⟩ := Number.exists_toRat?_of_toDouble hx ha
    rw [hzero rfl] at hX
    split at h
    · cases h
    · rename_i hy0
      cases h
      refine ⟨_, rfl, Double.toRat?_div_zero hX (Bool.eq_false_iff.2 hy0) ?_⟩
      rintro rfl
      first
        | exact hb (congrArg Number.float (Except.ok.inj hy))
        | obtain ⟨Y, hY, -⟩ := Number.exists_toRat?_of_toDouble hy rfl
          cases hY

/-- **A literal zero absorbs a divisor** that is not NaN. -/
theorem isNought_quotient (hl : l.IsNought) (hr : r ≠ float .nan) (h : quotient l r = .ok e) :
    e.IsNought := by
  unfold quotient at h
  split at h
  · cases h
  · split at h
    · obtain ⟨a, ha, ha0⟩ := hl
      cases ha
      exact isNought_numberQuotient ha0 (fun hnan => hr (congrArg number hnan)) h
    · rw [if_pos hl.isZero] at h
      cases h
      exact isNought_nought

end Simplify

namespace Expr

open Simplify

variable {l r e d t arg inner : Expr} {x name : String}

/-! ## Expressions that are constant in a variable -/

/-- Whether all doubles in an expression are finite. -/
def FiniteDoubles (e : Expr) : Prop := ∀ y, float y ∈ e.parts → y.isFinite = true

/-- **Whether an expression is constant in a variable**: the variable does not occur, nor does the
constant NaN, and all doubles are finite. -/
structure ConstantIn (x : String) (e : Expr) : Prop where
  absent : identifier x ∉ e.parts
  defined : constant "NAN" ∉ e.parts
  finite : e.FiniteDoubles

/-- What is part of a constant expression is constant. -/
theorem ConstantIn.of_parts (h : e.ConstantIn x) (hp : ∀ p ∈ t.parts, p ∈ e.parts) :
    t.ConstantIn x :=
  ⟨fun hx => h.absent (hp _ hx), fun hx => h.defined (hp _ hx), fun y hy => h.finite y (hp _ hy)⟩

/-- The operands of a constant operation are constant. -/
theorem ConstantIn.operands {op : Operator} (h : (operation op l r).ConstantIn x) :
    l.ConstantIn x ∧ r.ConstantIn x := by
  refine ⟨h.of_parts fun p hp => ?_, h.of_parts fun p hp => ?_⟩
  · exact List.mem_cons_of_mem _ (List.mem_append_left _ hp)
  · exact List.mem_cons_of_mem _ (List.mem_append_right _ hp)

/-- A finite double is not NaN. -/
theorem FiniteDoubles.ne_nan (h : e.FiniteDoubles) : e ≠ float .nan := by
  rintro rfl
  cases h .nan (mem_parts_self _)

/-- Expressions with finite doubles are tame. -/
theorem FiniteDoubles.tame (h : e.FiniteDoubles) : e.Tame := by
  rintro n rfl
  cases n with
  | integer m => exact ⟨m, rfl⟩
  | rational q => exact ⟨q, rfl⟩
  | float y => exact Double.exists_toRat? (h y (mem_parts_self _))

/-- The operands of an operation with finite doubles have finite doubles. -/
theorem FiniteDoubles.left {op : Operator} (h : (operation op l r).FiniteDoubles) :
    l.FiniteDoubles :=
  fun y hy => h y (List.mem_cons_of_mem _ (List.mem_append_left _ hy))

/-! ## Divisors of the rules -/

/-- Powers of numbers are not NaN. -/
theorem ne_nan_of_numberPower {b n : Number} (h : numberPower b n = .ok e) : e ≠ float .nan := by
  rintro rfl
  unfold numberPower at h
  split at h
  -- an exact power stands in the place of its base
  · rcases rank_of_exactPower h fun _ => rfl with he | ⟨c, he, hrank⟩ <;> cases he
    cases hrank
  · rcases rank_of_exactPower h fun _ => rfl with he | ⟨c, he, hrank⟩ <;> cases he
    cases hrank
  · cases h
  · cases h
  · have hpower := Except.ok.inj h
    unfold floatPower at hpower
    dsimp only at hpower
    split at hpower
    · split at hpower
      · split at hpower
        · rename_i hfinite
          cases hpower
          cases hfinite
        · cases hpower
      · cases hpower
    · cases hpower

/-- **Powers of expressions with finite doubles are not NaN.** -/
theorem FiniteDoubles.ne_nan_of_power (hl : l.FiniteDoubles) (hr : r.isNumber = true)
    (h : power l r = .ok e) : e ≠ float .nan := by
  -- along the nested powers that the definition unfolds
  fun_induction power l r with
  | case1 => cases h
  | case2 =>
    cases h
    rintro ⟨⟩
  | case3 =>
    cases h
    exact hl.ne_nan
  | case4 => exact ne_nan_of_numberPower h
  | case5 e₀ a m _ _ ih => exact ih hl.left rfl h
  | case6 =>
    cases h
    rintro ⟨⟩
  | case7 =>
    cases h
    rintro ⟨⟩

/-- One combines with any number but NaN to another number than NaN. -/
theorem ne_nan_of_combine_one {f : Int → Int → Int} {g : Rat → Rat → Rat}
    {op : Double → Double → Double} {b c : Number}
    (hop : ∀ x y : Double, x.isFinite = true → y ≠ .nan → op x y ≠ .nan)
    (hb : b ≠ .float .nan) (h : Number.combine f g op (.integer 1) b = .ok c) : c ≠ .float .nan := by
  cases b <;> simp only [Number.combine] at h
  case integer | rational =>
    cases h
    rintro ⟨⟩
  case float y =>
    obtain ⟨x, hx, h⟩ := bind_eq_ok.1 h
    obtain ⟨X, hX, -⟩ := Number.exists_toRat?_of_toDouble hx rfl
    cases h
    intro hnan
    refine hop x y (Double.isFinite_of_toRat? hX) ?_ (Number.float.inj hnan)
    rintro rfl
    exact hb rfl

/-- A number but NaN and one more is another number than NaN. -/
theorem ne_nan_of_sum_unit (he : e ≠ float .nan) (h : sum unit e = .ok d) : d ≠ float .nan := by
  unfold sum at h
  split at h
  · rename_i a b ha
    cases ha
    obtain ⟨c, hc, rfl⟩ := keep_eq_ok h
    have hb : b ≠ .float .nan := fun hnan => he (congrArg number hnan)
    exact fun hnan => ne_nan_of_combine_one (fun _ _ => Double.add_ne_nan) hb hc
      (Expr.number.inj hnan)
  · split_ifs at h <;> cases h
    · exact he
    · rintro ⟨⟩
    · rintro ⟨⟩

/-- One less a number but NaN is another number than NaN. -/
theorem ne_nan_of_unit_difference (he : e ≠ float .nan) (h : difference unit e = .ok d) :
    d ≠ float .nan := by
  unfold difference at h
  split at h
  · rename_i a b ha
    cases ha
    obtain ⟨c, hc, rfl⟩ := keep_eq_ok h
    have hb : b ≠ .float .nan := fun hnan => he (congrArg number hnan)
    have hsub : ∀ x y : Double, x.isFinite = true → y ≠ .nan → x.sub y ≠ .nan := by
      intro x y hx hy
      refine Double.add_ne_nan hx ?_
      cases y with
      | nan => exact absurd rfl hy
      | _ => simp [Double.neg]
    exact fun hnan => ne_nan_of_combine_one hsub hb hc (Expr.number.inj hnan)
  · split_ifs at h with _ hunit <;> cases h
    · rintro ⟨⟩
    · cases hunit
    · rintro ⟨⟩
    · rintro ⟨⟩

/-- A product of a factor that is no number and one that is not NaN is not NaN. -/
theorem ne_nan_of_product (hl : l.isNumber = false) (hr : r ≠ float .nan)
    (h : product l r = .ok d) : d ≠ float .nan := by
  unfold product at h
  split at h
  · cases hl
  · split_ifs at h <;> cases h
    · rintro ⟨⟩
    · exact hr
    · rintro rfl
      cases hl
    · rintro ⟨⟩

/-! ## The chain rule -/

/-- **What the chain rule does with the derivative inside**: it multiplies it with an expression that
is no number, or divides it or its opposite by an expression that is not NaN. -/
theorem chain_cases (ha : arg.FiniteDoubles) (h : chain name arg inner = .ok d) :
    (∃ outer, outer.isNumber = false ∧ product inner outer = .ok d) ∨
      ∃ divisor, divisor ≠ float .nan ∧
        (ratio inner divisor = .ok d ∨ ratio (opposite inner) divisor = .ok d) := by
  have hsquare : ∀ {s : Expr}, square arg = .ok s → s ≠ float .nan := fun hs =>
    ha.ne_nan_of_power rfl hs
  have hplus : ∀ {s : Expr}, onePlusSquare arg = .ok s → s ≠ float .nan := by
    intro s hs
    obtain ⟨p, hp, hs⟩ := bind_eq_ok.1 hs
    exact ne_nan_of_sum_unit (hsquare hp) hs
  have hminus : ∀ {s : Expr}, oneMinusSquare arg = .ok s → s ≠ float .nan := by
    intro s hs
    obtain ⟨p, hp, hs⟩ := bind_eq_ok.1 hs
    exact ne_nan_of_unit_difference (hsquare hp) hs
  unfold chain at h
  dsimp only at h
  split at h
  -- circular functions of radians and of degrees
  case h_1 | h_2 | h_3 | h_4 | h_5 | h_6 | h_7 | h_8 => exact .inl ⟨_, rfl, h⟩
  -- inverse circular functions
  case h_9 =>
    obtain ⟨s, -, h⟩ := bind_eq_ok.1 h
    exact .inr ⟨call "sqrt" s, (by rintro ⟨⟩), .inl h⟩
  case h_10 =>
    obtain ⟨s, -, h⟩ := bind_eq_ok.1 h
    exact .inr ⟨call "sqrt" s, (by rintro ⟨⟩), .inr h⟩
  case h_11 =>
    obtain ⟨s, hs, h⟩ := bind_eq_ok.1 h
    exact .inr ⟨s, hplus hs, .inl h⟩
  case h_12 =>
    obtain ⟨s, hs, h⟩ := bind_eq_ok.1 h
    exact .inr ⟨s, hplus hs, .inr h⟩
  -- the exponential, logarithms and the square root
  case h_13 => exact .inl ⟨_, rfl, h⟩
  case h_14 | h_15 => exact .inr ⟨arg, ha.ne_nan, .inl h⟩
  case h_16 =>
    obtain ⟨s, hs, h⟩ := bind_eq_ok.1 h
    exact .inr ⟨s, ne_nan_of_product rfl ha.ne_nan hs, .inl h⟩
  case h_17 => exact .inr ⟨operation .mul (integer 2) (call "sqrt" arg), (by rintro ⟨⟩), .inl h⟩
  -- hyperbolic functions and their inverses
  case h_18 | h_19 | h_20 | h_21 => exact .inl ⟨_, rfl, h⟩
  case h_22 | h_23 =>
    obtain ⟨s, -, h⟩ := bind_eq_ok.1 h
    obtain ⟨s', -, h⟩ := bind_eq_ok.1 h
    exact .inr ⟨call "sqrt" s', (by rintro ⟨⟩), .inl h⟩
  case h_24 | h_25 =>
    obtain ⟨s, hs, h⟩ := bind_eq_ok.1 h
    exact .inr ⟨s, hminus hs, .inl h⟩
  -- the magnitude, and names without a rule
  case h_26 => exact .inl ⟨_, rfl, h⟩
  case h_27 => cases h

/-- A literal zero over an expression that is not NaN is a literal zero. -/
theorem isNought_ratio (hl : l.IsNought) (hr : r ≠ float .nan) (h : ratio l r = .ok d) :
    d.IsNought := by
  unfold ratio at h
  split at h
  -- a number is never taken for a part that cancels
  · rename_i hself
    obtain ⟨rfl, hnumber⟩ := hself
    obtain ⟨n, rfl, -⟩ := hl
    cases hnumber
  · exact isNought_quotient hl hr h

/-- **A literal zero inside gives a literal zero** by the chain rule. -/
theorem isNought_chain (ha : arg.FiniteDoubles) (hi : inner.IsNought)
    (h : chain name arg inner = .ok d) : d.IsNought := by
  rcases chain_cases ha h with ⟨outer, houter, h⟩ | ⟨divisor, hdivisor, h | h⟩
  · exact isNought_product hi.tame (tame_of_isNumber houter) (.inl hi) h
  · exact isNought_ratio hi hdivisor h
  · exact isNought_ratio (isNought_opposite hi) hdivisor h

/-! ## Powers and quotients -/

/-- The rules for powers give a literal zero where the derivatives inside are literal zeros. -/
theorem isNought_exponentialRule {l' r' : Expr} (hl' : l'.IsNought) (hr' : r'.IsNought)
    (h : exponentialRule l r l' r' = .ok d) : d.IsNought := by
  have hwhole : (operation .pow l r).Tame := tame_of_isNumber rfl
  unfold exponentialRule at h
  dsimp only at h
  split at h
  · exact isNought_product hr'.tame hwhole (.inl hr') h
  · obtain ⟨log, hlog, h⟩ := bind_eq_ok.1 h
    have hzero : log.IsNought :=
      isNought_product hr'.tame (tame_of_isNumber rfl) (.inl hr') hlog
    rw [if_pos hl'.vanishes] at h
    exact isNought_product hwhole hzero.tame (.inr hzero) h

/-- The numerator of the rule for quotients is a literal zero where the derivatives inside are. -/
theorem isNought_crossDifference {l' r' : Expr} (hl : l.Tame) (hr : r.Tame) (hl' : l'.IsNought)
    (hr' : r'.IsNought) (h : crossDifference l r l' r' = .ok d) : d.IsNought := by
  obtain ⟨left, hleft, h⟩ := bind_eq_ok.1 h
  obtain ⟨right, hright, h⟩ := bind_eq_ok.1 h
  split at h
  · cases h
    exact isNought_nought
  · exact isNought_difference (isNought_product hl'.tame hr (.inl hl') hleft)
      (isNought_product hl hr'.tame (.inr hr') hright) h

/-! ## Derivatives -/

/-- **The derivative of a constant is a literal zero.** -/
theorem isNought_of_derivative (ht : t.ConstantIn x) (h : t.derivative x = .ok d) :
    d.IsNought := by
  -- induction on the expression: each rule combines the literal zeros of the operands
  induction t generalizing d with
  | number n =>
    cases h
    exact isNought_nought
  | constant name =>
    have hname : name ≠ "NAN" := by
      rintro rfl
      exact ht.defined (mem_parts_self _)
    rw [derivative, if_neg hname] at h
    cases h
    exact isNought_nought
  | identifier name =>
    have hname : name ≠ x := by
      rintro rfl
      exact ht.absent (mem_parts_self _)
    rw [derivative, if_neg hname] at h
    cases h
    exact isNought_nought
  | operation op l r ihl ihr =>
    obtain ⟨hl, hr⟩ := ht.operands
    unfold derivative at h
    split at h
    · cases h
    · cases op
      case add =>
        obtain ⟨l', hl', h⟩ := bind_eq_ok.1 h
        obtain ⟨r', hr', h⟩ := bind_eq_ok.1 h
        exact isNought_sum (ihl hl hl') (ihr hr hr') h
      case sub =>
        dsimp only at h
        split at h
        · obtain ⟨l', hl', h⟩ := bind_eq_ok.1 h
          cases h
          exact isNought_opposite (ihl hl hl')
        · obtain ⟨l', hl', h⟩ := bind_eq_ok.1 h
          obtain ⟨r', hr', h⟩ := bind_eq_ok.1 h
          exact isNought_difference (ihl hl hl') (ihr hr hr') h
      case mul =>
        obtain ⟨r', hr', h⟩ := bind_eq_ok.1 h
        obtain ⟨right, hright, h⟩ := bind_eq_ok.1 h
        obtain ⟨l', hl', h⟩ := bind_eq_ok.1 h
        obtain ⟨left, hleft, h⟩ := bind_eq_ok.1 h
        have hzeroR := ihr hr hr'
        have hzeroL := ihl hl hl'
        exact isNought_sum (isNought_product hl.finite.tame hzeroR.tame (.inr hzeroR) hright)
          (isNought_product hzeroL.tame hr.finite.tame (.inl hzeroL) hleft) h
      case div =>
        obtain ⟨l', hl', h⟩ := bind_eq_ok.1 h
        obtain ⟨r', hr', h⟩ := bind_eq_ok.1 h
        obtain ⟨numerator, hnumerator, h⟩ := bind_eq_ok.1 h
        obtain ⟨divisor, hdivisor, h⟩ := bind_eq_ok.1 h
        exact isNought_quotient
          (isNought_crossDifference hl.finite.tame hr.finite.tame (ihl hl hl') (ihr hr hr') hnumerator)
          (hr.finite.ne_nan_of_power rfl hdivisor) h
      case pow =>
        obtain ⟨l', hl', h⟩ := bind_eq_ok.1 h
        split at h
        · rw [powerRule, if_pos (ihl hl hl').vanishes] at h
          cases h
          exact isNought_nought
        · obtain ⟨r', hr', h⟩ := bind_eq_ok.1 h
          exact isNought_exponentialRule (ihl hl hl') (ihr hr hr') h
      -- relations and connectives have no derivative
      all_goals cases h
  | call name a ih =>
    obtain ⟨inner, hinner, h⟩ := bind_eq_ok.1 h
    have ha : a.ConstantIn x := ht.of_parts fun p hp => List.mem_cons_of_mem _ hp
    exact isNought_chain ha.finite (ih ha hinner) h
  | hole | boolean | literal | conditional | ending | mark | closer => cases h

/-- The derivative of a constant with a double, a function of an integer and another variable. -/
theorem isNought_of_derivative_product :
    let half : Double := .finite false (1022 * 2 ^ 52) (by decide)
    let t : Expr := operation .add (operation .mul (float half) (identifier "y"))
      (operation .pow (call "arctan" (integer 3)) (constant "pi"))
    t.ConstantIn "x" ∧ t.derivative "x" = .ok (float .zero) ∧ (float .zero).IsNought := by
  intro half t
  have ht : t.ConstantIn "x" := by
    refine ⟨by decide, by decide, fun y hy => ?_⟩
    obtain rfl : y = half := by simpa [t, parts] using hy
    rfl
  have hd : t.derivative "x" = .ok (float .zero) := by decide +kernel
  exact ⟨ht, hd, isNought_of_derivative ht hd⟩

end Expr

end Formula
