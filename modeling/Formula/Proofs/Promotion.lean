/-
# Promotion along the tower of numbers

Two numbers fold to a number in the least general place that covers both, and a quotient is a
rational at least. **This is so for every fold but that of a power with the exponent zero or one**
(`rank_of_fold`): such a power is answered before its operands are compared, by the integer one
whatever they are, and by the base where it stands.
-/
import Formula.Proofs.Folding

namespace Formula

namespace Number

/-! ## Places -/

/-- **The place that two numbers are to fold to**: the more general of theirs, and behind the
integers for a quotient. -/
def promotedRank (op : Operator) (a b : Number) : Nat :=
  match op with
  | .div => max (max a.rank b.rank) 1
  | _ => max a.rank b.rank

/-- The place of what two numbers are folded to. -/
def foldedRank (op : Operator) (a b : Number) : Nat :=
  match op with
  | .pow => if b.isZero then 0 else if b.isOne then a.rank else max a.rank b.rank
  | op => promotedRank op a b

/-- **Whether a fold misses its place**: a power with the exponent zero whose operands are not both
integers, or with the exponent one in a place above the base. -/
def missesRank (op : Operator) (a b : Number) : Bool :=
  match op with
  | .pow => b.isZero && decide (0 < max a.rank b.rank) || b.isOne && decide (a.rank < b.rank)
  | _ => false

variable {op : Operator} {a b c : Number}

/-- A number that equals an integer has its value. -/
theorem toRat?_of_eqv_integer {n : Int} (h : b.eqv (integer n) = true) :
    b.toRat? = some (n : Rat) := by
  rw [eqv, beq_iff_eq] at h
  cases b with
  | integer m =>
    obtain rfl : m = n := compare_eq_iff_eq.1 (Option.some.inj h)
    rfl
  | rational q =>
    obtain rfl : q = n := eq_of_compareRat (Option.some.inj h)
    rfl
  | float x =>
    cases x with
    | nan => cases h
    | infinity s => cases s <;> cases h
    | finite s r below =>
      have hexact : ((Double.finite s r below).toRat?.map (compareRat · n)) = some .eq := h
      obtain ⟨q, hq, hcompare⟩ := Option.map_eq_some_iff.1 hexact
      rw [eq_of_compareRat hcompare] at hq
      exact hq

/-- Zero is not one. -/
theorem isOne_eq_false (h : b.isZero = true) : b.isOne = false := by
  refine Bool.eq_false_iff.2 fun hone => ?_
  have hzero := toRat?_of_eqv_integer h
  rw [toRat?_of_eqv_integer hone] at hzero
  exact absurd (Option.some.inj hzero) (by decide)

/-- **A fold misses its place exactly where it is said to.** -/
theorem foldedRank_eq_promotedRank_iff :
    foldedRank op a b = promotedRank op a b ↔ missesRank op a b = false := by
  cases op with
  | pow =>
    simp only [foldedRank, promotedRank, missesRank]
    by_cases hzero : b.isZero = true
    · simp [hzero, isOne_eq_false hzero]
      omega
    · by_cases hone : b.isOne = true
      · simp [hzero, hone]
      · simp [hzero, hone]
  | _ => exact iff_of_true rfl rfl

/-! ## Numbers that fold -/

/-- **Numbers combine in the more general of their places.** -/
theorem rank_combine {f : Int → Int → Int} {g : Rat → Rat → Rat} {d : Double → Double → Double}
    (h : combine f g d a b = .ok c) : c.rank = max a.rank b.rank := by
  cases a <;> cases b <;> simp only [combine] at h
  case integer.integer | integer.rational | rational.integer | rational.rational =>
    cases h
    rfl
  -- a double among the operands makes the result one
  all_goals
    obtain ⟨x, -, h⟩ := bind_eq_ok.1 h
    obtain ⟨y, -, h⟩ := bind_eq_ok.1 h
    cases h
    rfl

end Number

namespace Simplify

open Formula.Expr Number

variable {op : Operator} {a b : Number} {e : Expr}

/-- A combination of numbers that is kept stands in the more general of their places. -/
theorem exists_rank_of_keep {f : Int → Int → Int} {g : Rat → Rat → Rat}
    {d : Double → Double → Double} (h : keep (combine f g d a b) = .ok e) :
    ∃ c, e = number c ∧ c.rank = max a.rank b.rank := by
  obtain ⟨c, hc, rfl⟩ := keep_eq_ok h
  exact ⟨c, rfl, rank_combine hc⟩

/-- **A quotient of numbers** stands behind the integers, and not below its operands. -/
theorem exists_rank_of_numberQuotient (h : numberQuotient a b = .ok e) :
    ∃ c, e = number c ∧ c.rank = max (max a.rank b.rank) 1 := by
  cases a <;> cases b <;> simp only [numberQuotient] at h
  case integer.integer | integer.rational | rational.integer | rational.rational =>
    obtain ⟨c, hc, rfl⟩ := keep_eq_ok h
    cases hc
    exact ⟨_, rfl, rfl⟩
  -- a double among the operands makes the quotient one
  all_goals
    obtain ⟨x, -, h⟩ := bind_eq_ok.1 h
    obtain ⟨y, -, h⟩ := bind_eq_ok.1 h
    split at h
    · cases h
    · cases h
      exact ⟨_, rfl, rfl⟩

/-- A power of an exact number stays in the place of its base, or is kept as it is. -/
theorem rank_of_exactPower {q : Rat} {n : Int} {wrap : Rat → Number}
    (h : exactPower b q n wrap = .ok e) (hwrap : ∀ v, (wrap v).rank = b.rank) :
    e = operation .pow (number b) (integer n) ∨ ∃ c, e = number c ∧ c.rank = b.rank := by
  unfold exactPower at h
  dsimp only at h
  split_ifs at h
  · cases h
    exact .inl rfl
  · obtain ⟨c, hc, rfl⟩ := keep_eq_ok h
    cases hc
    exact .inr ⟨_, rfl, hwrap _⟩
  · cases h
    exact .inl rfl

/-- A power over doubles is a double, or is kept as it is. -/
theorem rank_of_floatPower (a b : Number) :
    floatPower a b = operation .pow (number a) (number b) ∨
      ∃ c, floatPower a b = number c ∧ c.rank = 2 := by
  unfold floatPower
  dsimp only
  split
  · split
    · split
      · exact .inr ⟨_, rfl, rfl⟩
      · exact .inl rfl
    · exact .inl rfl
  · exact .inl rfl

/-- **A power of numbers** with another exponent than zero and one stands in the more general of
their places, or is kept as it is. -/
theorem rank_of_numberPower (h : numberPower a b = .ok e) :
    e = operation .pow (number a) (number b) ∨
      ∃ c, e = number c ∧ c.rank = max a.rank b.rank := by
  cases a <;> cases b <;> simp only [numberPower] at h
  case integer.integer m n =>
    exact rank_of_exactPower h fun _ => rfl
  case rational.integer p n =>
    exact rank_of_exactPower h fun _ => rfl
  case integer.rational | rational.rational =>
    cases h
    exact .inl rfl
  all_goals
    cases h
    exact rank_of_floatPower _ _

/-- **A power of numbers** stands in its place, or is kept as it is. -/
theorem rank_of_power (h : power (number a) (number b) = .ok e) :
    e = operation .pow (number a) (number b) ∨
      ∃ c, e = number c ∧ c.rank = foldedRank .pow a b := by
  unfold power at h
  simp only [foldedRank]
  by_cases hzero : b.isZero = true
  · rw [if_pos hzero] at h ⊢
    split at h <;> cases h
    exact .inr ⟨_, rfl, rfl⟩
  · rw [if_neg hzero] at h ⊢
    by_cases hone : b.isOne = true
    · rw [if_pos hone] at h ⊢
      cases h
      exact .inr ⟨a, rfl, rfl⟩
    · rw [if_neg hone] at h ⊢
      exact rank_of_numberPower h

/-! ## The main result -/

/-- **What two numbers are folded to**: a number, unless a power is kept as it is. Its place is the
one that promotion asks for, exactly if the fold is not one of the powers that miss it. -/
theorem rank_of_fold (hop : op.isLogical = false)
    (h : build op (number a) (number b) = .ok e) :
    (op = .pow ∧ e = operation .pow (number a) (number b)) ∨
      ∃ c, e = number c ∧ c.rank = foldedRank op a b ∧
        (c.rank = promotedRank op a b ↔ missesRank op a b = false) := by
  suffices hrank : (op = .pow ∧ e = operation .pow (number a) (number b)) ∨
      ∃ c, e = number c ∧ c.rank = foldedRank op a b by
    refine hrank.imp id fun ⟨c, he, hc⟩ => ⟨c, he, hc, ?_⟩
    rw [hc]
    exact foldedRank_eq_promotedRank_iff
  cases op with
  | add => exact .inr (exists_rank_of_keep h)
  | sub => exact .inr (exists_rank_of_keep h)
  | mul => exact .inr (exists_rank_of_keep h)
  | div =>
    refine .inr (exists_rank_of_numberQuotient (a := a) (b := b) ?_)
    simp only [build, quotient] at h
    split at h
    · cases h
    · exact h
  | pow => exact (rank_of_power h).imp (fun he => ⟨rfl, he⟩) id
  | _ => cases hop

/-- The square of one half is folded to a rational, as promotion asks for. -/
theorem rank_of_fold_square :
    let half : Number := .rational (1 / 2)
    Operator.isLogical .pow = false ∧
      build .pow (number half) (integer 2) = .ok (number (.rational (1 / 4))) ∧
        (Number.rational (1 / 4)).rank = promotedRank .pow half (.integer 2) := by
  intro half
  have hfold : build .pow (number half) (integer 2) = .ok (number (.rational (1 / 4))) := by
    decide +kernel
  have hplace : missesRank .pow half (.integer 2) = false := by decide +kernel
  refine ⟨rfl, hfold, ?_⟩
  rcases rank_of_fold rfl hfold with ⟨-, hplain⟩ | ⟨c, hc, -, hrank⟩
  · cases hplain
  · cases hc
    exact hrank.2 hplace

/-- **A double to the power zero is an integer**, and an integer to the power of the double one
stays one, though either should be a double. -/
theorem power_misses_rank :
    let x : Double := .ofScientific false 15 (-1)
    build .pow (float x) (integer 0) = .ok (integer 1) ∧
      (Number.integer 1).rank ≠ promotedRank .pow (.float x) (.integer 0) ∧
        build .pow (integer 2) (float .one) = .ok (integer 2) ∧
          (Number.integer 2).rank ≠ promotedRank .pow (.integer 2) (.float .one) := by
  decide +kernel

end Simplify

end Formula
