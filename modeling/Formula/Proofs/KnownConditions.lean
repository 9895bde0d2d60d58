/-
# Conditions that are known without values

A relation of two literals of one class and a condition that is a literal are decided while an
expression is built. The values of expressions over prices decide them again, where every rational
has become the double nearest to it. **The two decisions agree except for blurred rationals**
(`known_conditions_agree`): a rational that is not zero, but so small that its double is, and two
different rationals with the same double, as far as the relation tells them apart.
-/
import Formula.Proofs.Certain
import Formula.Proofs.DoubleIntegers

namespace Formula

/-! ## Orders -/

/-- Two texts are equal in their order exactly if they are equal. -/
theorem compareText_eq_eq {a b : String} : compareText a b = .eq ↔ a = b := by
  unfold compareText
  by_cases hlt : a < b
  · have hne : a ≠ b := by
      rintro rfl
      exact String.lt_irrefl a hlt
    simp [hlt, hne]
  · by_cases heq : a = b
    · simp [heq]
    · simp [hlt, heq]

/-- A relation between two texts is decided by their order. -/
theorem Value.relate_text (op : Operator) (a b : String) :
    relate op (text a) (text b) = .ok (op.holds (some (compareText a b))) := by
  have heq : (a == b) = (some (compareText a b) == some .eq) := by
    rw [Bool.eq_iff_iff, beq_iff_eq, beq_iff_eq, Option.some_inj, compareText_eq_eq]
  cases op with
  | eq => exact congrArg Except.ok heq
  | ne => exact congrArg (fun x => Except.ok !x) heq
  | _ => rfl

/-- The doubles nearest to two rationals compare by their places. -/
theorem Number.compare?_ofRat (p q : Rat) :
    compare? (float (.ofRat p)) (float (.ofRat q))
      = some (compare (Double.placeOf p) (Double.placeOf q)) := by
  rw [compare?, Double.place?_ofRat, Double.place?_ofRat]

/-- **The doubles nearest to two rationals are in their order, or meet.** -/
theorem compare_placeOf (p q : Rat) :
    compare (Double.placeOf p) (Double.placeOf q) = Number.compareRat p q ∨
      compare (Double.placeOf p) (Double.placeOf q) = .eq := by
  unfold Number.compareRat
  rcases lt_trichotomy p q with h | h | h
  · have hle := Double.placeOf_mono h.le
    rw [if_pos h, compare_lt_iff_lt, compare_eq_iff_eq]
    omega
  · subst h
    exact Or.inr (compare_eq_iff_eq.2 rfl)
  · have hle := Double.placeOf_mono h.le
    rw [if_neg h.not_gt, if_neg h.ne', compare_gt_iff_gt, compare_eq_iff_eq]
    omega

/-- Whether a relation tells two rationals apart that have the same double. -/
def Operator.blurs (op : Operator) (p q : Rat) : Bool :=
  (Double.ofRat p).eqv (Double.ofRat q) &&
    op.holds (some (Number.compareRat p q)) != op.holds (some .eq)

/-- **A relation of two rationals holds for their doubles alike**, unless it is blurred. -/
theorem holds_compare?_ofRat (op : Operator) (p q : Rat) :
    op.holds (Number.compare? (.float (.ofRat p)) (.float (.ofRat q)))
        = op.holds (Number.compare? (.rational p) (.rational q)) ↔ op.blurs p q = false := by
  have heqv : (Double.ofRat p).eqv (Double.ofRat q)
      = (compare (Double.placeOf p) (Double.placeOf q) == .eq) := by
    rw [Double.eqv, Double.place?_ofRat, Double.place?_ofRat, Bool.eq_iff_iff, beq_iff_eq,
      beq_iff_eq, compare_eq_iff_eq]
  rw [Number.compare?_ofRat, Operator.blurs, heqv, Number.compare?]
  rcases compare_placeOf p q with h | h
  · rw [h]
    cases Number.compareRat p q <;> simp
  · rw [h]
    generalize op.holds (some .eq) = met
    generalize op.holds (some (Number.compareRat p q)) = apart
    cases met <;> cases apart <;> decide

namespace Expr

/-! ## Literals of one class -/

/-- **Two literals of one class.** -/
inductive SameClass : Expr → Expr → Prop where
  | integers (m n : Int) : SameClass (integer m) (integer n)
  | rationals (p q : Rat) : SameClass (rational p) (rational q)
  | floats (x y : Double) : SameClass (float x) (float y)
  | booleans (a b : Bool) : SameClass (boolean a) (boolean b)
  | literals (a b : String) : SameClass (literal a) (literal b)

/-- Only literals of one class have an order. -/
theorem sameClass_of_literalOrder? {l r : Expr} {order : Option Ordering}
    (h : l.literalOrder? r = some order) : SameClass l r := by
  unfold literalOrder? at h
  split at h
  · rename_i a b
    split at h
    · rename_i hrank
      cases a <;> cases b <;> first | constructor | cases hrank
    · cases h
  · constructor
  · constructor
  · cases h

/-- **Whether rounding blurs a condition**: a rational that is not zero has a double that is, or a
relation tells two rationals apart that have the same double. -/
def isBlurred : Expr → Bool
  | number (.rational q) => decide (q ≠ 0) && (Double.ofRat q).isZero
  | operation op (number (.rational p)) (number (.rational q)) => op.blurs p q
  | _ => false

variable {op : Operator} {l r : Expr} {s : Scope}

/-- The value of a relation is that of its operands' values. -/
theorem value_relation_eq_ok {a b : Value} {t : Bool} (hop : op.isRelation = true)
    (hl : l.value .pricing s = .ok a) (hr : r.value .pricing s = .ok b)
    (h : a.relate op b = .ok t) : (operation op l r).value .pricing s = .ok (.boolean t) := by
  have hhole : ∀ {e : Expr} {v : Value}, e.value .pricing s = .ok v → e.isHole = false := by
    intro e v hv
    cases e <;> first | rfl | cases hv
  refine (value_both rfl (Or.inl hop) (hhole hl) (hhole hr)).2 ⟨a, b, hl, hr, ?_⟩
  rw [combined, if_pos hop, h]
  rfl

/-- **A relation of two literals of one class** is known, and has the known value over prices unless
it is blurred. -/
theorem SameClass.relation (h : SameClass l r) (hop : op.isRelation = true) (s : Scope) :
    ∃ known found, Simplify.relation op l r = boolean known ∧
      (operation op l r).value .pricing s = .ok (.boolean found) ∧
        (found = known ↔ (operation op l r).isBlurred = false) := by
  cases h with
  | integers m n =>
    exact ⟨_, _, rfl, value_relation_eq_ok hop rfl rfl (Value.relate_number op _ _),
      iff_of_true rfl rfl⟩
  | rationals p q =>
    exact ⟨_, _, rfl, value_relation_eq_ok hop rfl rfl (Value.relate_number op _ _),
      holds_compare?_ofRat op p q⟩
  | floats x y =>
    exact ⟨_, _, rfl, value_relation_eq_ok hop rfl rfl (Value.relate_number op _ _),
      iff_of_true rfl rfl⟩
  | booleans a b =>
    exact ⟨_, _, rfl, value_relation_eq_ok hop rfl rfl (Value.relate_boolean op a b),
      iff_of_true rfl rfl⟩
  | literals a b =>
    exact ⟨_, _, rfl, value_relation_eq_ok hop rfl rfl (Value.relate_text op a b),
      iff_of_true rfl rfl⟩

/-! ## Known conditions -/

/-- **A number as a condition** is true over prices as it is known to be, unless it is blurred. -/
theorem isTrue_numberValue (n : Number) :
    (numberValue n).isTrue = !n.isZero ↔ (number n).isBlurred = false := by
  cases n with
  | integer k => exact iff_of_true rfl rfl
  | float x => exact iff_of_true rfl rfl
  | rational q =>
    have hvalue : (numberValue (.rational q)).isTrue = !(Double.ofRat q).isZero :=
      congrArg (!·) (Number.isZero_float _)
    rw [hvalue, isBlurred]
    by_cases hq : q = 0
    · subst hq
      decide +kernel
    · have hz : (Number.rational q).isZero = false :=
        Bool.eq_false_iff.2 fun h => hq (Number.isZero_rational_iff.1 h)
      rw [hz]
      cases (Double.ofRat q).isZero <;> simp [hq]

/-- **A condition whose truth is known has that truth over prices**, unless it is blurred. -/
theorem exists_value_of_staticTruth? {c : Expr} {b : Bool} (h : Simplify.staticTruth? c = some b)
    (s : Scope) : ∃ v, c.value .pricing s = .ok v ∧ (v.isTrue = b ↔ c.isBlurred = false) := by
  unfold Simplify.staticTruth? at h
  split at h
  · cases h
    exact ⟨_, rfl, iff_of_true rfl rfl⟩
  · rename_i n
    cases h
    exact ⟨numberValue n, rfl, isTrue_numberValue n⟩
  · rename_i op l r
    split at h
    · rename_i hop
      obtain ⟨order, horder, rfl⟩ := Option.map_eq_some_iff.1 h
      obtain ⟨known, found, hknown, hvalue, hagree⟩ :=
        (sameClass_of_literalOrder? horder).relation hop s
      rw [Simplify.relation, horder] at hknown
      cases hknown
      exact ⟨.boolean found, hvalue, hagree⟩
    · cases h
  · cases h

/-- **Decisions that are made while an expression is built agree with those of its value over
prices, unless they are blurred**: under every binding a condition whose truth is known has a value,
which is true or false accordingly, and a relation of two literals of one class is known and has the
known value; but for rationals that rounding takes to zero or to one double, where both differ. -/
theorem known_conditions_agree (s : Scope) :
    (∀ c b, Simplify.staticTruth? c = some b → ∃ v, c.value .pricing s = .ok v ∧
      (v.isTrue = b ↔ c.isBlurred = false)) ∧
    (∀ op, op.isRelation = true → ∀ l r, SameClass l r → ∃ known found,
      Simplify.relation op l r = boolean known ∧
        (operation op l r).value .pricing s = .ok (.boolean found) ∧
          (found = known ↔ (operation op l r).isBlurred = false)) :=
  ⟨fun _ _ h => exists_value_of_staticTruth? h s, fun _ hop _ _ h => h.relation hop s⟩

/-- One third is below one half, for the rationals as for their doubles. -/
theorem known_conditions_agree_thirds :
    let c : Expr := operation .lt (rational (1 / 3)) (rational (1 / 2))
    (∃ v, c.value .pricing (.standard []) = .ok v ∧ v.isTrue = true) ∧
      ∃ known found, Simplify.relation .lt (rational (1 / 3)) (rational (1 / 2)) = boolean known ∧
        c.value .pricing (.standard []) = .ok (.boolean found) ∧ found = known := by
  intro c
  have hclear : c.isBlurred = false := by decide +kernel
  have hknown : Simplify.staticTruth? c = some true := by decide +kernel
  obtain ⟨v, hv, htrue⟩ := (known_conditions_agree (.standard [])).1 c true hknown
  obtain ⟨known, found, hrelation, hvalue, hagree⟩ :=
    (known_conditions_agree (.standard [])).2 .lt rfl _ _ (.rationals (1 / 3) (1 / 2))
  exact ⟨⟨v, hv, htrue.2 hclear⟩, known, found, hrelation, hvalue, hagree.2 hclear⟩

/-- **Two rationals with one double** are known to be different, and equal over prices. A rational
below half of the least magnitude is known to be true, and false over prices. -/
theorem known_conditions_differ :
    let third : Expr := rational (1 / 3)
    let nearby : Expr := rational (mkRat 333333333333333333333333 (10 ^ 24))
    let tiny : Expr := rational (mkRat 1 (2 ^ 1536))
    Simplify.relation .eq third nearby = boolean false ∧
      (operation .eq third nearby).value .pricing (.standard []) = .ok (.boolean true) ∧
        Simplify.staticTruth? tiny = some true ∧
          tiny.value .pricing (.standard []) = .ok (.float .zero) := by
  decide +kernel

end Expr

end Formula
