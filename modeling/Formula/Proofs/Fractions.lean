/-
# Fractions in expressions

A fraction is stored in lowest terms, so two fractions are equal exactly if their values are
(`Expr.same_iff_of_ofFraction`), and the passages between fractions and rationals undo each other.
Two trees with fractions in the places of the same variables are equal exactly if the fractions in
each place are (`Expr.same_instantiate`). **So a difference and a quotient cancel by the values of
fractions**, however these were written (`Expr.fractions_canonical`).
-/
import Formula.Proofs.Folding
import Formula.Proofs.Outlines

namespace Formula

/-! ## Quotients of integers -/

namespace Rational

variable {p q p' q' : Int}

/-- The stored rational is the quotient. -/
theorem ofQuotient_eq_divInt (hq : q ≠ 0) : ofQuotient p q hq = Rat.divInt p q := by
  have hpos := lowestTerms_pos (p := p) hq
  have hden : ((lowestTerms p q).2.natAbs : Int) = (lowestTerms p q).2 :=
    Int.natAbs_of_nonneg hpos.le
  calc ofQuotient p q hq
      = Rat.divInt (lowestTerms p q).1 (lowestTerms p q).2.natAbs := Rat.mk_eq_divInt
    _ = Rat.divInt (lowestTerms p q).1 (lowestTerms p q).2 := by rw [hden]
    _ = Rat.divInt p q := (Rat.divInt_eq_divInt_iff hpos.ne' hq).2 (lowestTerms_mul p q)

/-- **Lowest terms are unique**: quotients with equal products across are stored alike. -/
theorem ofQuotient_eq_iff (hq : q ≠ 0) (hq' : q' ≠ 0) :
    ofQuotient p q hq = ofQuotient p' q' hq' ↔ p * q' = p' * q := by
  rw [ofQuotient_eq_divInt, ofQuotient_eq_divInt, Rat.divInt_eq_divInt_iff hq hq']

/-- A rational is the quotient of its numerator and denominator. -/
theorem ofQuotient_num_den (a : Rat) :
    ofQuotient a.num a.den (Int.natCast_ne_zero.2 a.den_nz) = a := by
  rw [ofQuotient_eq_divInt, Rat.num_divInt_den]

end Rational

namespace Number

/-- A rational may be kept exactly if it lies within the range of doubles. -/
theorem checked_rational_eq_ok {a : Rat} {n : Number} :
    (rational a).checked = .ok n ↔ (Double.ofRat a).isFinite = true ∧ n = rational a := by
  rw [checked]
  constructor
  · intro h
    split at h
    · rename_i hfinite
      cases h
      exact ⟨hfinite, rfl⟩
    · cases h
  · rintro ⟨hfinite, rfl⟩
    exact if_pos hfinite

end Number

namespace Expr

variable {p q p' q' : Int} {a b : Rat} {e e' t : Expr} {f g : String → Expr}

/-! ## Fractions -/

/-- **When two integers have a fraction, and which one**: the denominator is not zero and the
quotient lies within the range of doubles. -/
theorem ofFraction_eq_ok_iff :
    ofFraction p q = .ok e ↔ ∃ hq : q ≠ 0,
      (Double.ofRat (Rational.ofQuotient p q hq)).isFinite = true ∧
        e = rational (Rational.ofQuotient p q hq) := by
  by_cases hq : q = 0
  · rw [ofFraction, dif_pos hq]
    constructor
    · intro h
      cases h
    · rintro ⟨hne, -⟩
      exact absurd hq hne
  · rw [ofFraction, dif_neg hq, bind_eq_ok]
    constructor
    · rintro ⟨n, hn, he⟩
      obtain ⟨hfinite, rfl⟩ := Number.checked_rational_eq_ok.1 hn
      cases he
      exact ⟨hq, hfinite, rfl⟩
    · rintro ⟨_, hfinite, rfl⟩
      exact ⟨_, Number.checked_rational_eq_ok.2 ⟨hfinite, rfl⟩, rfl⟩

/-- **The fraction of a rational** is the rational itself, kept as the results of folding are. -/
theorem ofRational_eq_keep (a : Rat) : ofRational a = Simplify.keep (.ok (.rational a)) := by
  rw [ofRational, ofFraction, dif_neg (Int.natCast_ne_zero.2 a.den_nz),
    Rational.ofQuotient_num_den, Simplify.keep]
  generalize (Number.rational a).checked = r
  cases r <;> rfl

/-- A rational has a fraction exactly if it lies within the range of doubles. -/
theorem ofRational_eq_ok_iff :
    ofRational a = .ok e ↔ (Double.ofRat a).isFinite = true ∧ e = rational a := by
  rw [ofRational, ofFraction_eq_ok_iff]
  simp only [Rational.ofQuotient_num_den]
  exact exists_prop_of_true (Int.natCast_ne_zero.2 a.den_nz)

/-- The rational of a stored fraction. -/
theorem toRational?_rational (a : Rat) : (rational a).toRational? = some a :=
  congrArg some (Rat.mkRat_self a)

/-- Fractions are equal if they are the same rational, and only then. -/
theorem same_rational_iff : (rational a).same (rational b) = true ↔ a = b := by
  rw [same, Number.same, beq_iff_eq]

/-- **Fractions are equal exactly if their values are.** -/
theorem same_iff_of_ofFraction (he : ofFraction p q = .ok e) (he' : ofFraction p' q' = .ok e') :
    e.same e' = true ↔ p * q' = p' * q := by
  obtain ⟨hq, -, rfl⟩ := ofFraction_eq_ok_iff.1 he
  obtain ⟨hq', -, rfl⟩ := ofFraction_eq_ok_iff.1 he'
  rw [same_rational_iff, Rational.ofQuotient_eq_iff]

/-! ## Fractions in a tree -/

/-- The tree with an expression in the place of each variable. -/
def instantiate (f : String → Expr) : Expr → Expr
  | identifier name => f name
  | operation op l r => operation op (l.instantiate f) (r.instantiate f)
  | conditional c t e => conditional (c.instantiate f) (t.instantiate f) (e.instantiate f)
  | call name a => call name (a.instantiate f)
  | ending p t => ending (p.instantiate f) (t.instantiate f)
  | mark symbol a => mark symbol (a.instantiate f)
  | e => e

/-- **Trees that differ in the place of their variables only** are equal exactly if what stands
there is. -/
theorem same_instantiate (h : float .nan ∉ t.parts) :
    (t.instantiate f).same (t.instantiate g) = true ↔
      ∀ x, identifier x ∈ t.parts → (f x).same (g x) = true := by
  induction t with
  | identifier name => simp [instantiate, parts]
  | number n => simp [instantiate, parts, same_self h]
  | operation op l r ihl ihr =>
    simp only [parts, List.mem_cons, List.mem_append, not_or] at h
    simp [instantiate, same, parts, ihl h.2.1, ihr h.2.2, or_imp, forall_and]
  | conditional c t e ihc iht ihe =>
    simp only [parts, List.mem_cons, List.mem_append, not_or] at h
    simp [instantiate, same, parts, ihc h.2.1.1, iht h.2.1.2, ihe h.2.2, or_imp, forall_and,
      and_assoc]
  | call name a ih | mark name a ih =>
    simp only [parts, List.mem_cons, not_or] at h
    simp [instantiate, same, parts, ih h.2]
  | ending p t ihp iht =>
    simp only [parts, List.mem_cons, List.mem_append, not_or] at h
    simp [instantiate, same, parts, ihp h.2.1, iht h.2.2, or_imp, forall_and]
  | _ => simp [instantiate, same, parts]

/-- A tree that is no number stays one that is none, unless it is a variable. -/
theorem isNumber_instantiate (h : t.isNumber = false) :
    (∃ x, t = identifier x) ∨ ∀ f, (t.instantiate f).isNumber = false := by
  cases t with
  | identifier x => exact .inl ⟨x, rfl⟩
  | number n => cases h
  | _ => exact .inr fun _ => rfl

/-- What is no number counts neither as zero nor as one. -/
theorem isZero_and_isOne_of_isNumber (h : e.isNumber = false) :
    e.isZero = false ∧ e.isOne = false := by
  cases e with
  | number n => cases h
  | _ => exact ⟨rfl, rfl⟩

end Expr

/-! ## Differences and quotients that cancel -/

namespace Simplify

open Formula.Expr

variable {a b : Rat} {l r : Expr}

/-- The difference of two fractions is the fraction of their difference. -/
theorem difference_rational (a b : Rat) :
    difference (rational a) (rational b) = ofRational (a - b) :=
  (ofRational_eq_keep (a - b)).symm

/-- The quotient of two fractions is the fraction of their quotient. -/
theorem quotient_rational (hb : (rational b).isZero = false) :
    quotient (rational a) (rational b) = ofRational (a / b) := by
  simp only [quotient, hb, Bool.false_eq_true, if_false, numberQuotient, ofRational_eq_keep]

/-- The difference of two fractions is zero exactly if they are equal. -/
theorem difference_rational_isZero_iff :
    (∃ z, difference (rational a) (rational b) = .ok z ∧ z.isZero = true) ↔ a = b := by
  rw [difference_rational, ← sub_eq_zero]
  constructor
  · rintro ⟨z, hz, hzero⟩
    obtain ⟨-, rfl⟩ := ofRational_eq_ok_iff.1 hz
    exact Number.eq_zero_of_isZero_rational hzero
  · intro h
    rw [h]
    exact ⟨rational 0, ofRational_eq_ok_iff.2 ⟨by decide +kernel, rfl⟩, rfl⟩

/-- The quotient of two fractions is one exactly if they are equal. -/
theorem quotient_rational_isOne_iff (hb : (rational b).isZero = false) :
    (∃ z, quotient (rational a) (rational b) = .ok z ∧ z.isOne = true) ↔ a = b := by
  have hne : b ≠ 0 := by
    rintro rfl
    cases hb
  rw [quotient_rational hb, ← div_eq_one_iff_eq hne]
  constructor
  · rintro ⟨z, hz, hone⟩
    obtain ⟨-, rfl⟩ := ofRational_eq_ok_iff.1 hz
    exact Number.eq_one_of_isOne_rational hone
  · intro h
    rw [h]
    exact ⟨rational 1, ofRational_eq_ok_iff.2 ⟨by decide +kernel, rfl⟩, rfl⟩

/-- The difference of two trees that are no numbers cancels exactly if they are equal. -/
theorem difference_isZero_iff (hl : l.isNumber = false) (hr : r.isNumber = false) :
    (∃ z, difference l r = .ok z ∧ z.isZero = true) ↔ l.same r = true := by
  have hopen : difference l r =
      .ok (if l.same r then integer 0 else operation .sub l r) := by
    unfold difference
    split
    · cases hl
    · rw [(isZero_and_isOne_of_isNumber hl).1, (isZero_and_isOne_of_isNumber hr).1]
      simp only [Bool.false_eq_true, if_false]
      split <;> rfl
  rw [hopen]
  cases l.same r <;> simp [Expr.isZero, Number.isZero, Number.eqv, Number.compare?]

/-- The quotient of two trees that are no numbers cancels exactly if they are equal. -/
theorem quotient_isOne_iff (hl : l.isNumber = false) (hr : r.isNumber = false) :
    (∃ z, quotient l r = .ok z ∧ z.isOne = true) ↔ l.same r = true := by
  have hopen : quotient l r =
      .ok (if l.same r then integer 1 else operation .div l r) := by
    obtain ⟨hzero, hone⟩ := isZero_and_isOne_of_isNumber hr
    unfold quotient
    rw [hzero]
    simp only [Bool.false_eq_true, if_false]
    split
    · cases hl
    · rw [(isZero_and_isOne_of_isNumber hl).1, hone]
      simp only [Bool.false_eq_true, if_false]
      split <;> rfl
  rw [hopen]
  cases l.same r <;> simp [Expr.isOne, Number.isOne, Number.eqv, Number.compare?]

end Simplify

namespace Expr

open Simplify

variable {p q p' q' : Int} {e e' t : Expr}

/-- **Whether cancelling in a tree goes by the values of its fractions**: with fractions in the
place of its variables, the difference of two such trees is zero exactly if the fractions have equal
values, and the quotient is one exactly then, unless the divisor is zero. -/
def ComparesValues (t : Expr) : Prop :=
  ∀ (p q p' q' : String → Int) (f g : String → Expr),
    (∀ x, ofFraction (p x) (q x) = .ok (f x)) → (∀ x, ofFraction (p' x) (q' x) = .ok (g x)) →
    let l := t.instantiate f
    let r := t.instantiate g
    let equal := ∀ x, identifier x ∈ t.parts → p x * q' x = p' x * q x
    ((∃ z, difference l r = .ok z ∧ z.isZero = true) ↔ equal) ∧
      (r.isZero = false → ((∃ z, quotient l r = .ok z ∧ z.isOne = true) ↔ equal))

/-- **Cancelling goes by the values of fractions** in every tree without NaN that is no number. -/
theorem comparesValues (ht : t.isNumber = false) (hnan : float .nan ∉ t.parts) :
    t.ComparesValues := by
  intro p q p' q' f g hf hg l r equal
  have hsame : l.same r = true ↔ equal := by
    rw [same_instantiate hnan]
    exact forall₂_congr fun x _ => same_iff_of_ofFraction (hf x) (hg x)
  rcases isNumber_instantiate ht with ⟨x, rfl⟩ | hnumber
  · -- fractions that stand alone are subtracted and divided as numbers, without a comparison
    obtain ⟨hq, -, ha⟩ := ofFraction_eq_ok_iff.1 (hf x)
    obtain ⟨hq', -, hb⟩ := ofFraction_eq_ok_iff.1 (hg x)
    have hl : l = rational (Rational.ofQuotient (p x) (q x) hq) := ha
    have hr : r = rational (Rational.ofQuotient (p' x) (q' x) hq') := hb
    rw [hl, hr, same_rational_iff] at hsame
    rw [hl, hr]
    exact ⟨difference_rational_isZero_iff.trans hsame,
      fun hzero => (quotient_rational_isOne_iff hzero).trans hsame⟩
  · exact ⟨(difference_isZero_iff (hnumber f) (hnumber g)).trans hsame,
      fun _ => (quotient_isOne_iff (hnumber f) (hnumber g)).trans hsame⟩

/-- **Fractions are canonical.** A fraction stores its quotient in lowest terms with a positive
denominator, and two fractions are equal exactly if the products across are. The passages to
rationals and back undo each other, and cancelling compares the values of fractions. -/
theorem fractions_canonical (he : ofFraction p q = .ok e) (he' : ofFraction p' q' = .ok e') :
    (∃ n d, e.fraction? = some (n, d) ∧ 0 < d ∧ n.natAbs.gcd d = 1 ∧ n * q = p * d) ∧
      (e.same e' = true ↔ p * q' = p' * q) ∧
      (∃ a, e.toRational? = some a ∧ ofRational a = .ok e) ∧
      (∀ a x, ofRational a = .ok x → x.toRational? = some a) ∧
      ∀ t : Expr, t.isNumber = false → float .nan ∉ t.parts → t.ComparesValues := by
  refine ⟨?_, same_iff_of_ofFraction he he', ?_, ?_, fun t => comparesValues⟩
  · obtain ⟨hq, -, rfl⟩ := ofFraction_eq_ok_iff.1 he
    have hpos := Rational.lowestTerms_pos (p := p) hq
    refine ⟨_, _, rfl, Int.natAbs_pos.2 hpos.ne', Rational.coprime_lowestTerms hq, ?_⟩
    show (Rational.lowestTerms p q).1 * q = p * ((Rational.lowestTerms p q).2.natAbs : Int)
    rw [Int.natAbs_of_nonneg hpos.le, Rational.lowestTerms_mul]
  · obtain ⟨hq, hfinite, rfl⟩ := ofFraction_eq_ok_iff.1 he
    exact ⟨_, toRational?_rational _, ofRational_eq_ok_iff.2 ⟨hfinite, rfl⟩⟩
  · rintro a x hx
    obtain ⟨-, rfl⟩ := ofRational_eq_ok_iff.1 hx
    exact toRational?_rational a

/-- Two ways to write one half, by themselves and as the argument of a function. -/
theorem fractions_canonical_halves :
    ofFraction 2 4 = .ok (rational (1 / 2)) ∧ ofFraction (-3) (-6) = .ok (rational (1 / 2)) ∧
      (rational (1 / 2)).same (rational (1 / 2)) = true ∧
      ∃ z, difference (call "sin" (rational (1 / 2))) (call "sin" (rational (1 / 2))) = .ok z ∧
        z.isZero = true := by
  have h : ofFraction 2 4 = .ok (rational (1 / 2)) := by decide +kernel
  have h' : ofFraction (-3) (-6) = .ok (rational (1 / 2)) := by decide +kernel
  obtain ⟨-, hsame, -, -, hcompare⟩ := fractions_canonical h h'
  have hcancel := (hcompare (call "sin" (identifier "x")) rfl (by decide) (fun _ => 2)
    (fun _ => 4) (fun _ => -3) (fun _ => -6) _ _ (fun _ => h) fun _ => h').1
  exact ⟨h, h', hsame.2 (by decide), hcancel.2 fun _ _ => by decide⟩

end Expr

end Formula
