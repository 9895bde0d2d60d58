/-
# Errors about gaps in trees

An evaluation reports a gap when an operand is missing or a structural piece is left in the tree.
Such errors come from the tree alone: **no built-in function reports a gap**
(`Registry.isSound_builtin`), whatever values it is applied to.
-/
import Formula.Registry
import Formula.Evaluation.Scope
import Formula.Value.Exact

namespace Formula

/-! ## Gaps -/

/-- Whether an error says that a tree has a gap: an operand or a subtree is missing, or a structural
piece is left. -/
@[simp]
def Error.reportsGap : Error → Bool
  | missingOperand _ | missingNode | malformed _ .mark => true
  | _ => false

/-- **Whether a computation meets no gap**: if it fails, then for another reason. -/
def MeetsNoGap {α : Type} (r : Except Error α) : Prop := ∀ x, r = .error x → x.reportsGap = false

section Steps

variable {α β : Type} {r : Except Error α} {f : α → Except Error β}

/-- A computation that succeeds meets no gap. -/
@[simp]
theorem meetsNoGap_ok (v : α) : MeetsNoGap (.ok v) := nofun

/-- A value meets no gap. -/
@[simp]
theorem meetsNoGap_pure (v : α) : MeetsNoGap (pure v) := nofun

/-- A computation that fails reports a gap or does not. -/
@[simp]
theorem meetsNoGap_error {x : Error} :
    MeetsNoGap (.error x : Except Error α) ↔ x.reportsGap = false := by
  constructor
  · intro h
    exact h x rfl
  · rintro h y ⟨⟩
    exact h

/-- An error that is thrown reports a gap or does not. -/
@[simp]
theorem meetsNoGap_throw {x : Error} :
    MeetsNoGap (throw x : Except Error α) ↔ x.reportsGap = false :=
  meetsNoGap_error

/-- Two steps meet no gap when the first one does not and the second one does not behind it. -/
@[simp]
theorem meetsNoGap_bind :
    MeetsNoGap (r >>= f) ↔ MeetsNoGap r ∧ ∀ v, r = .ok v → MeetsNoGap (f v) := by
  cases r with
  | error y =>
    constructor
    · exact fun h => ⟨meetsNoGap_error.2 (meetsNoGap_error.1 h), nofun⟩
    · exact fun h => meetsNoGap_error.2 (meetsNoGap_error.1 h.1)
  | ok v =>
    constructor
    · rintro h
      refine ⟨meetsNoGap_ok v, ?_⟩
      rintro w ⟨⟩
      exact h
    · exact fun h => h.2 v rfl

/-- A transformed result meets a gap where the result did. -/
@[simp]
theorem meetsNoGap_map {g : α → β} : MeetsNoGap (g <$> r) ↔ MeetsNoGap r := by
  cases r with
  | error y => exact meetsNoGap_error.trans meetsNoGap_error.symm
  | ok v => exact ⟨fun _ => meetsNoGap_ok v, fun _ => meetsNoGap_ok _⟩

/-- The same for a result that is mapped by name. -/
@[simp]
theorem meetsNoGap_except_map {g : α → β} : MeetsNoGap (r.map g) ↔ MeetsNoGap r := meetsNoGap_map

/-- A choice meets no gap when the chosen side does not. -/
@[simp]
theorem meetsNoGap_ite {c : Prop} [Decidable c] {r r' : Except Error α} :
    MeetsNoGap (if c then r else r') ↔ (c → MeetsNoGap r) ∧ (¬c → MeetsNoGap r') := by
  split <;> simp [*]

/-- A look-up meets no gap when its outcome does not. -/
@[simp]
theorem meetsNoGap_elim {o : Option α} {r : Except Error β} :
    MeetsNoGap (o.elim r f) ↔ (o = none → MeetsNoGap r) ∧ ∀ v, o = some v → MeetsNoGap (f v) := by
  cases o <;> simp

end Steps

/-! ## Numbers

Conversions to doubles overflow, and so does arithmetic that needs them. -/

namespace Number

variable {a b : Number}

@[simp]
theorem meetsNoGap_toDouble : MeetsNoGap a.toDouble := by
  cases a <;> simp [toDouble]

@[simp]
theorem meetsNoGap_combine {f : Int → Int → Int} {g : Rat → Rat → Rat}
    {d : Double → Double → Double} : MeetsNoGap (combine f g d a b) := by
  cases a <;> cases b <;> simp [combine]

@[simp]
theorem meetsNoGap_div : MeetsNoGap (a.div b) := by
  cases a <;> cases b <;> simp [div]

end Number

/-! ## Complex numbers

Functions of complex numbers overflow, divide by zero or leave their domains. -/

namespace Complex

variable {z w : Complex}

@[simp]
theorem meetsNoGap_modulus : MeetsNoGap z.modulus := by
  simp [modulus]

@[simp]
theorem meetsNoGap_checkRange : MeetsNoGap z.checkRange := by
  simp [checkRange]

@[simp]
theorem meetsNoGap_ofPolar {x y : Double} : MeetsNoGap (ofPolar x y) := by
  simp [ofPolar]

@[simp]
theorem meetsNoGap_polarPower : MeetsNoGap (polarPower z w) := by
  simp [polarPower]

@[simp]
theorem meetsNoGap_pow : MeetsNoGap (z.pow w) := by
  unfold pow
  split <;> simp

@[simp]
theorem MeetsNoGap.namedDivision {α : Type} {r : Except Error α} (h : MeetsNoGap r) :
    MeetsNoGap (namedDivision r) := by
  unfold Complex.namedDivision
  split
  · simp
  · exact h

@[simp]
theorem meetsNoGap_power : MeetsNoGap (z.power w) := by
  simp [power]

@[simp]
theorem meetsNoGap_within {c : Bool} : MeetsNoGap (within c z) := by
  simp [within]

@[simp]
theorem meetsNoGap_exp : MeetsNoGap z.exp := by
  simp [exp]

@[simp]
theorem meetsNoGap_cosh : MeetsNoGap z.cosh := by
  simp [cosh]

@[simp]
theorem meetsNoGap_sinh : MeetsNoGap z.sinh := by
  simp [sinh]

@[simp]
theorem meetsNoGap_tanh : MeetsNoGap z.tanh := by
  simp [tanh]

@[simp]
theorem meetsNoGap_atanhRight : MeetsNoGap z.atanhRight := by
  simp [atanhRight]

@[simp]
theorem meetsNoGap_atanh : MeetsNoGap z.atanh := by
  simp [atanh]

@[simp]
theorem meetsNoGap_circular :
    MeetsNoGap z.cos ∧ MeetsNoGap z.sin ∧ MeetsNoGap z.tan ∧ MeetsNoGap z.atan := by
  simp [cos, sin, tan, atan]

end Complex

/-! ## Rationals and texts

A power that is not rational and a text that is no number are refused as values. -/

@[simp]
theorem Rational.meetsNoGap_power {p q : Rat} : MeetsNoGap (Rational.power p q) := by
  unfold Rational.power
  cases root? p q.den <;> simp

@[simp]
theorem Rational.meetsNoGap_read {s : String} : MeetsNoGap (Rational.read s) := by
  unfold Rational.read
  split <;> simp

@[simp]
theorem Complex.meetsNoGap_readPart {cs : List Char} : MeetsNoGap (Complex.readPart cs) := by
  unfold Complex.readPart
  split
  · simp
  · split
    · simp
    · split <;> simp
    · rename_i hx
      exact meetsNoGap_error.2 (Rational.meetsNoGap_read _ hx)

@[simp]
theorem Complex.meetsNoGap_read {s : String} : MeetsNoGap (Complex.read s) := by
  unfold Complex.read
  dsimp only
  split <;> simp

/-! ## Values

Operations refuse values of other kinds, and fail where the operations on numbers do. -/

namespace Value

variable {a b : Value}

@[simp]
theorem meetsNoGap_toNumber : MeetsNoGap a.toNumber := by
  simp [toNumber]

@[simp]
theorem meetsNoGap_toReal : MeetsNoGap a.toReal := by
  simp [toReal]

@[simp]
theorem meetsNoGap_toFraction : MeetsNoGap a.toFraction := by
  unfold toFraction
  split <;> simp

@[simp]
theorem meetsNoGap_toDouble : MeetsNoGap a.toDouble := by
  cases a <;> simp [toDouble]

@[simp]
theorem meetsNoGap_toInteger : MeetsNoGap a.toInteger := by
  cases a <;> simp [toInteger]

@[simp]
theorem meetsNoGap_order : MeetsNoGap (a.order b) := by
  unfold order
  split
  · simp
  · split <;> simp

@[simp]
theorem meetsNoGap_relate {op : Operator} : MeetsNoGap (a.relate op b) := by
  cases op <;> simp [relate]

@[simp]
theorem meetsNoGap_toComplex : MeetsNoGap a.toComplex := by
  cases a <;> simp [toComplex]

@[simp]
theorem MeetsNoGap.combine {f : Number → Number → Except Error Number}
    {g : Complex → Complex → Complex} (h : ∀ m n, MeetsNoGap (f m n)) :
    MeetsNoGap (combine f g a b) := by
  unfold Value.combine
  split <;> simp [h]

@[simp]
theorem meetsNoGap_add : MeetsNoGap (a.add b) := by
  unfold add
  split
  · simp
  · exact MeetsNoGap.combine fun _ _ => Number.meetsNoGap_combine

@[simp]
theorem meetsNoGap_mul : MeetsNoGap (a.mul b) := by
  unfold mul
  split <;> simp [repeated, Error.reportsGap, Number.mul]

@[simp]
theorem meetsNoGap_quotient : MeetsNoGap (a.quotient b) := by
  simp [quotient]

@[simp]
theorem meetsNoGap_div : MeetsNoGap (a.div b) := by
  simp [div]

@[simp]
theorem meetsNoGap_sub : MeetsNoGap (a.sub b) := by
  simp [sub, Number.sub]

@[simp]
theorem meetsNoGap_neg : MeetsNoGap a.neg := by
  cases a <;> simp [neg]

@[simp]
theorem meetsNoGap_abs : MeetsNoGap a.abs := by
  cases a <;> simp [abs]

@[simp]
theorem meetsNoGap_doublePower {x y : Double} : MeetsNoGap (doublePower x y) := by
  unfold doublePower
  split <;> simp

@[simp]
theorem meetsNoGap_floatPower : MeetsNoGap (a.floatPower b) := by
  unfold floatPower
  split
  · simp
  · rename_i hx
    exact meetsNoGap_error.2 (meetsNoGap_toDouble _ hx)
  · split
    · simp
    · rename_i hx
      exact meetsNoGap_error.2 (meetsNoGap_toDouble _ hx)
    · exact meetsNoGap_doublePower

@[simp]
theorem meetsNoGap_power : MeetsNoGap (a.power b) := by
  cases h : exactPower? a b <;> simp [power, h]

@[simp]
theorem meetsNoGap_asRational : MeetsNoGap a.asRational := by
  unfold asRational
  split <;> simp

@[simp]
theorem meetsNoGap_asComplex : MeetsNoGap a.asComplex := by
  cases a <;> simp [asComplex]

@[simp]
theorem meetsNoGap_parts :
    MeetsNoGap a.realPart ∧ MeetsNoGap a.imaginaryPart ∧ MeetsNoGap a.conjugate := by
  cases a <;> simp [realPart, imaginaryPart, conjugate]

/-- Adding up values meets no gap. -/
theorem meetsNoGap_foldlM_add {vs : List Value} : MeetsNoGap (vs.foldlM add a) := by
  induction vs generalizing a with
  | nil => exact meetsNoGap_pure a
  | cons v vs ih =>
    rw [List.foldlM_cons]
    exact meetsNoGap_bind.2 ⟨meetsNoGap_add, fun _ _ => ih⟩

end Value

/-! ## Functions of real numbers

A function fails at its poles, outside its domain or with its operations. -/

namespace Function

variable {n : Number} {v w : Value} {x : Double}

theorem meetsNoGap_checkedWith {pole : Error} {f : Double → Double}
    (h : pole.reportsGap = false) : MeetsNoGap (checkedWith pole f x) := by
  unfold checkedWith
  split
  · simp
  · split
    · exact meetsNoGap_error.2 h
    · simp

@[simp]
theorem meetsNoGap_checked {f : Double → Double} : MeetsNoGap (checked f x) :=
  meetsNoGap_checkedWith rfl

@[simp]
theorem meetsNoGap_growing {f : Double → Double} : MeetsNoGap (growing f x) :=
  meetsNoGap_checkedWith rfl

@[simp]
theorem meetsNoGap_onDouble {f : Double → Except Error Double} (h : ∀ x, MeetsNoGap (f x)) :
    MeetsNoGap (onDouble f n) := by
  simp [onDouble, h]

@[simp]
theorem meetsNoGap_cotangent : MeetsNoGap (cotangent x) := by
  simp [cotangent]

@[simp]
theorem meetsNoGap_ofDegrees {f : Double → Except Error Double} (h : ∀ x, MeetsNoGap (f x)) :
    MeetsNoGap (ofDegrees f x) :=
  h _

@[simp]
theorem meetsNoGap_arccotangent : MeetsNoGap (arccotangent x) := by
  simp [arccotangent]

@[simp]
theorem meetsNoGap_arcsine : MeetsNoGap (arcsine n) := by
  simp [arcsine]

@[simp]
theorem meetsNoGap_arccosine : MeetsNoGap (arccosine n) := by
  simp [arccosine]

@[simp]
theorem meetsNoGap_areaCosine : MeetsNoGap (areaCosine n) := by
  simp [areaCosine]

@[simp]
theorem meetsNoGap_squareRoot : MeetsNoGap (squareRoot n) := by
  simp [squareRoot]

@[simp]
theorem meetsNoGap_hyperbolicCotangent : MeetsNoGap (hyperbolicCotangent v) := by
  simp [hyperbolicCotangent]

@[simp]
theorem meetsNoGap_areaTangent : MeetsNoGap (areaTangent v) := by
  simp [areaTangent]

@[simp]
theorem meetsNoGap_areaCotangent : MeetsNoGap (areaCotangent v) := by
  simp [areaCotangent]

@[simp]
theorem meetsNoGap_logarithm {name : String} {f : Double → Double} :
    MeetsNoGap (logarithm name f v) := by
  simp [logarithm]

@[simp]
theorem meetsNoGap_rounding {f : Rat → Int} : MeetsNoGap (rounding f n) := by
  cases h : n.toRat? <;> simp [rounding, h]

@[simp]
theorem meetsNoGap_ofRounded {d : Option Decimal} : MeetsNoGap (ofRounded d) := by
  simp [ofRounded]

@[simp]
theorem meetsNoGap_roundHalfAway : MeetsNoGap (roundHalfAway v) := by
  unfold roundHalfAway
  split
  · simp
  · split <;> simp
  · simp
  · simp
  · simp
  · simp
  · simp

@[simp]
theorem meetsNoGap_boundedFactorial {k : Nat} : MeetsNoGap (boundedFactorial k) := by
  simp [boundedFactorial]

@[simp]
theorem meetsNoGap_factorialOf : MeetsNoGap (factorialOf v) := by
  simp [factorialOf, Error.reportsGap, Number.add]

@[simp]
theorem meetsNoGap_semiFactorialOf : MeetsNoGap (semiFactorialOf v) := by
  simp [semiFactorialOf, semiFactorialOfInt]

/-! ## Exact functions -/

@[simp]
theorem meetsNoGap_exactSquareRoot {q : Rat} : MeetsNoGap (exactSquareRoot q) := by
  simp [exactSquareRoot]

@[simp]
theorem meetsNoGap_natural {symbol : String} {q : Rat} : MeetsNoGap (natural symbol q) := by
  simp [natural]

@[simp]
theorem meetsNoGap_exactFactorial {q : Rat} : MeetsNoGap (exactFactorial q) := by
  simp [exactFactorial]

@[simp]
theorem meetsNoGap_exactSemiFactorial {q : Rat} : MeetsNoGap (exactSemiFactorial q) := by
  simp [exactSemiFactorial]

/-! ## Functions of complex numbers -/

variable {z : Complex}

@[simp]
theorem meetsNoGap_reciprocal {name : String} {f : Complex → Except Error Complex}
    (h : ∀ z, MeetsNoGap (f z)) : MeetsNoGap (reciprocal name f z) := by
  simp [reciprocal, h]

@[simp]
theorem meetsNoGap_complexArccotangent : MeetsNoGap (complexArccotangent z) := by
  simp [complexArccotangent]

@[simp]
theorem meetsNoGap_complexAreaCotangent : MeetsNoGap (complexAreaCotangent v) := by
  simp [complexAreaCotangent]

@[simp]
theorem meetsNoGap_complexLogarithm {name : String} {f : Complex → Complex} :
    MeetsNoGap (complexLogarithm name f v) := by
  simp [complexLogarithm]

@[simp]
theorem meetsNoGap_logarithmOfPositive : MeetsNoGap (logarithmOfPositive n) := by
  cases n <;> simp [logarithmOfPositive]

@[simp]
theorem meetsNoGap_positiveLogarithm : MeetsNoGap (positiveLogarithm v) := by
  cases v <;> simp [positiveLogarithm]

@[simp]
theorem meetsNoGap_modulus : MeetsNoGap (modulus v) := by
  simp [modulus]

@[simp]
theorem meetsNoGap_argument : MeetsNoGap (argument z) := by
  simp [argument]

/-! ## Functions of prices -/

@[simp]
theorem meetsNoGap_tailText : MeetsNoGap (tailText v) := by
  cases v <;> simp [tailText]

@[simp]
theorem meetsNoGap_priceText : MeetsNoGap (priceText x) := by
  unfold priceText
  split
  · simp
  · split <;> simp

@[simp]
theorem meetsNoGap_readNumeral {s : String} : MeetsNoGap (readNumeral s) := by
  simp [readNumeral]

@[simp]
theorem meetsNoGap_withEnding : MeetsNoGap (withEnding v w) := by
  simp [withEnding]

end Function

/-! ## Registries -/

/-- **Whether an implementation meets no gap**, whatever its arguments are. -/
def Implementation.IsSound : Implementation → Prop
  | numeric f => ∀ n, MeetsNoGap (f n)
  | general f => ∀ v, MeetsNoGap (f v)
  | exact f => ∀ q, MeetsNoGap (f q)
  | analytic f => ∀ z, MeetsNoGap (f z)
  | pair f => ∀ v w, MeetsNoGap (f v w)
  | first | last | sum => True

/-- A sound implementation is applied without meeting a gap. -/
theorem Implementation.IsSound.apply {i : Implementation} (h : i.IsSound) (vs : List Value) :
    MeetsNoGap (i.apply vs) := by
  unfold Implementation.apply
  split
  · rename_i f v
    exact meetsNoGap_bind.2 ⟨Value.meetsNoGap_toNumber, fun n _ => meetsNoGap_map.2 (h n)⟩
  · exact h _
  · rename_i f v
    exact meetsNoGap_bind.2 ⟨Value.meetsNoGap_toFraction, fun q _ => meetsNoGap_map.2 (h q)⟩
  · rename_i f v
    exact meetsNoGap_bind.2 ⟨Value.meetsNoGap_toComplex, fun z _ => meetsNoGap_map.2 (h z)⟩
  · exact h _ _
  · exact meetsNoGap_ok _
  · exact meetsNoGap_ok _
  · exact Value.meetsNoGap_foldlM_add
  · simp

/-- Whether applying a registered function meets no gap. -/
def Registry.IsSound (r : Registry) : Prop := ∀ f ∈ r.entries, ∀ vs, MeetsNoGap (f.apply vs)

open Formula.Function in
/-- **No built-in function reports a gap.** -/
theorem Registry.isSound_builtin : Registry.builtin.IsSound := by
  have h : ∀ f ∈ builtinEntries, f.implementation.IsSound := by
    -- entry by entry, each with the lemma about its function
    simp [builtinEntries, realTable, exactTable, analyticTable, priceTable, ofDouble, real, exact,
      analytic, analyticValue, priceRounding, FunctionEntry.unary, Implementation.IsSound]
  exact fun f hf vs => (h f hf).apply vs

end Formula
