/-
# Written decimals

A decimal of a complex number has digits on both sides of a point or a comma, behind an optional
minus sign. **It is read as a decimal with places** (`Complex.read?_decimal`), which rounds as the
rational that it is, however many digits it has (`Double.rounds_ofScientific`).
-/
import Formula.Complex.Text
import Formula.Proofs.Conversions
import Formula.Proofs.RoundedArithmetic
import Formula.Proofs.ShortestDecimal
import Formula.Proofs.WrittenRationals

namespace Formula

namespace Double

/-! ## Decimals by value -/

/-- A magnitude of half a unit at most is zero. -/
theorem ofUnits_eq_zero {n d : Nat} (hd : 0 < d) (h : 2 * n ≤ d) (s : Bool) :
    ofUnits s n d = finite s 0 rankLimit_pos := by
  have hrank : nearestRank n d = 0 := (nearestRank_eq_zero hd).2 h
  unfold ofUnits
  simp only [hrank, rankLimit_pos, dif_pos]

/-- A power of two is small against a power of ten. -/
theorem two_mul_two_pow_le {e k : Nat} (h : e < 3 * k) : 2 * 2 ^ e ≤ 10 ^ k :=
  calc 2 * 2 ^ e = 2 ^ (e + 1) := Nat.pow_succ'.symm
    _ ≤ 2 ^ (3 * k) := Nat.pow_le_pow_right (by decide) h
    _ ≤ 10 ^ k := two_pow_le_ten_pow k

/-- A coefficient with far fewer digits than places is below half a unit. -/
theorem two_mul_le_ten_pow {c k : Nat} (h : (digits c).length + 401 ≤ k) :
    2 * (c * 2 ^ 1074) ≤ 10 ^ k := by
  have hlt : c < 10 ^ (digits c).length :=
    Nat.lt_of_not_le fun hle => (length_digits_of_le hle).false
  have hunits := two_mul_two_pow_le (e := 1074) (k := 401) (by decide)
  calc 2 * (c * 2 ^ 1074) = c * (2 * 2 ^ 1074) := Nat.mul_left_comm _ _ _
    _ ≤ 10 ^ (digits c).length * 10 ^ 401 := Nat.mul_le_mul hlt.le hunits
    _ = 10 ^ ((digits c).length + 401) := by rw [Nat.pow_add]
    _ ≤ 10 ^ k := Nat.pow_le_pow_right (by decide) h

/-- **A decimal with places is read by value**, also where it is far below the least double. -/
theorem ofScientific_places (s : Bool) (c k : Nat) :
    ofScientific s c (-(k : Int)) = ofUnits s (c * 2 ^ 1074) (10 ^ k) := by
  have hpow : 0 < 10 ^ k := Nat.pow_pos (by decide)
  by_cases hc : c = 0
  · subst hc
    rw [ofScientific_zero, ofUnits_eq_zero hpow (by omega)]
  · rw [ofScientific_eq hc, if_neg (by omega)]
    split
    · exact (ofUnits_eq_zero hpow (two_mul_le_ten_pow (by omega)) s).symm
    · rw [scaled]
      split
      · obtain rfl : k = 0 := by omega
        rw [Nat.pow_zero, show (-((0 : Nat) : Int)).toNat = 0 from rfl, Nat.pow_zero, Nat.mul_one]
      · rw [neg_neg, Int.toNat_natCast]

/-- **A decimal with places rounds as the rational that it is.** -/
theorem rounds_ofScientific (s : Bool) (c k : Nat) :
    (ofScientific s c (-(k : Int))).Rounds (signed s ((c : Rat) / (10 ^ k : Nat))) := by
  have hround := rounds_ofUnits (Nat.pow_pos (by decide) : 0 < 10 ^ k) s (c * 2 ^ 1074)
  rw [Nat.cast_mul, mul_div_mul_right _ _ (two_pow_pos_rat _).ne'] at hround
  rw [ofScientific_places]
  exact hround

end Double

namespace Complex

open Rational

variable {cs ws ps : List Char} {c : Char}

/-! ## Reading decimals -/

/-- An optional minus sign. -/
def minusText (negative : Bool) : List Char := if negative then ['-'] else []

/-- A minus sign stays when a text is made readable. -/
theorem withPoint_minus (negative : Bool) (cs : List Char) :
    (withPoint (minusText negative ++ cs)).toList.map asciiDigit
      = minusText negative ++ (withPoint cs).toList.map asciiDigit := by
  have hminus : asciiDigit '-' = '-' := by decide
  cases negative <;> simp [withPoint, minusText, hminus]

/-- The ASCII form of a decimal, with a point. -/
theorem withPoint_decimal (hws : IsDigits ws) (hc : c = ',' ∨ c = '.') (hps : IsDigits ps) :
    (withPoint (ws ++ c :: ps)).toList.map asciiDigit
      = Numeral.text ⟨ws.map asciiDigit, ps.map asciiDigit, none⟩ := by
  have hascii := ascii_numeral hws.2 hc.symm hps.2 .none
  have hpoint : (fun c => if (c == ',') = true then '.' else c)
      = fun c => if c = ',' then '.' else c := by
    funext c
    simp only [beq_iff_eq]
  rw [List.append_nil, List.map_nil] at hascii
  rw [withPoint, String.toList_ofList, hpoint, hascii]
  rfl

/-- **A decimal is read as the double that it shows.** -/
theorem read?_decimal (negative : Bool) (hws : IsDigits ws) (hc : c = ',' ∨ c = '.')
    (hps : IsDigits ps) : Double.read? (withPoint (minusText negative ++ (ws ++ c :: ps)))
      = some (.ofScientific negative (digitsValue (ws ++ ps)) (-(ps.length : Int))) := by
  have hdigits : ∀ d ∈ ws ++ ps, isDecimalDigit d = true :=
    fun d hd => (List.mem_append.1 hd).elim (hws.2 d) (hps.2 d)
  have hvalid : Numeral.Valid ⟨ws.map asciiDigit, ps.map asciiDigit, none⟩ := by
    refine ⟨by simpa using hws.1, by simpa using hps.1, ?_⟩
    rw [← List.map_append]
    exact isDigit_of_mem_map hdigits
  have hvalue : digitsValue (ws.map asciiDigit ++ ps.map asciiDigit) = digitsValue (ws ++ ps) := by
    rw [← List.map_append, digitsValue_map hdigits]
  rw [← String.ofList_toList (s := withPoint _), ← Double.read?_map_asciiDigit, withPoint_minus,
    withPoint_decimal hws hc hps]
  cases negative with
  | false =>
    refine hvalid.read?_text.trans ?_
    rw [Numeral.value, hvalue, List.length_map, Option.getD_none, Int.zero_sub]
  | true =>
    refine hvalid.read?_minus_text.trans ?_
    rw [hvalue, List.length_map, Option.getD_none, Int.zero_sub]

end Complex

end Formula
