/-
# Digits of numbers

The digits of a number are ASCII digits, and reading them gives the number back
(`digitsValue_digits`). Cutting off the last of them divides by a power of ten (`take_digits`).
-/
import Formula.Decimal
import Formula.Text.Digit

namespace Formula

/-! ## ASCII digits -/

/-- An ASCII digit is a digit of the first script. -/
theorem digitValue?_of_isDigit {c : Char} (h : c.isDigit = true) :
    digitValue? c = some (c.toNat - 48) := by
  have hc : '0'.toNat ≤ c.toNat ∧ c.toNat ≤ '9'.toNat := Char.isDigit_iff_toNat.1 h
  have hz : (fun z => decide (z ≤ c.toNat ∧ c.toNat < z + 10)) 48 = true := by
    simp only [Char.reduceToNat, decide_eq_true_iff] at hc ⊢
    omega
  have hfirst : scriptZeros.find? (fun z => decide (z ≤ c.toNat ∧ c.toNat < z + 10)) = some 48 :=
    List.find?_cons_of_pos hz
  rw [digitValue?, hfirst]
  rfl

/-- An ASCII digit is a decimal digit. -/
theorem isDecimalDigit_of_isDigit {c : Char} (h : c.isDigit = true) : isDecimalDigit c = true := by
  rw [isDecimalDigit, digitValue?_of_isDigit h]
  rfl

/-- The digits of a number are ASCII digits. -/
theorem isDigit_of_mem_digits {n : Nat} {c : Char} (h : c ∈ digits n) : c.isDigit = true :=
  Nat.isDigit_of_mem_toDigits (by decide) (by decide) h

/-- Every number has a digit. -/
theorem digits_ne_nil (n : Nat) : digits n ≠ [] := Nat.toDigits_ne_nil

/-- A number starts with an ASCII digit. -/
theorem exists_digits_eq_cons (n : Nat) : ∃ c cs, digits n = c :: cs ∧ c.isDigit = true := by
  obtain ⟨c, cs, hc⟩ := List.exists_cons_of_ne_nil (digits_ne_nil n)
  refine ⟨c, cs, hc, isDigit_of_mem_digits (n := n) ?_⟩
  rw [hc]
  exact List.mem_cons_self

/-! ## The value of digits -/

/-- The value of ASCII digits behind a number. -/
theorem foldl_digitValue? {cs : List Char} (h : ∀ c ∈ cs, c.isDigit = true) :
    ∀ n, cs.foldl (fun n c => 10 * n + (digitValue? c).getD 0) n = Nat.ofDigitChars 10 cs n := by
  induction cs with
  | nil => exact fun _ => rfl
  | cons c cs ih =>
    intro n
    rw [List.foldl_cons, digitValue?_of_isDigit (h c List.mem_cons_self),
      ih fun d hd => h d (List.mem_cons_of_mem c hd), Nat.ofDigitChars_cons]
    rfl

/-- The value of ASCII digits is the usual one. -/
theorem digitsValue_eq {cs : List Char} (h : ∀ c ∈ cs, c.isDigit = true) :
    digitsValue cs = Nat.ofDigitChars 10 cs 0 := foldl_digitValue? h 0

/-- **The digits of a number have its value.** -/
theorem digitsValue_digits (n : Nat) : digitsValue (digits n) = n := by
  rw [digitsValue_eq fun c hc => isDigit_of_mem_digits hc]
  exact Nat.ofDigitChars_ten_toDigits

/-- The value of digits behind a number. -/
theorem foldl_digits (ds : List Char) : ∀ n,
    ds.foldl (fun n c => 10 * n + (digitValue? c).getD 0) n
      = n * 10 ^ ds.length + digitsValue ds := by
  induction ds with
  | nil => exact fun n => (Nat.mul_one n).symm
  | cons d ds ih =>
    intro n
    generalize hv : (digitValue? d).getD 0 = v
    have hd : digitsValue (d :: ds) = v * 10 ^ ds.length + digitsValue ds := by
      rw [digitsValue, List.foldl_cons, ih, hv, Nat.mul_zero, Nat.zero_add]
    rw [List.foldl_cons, ih, hv, hd, List.length_cons, Nat.pow_succ', Nat.add_mul,
      Nat.mul_comm 10 n, Nat.mul_assoc, Nat.add_assoc]

/-- **The value of a row of digits in two parts.** -/
theorem digitsValue_append (cs ds : List Char) :
    digitsValue (cs ++ ds) = digitsValue cs * 10 ^ ds.length + digitsValue ds := by
  rw [digitsValue, List.foldl_append, foldl_digits]
  rfl

/-! ## Cutting off digits -/

/-- A number below ten has one digit. -/
theorem length_digits_of_lt {n : Nat} (h : n < 10) : (digits n).length = 1 := by
  rw [digits, Nat.toDigits_of_lt_base h]
  rfl

/-- The last digit of a number. -/
theorem digits_of_ten_le {n : Nat} (h : 10 ≤ n) :
    digits n = digits (n / 10) ++ digits (n % 10) := by
  have happend : digits (n / 10) ++ digits (n % 10) = digits (10 * (n / 10) + n % 10) :=
    Nat.toDigits_append_toDigits (by decide) (by omega) (Nat.mod_lt n (by decide))
  rw [happend, Nat.div_add_mod]

/-- **Cutting off the last digits** divides by a power of ten. -/
theorem take_digits {k : Nat} : ∀ {n : Nat}, k < (digits n).length →
    (digits n).take ((digits n).length - k) = digits (n / 10 ^ k) := by
  induction k with
  | zero =>
    intro n _
    rw [Nat.sub_zero, List.take_length, Nat.pow_zero, Nat.div_one]
  | succ k ih =>
    intro n h
    have hten : 10 ≤ n := by
      refine Nat.le_of_not_lt fun hlt => ?_
      rw [length_digits_of_lt hlt] at h
      omega
    have hlast : (digits (n % 10)).length = 1 := length_digits_of_lt (Nat.mod_lt n (by decide))
    rw [digits_of_ten_le hten, List.length_append, hlast] at h ⊢
    have hlength : (digits (n / 10)).length + 1 - (k + 1) = (digits (n / 10)).length - k := by omega
    rw [hlength, List.take_append_of_le_length (by omega), ih (by omega), Nat.div_div_eq_div_mul,
      ← Nat.pow_succ']

end Formula
