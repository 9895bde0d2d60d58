/-
# Doubles as exact numbers

A double is not a number, an infinity, or one of the finite values of the binary64 format. The
finite magnitudes are numbered in increasing order by their **rank**, and every magnitude is a
whole number of **units** of `2 ^ -1074`, so that order, equality and exact value need no floating
arithmetic.
-/
import Formula.Decimal

namespace Formula

/-! ## Ranks and units -/

/-- The number of finite magnitudes; the rank after the last one stands for the overflow. -/
def rankLimit : Nat := 2047 * 2 ^ 52

/-- There is a rank, that of zero. -/
theorem rankLimit_pos : 0 < rankLimit := by decide

/-- The magnitude of rank `r`, in units of `2 ^ -1074`. -/
def unitsOfRank (r : Nat) : Nat :=
  if r < 2 ^ 53 then r else (2 ^ 52 + r % 2 ^ 52) * 2 ^ (r / 2 ^ 52 - 1)

/-- The quotient `n / d` rounded to the nearest whole number, a half going to the even one. -/
def roundHalfEven (n d : Nat) : Nat :=
  if 2 * (n % d) < d then n / d
  else if d < 2 * (n % d) then n / d + 1
  else n / d + n / d % 2

/-- The rank whose magnitude is nearest to `n / d` units, a half going to the even rank. -/
def nearestRank (n d : Nat) : Nat :=
  let shift := Nat.log2 (n / d) - 52
  shift * 2 ^ 52 + roundHalfEven n (d * 2 ^ shift)

/-- Ranks below `2 ^ 53` count units. -/
theorem unitsOfRank_of_lt {r : Nat} (h : r < 2 ^ 53) : unitsOfRank r = r := by
  rw [unitsOfRank, if_pos h]

/-- A whole number rounds to itself. -/
theorem roundHalfEven_mul (n d : Nat) (h : 0 < d) : roundHalfEven (n * d) d = n := by
  have hd : n * d / d = n := Nat.mul_div_cancel n h
  have hm : n * d % d = 0 := Nat.mul_mod_left n d
  rw [roundHalfEven, hd, hm, if_pos (by omega)]

/-- The whole number nearest to a quotient is zero up to one half. -/
theorem roundHalfEven_eq_zero {n d : Nat} (hd : 0 < d) : roundHalfEven n d = 0 ↔ 2 * n ≤ d := by
  have hdm : d * (n / d) + n % d = n := Nat.div_add_mod n d
  have hlt : n % d < d := Nat.mod_lt n hd
  unfold roundHalfEven
  rcases Nat.eq_zero_or_pos (n / d) with hq | hq
  · rw [hq] at hdm ⊢
    split
    · omega
    · split <;> omega
  · have hle : d ≤ d * (n / d) := Nat.le_mul_of_pos_right d hq
    split
    · omega
    · split <;> omega

/-- **The nearest rank is that of zero** up to half a unit. -/
theorem nearestRank_eq_zero {n d : Nat} (hd : 0 < d) : nearestRank n d = 0 ↔ 2 * n ≤ d := by
  simp only [nearestRank]
  by_cases hs : Nat.log2 (n / d) - 52 = 0
  · simp only [hs, Nat.zero_mul, Nat.zero_add, Nat.pow_zero, Nat.mul_one]
    exact roundHalfEven_eq_zero hd
  · have hn : ¬ n < d := by
      intro hn
      rw [Nat.div_eq_of_lt hn] at hs
      exact hs rfl
    have hpos : 0 < (Nat.log2 (n / d) - 52) * 2 ^ 52 := Nat.mul_pos (by omega) (by decide)
    constructor
    · intro h
      omega
    · intro h
      omega

/-- A common factor changes no rounded quotient. -/
theorem roundHalfEven_mul_mul {k n d : Nat} (hk : 0 < k) :
    roundHalfEven (k * n) (k * d) = roundHalfEven n d := by
  have hmul : ∀ a b : Nat, k * a < k * b ↔ a < b := fun a b => Nat.mul_lt_mul_left hk
  simp only [roundHalfEven, Nat.mul_mod_mul_left, Nat.mul_div_mul_left _ _ hk,
    Nat.mul_left_comm 2 k, hmul]

/-- A common factor changes no nearest rank. -/
theorem nearestRank_mul_mul {k n d : Nat} (hk : 0 < k) :
    nearestRank (k * n) (k * d) = nearestRank n d := by
  simp only [nearestRank, Nat.mul_div_mul_left _ _ hk, Nat.mul_assoc, roundHalfEven_mul_mul hk]

/-! ## Doubles -/

/-- A double: not a number, an infinity, or a signed finite magnitude given by its rank. -/
inductive Double where
  | nan
  | infinity (negative : Bool)
  | finite (negative : Bool) (rank : Nat) (below : rank < rankLimit)
  deriving DecidableEq

namespace Double

instance : Inhabited Double := ⟨nan⟩

/-- Positive zero. -/
def zero : Double := finite false 0 rankLimit_pos

/-- One. -/
def one : Double := finite false (1023 * 2 ^ 52) (by decide)

/-- The double nearest to `n / d` units of `2 ^ -1074` with the given sign; infinite past the
largest finite magnitude. -/
def ofUnits (negative : Bool) (n d : Nat) : Double :=
  if h : nearestRank n d < rankLimit then finite negative (nearestRank n d) h
  else infinity negative

/-- A common factor changes no double. -/
theorem ofUnits_mul_mul {s : Bool} {k n d : Nat} (hk : 0 < k) :
    ofUnits s (k * n) (k * d) = ofUnits s n d := by
  simp only [ofUnits, nearestRank_mul_mul hk]

/-- The double nearest to a rational; zero is positive. -/
def ofRat (q : Rat) : Double :=
  ofUnits (decide (q < 0)) (q.num.natAbs * 2 ^ 1074) q.den

/-- The double nearest to an integer; zero is positive. -/
def ofInt (n : Int) : Double :=
  ofUnits (decide (n < 0)) (n.natAbs * 2 ^ 1074) 1

/-- Whether the double is neither infinite nor NaN. -/
def isFinite : Double → Bool
  | finite .. => true
  | _ => false

/-- Whether the double is NaN. -/
def isNan : Double → Bool
  | nan => true
  | _ => false

/-- Whether a double is an infinity. -/
def isInfinite : Double → Bool
  | infinity _ => true
  | _ => false

/-- Whether the sign bit is set; NaN carries no sign. -/
def signBit : Double → Bool
  | nan => false
  | infinity s => s
  | finite s _ _ => s

/-- The signed number of units, when finite. -/
def units? : Double → Option Int
  | finite s r _ => some (if s then -(unitsOfRank r : Int) else unitsOfRank r)
  | _ => none

/-- **The exact value** of a finite double. -/
def toRat? (x : Double) : Option Rat :=
  x.units?.map fun u => mkRat u (2 ^ 1074)

/-- Converts a rational, failing when it rounds past the largest finite double. -/
def ofRat? (q : Rat) : Option Double :=
  if (ofRat q).isFinite then some (ofRat q) else none

/-- Converts an integer, failing when it rounds past the largest finite double. -/
def ofInt? (n : Int) : Option Double :=
  if (ofInt n).isFinite then some (ofInt n) else none

/-! ## Sign and order -/

/-- The negation, also of zeros and infinities. -/
def neg : Double → Double
  | nan => nan
  | infinity s => infinity (!s)
  | finite s r h => finite (!s) r h

/-- The magnitude. -/
def abs : Double → Double
  | nan => nan
  | infinity _ => infinity false
  | finite _ r h => finite false r h

/-- `x` with the sign of `y`. -/
def copySign (x y : Double) : Double :=
  if y.signBit then x.abs.neg else x.abs

/-- The place of a double in the order of all doubles; both zeros have place zero and NaN has
none. -/
def place? : Double → Option Int
  | nan => none
  | infinity s => some (if s then -(rankLimit : Int) else rankLimit)
  | finite s r _ => some (if s then -(r : Int) else r)

/-- Numeric equality: zeros of either sign are equal and NaN equals nothing. -/
def eqv (x y : Double) : Bool :=
  match x.place?, y.place? with
  | some a, some b => a == b
  | _, _ => false

/-- Numeric strict order; false when either side is NaN. -/
def lt (x y : Double) : Bool :=
  match x.place?, y.place? with
  | some a, some b => decide (a < b)
  | _, _ => false

/-- Numeric order; false when either side is NaN. -/
def le (x y : Double) : Bool :=
  match x.place?, y.place? with
  | some a, some b => decide (a ≤ b)
  | _, _ => false

/-- Whether the double is a zero of either sign. -/
def isZero (x : Double) : Bool := x.eqv zero

/-- **A magnitude rounds to zero** up to half a unit. -/
theorem isZero_ofUnits {s : Bool} {n d : Nat} (hd : 0 < d) :
    (ofUnits s n d).isZero = true ↔ 2 * n ≤ d := by
  rw [← nearestRank_eq_zero hd]
  unfold ofUnits
  split
  · cases s <;> simp [isZero, eqv, place?, zero]
  · rename_i h
    have hr : nearestRank n d ≠ 0 := by
      intro h0
      rw [h0] at h
      exact h rankLimit_pos
    cases s <;> simp [isZero, eqv, place?, zero, hr, rankLimit]

/-- **A negative magnitude above half a unit rounds to a negative double.** -/
theorem lt_zero_ofUnits {n d : Nat} (hd : 0 < d) (h : d < 2 * n) :
    (ofUnits true n d).lt zero = true := by
  have hr : nearestRank n d ≠ 0 := by
    rw [Ne, nearestRank_eq_zero hd]
    omega
  unfold ofUnits
  split
  · simp [lt, place?, zero]
    omega
  · simp [lt, place?, zero, rankLimit]

/-! ## Bit patterns -/

/-- The binary64 bit pattern. -/
def toBits : Double → Nat
  | nan => 0x7ff8000000000000
  | infinity s => (if s then 2 ^ 63 else 0) + rankLimit
  | finite s r _ => (if s then 2 ^ 63 else 0) + r

/-- The double with a binary64 bit pattern. -/
def ofBits (bits : Nat) : Double :=
  let r := bits % 2 ^ 63
  let s := decide (2 ^ 63 ≤ bits)
  if h : r < rankLimit then finite s r h
  else if r = rankLimit then infinity s
  else nan

/-- A bit pattern below the infinities, without a sign, stands for the magnitude of that rank. -/
theorem ofBits_of_lt {r : Nat} (h : r < rankLimit) : ofBits r = finite false r h := by
  have hr : r < 2 ^ 63 := Nat.lt_trans h (by decide)
  have hm : r % 2 ^ 63 = r := Nat.mod_eq_of_lt hr
  have hs : decide (2 ^ 63 ≤ r) = false := decide_eq_false (Nat.not_le_of_lt hr)
  simp only [ofBits, hm, hs, dif_pos h]

/-- The sign bit in front of a rank gives the negative magnitude. -/
theorem ofBits_sign_add {r : Nat} (h : r < rankLimit) : ofBits (2 ^ 63 + r) = finite true r h := by
  have hr : r < 2 ^ 63 := Nat.lt_trans h (by decide)
  have hm : (2 ^ 63 + r) % 2 ^ 63 = r := by rw [Nat.add_mod_left, Nat.mod_eq_of_lt hr]
  have hs : decide (2 ^ 63 ≤ 2 ^ 63 + r) = true := decide_eq_true (Nat.le_add_right _ _)
  simp only [ofBits, hm, hs, dif_pos h]

/-- **Reading back a bit pattern** gives the double it was made from. -/
theorem ofBits_toBits (x : Double) : ofBits x.toBits = x := by
  cases x with
  | nan => decide
  | infinity s => cases s <;> decide
  | finite s r h =>
    cases s
    · rw [toBits, if_neg Bool.false_ne_true, Nat.zero_add, ofBits_of_lt h]
    · rw [toBits, if_pos rfl, ofBits_sign_add h]

/-- The platform's floating value. -/
def toFloat (x : Double) : Float := Float.ofBits (UInt64.ofNat x.toBits)

/-- The double held by a platform floating value. -/
def ofFloat (x : Float) : Double := ofBits x.toBits.toNat

end Double

end Formula
