/-
# The shortest decimal of a double

Among all decimals that read back as a given double, the shortest has the fewest digits, and among
those it is the nearest to the exact value, a tie going to the even last digit. The search tries
one digit, two digits and so on, looking each time at the two neighbours of the exact value on that
decimal grid; the exact expansion, which always reads back, ends the search.
-/
import Formula.Decimal
import Formula.Double.Basic

namespace Formula

namespace Double

/-! ## Decimals as doubles -/

/-- The double nearest to `c * 10 ^ e` with the given sign. Exponents that leave the range by far
are decided without computing the power. -/
def ofScientific (negative : Bool) (c : Nat) (e : Int) : Double :=
  if c = 0 then finite negative 0 rankLimit_pos
  else if 400 < e then infinity negative
  else if e + (digits c).length < -400 then finite negative 0 rankLimit_pos
  else if 0 ≤ e then ofUnits negative (c * 10 ^ e.toNat * 2 ^ 1074) 1
  else ofUnits negative (c * 2 ^ 1074) (10 ^ (-e).toNat)

/-- The double nearest to a decimal. -/
def ofDecimal (d : Decimal) : Double := ofScientific d.negative d.coefficient d.exponent

/-! ## Decimal grids -/

/-- The exponent `e` with `10 ^ e ≤ n / d < 10 ^ (e + 1)`, for a positive quotient. -/
def decimalExponent (n d : Nat) : Int :=
  if d ≤ n then (digits (n / d)).length - 1
  else
    let c := (d + n - 1) / n
    if c ≤ 1 then 0 else -((digits (c - 1)).length : Int)

/-- The number of grid steps `10 ^ p` below `n / d`, with the denominator of the quotient: the
quotient `(n / d) / 10 ^ p` as a fraction. -/
def onGrid (n d : Nat) (p : Int) : Nat × Nat :=
  if 0 ≤ p then (n, d * 10 ^ p.toNat) else (n * 10 ^ (-p).toNat, d)

/-- The neighbour of `n / d` on the grid `10 ^ p` that reads back as `x`: the nearer one when both
do. -/
def gridPoint? (x : Double) (n d : Nat) (p : Int) : Option Nat :=
  let g := onGrid n d p
  let low := g.1 / g.2
  let nearest := roundHalfEven g.1 g.2
  let other := if nearest = low then low + 1 else low
  if ofScientific false nearest p = x then some nearest
  else if ofScientific false other p = x then some other
  else none

/-- The shortest decimal of the positive double `x`, whose value is `n / d`, tried with `k`, `k + 1`
and so on up to `k + left - 1` digits. -/
def searchShortest (x : Double) (n d : Nat) (e : Int) (k : Nat) : Nat → Option (Nat × Int)
  | 0 => none
  | left + 1 =>
    let p := e - k + 1
    match gridPoint? x n d p with
    | some c => some (Decimal.stripZeros c p)
    | none => searchShortest x n d e (k + 1) left

/-- **The shortest decimal** that reads back as a finite double. -/
def toDecimal? : Double → Option Decimal
  | finite s r h =>
    if r = 0 then some ⟨s, 0, 0⟩
    else
      let n := unitsOfRank r
      let e := decimalExponent n (2 ^ 1074)
      match searchShortest (finite false r h) n (2 ^ 1074) e 1 17 with
      | some (c, p) => some ⟨s, c, p⟩
      | none => some ⟨s, n * 5 ^ 1074, -1074⟩
  | _ => none

end Double

end Formula
