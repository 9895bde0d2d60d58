/-
# Writing doubles

Three texts of a double: the shortest one that reads back, a fixed number of decimals, and a fixed
number of significant digits in scientific form. Exact ties go to the even digit.
-/
import Formula.Double.Shortest

namespace Formula

/-- The exponent mark of scientific texts: a sign and at least two digits. -/
def exponentMark (e : Int) : List Char :=
  'e' :: (if e < 0 then '-' else '+') :: paddedDigits 2 e.natAbs

namespace Double

/-! ## The shortest text -/

/-- Decimal exponents from this one are written positionally. -/
def leastPositional : Int := -4

/-- Decimal exponents from this one are written with an exponent mark. -/
def leastScientific : Int := 16

/-- The digits `ds` of a decimal with leading exponent `e` in positional notation, always with a
point. -/
def positional (ds : List Char) (e : Int) : List Char :=
  if e < 0 then '0' :: '.' :: (List.replicate (-e - 1).toNat '0' ++ ds)
  else
    let k := e.toNat + 1
    if ds.length ≤ k then ds ++ List.replicate (k - ds.length) '0' ++ ['.', '0']
    else ds.take k ++ '.' :: ds.drop k

/-- The digits `ds` of a decimal with leading exponent `e` in scientific notation; a lone digit has
no point. -/
def scientific (ds : List Char) (e : Int) : List Char :=
  (match ds with
    | [] => []
    | [d] => [d]
    | d :: rest => d :: '.' :: rest) ++ exponentMark e

/-- The text of a magnitude given by its decimal coefficient and exponent. -/
def magnitudeText (c : Nat) (p : Int) : List Char :=
  let ds := digits c
  let e := if c = 0 then 0 else p + ds.length - 1
  if leastPositional ≤ e ∧ e < leastScientific then positional ds e else scientific ds e

/-- **The shortest text** of a double: the fewest digits that read back, positional while the
decimal exponent is at least `-4` and below `16`. -/
def text (x : Double) : String :=
  match x with
  | nan => "nan"
  | infinity s => if s then "-inf" else "inf"
  | finite s _ _ =>
    match x.toDecimal? with
    | some d => String.ofList ((if s then ['-'] else []) ++ magnitudeText d.coefficient d.exponent)
    | none => ""

/-! ## A fixed number of decimals -/

/-- The magnitude of a finite double in units of `10 ^ -places`, rounded half to even. -/
def scaledHalfEven (places r : Nat) : Nat :=
  roundHalfEven (unitsOfRank r * 10 ^ places) (2 ^ 1074)

/-- The sign that is written before a text. -/
def signText (plus s : Bool) : List Char :=
  if s then ['-'] else if plus then ['+'] else []

/-- The text with a fixed number of decimals; with `plus`, other numbers than negative ones carry a
plus sign. -/
def fixedText (places : Nat) (plus : Bool) : Double → String
  | nan => String.ofList (signText plus false ++ ['n', 'a', 'n'])
  | infinity s => String.ofList (signText plus s ++ ['i', 'n', 'f'])
  | finite s r _ => String.ofList (signText plus s ++ fixedPoint places (scaledHalfEven places r))

/-! ## A fixed number of significant digits -/

/-- The scientific text with `places` decimals in the mantissa. -/
def scientificText (places : Nat) : Double → String
  | nan => "nan"
  | infinity s => if s then "-inf" else "inf"
  | finite s r _ =>
    let n := unitsOfRank r
    let e := if n = 0 then 0 else decimalExponent n (2 ^ 1074)
    let g := onGrid n (2 ^ 1074) (e - places)
    let c := roundHalfEven g.1 g.2
    let carried := decide (c = 10 ^ (places + 1))
    String.ofList (signText false s
      ++ fixedPoint places (if carried then c / 10 else c)
      ++ exponentMark (if carried then e + 1 else e))

end Double

end Formula
