/-
# Relations and orders

A relation is decided from the order of its two sides. NaN has no order, and of all relations only
`<>` holds with it.
-/
import Formula.Operator

namespace Formula

/-- Whether a relation holds between two values with the given order; an undefined order satisfies
only `ne`. -/
def Operator.holds (op : Operator) (order : Option Ordering) : Bool :=
  match op with
  | eq => order == some .eq
  | ne => order != some .eq
  | gt => order == some .gt
  | lt => order == some .lt
  | ge => order == some .gt || order == some .eq
  | le => order == some .lt || order == some .eq
  | _ => false

/-- The order of two texts, by code points. -/
def compareText (a b : String) : Ordering := if a < b then .lt else if a = b then .eq else .gt

/-- The order of two truth values; false comes first. -/
def compareBool (a b : Bool) : Ordering := compare a.toNat b.toNat

end Formula
