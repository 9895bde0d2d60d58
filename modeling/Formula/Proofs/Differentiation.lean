/-
# Derivatives and their parts

A derivative is built by the simplifying constructors from the parts of an expression and from
derivatives of parts. So **a property of complete expressions that folding hands on is handed on to
derivatives** (`Differentiates.derivative`): the derivative of a complete expression is complete,
and no differentiation of one meets a gap.
-/
import Formula.Derivative
import Formula.Proofs.Complete
import Formula.Proofs.Gaps
import Formula.Proofs.Refusal

namespace Formula

/-! ## Simplifying constructors -/

/-- Refused operands are no gap. -/
theorem Simplify.Refused.reportsGap_eq_false {op : Operator} {l r : Expr} {x : Error}
    (h : Refused op l r x) : x.reportsGap = false := by
  rcases h.isIntrinsic_or_leavesRange with hx | hx <;> cases x <;> first | rfl | cases hx

open Formula.Expr Simplify

/-- **Whether a property of complete expressions is handed on by differentiation**: in every step of
folding, to the parts of an expression, and to the constants and functions that the rules bring
in. -/
structure Differentiates (P : Expr → Prop) : Prop extends
    Simplify.Inherits (fun _ => True) P where
  complete {e : Expr} : P e → e.Complete
  constant (name : String) : P (constant name)
  call {name : String} {a : Expr} : name ≠ endingName → P a → P (call name a)
  right {op : Operator} {l r : Expr} : P (Expr.operation op l r) → r.isHole = false → P r
  argument {name : String} {a : Expr} : P (Expr.call name a) → P a

/-- **Whether a computation builds an expression with a property**, if any, and meets no gap. -/
structure Builds (P : Expr → Prop) (m : Except Error Expr) : Prop where
  holds : ∀ e, m = .ok e → P e
  meetsNoGap : MeetsNoGap m

variable {P : Expr → Prop} {l r e : Expr}

namespace Builds

variable {m : Except Error Expr} {f : Expr → Except Error Expr}

/-- An expression with the property is built. -/
theorem ok (h : P e) : Builds P (.ok e) := by
  refine ⟨?_, meetsNoGap_ok e⟩
  rintro _ ⟨⟩
  exact h

/-- Nothing is built behind an error. -/
theorem error {x : Error} (h : x.reportsGap = false) : Builds P (.error x) :=
  ⟨nofun, meetsNoGap_error.2 h⟩

/-- What is built from a built expression. -/
theorem bind (hm : Builds P m) (hf : ∀ e, P e → Builds P (f e)) : Builds P (m >>= f) := by
  refine ⟨fun e he => ?_, ?_⟩
  · obtain ⟨v, hv, he⟩ := bind_eq_ok.1 he
    exact (hf v (hm.holds v hv)).holds e he
  · exact meetsNoGap_bind.2 ⟨hm.meetsNoGap, fun v hv => (hf v (hm.holds v hv)).meetsNoGap⟩

/-- A built expression that is transformed. -/
theorem map {g : Expr → Expr} (hm : Builds P m) (hg : ∀ e, P e → P (g e)) :
    Builds P (g <$> m) := by
  cases m with
  | error x => exact error (meetsNoGap_error.1 hm.meetsNoGap)
  | ok v => exact ok (hg v (hm.holds v rfl))

end Builds

namespace Differentiates

variable (hP : Differentiates P)
include hP

/-- Sums are built. -/
theorem builds_sum (hl : P l) (hr : P r) : Builds P (sum l r) :=
  ⟨fun _ => hP.sum trivial hl hr, fun _ hx => (refused_of_sum hx).reportsGap_eq_false⟩

/-- Differences are built. -/
theorem builds_difference (hl : P l) (hr : P r) : Builds P (difference l r) :=
  ⟨fun _ => hP.difference trivial hl hr,
    fun _ hx => (refused_of_difference hx).reportsGap_eq_false⟩

/-- Products are built. -/
theorem builds_product (hl : P l) (hr : P r) : Builds P (product l r) :=
  ⟨fun _ => hP.product trivial hl hr, fun _ hx => (refused_of_product hx).reportsGap_eq_false⟩

/-- Quotients are built. -/
theorem builds_quotient (hl : P l) (hr : P r) : Builds P (quotient l r) :=
  ⟨fun _ => hP.quotient trivial hl hr, fun _ hx => (refused_of_quotient hx).reportsGap_eq_false⟩

/-- Powers are built. -/
theorem builds_power (hl : P l) (hr : P r) : Builds P (power l r) :=
  ⟨fun _ => hP.power trivial hl hr, fun _ hx => (refused_of_power hx).reportsGap_eq_false⟩

/-! ## Parts of derivatives -/

/-- Squares are built. -/
theorem builds_square (h : P e) : Builds P e.square := hP.builds_power h (hP.number _)

/-- One less a square is built. -/
theorem builds_oneMinusSquare (h : P e) : Builds P e.oneMinusSquare :=
  (hP.builds_square h).bind fun _ hs => hP.builds_difference (hP.number _) hs

/-- One and a square are built. -/
theorem builds_onePlusSquare (h : P e) : Builds P e.onePlusSquare :=
  (hP.builds_square h).bind fun _ hs => hP.builds_sum (hP.number _) hs

/-- Quotients of parts of one derivative are built. -/
theorem builds_ratio (hl : P l) (hr : P r) : Builds P (ratio l r) := by
  unfold Expr.ratio
  split
  · exact .ok (hP.number _)
  · exact hP.builds_quotient hl hr

/-- Differences of products are built. -/
theorem builds_crossDifference {f g f' g' : Expr} (hf : P f) (hg : P g) (hf' : P f')
    (hg' : P g') : Builds P (crossDifference f g f' g') := by
  refine (hP.builds_product hf' hg).bind fun u hu =>
    (hP.builds_product hf hg').bind fun v hv => ?_
  split
  · exact .ok (hP.number _)
  · exact hP.builds_difference hu hv

/-! ## Rules -/

/-- The radians of a degree have the property. -/
theorem degree : P degree :=
  hP.operation trivial (by decide) (hP.constant "pi") (hP.number _) rfl

/-- The derivative inside times something built is built. -/
theorem builds_product_of {m : Except Error Expr} (hl : P l) (hm : Builds P m) :
    Builds P (do Simplify.product l (← m)) :=
  hm.bind fun _ h => hP.builds_product hl h

/-- The derivative inside over something built is built. -/
theorem builds_ratio_of {m : Except Error Expr} (hl : P l) (hm : Builds P m) :
    Builds P (do Expr.ratio l (← m)) :=
  hm.bind fun _ h => hP.builds_ratio hl h

/-- The derivative inside over the root of something built is built. -/
theorem builds_ratio_root {m : Except Error Expr} (hl : P l) (hm : Builds P m) :
    Builds P (do Expr.ratio l (Expr.call "sqrt" (← m))) :=
  hm.bind fun _ h => hP.builds_ratio hl (hP.call (by decide) h)

/-- **The chain rule** builds the derivative of a function from the one inside. -/
theorem builds_chain {name : String} {arg inner : Expr} (hw : P (Expr.call name arg))
    (hi : P inner) : Builds P (chain name arg inner) := by
  have ha : P arg := hP.argument hw
  have hcall : ∀ {f : String}, f ≠ endingName → P (Expr.call f arg) := fun hf => hP.call hf ha
  unfold Expr.chain
  dsimp only
  split
  -- circular functions of radians and of degrees
  case h_1 => exact hP.builds_product hi (hcall (by decide))
  case h_2 => exact hP.builds_product hi (hP.opposite trivial (hcall (by decide)))
  case h_3 => exact hP.builds_product_of hi (hP.builds_onePlusSquare hw)
  case h_4 =>
    exact (hP.builds_square hw).bind fun _ hs =>
      hP.builds_product_of hi (hP.builds_difference (hP.number _) hs)
  case h_5 => exact hP.builds_product_of hi (hP.builds_product hP.degree (hcall (by decide)))
  case h_6 =>
    exact (hP.builds_product hP.degree (hcall (by decide))).bind fun _ h =>
      hP.builds_product hi (hP.opposite trivial h)
  case h_7 =>
    exact (hP.builds_onePlusSquare hw).bind fun _ hs =>
      hP.builds_product_of hi (hP.builds_product hP.degree hs)
  case h_8 =>
    exact (hP.builds_onePlusSquare hw).bind fun _ hs =>
      (hP.builds_product hP.degree hs).bind fun _ h =>
        hP.builds_product hi (hP.opposite trivial h)
  -- inverse circular functions
  case h_9 => exact hP.builds_ratio_root hi (hP.builds_oneMinusSquare ha)
  case h_10 => exact hP.builds_ratio_root (hP.opposite trivial hi) (hP.builds_oneMinusSquare ha)
  case h_11 => exact hP.builds_ratio_of hi (hP.builds_onePlusSquare ha)
  case h_12 => exact hP.builds_ratio_of (hP.opposite trivial hi) (hP.builds_onePlusSquare ha)
  -- the exponential, logarithms and the square root
  case h_13 => exact hP.builds_product hi hw
  case h_14 => exact hP.builds_ratio hi ha
  case h_15 => exact hP.builds_ratio hi ha
  case h_16 =>
    exact hP.builds_ratio_of hi (hP.builds_product (hP.call (by decide) (hP.number _)) ha)
  case h_17 => exact hP.builds_ratio_of hi (hP.builds_product (hP.number _) hw)
  -- hyperbolic functions and their inverses
  case h_18 => exact hP.builds_product hi (hcall (by decide))
  case h_19 => exact hP.builds_product hi (hcall (by decide))
  case h_20 => exact hP.builds_product_of hi (hP.builds_oneMinusSquare hw)
  case h_21 => exact hP.builds_product_of hi (hP.builds_oneMinusSquare hw)
  case h_22 =>
    exact (hP.builds_square ha).bind fun _ hs =>
      hP.builds_ratio_root hi (hP.builds_sum hs (hP.number _))
  case h_23 =>
    exact (hP.builds_square ha).bind fun _ hs =>
      hP.builds_ratio_root hi (hP.builds_difference hs (hP.number _))
  case h_24 => exact hP.builds_ratio_of hi (hP.builds_oneMinusSquare ha)
  case h_25 => exact hP.builds_ratio_of hi (hP.builds_oneMinusSquare ha)
  -- the magnitude, and names without a rule
  case h_26 => exact hP.builds_product hi (hcall (by decide))
  case h_27 => exact .error rfl

/-- The rule for powers with a number as exponent builds its derivative. -/
theorem builds_powerRule {base exponent base' : Expr} (hb : P base) (hn : P exponent)
    (hb' : P base') : Builds P (powerRule base exponent base') := by
  unfold Expr.powerRule
  split
  · exact .ok (hP.number _)
  · exact (hP.builds_difference hn (hP.number _)).bind fun _ hm =>
      (hP.builds_power hb hm).bind fun _ hs =>
        (hP.builds_product hs hb').bind fun _ hp => hP.builds_product hn hp

/-- The rule for other powers builds its derivative. -/
theorem builds_exponentialRule {base exponent base' exponent' : Expr}
    (hw : P (Expr.operation .pow base exponent)) (hn : P exponent) (hb' : P base')
    (hn' : P exponent') : Builds P (exponentialRule base exponent base' exponent') := by
  have hb : P base := hP.left hw
  unfold Expr.exponentialRule
  dsimp only
  split
  · exact hP.builds_product hn' hw
  · refine (hP.builds_product hn' (hP.call (by decide) hb)).bind fun u hu => ?_
    split
    · exact hP.builds_product hw hu
    · exact (hP.builds_product hn hb').bind fun _ hp => (hP.builds_quotient hp hb).bind fun _ hq =>
        (hP.builds_sum hu hq).bind fun _ hs => hP.builds_product hw hs

end Differentiates

/-! ## Differentiation -/

/-- Between two complete operands no operand is missing. -/
theorem Expr.lacksOperand_eq_false {op : Operator} (hl : l.Complete) (hr : r.Complete) :
    lacksOperand op l r = false := by
  rw [lacksOperand, hl.isHole_eq_false, hr.isHole_eq_false]
  rfl

/-- A one-sided operator with its operand lacks none. -/
theorem Expr.lacksOperand_hole {op : Operator} (hl : l.Complete) (hop : op.mayStandBefore = true) :
    lacksOperand op l hole = false := by
  rw [lacksOperand, hl.isHole_eq_false, hop]
  rfl

/-- **What differentiation hands on is handed on to derivatives**, and differentiating meets no
gap. -/
theorem Differentiates.derivative (hP : Differentiates P) (x : String) (h : P e) :
    Builds P (e.derivative x) := by
  -- induction on the expression: each rule builds on the derivatives of its operands
  induction hP.complete h with
  | number n => exact .ok (hP.number _)
  | boolean b => exact .error rfl
  | constant name =>
    refine .ok ?_
    split
    · exact hP.constant name
    · exact hP.number _
  | identifier name =>
    refine .ok ?_
    split <;> exact hP.number _
  | literal text => exact .error rfl
  | @operation op l r hop hl hr ihl ihr =>
    have hno : ∀ op, lacksOperand op l r = false := fun op => lacksOperand_eq_false hl hr
    have hleft : P l := hP.left h
    have hright : P r := hP.right h hr.isHole_eq_false
    cases op with
    | add =>
      rw [Expr.derivative, hno, if_neg Bool.false_ne_true]
      exact (ihl hleft).bind fun _ hl' => (ihr hright).bind fun _ hr' => hP.builds_sum hl' hr'
    | sub =>
      rw [Expr.derivative, hno, if_neg Bool.false_ne_true, hr.isHole_eq_false,
        if_neg Bool.false_ne_true]
      exact (ihl hleft).bind fun _ hl' =>
        (ihr hright).bind fun _ hr' => hP.builds_difference hl' hr'
    | mul =>
      rw [Expr.derivative, hno, if_neg Bool.false_ne_true]
      exact (ihr hright).bind fun _ hr' => (hP.builds_product hleft hr').bind fun _ hp =>
        (ihl hleft).bind fun _ hl' => (hP.builds_product hl' hright).bind fun _ hq =>
          hP.builds_sum hp hq
    | div =>
      rw [Expr.derivative, hno, if_neg Bool.false_ne_true]
      exact (ihl hleft).bind fun _ hl' => (ihr hright).bind fun _ hr' =>
        (hP.builds_crossDifference hleft hright hl' hr').bind fun _ hd =>
          (hP.builds_square hright).bind fun _ hs => hP.builds_quotient hd hs
    | pow =>
      rw [Expr.derivative, hno, if_neg Bool.false_ne_true]
      refine (ihl hleft).bind fun l' hl' => ?_
      split
      · exact hP.builds_powerRule hleft hright hl'
      · exact (ihr hright).bind fun _ hr' => hP.builds_exponentialRule h hright hl' hr'
    | not => exact absurd rfl hop
    | _ =>
      rw [Expr.derivative, hno, if_neg Bool.false_ne_true]
      · exact .error rfl
      all_goals exact nofun
  | negated he ih =>
    rw [Expr.derivative, lacksOperand_hole he rfl, if_neg Bool.false_ne_true]
    exact (ih (hP.left h)).map fun _ => hP.opposite trivial
  | denied he =>
    rw [Expr.derivative, lacksOperand_hole he rfl, if_neg Bool.false_ne_true]
    · exact .error rfl
    all_goals exact nofun
  | conditional => exact .error rfl
  | call hname ha ih => exact (ih (hP.argument h)).bind fun _ hi => hP.builds_chain h hi
  | ending => exact .error rfl

/-- **Completeness is handed on by differentiation.** -/
theorem differentiates_complete : Differentiates Complete where
  toInherits := inherits_complete
  complete := id
  constant := .constant
  call := .call
  right := fun h hr => h.right hr
  argument := fun h => h.argument

/-- **The derivative of a complete expression is built**, if there is one. -/
theorem Expr.Complete.derivative (x : String) (h : e.Complete) :
    Builds Complete (e.derivative x) :=
  differentiates_complete.derivative x h

end Formula
