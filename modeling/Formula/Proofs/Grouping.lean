/-
# Grouping of printed expressions

The printer sets fewer brackets than an expression may need. An operand without brackets keeps
together when its own operators bind more tightly than the operator beside it. Where all operands
do, the expression is **settled**, and its plain text reads back as itself (`reread_of_settled`).
-/
import Formula.Proofs.Rereading

namespace Formula

open Grammar

/-! ## Layouts in a place -/

namespace Grammar.Layout

/-- Whether the operator on top of a layout stands at a level. -/
def StandsAt (least : Nat) : Layout → Prop
  | unit .. => True
  | signed σ _ _ => least ≤ σ.level
  | joined op _ _ _ => least ≤ op.level

/-- A fitting layout fits every place at which its top operator stands. -/
theorem Fits.at {p : Layout} {least : Nat} (h : p.Fits 0) (hs : p.StandsAt least) :
    p.Fits least := by
  cases p with
  | unit ws e => trivial
  | signed σ t p =>
    rw [Fits, Nat.zero_max] at h
    rw [Fits, Nat.max_eq_right hs]
    exact h
  | joined op t l r =>
    obtain ⟨_, hfits⟩ := h
    exact ⟨hs, hfits⟩

/-- Parentheses keep a layout fitting. -/
theorem Fits.bracketed {p : Layout} {least : Nat} (needed : Bool) (h : p.Fits 0)
    (hs : needed = true ∨ p.StandsAt least) : (p.bracketed needed).Fits least := by
  cases needed with
  | true => trivial
  | false => exact h.at (hs.resolve_left Bool.false_ne_true)

/-- Parentheses keep the meaning of a fitting layout. -/
theorem Fits.expr_bracketed {p : Layout} (needed : Bool) (h : p.Fits 0) :
    (p.bracketed needed).expr = p.expr := by
  cases needed with
  | true => exact reading_eq_expr h
  | false => rfl

end Grammar.Layout

/-! ## Settled expressions -/

namespace Expr

/-- The least level of the operators in the operand of a one-sided operator. -/
def signLevel : Operator → Nat
  | .not => notLevel
  | _ => minusLevel

/-- Whether an operand keeps together before an operator, without brackets. -/
def holdsBefore (op : Operator) : Expr → Bool
  | operation op' _ r => decide (op.level < if r.isHole then signLevel op' else op'.rightLevel)
  | _ => true

/-- Whether an operand keeps together behind an operator, without brackets. -/
def holdsBehind (op : Operator) : Expr → Bool
  | operation op' _ r => decide (op.rightLevel ≤ if r.isHole then signLevel op' else op'.level)
  | _ => true

/-- Whether all operations with two operands satisfy a condition. -/
def everyOperation (p : Operator → Expr → Expr → Bool) : Expr → Bool
  | operation op l r =>
    l.everyOperation p && (r.isHole || r.everyOperation p && p op l r)
  | conditional c t e => c.everyOperation p && t.everyOperation p && e.everyOperation p
  | call _ a => a.everyOperation p
  | ending e t => e.everyOperation p && t.everyOperation p
  | _ => true

/-- Whether the left operand of an operation keeps together. -/
def keepsLeft (op : Operator) (l : Expr) : Bool := bracketsLeft op l || l.holdsBefore op

/-- Whether the right operand of an operation keeps together. -/
def keepsRight (op : Operator) (r : Expr) : Bool := bracketsRight op r || r.holdsBehind op

/-- **Whether all operands keep together in the plain text.** -/
def settled (e : Expr) : Bool := e.everyOperation fun op l r => keepsLeft op l && keepsRight op r

/-- An operation is settled when its operands are, and when they keep together. -/
@[simp] theorem settled_operation (op : Operator) (l r : Expr) :
    (operation op l r).settled
      = (l.settled && (r.isHole || r.settled && (keepsLeft op l && keepsRight op r))) := rfl

/-- A conditional is settled when its parts are. -/
@[simp] theorem settled_conditional (c t e : Expr) :
    (conditional c t e).settled = (c.settled && t.settled && e.settled) := rfl

/-- A call is settled when its argument is. -/
@[simp] theorem settled_call (name : String) (a : Expr) : (call name a).settled = a.settled := rfl

/-- A price ending is settled when its arguments are. -/
@[simp] theorem settled_ending (p t : Expr) :
    (ending p t).settled = (p.settled && t.settled) := rfl

/-- The right side of an operator stands at most one level above it. -/
theorem rightLevel_le (op : Operator) : op.rightLevel ≤ op.level + 1 := by
  unfold Operator.rightLevel
  split <;> omega

/-- An operand keeps together before an operator exactly if its layout closes there. -/
theorem Printable.closesBefore_iff {op : Operator} {l : Expr} (h : l.Printable) :
    l.layout.ClosesBefore op ↔ l.holdsBefore op = true := by
  cases l with
  | operation op' a b =>
    rw [holdsBefore, decide_eq_true_eq]
    rcases h.operation_cases with ⟨rfl, rfl | rfl, _⟩ | ⟨hb, hn, _⟩
    · rfl
    · rfl
    · rw [hb, layout_operation hn hb]
      rfl
  | call name a =>
    rw [layout]
    split <;> exact iff_of_true trivial rfl
  | _ => exact iff_of_true trivial rfl

/-- An operand that closes before an operator stands at its level. -/
theorem standsAt_of_closesBefore {op : Operator} {p : Layout} (h : p.ClosesBefore op) :
    p.StandsAt op.level := by
  cases p with
  | unit ws e => trivial
  | signed σ t p => exact Nat.le_of_lt h
  | joined op' t l r => exact Nat.le_of_lt_succ (Nat.lt_of_lt_of_le h (rightLevel_le op'))

/-- An operand that keeps together behind an operator is laid out so. -/
theorem Printable.standsAt {op : Operator} {r : Expr} (h : r.Printable)
    (hr : r.holdsBehind op = true) : r.layout.StandsAt op.rightLevel := by
  cases r with
  | operation op' a b =>
    have hr : op.rightLevel ≤ if b.isHole then signLevel op' else op'.level :=
      of_decide_eq_true hr
    rcases h.operation_cases with ⟨rfl, rfl | rfl, _⟩ | ⟨hb, hn, _⟩
    · exact hr
    · exact hr
    · rw [hb] at hr
      rw [layout_operation hn hb]
      exact hr
  | call name a =>
    rw [layout]
    split <;> trivial
  | _ => trivial

/-- The operand of a one-sided minus needs no more brackets than it gets. -/
theorem Printable.standsAt_minus {e : Expr} (h : e.Printable)
    (hb : e.needsBrackets .sub false = false) : e.layout.StandsAt minusLevel := by
  have hlevel : ∀ op : Operator, op.yieldsTo .sub = false → minusLevel ≤ op.level := by
    intro op
    cases op <;> decide
  cases e with
  | operation op a b =>
    have hyields : op.yieldsTo .sub = false := by
      simp only [needsBrackets, Bool.or_eq_false_iff] at hb
      simpa using hb.1.1.1.2
    rcases h.operation_cases with ⟨rfl, rfl | rfl, _⟩ | ⟨hb, hn, _⟩
    · cases hyields
    · cases hyields
    · rw [layout_operation hn hb]
      exact hlevel op hyields
  | call name a =>
    rw [layout]
    split <;> trivial
  | _ => trivial

/-- **A settled expression has a fitting layout**, which means the expression. -/
theorem Printable.fits_layout {e : Expr} (h : e.Printable) (hs : e.settled = true) :
    e.layout.Fits 0 ∧ e.layout.expr = e := by
  induction e with
  | operation op l r ihl ihr =>
    obtain ⟨hsl, hs⟩ := Bool.and_eq_true_iff.1 hs
    rcases h.operation_cases with ⟨rfl, rfl | rfl, hl⟩ | ⟨hr, hn, hpl, hpr⟩
    · obtain ⟨hfits, hexpr⟩ := ihl hl hsl
      refine ⟨trivial, ?_⟩
      show operation .not l.layout.reading hole = _
      rw [Layout.reading_eq_expr hfits, hexpr]
    · obtain ⟨hfits, hexpr⟩ := ihl hl hsl
      refine ⟨hfits.bracketed _ ?_, ?_⟩
      · cases hb : l.needsBrackets .sub false with
        | true => exact Or.inl rfl
        | false => exact Or.inr (hl.standsAt_minus hb)
      · show operation .sub (l.layout.bracketed _).expr hole = _
        rw [hfits.expr_bracketed, hexpr]
    -- each operand fits by its brackets or because it keeps together
    · simp only [hr, Bool.false_or, Bool.and_eq_true] at hs
      obtain ⟨hsr, hleft, hright⟩ := hs
      rw [keepsLeft, Bool.or_eq_true] at hleft
      rw [keepsRight, Bool.or_eq_true] at hright
      obtain ⟨hfl, hel⟩ := ihl hpl hsl
      obtain ⟨hfr, her⟩ := ihr hpr hsr
      rw [layout_operation hn hr]
      refine ⟨⟨Nat.zero_le _, ?_, ?_, ?_⟩, ?_⟩
      · exact hfl.bracketed _ (hleft.imp_right fun h =>
          standsAt_of_closesBefore (hpl.closesBefore_iff.2 h))
      · cases hb : bracketsLeft op l with
        | true => trivial
        | false => exact hpl.closesBefore_iff.2 (hleft.resolve_left (by simp [hb]))
      · exact hfr.bracketed _ (hright.imp_right hpr.standsAt)
      · show operation op (l.layout.bracketed _).expr (r.layout.bracketed _).expr = _
        rw [hfl.expr_bracketed, hfr.expr_bracketed, hel, her]
  | conditional c t e ihc iht ihe =>
    obtain ⟨hc, ht, he⟩ := h
    simp only [settled_conditional, Bool.and_eq_true] at hs
    obtain ⟨⟨hsc, hst⟩, hse⟩ := hs
    have hread : ∀ {a : Expr}, a.layout.Fits 0 ∧ a.layout.expr = a → a.layout.reading = a :=
      fun ha => (Layout.reading_eq_expr ha.1).trans ha.2
    refine ⟨trivial, ?_⟩
    show conditional _ _ _ = _
    rw [hread (ihc hc hsc), hread (iht ht hst), hread (ihe he hse)]
  | call name a ih =>
    obtain ⟨hfits, hexpr⟩ := ih h.2.2 hs
    have hread : a.layout.reading = a := (Layout.reading_eq_expr hfits).trans hexpr
    rw [layout, hread]
    split <;> exact ⟨trivial, rfl⟩
  | ending p t ihp iht =>
    obtain ⟨hp, ht⟩ := h
    obtain ⟨hsp, hst⟩ := Bool.and_eq_true_iff.1 hs
    obtain ⟨hfp, hep⟩ := ihp hp hsp
    obtain ⟨hft, het⟩ := iht ht hst
    refine ⟨trivial, ?_⟩
    show ending _ _ = _
    rw [Layout.reading_eq_expr hfp, Layout.reading_eq_expr hft, hep, het]
  | number n => exact ⟨trivial, rfl⟩
  | boolean b => exact ⟨trivial, rfl⟩
  | constant name => exact ⟨trivial, rfl⟩
  | identifier name => exact ⟨trivial, rfl⟩
  | _ => exact h.elim

/-- **Regrouping does not change a settled expression.** -/
theorem Printable.regrouped_of_settled {e : Expr} (h : e.Printable) (hs : e.settled = true) :
    e.regrouped = e := by
  obtain ⟨hfits, hexpr⟩ := h.fits_layout hs
  exact (Layout.reading_eq_expr hfits).trans hexpr

/-- **The plain text of a settled expression reads back as the expression**, with every lexicon that
knows its words. -/
theorem reread_of_settled {l : Lexicon} {o : Options} {e : Expr} (hl : l.KnowsPunctuation)
    (ho : o.simplify = false) (h : e.Printable) (hk : e.KnownBy l) (hs : e.settled = true) :
    l.reread o e = .ok e := by
  rw [reread_eq_regrouped hl ho h hk, h.regrouped_of_settled hs]

end Expr

end Formula
