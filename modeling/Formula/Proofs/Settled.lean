/-
# Settled expressions

In a settled expression every operation is one that folding keeps, and every conditional has a
condition that is not known without values. A settled expression folds to itself, and folding hands
settledness on from the operands to the result. So **simplification is idempotent**: whatever a
simplifying parse returns folds to itself, and so does its derivative (`simplified_of_parse`).
-/
import Formula.Proofs.Differentiation
import Formula.Proofs.Printing
import Formula.Proofs.Simplified

namespace Formula

namespace Expr

/-! ## Settled expressions -/

/-- **Whether no part of an expression can be folded further.** -/
inductive Settled : Expr → Prop where
  | number (n : Number) : Settled (number n)
  | boolean (b : Bool) : Settled (boolean b)
  | constant (name : String) : Settled (constant name)
  | identifier (name : String) : Settled (identifier name)
  | literal (text : String) : Settled (literal text)
  | operation {op : Operator} {l r : Expr} : op ≠ .not → Settled l → Settled r →
      Simplify.build op l r = .ok (operation op l r) → Settled (operation op l r)
  | negated {e : Expr} : Settled e → Simplify.opposite e = negated e → Settled (negated e)
  | denied {e : Expr} : Settled e → Simplify.denial e = denied e → Settled (denied e)
  | conditional {c t e : Expr} : Settled c → Settled t → Settled e →
      Simplify.staticTruth? c = none → Settled (conditional c t e)
  | call {name : String} {a : Expr} : name ≠ endingName → Settled a → Settled (call name a)
  | ending {p t : Expr} : Settled p → Settled t → Settled (ending p t)

namespace Settled

variable {l r e : Expr}

/-- Settled expressions are complete. -/
theorem complete (h : e.Settled) : e.Complete := by
  induction h with
  | number n => exact .number n
  | boolean b => exact .boolean b
  | constant name => exact .constant name
  | identifier name => exact .identifier name
  | literal text => exact .literal text
  | operation hop _ _ _ ihl ihr => exact .operation hop ihl ihr
  | negated _ _ ih => exact .negated ih
  | denied _ _ ih => exact .denied ih
  | conditional _ _ _ _ ihc iht ihe => exact .conditional ihc iht ihe
  | call hname _ ih => exact .call hname ih
  | ending _ _ ihp iht => exact .ending ihp iht

/-- The left operand of a settled operation is settled. -/
theorem left {op : Operator} (h : (Expr.operation op l r).Settled) : l.Settled := by
  cases h with
  | operation _ hl _ _ => exact hl
  | negated he _ => exact he
  | denied he _ => exact he

/-- The right operand of a settled operation is settled, if there is one. -/
theorem right {op : Operator} (h : (Expr.operation op l r).Settled) (hr : r.isHole = false) :
    r.Settled := by
  cases h with
  | operation _ _ hr _ => exact hr
  | negated => cases hr
  | denied => cases hr

/-- The argument of a settled call is settled. -/
theorem argument {name : String} (h : (Expr.call name e).Settled) : e.Settled := by
  cases h with
  | call _ ha => exact ha

/-- An application to settled arguments is settled. -/
theorem of_ofCall {name : String} {es : List Expr} (h : ofCall name es = .ok e)
    (hes : ∀ a ∈ es, a.Settled) : e.Settled := by
  unfold ofCall at h
  split at h
  · split at h
    · cases h
      exact .ending (hes _ (by simp)) (hes _ (by simp))
    · cases h
  · rename_i hname
    split at h
    · cases h
      exact .call hname (hes _ (by simp))
    · cases h

/-- **A settled expression folds to itself.** -/
theorem simplified (h : e.Settled) : e.simplified = .ok e := by
  induction h with
  | operation _ _ _ hkept ihl ihr =>
    rw [Grammar.simplified_operation ihl ihr]
    exact hkept
  | negated _ hkept ih =>
    rw [Grammar.simplified_operation ih rfl]
    exact congrArg Except.ok hkept
  | denied _ hkept ih =>
    rw [Grammar.simplified_operation ih rfl]
    exact congrArg Except.ok hkept
  | @conditional c t e _ _ _ hopen ihc iht ihe =>
    have hchoice : Simplify.choice c t e = Expr.conditional c t e := by
      rw [Simplify.choice, hopen]
    exact simplified_conditional_eq_ok.2 ⟨c, t, e, ihc, iht, ihe, hchoice⟩
  | call _ _ ih => exact simplified_call_eq_ok.2 ⟨_, ih, rfl⟩
  | ending _ _ ihp iht => exact simplified_ending_eq_ok.2 ⟨_, _, ihp, iht, rfl⟩
  | _ => rfl

end Settled

end Expr

/-! ## Folding -/

namespace Simplify

open Formula.Expr

/-- **Folding hands on settledness.** -/
theorem inherits_settled : Inherits (fun _ => True) Settled where
  present := fun h => h.complete.isHole_eq_false
  number := .number
  boolean := fun _ _ => .boolean
  operation := fun _ hn hl hr hkept => .operation hn hl hr hkept
  negated := fun _ he hkept => .negated he hkept
  denied := fun _ he hkept => .denied he hkept
  left := fun h => h.left

/-- A simplified conditional of settled parts is settled. -/
theorem settled_choice {c t e : Expr} (hc : c.Settled) (ht : t.Settled) (he : e.Settled) :
    (choice c t e).Settled := by
  unfold choice
  split
  · exact ht
  · exact he
  · rename_i hopen
    exact .conditional hc ht he hopen

end Simplify

open Formula.Expr Grammar

/-- **What a complete expression is folded to is settled.** -/
theorem Expr.Complete.settled_of_simplified {e : Expr} (h : e.Complete) :
    ∀ {e' : Expr}, e.simplified = .ok e' → e'.Settled := by
  -- induction on the expression: its parts fold to settled ones first
  induction h with
  | @operation op l r hop hl hr ihl ihr =>
    intro e' he
    obtain ⟨l', r', hl', hr', hbuild⟩ := simplified_operation_eq_ok.1 he
    exact Simplify.inherits_settled.build trivial hop (ihl hl') (ihr hr') hbuild
  | negated _ ih =>
    intro e' he
    obtain ⟨l', hl', hbuild⟩ := simplified_prefix_eq_ok.1 he
    exact Simplify.inherits_settled.build_negated trivial (ih hl') hbuild
  | denied _ ih =>
    intro e' he
    obtain ⟨l', hl', hbuild⟩ := simplified_prefix_eq_ok.1 he
    exact Simplify.inherits_settled.build_denied trivial (ih hl') hbuild
  | conditional _ _ _ ihc iht ihe =>
    intro e' he
    obtain ⟨c', t', n', hc, ht, hn, rfl⟩ := simplified_conditional_eq_ok.1 he
    exact Simplify.settled_choice (ihc hc) (iht ht) (ihe hn)
  | call hname _ ih =>
    intro e' he
    obtain ⟨a', ha, rfl⟩ := simplified_call_eq_ok.1 he
    exact .call hname (ih ha)
  | ending _ _ ihp iht =>
    intro e' he
    obtain ⟨p', t', hp, ht, rfl⟩ := simplified_ending_eq_ok.1 he
    exact .ending (ihp hp) (iht ht)
  | _ =>
    rintro e' ⟨⟩
    constructor

/-! ## Derivatives -/

/-- **Differentiation hands on settledness.** -/
theorem differentiates_settled : Differentiates Settled where
  toInherits := Simplify.inherits_settled
  complete := fun h => h.complete
  constant := .constant
  call := .call
  right := fun h hr => h.right hr
  argument := fun h => h.argument

/-! ## Parsed expressions -/

namespace Grammar

/-- A token that is an operand is a settled expression. -/
theorem settled_operand? {t : Token} {e : Expr} (h : operand? t = some e) : e.Settled := by
  unfold operand? at h
  split at h <;> cases h <;> constructor

/-- **Simplifying readers hand on settledness**, whatever the tokens. -/
theorem inherits_settled : Inherits true (fun _ => True) True Settled where
  operand := fun _ => settled_operand?
  operate := fun _ _ => Simplify.inherits_settled.build trivial
  minus := fun _ _ => Simplify.inherits_settled.build_negated trivial
  denial := fun _ _ => Simplify.inherits_settled.build_denied trivial
  mark := fun _ _ ha hcall => .of_ofCall hcall (List.forall_mem_singleton.2 ha)
  application := fun _ _ hes hcall => .of_ofCall hcall hes
  ifWord := fun _ _ => trivial
  select := fun _ => Simplify.settled_choice

end Grammar

/-- **Whatever a simplifying parse returns is settled.** -/
theorem settled_of_parse {o : Options} {ts : List Token} {e : Expr} (ho : o.simplify = true)
    (h : parse o ts = .ok e) : e.Settled := by
  have hreader : Grammar.Inherits o.simplify (fun _ => True) True Settled := by
    rw [ho]
    exact Grammar.inherits_settled
  exact inherits_of_parse hreader (fun _ => trivial) (fun _ _ => trivial) h

/-! ## The main result -/

/-- **Simplification is idempotent**: folding what a simplifying parse returns, or a derivative of
it, from its leaves meets no error and gives the same tree. -/
theorem simplified_of_parse {o : Options} {ts : List Token} {e : Expr} (ho : o.simplify = true)
    (h : parse o ts = .ok e) :
    e.simplified = .ok e ∧ ∀ x d, e.derivative x = .ok d → d.simplified = .ok d := by
  have he : e.Settled := settled_of_parse ho h
  refine ⟨he.simplified, fun x d hd => ?_⟩
  have hbuilds := differentiates_settled.derivative x he
  exact (hbuilds.holds d hd).simplified

/-- A power of a power, and its derivative. -/
theorem simplified_of_parse_tower :
    let ts := [openWord .paren, plainWord .identifier "x", operatorWord .pow,
      numberWord (.integer 2), closeWord .paren, operatorWord .pow, numberWord (.integer 3)]
    let e : Expr := operation .pow (identifier "x") (integer 6)
    let d : Expr := operation .mul (integer 6) (operation .pow (identifier "x") (integer 5))
    parse {} ts = .ok e ∧ e.simplified = .ok e ∧
      e.derivative "x" = .ok d ∧ d.simplified = .ok d := by
  intro ts e d
  have hparse : parse {} ts = .ok e := by decide +kernel
  have hd : e.derivative "x" = .ok d := rfl
  obtain ⟨he, hderivatives⟩ := simplified_of_parse rfl hparse
  exact ⟨hparse, he, hd, hderivatives "x" d hd⟩

end Formula
