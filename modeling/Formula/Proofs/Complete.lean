/-
# Complete expressions

In a complete expression no operand is missing: every operation has its operands, one only for a
one-sided minus or a denial, and no structural mark is left. Simplifying constructors keep
expressions complete, and **whatever is parsed is complete** (`complete_of_parse`).
-/
import Formula.Proofs.Inherited

namespace Formula

namespace Expr

/-! ## Complete expressions -/

/-- **Whether no operand is missing** and no mark is left. -/
inductive Complete : Expr → Prop where
  | number (n : Number) : Complete (number n)
  | boolean (b : Bool) : Complete (boolean b)
  | constant (name : String) : Complete (constant name)
  | identifier (name : String) : Complete (identifier name)
  | literal (text : String) : Complete (literal text)
  | operation {op : Operator} {l r : Expr} : op ≠ .not → Complete l → Complete r →
      Complete (operation op l r)
  | negated {e : Expr} : Complete e → Complete (negated e)
  | denied {e : Expr} : Complete e → Complete (denied e)
  | conditional {c t e : Expr} : Complete c → Complete t → Complete e →
      Complete (conditional c t e)
  | call {name : String} {a : Expr} : name ≠ endingName → Complete a → Complete (call name a)
  | ending {p t : Expr} : Complete p → Complete t → Complete (ending p t)

namespace Complete

variable {l r e : Expr}

/-- A complete expression is there. -/
theorem isHole_eq_false (h : e.Complete) : e.isHole = false := by
  cases h <;> rfl

/-- **A complete expression has a plain text.** -/
theorem ascii? (h : e.Complete) : e.ascii? = .ok e.ascii := by
  have hready : e.asciiReady = true := by
    induction h with
    | operation _ _ _ ihl ihr => simp [asciiReady, ihl, ihr]
    | negated _ ih => simp [asciiReady, ih]
    | denied _ ih => simp [asciiReady, ih]
    | conditional hc ht he ihc iht ihe =>
      simp [asciiReady, ihc, iht, ihe, hc.isHole_eq_false, ht.isHole_eq_false, he.isHole_eq_false]
    | call _ ha ih => simp [asciiReady, ih, ha.isHole_eq_false]
    | ending hp ht ihp iht => simp [asciiReady, ihp, iht, hp.isHole_eq_false, ht.isHole_eq_false]
    | _ => rfl
  rw [Expr.ascii?, h.isHole_eq_false, hready]
  rfl

/-- The left operand of a complete operation is complete. -/
theorem left {op : Operator} (h : (Expr.operation op l r).Complete) : l.Complete := by
  cases h with
  | operation _ hl _ => exact hl
  | negated he => exact he
  | denied he => exact he

/-- The right operand of a complete operation is complete, if there is one. -/
theorem right {op : Operator} (h : (Expr.operation op l r).Complete) (hr : r.isHole = false) :
    r.Complete := by
  cases h with
  | operation _ _ hr => exact hr
  | negated => cases hr
  | denied => cases hr

/-- The argument of a complete call is complete. -/
theorem argument {name : String} (h : (Expr.call name e).Complete) : e.Complete := by
  cases h with
  | call _ ha => exact ha

/-- An application to complete arguments is complete. -/
theorem of_ofCall {name : String} {es : List Expr} (h : ofCall name es = .ok e)
    (hes : ∀ a ∈ es, a.Complete) : e.Complete := by
  unfold ofCall at h
  split at h
  · split at h
    · cases h
      exact .ending (hes _ (by simp)) (hes _ (by simp))
    · cases h
  · rename_i hname
    split at h
    · cases h
      exact .call hname (hes _ (by simp))
    · cases h

end Complete

end Expr

/-! ## Simplifying constructors -/

namespace Simplify

open Formula.Expr

/-- **Folding hands on completeness**, whatever the operators. -/
theorem inherits_complete : Inherits (fun _ => True) Expr.Complete where
  present := fun h => h.isHole_eq_false
  number := .number
  boolean := fun _ _ => .boolean
  operation := fun _ hn hl hr _ => .operation hn hl hr
  negated := fun _ he _ => .negated he
  denied := fun _ he _ => .denied he
  left := fun h => h.left

variable {l r e : Expr}

/-- **A simplified operation of complete operands is complete.** -/
theorem complete_build {op : Operator} (hop : op ≠ .not) (hl : l.Complete) (hr : r.Complete)
    (h : build op l r = .ok e) : e.Complete :=
  inherits_complete.build trivial hop hl hr h

/-- A simplified one-sided minus of a complete operand is complete. -/
theorem complete_build_negated (hl : l.Complete) (h : build .sub l hole = .ok e) :
    e.Complete :=
  inherits_complete.build_negated trivial hl h

/-- A simplified denial of a complete operand is complete. -/
theorem complete_build_denied (hl : l.Complete) (h : build .not l hole = .ok e) :
    e.Complete :=
  inherits_complete.build_denied trivial hl h

/-- A simplified conditional of complete parts is complete. -/
theorem complete_choice {c t e : Expr} (hc : c.Complete) (ht : t.Complete) (he : e.Complete) :
    (choice c t e).Complete := by
  unfold choice
  split
  · exact ht
  · exact he
  · exact .conditional hc ht he

end Simplify

/-! ## Parsed expressions -/

namespace Grammar

open Formula.Expr

/-- A token that is an operand is a complete expression. -/
theorem complete_operand? {t : Token} {e : Expr} (h : operand? t = some e) : e.Complete := by
  unfold operand? at h
  split at h <;> cases h <;> constructor

/-- **Reading hands on completeness**, whatever the tokens. -/
theorem inherits_complete (s : Bool) : Inherits s (fun _ => True) True Expr.Complete := by
  have hcall : ∀ {name : String} {es : List Expr} {e : Expr}, (∀ a ∈ es, a.Complete) →
      ofCall name es = .ok e → e.Complete := fun hes h => .of_ofCall h hes
  cases s with
  | false =>
    refine ⟨fun _ => complete_operand?, ?_, ?_, ?_, ?_, fun _ _ => hcall, fun _ _ => trivial, ?_⟩
    · rintro t op l r e - - hn hl hr ⟨⟩
      exact .operation hn hl hr
    · rintro t l e - - hl ⟨⟩
      exact .negated hl
    · rintro t l e - - hl ⟨⟩
      exact .denied hl
    · exact fun _ _ ha => hcall (List.forall_mem_singleton.2 ha)
    · exact fun _ hc hy hn => .conditional hc hy hn
  | true =>
    exact ⟨fun _ => complete_operand?, fun _ _ => Simplify.complete_build,
      fun _ _ => Simplify.complete_build_negated, fun _ _ => Simplify.complete_build_denied,
      fun _ _ ha => hcall (List.forall_mem_singleton.2 ha), fun _ _ => hcall, fun _ _ => trivial,
      fun _ => Simplify.complete_choice⟩

end Grammar

/-- **Whatever is parsed is complete**, simplified or not. -/
theorem complete_of_parse {o : Options} {ts : List Token} {e : Expr} (h : parse o ts = .ok e) :
    e.Complete :=
  inherits_of_parse (Grammar.inherits_complete o.simplify) (fun _ => trivial) (fun _ _ => trivial) h

end Formula
