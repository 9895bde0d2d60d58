/-
# Values of logical operations

Connectives evaluate their right operand only when the left one leaves the truth open; relations and
products evaluate both. What **keeps the value** of the operands keeps the value of the operation,
and conjunctions and disjunctions may be grouped either way (`Keeps.assoc`).
-/
import Formula.Evaluation.Real

namespace Formula

namespace Expr

/-! ## Values of operations -/

/-- Whether an operator is a connective of two operands. -/
def joinsTruth : Operator → Bool
  | .and | .or => true
  | _ => false

/-- The truth that decides a connective without its right operand. -/
def decisive : Operator → Bool
  | .or => true
  | _ => false

/-- The value of an operation that evaluates both operands. -/
def combined (op : Operator) (a b : Value) : Except Error Value :=
  if op.isRelation then .boolean <$> a.relate op b else arithmeticValue op a b

variable {d : Dialect} {s : Scope} {l r : Expr} {op : Operator} {v : Value}

-- the value of an expression is computed from the values of its parts
attribute [local simp] value

/-- **The value of a connective.** -/
theorem value_connective (hd : d.logical = true) (hop : joinsTruth op = true)
    (hl : l.isHole = false) (hr : r.isHole = false) :
    (operation op l r).value d s = .ok v ↔ ∃ a, l.value d s = .ok a ∧
      if a.isTrue = decisive op then v = .boolean (decisive op)
      else ∃ b, r.value d s = .ok b ∧ v = .boolean b.isTrue := by
  have hcases : op = .and ∨ op = .or := by
    cases op <;> first | exact Or.inl rfl | exact Or.inr rfl | cases hop
  rcases hcases with rfl | rfl <;>
    simp only [value, lacksOperand, hl, hr, hd, Operator.isLogical, Operator.isConnective,
      Operator.isRelation, decisive, bind, Except.bind, pure, Except.pure, Bool.false_and,
      Bool.or_false, Bool.false_eq_true, if_false, if_true] <;>
    cases l.value d s with
    | error e => simp
    | ok a =>
      -- the right operand only matters when the left one leaves the truth open
      cases r.value d s with
      | error e => cases ha : a.isTrue <;> simp [ha, eq_comm (a := v)]
      | ok b => cases ha : a.isTrue <;> simp [ha, eq_comm (a := v)]

/-- **The value of a relation or a product.** -/
theorem value_both (hd : d.logical = true) (hop : op.isRelation = true ∨ op = .mul)
    (hl : l.isHole = false) (hr : r.isHole = false) :
    (operation op l r).value d s = .ok v ↔ ∃ a b, l.value d s = .ok a ∧ r.value d s = .ok b ∧
      combined op a b = .ok v := by
  have hvalue : (operation op l r).value d s
      = (l.value d s).bind fun a => (r.value d s).bind fun b => combined op a b := by
    rcases hop with hop | rfl
    · cases op <;> first
        | exact absurd hop Bool.false_ne_true
        | simp only [value, lacksOperand, hl, hr, hd]
          rfl
    · simp only [value, lacksOperand, hl, hr]
      rfl
  rw [hvalue]
  cases l.value d s with
  | error e => simp [Except.bind]
  | ok a => cases r.value d s <;> simp [Except.bind]

/-- **The value of an arithmetic operation**, but for powers of the constant `e`. -/
theorem value_arithmetic (hop : op.isLogical = false) (hl : l.isHole = false)
    (hr : r.isHole = false) (he : (op == .pow && l.isEuler) = false) :
    (operation op l r).value d s = .ok v ↔ ∃ a b, l.value d s = .ok a ∧ r.value d s = .ok b ∧
      arithmeticValue op a b = .ok v := by
  have hvalue : (operation op l r).value d s
      = (l.value d s).bind fun a => (r.value d s).bind fun b => arithmeticValue op a b := by
    simp only [value, lacksOperand, hl, hr, hop, he, Bool.false_and, Bool.or_false,
      Bool.false_eq_true, if_false]
    rfl
  rw [hvalue]
  cases l.value d s with
  | error e => simp [Except.bind]
  | ok a => cases r.value d s <;> simp [Except.bind]

/-- **The value of a one-sided minus.** -/
theorem value_negated (hl : l.isHole = false) :
    (negated l).value d s = .ok v ↔ ∃ a, l.value d s = .ok a ∧ a.neg = .ok v := by
  have hvalue : (negated l).value d s = (l.value d s).bind Value.neg := by
    simp only [value, lacksOperand, hl]
    rfl
  rw [hvalue]
  cases l.value d s <;> simp [Except.bind]

/-- **The value of a denial.** -/
theorem value_denied (hd : d.logical = true) (hl : l.isHole = false) :
    (denied l).value d s = .ok v ↔ ∃ a, l.value d s = .ok a ∧ v = .boolean !a.isTrue := by
  have hvalue : (denied l).value d s = (l.value d s).bind fun a => .ok (.boolean !a.isTrue) := by
    rw [value]
    simp only [lacksOperand, hl, hd]
    rfl
  rw [hvalue]
  cases l.value d s <;> simp [Except.bind, eq_comm (a := v)]

/-- **The value of a conditional.** -/
theorem value_conditional {c t e : Expr} (hd : d.logical = true) :
    (conditional c t e).value d s = .ok v ↔ ∃ a, c.value d s = .ok a ∧
      (if a.isTrue then t else e).value d s = .ok v := by
  rw [value, if_pos hd]
  cases c.value d s with
  | error x => simp [bind, Except.bind]
  | ok a => cases ha : a.isTrue <;> simp [bind, Except.bind, ha]

/-- **Whether an expression has the value of another one** whenever that one has a value. -/
structure Keeps (d : Dialect) (s : Scope) (e e' : Expr) : Prop where
  isHole : e'.isHole = false
  value : ∀ {v}, e.value d s = .ok v → e'.value d s = .ok v

namespace Keeps

variable {l' r' : Expr}

/-- Every expression that is there keeps its own value. -/
theorem refl {e : Expr} (h : e.isHole = false) : Keeps d s e e := ⟨h, id⟩

/-- What keeps a kept value keeps the value. -/
theorem trans {e e' e'' : Expr} (h : Keeps d s e e') (h' : Keeps d s e' e'') : Keeps d s e e'' :=
  ⟨h'.isHole, fun hv => h'.value (h.value hv)⟩

/-- **Operations keep the values of their operands.** -/
theorem operation (hd : d.logical = true)
    (hop : joinsTruth op = true ∨ op.isRelation = true ∨ op = .mul) (hl : l.isHole = false)
    (hr : r.isHole = false) (h : Keeps d s l l') (h' : Keeps d s r r') :
    Keeps d s (operation op l r) (operation op l' r') := by
  refine ⟨rfl, ?_⟩
  intro v hv
  rcases hop with hop | hop
  · obtain ⟨a, ha, hrest⟩ := (value_connective hd hop hl hr).1 hv
    refine (value_connective hd hop h.isHole h'.isHole).2 ⟨a, h.value ha, ?_⟩
    split
    · rename_i hdecided
      rwa [if_pos hdecided] at hrest
    · rename_i hopen
      rw [if_neg hopen] at hrest
      obtain ⟨b, hb, hv⟩ := hrest
      exact ⟨b, h'.value hb, hv⟩
  · obtain ⟨a, b, ha, hb, hv⟩ := (value_both hd hop hl hr).1 hv
    exact (value_both hd hop h.isHole h'.isHole).2 ⟨a, b, h.value ha, h'.value hb, hv⟩

/-- Denials keep the value of their operand. -/
theorem denied (hd : d.logical = true) (hl : l.isHole = false) (h : Keeps d s l l') :
    Keeps d s (denied l) (denied l') := by
  refine ⟨rfl, ?_⟩
  intro v hv
  obtain ⟨a, ha, hv⟩ := (value_denied hd hl).1 hv
  exact (value_denied hd h.isHole).2 ⟨a, h.value ha, hv⟩

/-- Conditionals keep the values of their parts. -/
theorem conditional {c t e c' t' e' : Expr} (hd : d.logical = true) (hc : Keeps d s c c')
    (ht : Keeps d s t t') (he : Keeps d s e e') :
    Keeps d s (conditional c t e) (conditional c' t' e') := by
  refine ⟨rfl, ?_⟩
  intro v hv
  obtain ⟨a, ha, hv⟩ := (value_conditional hd).1 hv
  refine (value_conditional hd).2 ⟨a, hc.value ha, ?_⟩
  cases ht' : a.isTrue with
  | true =>
    rw [ht'] at hv
    exact ht.value hv
  | false =>
    rw [ht'] at hv
    exact he.value hv

/-- **Connectives of one kind may be grouped to the left.** -/
theorem assoc {a b c : Expr} (hd : d.logical = true) (hop : joinsTruth op = true)
    (ha : a.isHole = false) (hb : b.isHole = false) (hc : c.isHole = false) :
    Keeps d s (.operation op a (.operation op b c)) (.operation op (.operation op a b) c) := by
  refine ⟨rfl, ?_⟩
  intro v hv
  obtain ⟨x, hx, hrest⟩ := (value_connective hd hop ha rfl).1 hv
  have htruth : ∀ t : Bool, (Value.boolean t).isTrue = t := fun _ => rfl
  refine (value_connective hd hop rfl hc).2 ?_
  by_cases hdecided : x.isTrue = decisive op
  · -- the first operand decides both groupings
    rw [if_pos hdecided] at hrest
    refine ⟨.boolean (decisive op), ?_, ?_⟩
    · exact (value_connective hd hop ha hb).2 ⟨x, hx, by rw [if_pos hdecided]⟩
    · rw [htruth, if_pos rfl]
      exact hrest
  -- the second operand decides, or the third one does
  · rw [if_neg hdecided] at hrest
    obtain ⟨w, hw, rfl⟩ := hrest
    obtain ⟨y, hy, hrest⟩ := (value_connective hd hop hb hc).1 hw
    refine ⟨.boolean y.isTrue, ?_, ?_⟩
    · exact (value_connective hd hop ha hb).2 ⟨x, hx, by rw [if_neg hdecided]; exact ⟨y, hy, rfl⟩⟩
    · rw [htruth]
      split
      · rename_i hsecond
        rw [if_pos hsecond] at hrest
        rw [hrest, htruth]
      · rename_i hsecond
        rw [if_neg hsecond] at hrest
        obtain ⟨z, hz, rfl⟩ := hrest
        exact ⟨z, hz, rfl⟩

end Keeps

end Expr

end Formula
