/-
# Chains of one level

Sums behind `+` and products behind `*` are printed without brackets and group to the left when they
are read: `a + (b - c)` comes back as `(a + b) - c`. The layout of such an operation **absorbs** the
layout of its right operand. It keeps the words (`words_absorb`), stands where the words are read
(`Fits.absorb`), and its exact value is that of the operation (`exactValue_absorb`).
-/
import Formula.Proofs.Folding
import Formula.Proofs.Chains

namespace Formula

open Grammar

/-! ## Operators that regroup -/

/-- Whether a chain of the second operator behind the first one may group to the left. -/
def Operator.absorbs : Operator → Operator → Bool
  | .add, .add | .add, .sub | .mul, .mul | .mul, .div => true
  | _, _ => false

/-- Operators that regroup share their level, from left to right. -/
theorem Operator.level_of_absorbs {op op' : Operator} (h : op.absorbs op' = true) :
    op'.level = op.level ∧ op'.rightLevel = op.level + 1 ∧ op.rightLevel = op.level + 1 := by
  revert h
  cases op <;> cases op' <;> decide

/-- An operator that regroups with one that regroups is the same. -/
theorem Operator.eq_of_absorbs {op op₁ op₂ : Operator} (h : op.absorbs op₁ = true)
    (h' : op₁.absorbs op₂ = true) : op₁ = op := by
  revert h h'
  cases op <;> cases op₁ <;> cases op₂ <;> decide

namespace Grammar.Layout

/-! ## Absorbing layouts -/

/-- **Absorbs a layout behind an operator**: the operator goes down the left edge of its right
operand as long as it regroups. -/
def absorb (op : Operator) (t : Token) (l : Layout) : Layout → Layout
  | joined op' t' a b =>
    if op.absorbs op' then joined op' t' (absorb op t l a) b else joined op t l (joined op' t' a b)
  | p => joined op t l p

variable {op op' : Operator} {t : Token} {l p : Layout}

/-- Absorbing keeps the words in their order. -/
theorem words_absorb (op : Operator) (t : Token) (l p : Layout) :
    (absorb op t l p).words = (joined op t l p).words := by
  induction p with
  | joined op' u a b iha ihb =>
    rw [absorb]
    split
    · rw [words, iha]
      simp [words]
    · rfl
  | _ => rfl

/-- Absorbing keeps the tokens in their order. -/
theorem tokens_absorb (op : Operator) (t : Token) (l p : Layout) :
    (absorb op t l p).tokens = (joined op t l p).tokens := by
  induction p with
  | joined op' u a b iha ihb =>
    rw [absorb]
    split
    · rw [tokens, iha]
      simp [tokens]
    · rfl
  | _ => rfl

/-- Absorbing keeps a layout valid. -/
theorem Valid.absorb (h : (joined op t l p).Valid) : (absorb op t l p).Valid := by
  induction p with
  | joined op' u a b iha ihb =>
    rw [Layout.absorb]
    split
    · obtain ⟨ht, hl, hu, ha, hb⟩ := h
      exact ⟨hu, iha ⟨ht, hl, ha⟩, hb⟩
    · exact h
  | _ => exact h

/-- Absorbing keeps a layout written. -/
theorem Written.absorb (h : (Layout.joined op t l p).Written) : (Layout.absorb op t l p).Written := by
  refine ⟨h.valid.absorb, ?_⟩
  rw [tokens_absorb]
  exact h.tidy

/-- Absorbing keeps a layout clear. -/
theorem Clear.absorb (h : (Layout.joined op t l p).Clear) : (Layout.absorb op t l p).Clear where
  opens := by
    rw [words_absorb]
    exact h.opens
  separated := by
    intro cs hb hm
    rw [words_absorb]
    exact h.separated hb hm

/-! ## Where absorbed layouts fit -/

/-- Whether a layout goes on behind an operator: down its left edge, everything regroups with the
operator or keeps apart from it. -/
def GoesOn (op : Operator) : Layout → Prop
  | unit .. => True
  | signed σ _ _ => op.rightLevel ≤ σ.level
  | joined op' _ a _ => op.absorbs op' = true ∧ a.GoesOn op ∨ op.rightLevel ≤ op'.level

/-- The operator on top of an absorbed layout has the level of the absorbing one. -/
theorem absorb_eq_joined (op : Operator) (t : Token) (l p : Layout) :
    ∃ op' u a b, absorb op t l p = joined op' u a b ∧ op'.level = op.level ∧
      op'.rightLevel = op.rightLevel := by
  cases p with
  | joined op' u a b =>
    rw [absorb]
    split
    · rename_i h
      obtain ⟨hlevel, hright, hright'⟩ := Operator.level_of_absorbs h
      exact ⟨_, _, _, _, rfl, hlevel, hright.trans hright'.symm⟩
    · exact ⟨_, _, _, _, rfl, rfl, rfl⟩
  | _ => exact ⟨_, _, _, _, rfl, rfl, rfl⟩

/-- An absorbed layout closes where its operator does. -/
theorem ClosesBefore.absorb (h : op'.level < op.rightLevel) :
    (absorb op t l p).ClosesBefore op' := by
  obtain ⟨op₁, u, a, b, heq, _, hright⟩ := absorb_eq_joined op t l p
  rw [heq]
  show op'.level < op₁.rightLevel
  omega

/-- **An absorbed layout fits** when its parts do. -/
theorem Fits.absorb (hl : l.Fits op.level) (hc : l.ClosesBefore op) (hp : p.Fits 0)
    (hg : p.GoesOn op) : (absorb op t l p).Fits op.level := by
  induction p with
  | unit ws e => exact ⟨Nat.le_refl _, hl, hc, trivial⟩
  | signed σ u p ih => exact ⟨Nat.le_refl _, hl, hc, hp.at hg⟩
  | joined op' u a b iha ihb =>
    obtain ⟨_, hfa, hca, hfb⟩ := hp
    rw [Layout.absorb]
    split
    · rename_i h
      obtain ⟨hlevel, _, hright⟩ := Operator.level_of_absorbs h
      have hga : a.GoesOn op := by
        rcases hg with ⟨_, hga⟩ | hapart
        · exact hga
        · omega
      have hfit := iha (Fits.mono (Nat.zero_le _) hfa) hga
      rw [← hlevel] at hfit
      exact ⟨by omega, hfit, .absorb (by omega), hfb⟩
    · rename_i h
      have hlevel : op.rightLevel ≤ op'.level := hg.resolve_left fun hg => h hg.1
      exact ⟨Nat.le_refl _, hl, hc, hlevel, hfa, hca, hfb⟩

/-- An absorbed layout goes on behind an operator that regroups with its own. -/
theorem GoesOn.absorb (h : op.absorbs op' = true) (hl : l.GoesOn op) :
    (absorb op' t l p).GoesOn op := by
  induction p with
  | joined op₂ u a b iha ihb =>
    rw [Layout.absorb]
    split
    · rename_i h₂
      -- the operators are the same, so the one on top regroups with both
      rw [Operator.eq_of_absorbs h h₂] at h₂
      exact Or.inl ⟨h₂, iha⟩
    · exact Or.inl ⟨h, hl⟩
  | _ => exact Or.inl ⟨h, hl⟩

/-- An absorbed layout goes on behind an operator that binds less tightly. -/
theorem GoesOn.absorb_of_le (h : op.rightLevel ≤ op'.level) :
    (Layout.absorb op' t l p).GoesOn op := by
  obtain ⟨op₁, u, a, b, heq, hlevel, _⟩ := absorb_eq_joined op' t l p
  rw [heq]
  exact Or.inr (hlevel ▸ h)

/-- An absorbed layout is full when its parts are. -/
theorem Full.absorb (hl : l.Full) (hp : p.Full) : (absorb op t l p).Full := by
  induction p with
  | joined op' u a b iha ihb =>
    obtain ⟨ha, hb⟩ := hp
    rw [Layout.absorb]
    split
    · exact ⟨iha ha, hb⟩
    · exact ⟨hl, ha, hb⟩
  | _ => exact ⟨hl, hp⟩

end Grammar.Layout

/-! ## Values -/

namespace Expr

variable {s : Scope}

/-- **The exact value of a two-sided operation.** -/
theorem exactValue_twoSided {op : Operator} {l r : Expr} (hop : op.isLogical = false)
    (hl : l.isHole = false) (hr : r.isHole = false) :
    (operation op l r).exactValue s =
      (do exactArithmetic op (← l.exactValue s) (← r.exactValue s)) := by
  have hlack : lacksOperand op l r = false := by
    rw [lacksOperand, hl, hr]
    rfl
  rw [exactValue, hlack, hop, hr]
  rfl

/-- The value of an operation depends on the values of its operands alone. -/
theorem exactValue_operation_congr {op : Operator} {l l' r r' : Expr} (hop : op.isLogical = false)
    (hl : l.isHole = false) (hr : r.isHole = false) (hl' : l'.isHole = false)
    (hr' : r'.isHole = false) (h : l'.exactValue s = l.exactValue s)
    (h' : r'.exactValue s = r.exactValue s) :
    (operation op l' r').exactValue s = (operation op l r).exactValue s := by
  rw [exactValue_twoSided hop hl hr, exactValue_twoSided hop hl' hr', h, h']

/-- Operators that regroup are arithmetic. -/
theorem isLogical_of_absorbs {op op' : Operator} (h : op.absorbs op' = true) :
    op.isLogical = false ∧ op'.isLogical = false := by
  revert h
  cases op <;> cases op' <;> decide

/-- Numbers regroup. -/
theorem exactArithmetic_assoc {op op' : Operator} (h : op.absorbs op' = true) (x y z : Rat) :
    (do exactArithmetic op' (← exactArithmetic op x y) z) =
      (do exactArithmetic op x (← exactArithmetic op' y z)) := by
  cases op <;> cases op' <;> try cases h
  case add.add => exact congrArg Except.ok (add_assoc x y z)
  case add.sub => exact congrArg Except.ok (add_sub_assoc x y z)
  case mul.mul => exact congrArg Except.ok (mul_assoc x y z)
  case mul.div =>
    by_cases hz : z = 0
    · simp [exactArithmetic, hz, bind, Except.bind]
    · simp [exactArithmetic, hz, bind, Except.bind, mul_div_assoc]

/-- **Grouping to the left keeps the value**, and the error that is met first. -/
theorem exactValue_assoc {op op' : Operator} {a b c : Expr} (h : op.absorbs op' = true)
    (ha : a.isHole = false) (hb : b.isHole = false) (hc : c.isHole = false) :
    (operation op' (operation op a b) c).exactValue s =
      (operation op a (operation op' b c)).exactValue s := by
  obtain ⟨hop, hop'⟩ := isLogical_of_absorbs h
  rw [exactValue_twoSided hop' rfl hc, exactValue_twoSided hop ha hb,
    exactValue_twoSided hop ha rfl, exactValue_twoSided hop' hb hc]
  cases a.exactValue s with
  | error e => rfl
  | ok x =>
    cases b.exactValue s with
    | error e => rfl
    | ok y =>
      cases c.exactValue s with
      | error e =>
        -- the first operator is a sum or a product, so the error comes from the last operand
        have hfirst : ∃ z, exactArithmetic op x y = .ok z := by
          cases op <;> first | exact ⟨_, rfl⟩ | (cases op' <;> cases h)
        obtain ⟨z, hz⟩ := hfirst
        simp [bind, Except.bind, hz]
      | ok z => exact exactArithmetic_assoc h x y z

end Expr

namespace Grammar.Layout

/-- **Absorbing keeps the exact value.** -/
theorem exactValue_absorb {s : Scope} {op : Operator} {t : Token} {l p : Layout} (hl : l.Full)
    (hp : p.Full) :
    (absorb op t l p).expr.exactValue s = (Expr.operation op l.expr p.expr).exactValue s := by
  induction p with
  | joined op' u a b iha ihb =>
    obtain ⟨ha, hb⟩ := hp
    rw [absorb]
    split
    · rename_i h
      rw [expr, expr, ← Expr.exactValue_assoc h hl.isHole_expr ha.isHole_expr hb.isHole_expr]
      exact Expr.exactValue_operation_congr (Expr.isLogical_of_absorbs h).2 rfl hb.isHole_expr
        (Full.absorb hl ha).isHole_expr hb.isHole_expr (iha ha) rfl
    · rfl
  | _ => rfl

end Grammar.Layout

end Formula
