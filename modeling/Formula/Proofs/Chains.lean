/-
# Chains of one connective

A chain of conjunctions, or of disjunctions, that groups to the right is printed without brackets
and groups to the left when it is read. Its layout is **chained** onto the layout before it, which
changes neither what is read (`attach_chain`) nor the value (`keeps_chain`).
-/
import Formula.Proofs.LogicValue
import Formula.Proofs.Regrouping

namespace Formula

open Grammar

namespace Grammar.Layout

/-! ## Chaining layouts -/

/-- **Chains a layout behind another one**: an operator goes down the left edge of its right operand
as long as it meets itself. -/
def chain (op : Operator) (t : Token) (l : Layout) : Layout → Layout
  | joined op' t' a b =>
    if op' = op then joined op' t' (chain op t l a) b else joined op t l (joined op' t' a b)
  | p => joined op t l p

/-- Whether a layout goes on with an operator: down its left edge, nothing else keeps apart from the
operator before it. -/
def Continues (op : Operator) : Layout → Prop
  | unit .. => True
  | signed σ _ _ => op.rightLevel ≤ σ.level
  | joined op' _ a _ => op' = op ∧ a.Continues op ∨ op.rightLevel ≤ op'.level

variable {op : Operator} {t : Token} {l p : Layout}

/-- An operand at the level of a right side goes on. -/
theorem StandsAt.continues (h : p.StandsAt op.rightLevel) : p.Continues op := by
  cases p with
  | unit ws e => trivial
  | signed σ t p => exact h
  | joined op' t a b => exact Or.inr h

/-- **Chaining does not change what is read.** -/
theorem attach_chain (k : Spine → Spine) :
    (chain op t l p).attach k = (joined op t l p).attach k := by
  induction p with
  | unit ws e => rfl
  | signed σ u p ih => rfl
  | joined op' u a b iha ihb =>
    rw [chain]
    split
    · show b.attach (fun item => ((chain op t l a).attach k).graft op' item) = _
      rw [iha]
      rfl
    · rfl

/-- The operator on top of a chain. -/
theorem chain_eq_joined (op : Operator) (t : Token) (l p : Layout) :
    ∃ u a b, chain op t l p = joined op u a b := by
  cases p with
  | unit ws e => exact ⟨_, _, _, rfl⟩
  | signed σ u p => exact ⟨_, _, _, rfl⟩
  | joined op' u a b =>
    rw [chain]
    split
    · rename_i h
      exact ⟨_, _, _, by rw [h]⟩
    · exact ⟨_, _, _, rfl⟩

/-- **A chain fits** when its parts do. -/
theorem Fits.chain (hop : op.rightLevel = op.level + 1) (hl : l.Fits op.level)
    (hc : l.ClosesBefore op) (hp : p.Fits 0) (hg : p.Continues op) :
    (chain op t l p).Fits op.level := by
  induction p with
  | unit ws e => exact ⟨Nat.le_refl _, hl, hc, trivial⟩
  | signed σ u p ih => exact ⟨Nat.le_refl _, hl, hc, hp.at hg⟩
  | joined op' u a b iha ihb =>
    obtain ⟨_, hfa, hca, hfb⟩ := hp
    rw [Layout.chain]
    split
    · rename_i h
      subst h
      have hga : a.Continues op' := by
        rcases hg with ⟨_, hga⟩ | hlevel
        · exact hga
        · omega
      refine ⟨Nat.le_refl _, iha (Fits.mono (Nat.zero_le _) hfa) hga, ?_, hfb⟩
      -- the chained part has the same operator on top, which closes before itself
      obtain ⟨v, x, y, hchain⟩ := chain_eq_joined op' t l a
      rw [hchain]
      show op'.level < op'.rightLevel
      omega
    · rename_i h
      have hlevel : op.rightLevel ≤ op'.level := hg.resolve_left fun hg => h hg.1
      exact ⟨Nat.le_refl _, hl, hc, hlevel, hfa, hca, hfb⟩

/-- A chain goes on with its operator when its first part does. -/
theorem Continues.chain (hl : l.Continues op) : (chain op t l p).Continues op := by
  induction p with
  | unit ws e => exact Or.inl ⟨rfl, hl⟩
  | signed σ u p ih => exact Or.inl ⟨rfl, hl⟩
  | joined op' u a b iha ihb =>
    rw [Layout.chain]
    split
    · rename_i h
      exact Or.inl ⟨h, iha⟩
    · exact Or.inl ⟨rfl, hl⟩

/-- Whether the operands of a layout are there. -/
def Full : Layout → Prop
  | unit _ e => e.isHole = false
  | signed _ _ p => p.Full
  | joined _ _ l r => l.Full ∧ r.Full

/-- The expression of a full layout is there. -/
theorem Full.isHole_expr (h : p.Full) : p.expr.isHole = false := by
  cases p with
  | unit ws e => exact h
  | signed σ u p => rfl
  | joined op' u a b => rfl

/-- A chain of full layouts is full. -/
theorem Full.chain (hl : l.Full) (hp : p.Full) : (chain op t l p).Full := by
  induction p with
  | unit ws e => exact ⟨hl, hp⟩
  | signed σ u p ih => exact ⟨hl, hp⟩
  | joined op' u a b iha ihb =>
    obtain ⟨ha, hb⟩ := hp
    rw [Layout.chain]
    split
    · exact ⟨iha ha, hb⟩
    · exact ⟨hl, ha, hb⟩

/-- **Chaining connectives keeps the value.** -/
theorem keeps_chain {d : Dialect} {s : Scope} (hd : d.logical = true)
    (hop : Expr.joinsTruth op = true) (hl : l.Full) (hp : p.Full) :
    Expr.Keeps d s (.operation op l.expr p.expr) (chain op t l p).expr := by
  induction p with
  | unit ws e => exact .refl rfl
  | signed σ u p ih => exact .refl rfl
  | joined op' u a b iha ihb =>
    obtain ⟨ha, hb⟩ := hp
    rw [Layout.chain]
    split
    · rename_i h
      subst h
      -- one step of the chain, and the rest on its left
      refine (Expr.Keeps.assoc hd hop hl.isHole_expr ha.isHole_expr hb.isHole_expr).trans ?_
      exact (iha ha).operation hd (Or.inl hop) rfl hb.isHole_expr (.refl hb.isHole_expr)
    · exact .refl rfl

end Grammar.Layout

/-! ## Expressions whose value is kept -/

namespace Expr

/-- Whether an expression is a chain of one connective, behind that connective. -/
def continues (op : Operator) : Expr → Bool
  | operation op' a _ => joinsTruth op && op' == op && (a.holdsBehind op || a.continues op)
  | _ => false

/-- Only connectives are chained. -/
theorem joinsTruth_of_continues {op : Operator} {e : Expr} (h : e.continues op = true) :
    joinsTruth op = true := by
  cases e with
  | operation op' a b =>
    simp only [continues, Bool.and_eq_true] at h
    exact h.1.1
  | _ => cases h

/-- **Whether the plain text keeps the value**: all operands keep together, except for chains of one
connective. -/
def keepsValue (e : Expr) : Bool :=
  e.everyOperation fun op l r => keepsLeft op l && (keepsRight op r || r.continues op)

/-- An operation keeps its value when its operands do, and when they keep together or go on. -/
@[simp] theorem keepsValue_operation (op : Operator) (l r : Expr) :
    (operation op l r).keepsValue = (l.keepsValue && (r.isHole || r.keepsValue &&
      (keepsLeft op l && (keepsRight op r || r.continues op)))) := rfl

/-- A conditional keeps its value when its parts do. -/
@[simp] theorem keepsValue_conditional (c t e : Expr) :
    (conditional c t e).keepsValue = (c.keepsValue && t.keepsValue && e.keepsValue) := rfl

/-- A weaker condition holds of every operation, too. -/
theorem everyOperation_mono {p q : Operator → Expr → Expr → Bool} {e : Expr}
    (h : ∀ op l r, p op l r = true → q op l r = true) (he : e.everyOperation p = true) :
    e.everyOperation q = true := by
  induction e with
  | operation op l r ihl ihr =>
    simp only [everyOperation, Bool.and_eq_true, Bool.or_eq_true] at he ⊢
    obtain ⟨hl, hr⟩ := he
    exact ⟨ihl hl, hr.imp_right fun hr => ⟨ihr hr.1, h op l r hr.2⟩⟩
  | conditional c t e ihc iht ihe =>
    simp only [everyOperation, Bool.and_eq_true] at he ⊢
    exact ⟨⟨ihc he.1.1, iht he.1.2⟩, ihe he.2⟩
  | call name a ih => exact ih he
  | ending p t ihp iht =>
    simp only [everyOperation, Bool.and_eq_true] at he ⊢
    exact ⟨ihp he.1, iht he.2⟩
  | _ => rfl

/-- Settled expressions keep their values. -/
theorem keepsValue_of_settled {e : Expr} (h : e.settled = true) : e.keepsValue = true := by
  refine everyOperation_mono ?_ h
  intro op l r hk
  rw [Bool.and_eq_true] at hk
  rw [hk.1, hk.2]
  rfl

end Expr

end Formula
