/-
# Chains of operators

A chain is an alternation of operands and operators without brackets and signs. Among the trees that
read as a given chain from left to right there is exactly one in which every operator has operands
that bind more tightly, or equally tightly on the side to which its level groups. **That tree is the
one that is parsed** (`parse_chain`).
-/
import Formula.Proofs.Layout
import Formula.Proofs.Parsing

namespace Formula

open Grammar

/-! ## Chains of tokens -/

namespace Token

/-- A number, a variable or a constant. -/
def IsOperand (t : Token) : Prop :=
  t.kind = .natural ∨ t.kind = .real ∨ t.kind = .identifier ∨ t.kind = .constant

instance : DecidablePred IsOperand := fun t =>
  inferInstanceAs (Decidable (t.kind = .natural ∨ t.kind = .real ∨ t.kind = .identifier ∨
    t.kind = .constant))

/-- An operator that stands between two operands. -/
def IsInfix (t : Token) : Prop := t.kind.binary?.isSome

instance : DecidablePred IsInfix := fun t =>
  inferInstanceAs (Decidable (t.kind.binary?.isSome = true))

/-- What a token of a chain contributes to a tree. -/
def meaning? (t : Token) : Option (Expr ⊕ Operator) :=
  match t.kind.binary? with
  | some op => some (.inr op)
  | none => (operand? t).map .inl

end Token

/-- The tokens of a chain: an operand, and operators with an operand each. -/
def chainTokens (first : Token) (rest : List (Token × Token)) : List Token :=
  first :: rest.flatMap fun x => [x.1, x.2]

/-! ## Grouped trees -/

namespace Operator

/-- Whether an operation of `q` may be the left operand of `p` without brackets. -/
def MayStandLeft (q p : Operator) : Prop :=
  p.level < q.level ∨ p.level = q.level ∧ p.isRightAssociative = false

/-- Whether an operation of `q` may be the right operand of `p` without brackets. -/
def MayStandRight (q p : Operator) : Prop :=
  p.level < q.level ∨ p.level = q.level ∧ p.isRightAssociative = true

/-- Operators of one level group to the same side. -/
theorem isRightAssociative_eq_of_level_eq {p q : Operator} (h : p.level = q.level) :
    p.isRightAssociative = q.isRightAssociative := by
  cases p <;> cases q <;> first | rfl | cases h

/-- The left operands without brackets are those whose own right operands end before the
operator. -/
theorem mayStandLeft_iff {q p : Operator} : q.MayStandLeft p ↔ p.level < q.rightLevel := by
  unfold MayStandLeft rightLevel
  by_cases h : p.level = q.level
  · rw [isRightAssociative_eq_of_level_eq h, h]
    cases q.isRightAssociative <;> simp
  · cases q.isRightAssociative <;> simp [h] <;> omega

/-- The right operands without brackets are those from the right level on. -/
theorem mayStandRight_iff {q p : Operator} : q.MayStandRight p ↔ p.rightLevel ≤ q.level := by
  unfold MayStandRight rightLevel
  cases p.isRightAssociative <;> simp <;> omega

end Operator

namespace Expr

/-- The operator of an operation. -/
def operator? : Expr → Option Operator
  | operation op _ _ => some op
  | _ => none

/-- The operands and operators of a tree from left to right. -/
def inOrder : Expr → List (Expr ⊕ Operator)
  | operation op l r => l.inOrder ++ .inr op :: r.inOrder
  | e => [.inl e]

/-- Whether every operation of a tree has operands that may stand there without brackets. -/
def Grouped : Expr → Prop
  | operation p l r =>
    (∀ q, l.operator? = some q → q.MayStandLeft p) ∧
      (∀ q, r.operator? = some q → q.MayStandRight p) ∧ l.Grouped ∧ r.Grouped
  | _ => True

/-- A tree without an operator reads as itself. -/
theorem inOrder_of_operator? {e : Expr} (h : e.operator? = none) : e.inOrder = [.inl e] := by
  cases e <;> first | rfl | cases h

/-- A tree without an operator is grouped. -/
theorem grouped_of_operator? {e : Expr} (h : e.operator? = none) : e.Grouped := by
  cases e <;> trivial

end Expr

/-- An operand is no operation. -/
theorem operator?_of_operand? {t : Token} {e : Expr} (h : operand? t = some e) :
    e.operator? = none := by
  cases hk : t.kind <;> simp [operand?, hk] at h <;> subst h <;> rfl

/-- An operand is no operator. -/
theorem binary?_of_operand? {t : Token} {e : Expr} (h : operand? t = some e) :
    t.kind.binary? = none := by
  cases hk : t.kind <;> simp [operand?, hk] at h <;> rfl

namespace Token

/-- A number, variable or constant is an operand. -/
theorem IsOperand.exists_operand? {t : Token} (h : t.IsOperand) : ∃ e, operand? t = some e := by
  rcases h with h | h | h | h <;> simp [operand?, h]

/-- The meaning of an operand is its expression. -/
theorem meaning?_of_operand? {t : Token} {e : Expr} (h : operand? t = some e) :
    t.meaning? = some (.inl e) := by
  rw [meaning?, binary?_of_operand? h, h]
  rfl

/-- The meaning of an operator is the operator. -/
theorem meaning?_of_binary? {t : Token} {op : Operator} (h : t.kind.binary? = some op) :
    t.meaning? = some (.inr op) := by
  rw [meaning?, h]

/-- Only operands mean expressions. -/
theorem operand?_of_meaning? {t : Token} {e : Expr} (h : t.meaning? = some (.inl e)) :
    operand? t = some e := by
  unfold meaning? at h
  split at h
  · cases h
  · simpa using h

/-- Only operators mean operators. -/
theorem binary?_of_meaning? {t : Token} {op : Operator} (h : t.meaning? = some (.inr op)) :
    t.kind.binary? = some op := by
  unfold meaning? at h
  split at h
  · rename_i op' hop
    cases h
    exact hop
  · simp at h

end Token

namespace Grammar

/-! ## Uniqueness -/

/-- A grouped tree, with the tokens that read as it from left to right, is a fitting layout. -/
theorem exists_layout {e : Expr} : ∀ (least : Nat) {ts : List Token},
    ts.map Token.meaning? = e.inOrder.map some → e.Grouped →
      (∀ q, e.operator? = some q → least ≤ q.level) →
        ∃ p : Layout, p.Valid ∧ p.Fits least ∧ p.tokens = ts ∧ p.expr = e ∧
          ∀ op, (∀ q, e.operator? = some q → q.MayStandLeft op) → p.ClosesBefore op := by
  induction e with
  | operation p l r ihl ihr =>
    intro least ts hts hg hl
    obtain ⟨hgl, hgr, hl', hr'⟩ := hg
    rw [Expr.inOrder, List.map_append, List.map_cons] at hts
    -- the tokens are cut where the topmost operator stands
    obtain ⟨ls, us, rfl, hls, hus⟩ := List.map_eq_append_iff.1 hts
    obtain ⟨t, rs, rfl, ht, hrs⟩ := List.map_eq_cons_iff.1 hus
    have hop := Token.binary?_of_meaning? ht
    obtain ⟨pl, hvl, hfl, htl, hel, hcl⟩ := ihl p.level hls hl' fun q hq => by
      rcases hgl q hq with h | h <;> omega
    obtain ⟨pr, hvr, hfr, htr, her, -⟩ := ihr p.rightLevel hrs hr' fun q hq =>
      Operator.mayStandRight_iff.1 (hgr q hq)
    refine ⟨.joined p t pl pr, ⟨hop, hvl, hvr⟩, ⟨hl p rfl, hfl, hcl p hgl, hfr⟩, ?_, ?_, ?_⟩
    · rw [Layout.tokens, htl, htr]
    · rw [Layout.expr, hel, her]
    · intro op h
      exact Operator.mayStandLeft_iff.1 (h p rfl)
  | _ =>
    intro least ts hts _ _
    obtain ⟨t, us, rfl, ht, hus⟩ := List.map_eq_cons_iff.1 hts
    obtain rfl := List.map_eq_nil_iff.1 hus
    have ho := Token.operand?_of_meaning? ht
    have hd := dropBlanks_operand ho
    refine ⟨.unit [t] _, ?_, trivial, hd, rfl, fun _ _ => trivial⟩
    rw [Layout.Valid, hd]
    exact spellsOperand_of_operand? ho

/-- **A grouped tree is what its tokens derive.** -/
theorem reads_of_grouped {e : Expr} {ts : List Token}
    (hts : ts.map Token.meaning? = e.inOrder.map some) (hg : e.Grouped) :
    Reads false (.expression 0) ts [e] [] := by
  obtain ⟨p, hv, hf, rfl, rfl, -⟩ := exists_layout 0 hts hg fun _ _ => Nat.zero_le _
  have h : Reads false (.expression 0) (p.tokens ++ []) [p.reading] [] :=
    Layout.reads hv rfl trivial
  rwa [List.append_nil, Layout.reading_eq_expr hf] at h

/-! ## Existence -/

namespace Spine

/-- Whether a spine without signs is grouped as far as it is finished, and open only to operators
that fit. -/
def Grouped : Spine → Prop
  | unit e => e.operator? = none
  | signed .. => False
  | join op l s =>
    l.Grouped ∧ (∀ q, l.operator? = some q → q.MayStandLeft op) ∧ s.Grouped ∧
      s.Fits op.rightLevel

/-- The tree of a grouped spine is grouped. -/
theorem Grouped.expr {s : Spine} (h : s.Grouped) : s.expr.Grouped := by
  induction s with
  | unit e => exact Expr.grouped_of_operator? h
  | signed σ s ih => exact h.elim
  | join op l s ih =>
    obtain ⟨hl, hlop, hs, hfit⟩ := h
    refine ⟨hlop, ?_, hl, ih hs⟩
    intro q hq
    refine Operator.mayStandRight_iff.2 ?_
    cases s with
    | unit e =>
      have hn : e.operator? = none := hs
      rw [Spine.expr, hn] at hq
      cases hq
    | signed σ s => exact hs.elim
    | join q' l' s' =>
      cases hq
      exact hfit.1

/-- **Grafting an operator with an operand keeps a spine grouped.** -/
theorem Grouped.graft {s : Spine} {op : Operator} {e : Expr} (he : e.operator? = none)
    (h : s.Grouped) : (s.graft op (.unit e)).Grouped := by
  induction s with
  | unit e₀ =>
    have hn : e₀.operator? = none := h
    refine ⟨Expr.grouped_of_operator? hn, ?_, he, trivial⟩
    intro q hq
    rw [hn] at hq
    cases hq
  | signed σ s ih => exact h.elim
  | join op' l s ih =>
    have hwhole := h.expr
    obtain ⟨hl, hlop, hs, hfit⟩ := h
    rw [Spine.graft]
    split
    · rename_i hop
      have hitem : IsItem (.unit e) := trivial
      exact ⟨hl, hlop, ih hs, hfit.graft hitem hop⟩
    · rename_i hop
      refine ⟨hwhole, ?_, he, trivial⟩
      intro q hq
      cases hq
      exact Operator.mayStandLeft_iff.2 (Nat.lt_of_not_le hop)

/-- Grafting appends the operator and the operand to what is read from left to right. -/
theorem inOrder_graft {s : Spine} {op : Operator} {e : Expr} (he : e.operator? = none)
    (h : s.Grouped) :
    (s.graft op (.unit e)).expr.inOrder = s.expr.inOrder ++ [.inr op, .inl e] := by
  induction s with
  | unit e₀ =>
    have hn : e₀.operator? = none := h
    show e₀.inOrder ++ .inr op :: e.inOrder = e₀.inOrder ++ [.inr op, .inl e]
    rw [Expr.inOrder_of_operator? he]
  | signed σ s ih => exact h.elim
  | join op' l s ih =>
    rw [Spine.graft]
    split
    · rw [Spine.expr, Expr.inOrder, ih h.2.2.1, Spine.expr, Expr.inOrder, List.append_assoc,
        List.cons_append]
    · show _ ++ .inr op :: e.inOrder = _
      rw [Expr.inOrder_of_operator? he]
      rfl

end Spine

/-- **Behind a grouped spine, the rest of a chain is grouped with it.** -/
theorem exists_grouped_of_spine {rest : List (Token × Token)} :
    ∀ {s : Spine}, (∀ x ∈ rest, x.1.IsInfix ∧ x.2.IsOperand) → s.Grouped →
      ∃ e : Expr, e.Grouped ∧ e.inOrder.map some
        = s.expr.inOrder.map some ++ (rest.flatMap fun x => [x.1, x.2]).map Token.meaning? := by
  -- induction on the chain: one operator with its operand is grafted at a time
  induction rest with
  | nil =>
    intro s _ hs
    exact ⟨s.expr, hs.expr, (List.append_nil _).symm⟩
  | cons x rest ih =>
    intro s hx hs
    obtain ⟨hbinary, hoperand⟩ := hx x List.mem_cons_self
    obtain ⟨op, hop⟩ := Option.isSome_iff_exists.1 hbinary
    obtain ⟨e, he⟩ := hoperand.exists_operand?
    have hn := operator?_of_operand? he
    have hs' : (s.graft op (.unit e)).Grouped := hs.graft hn
    obtain ⟨e', hg, ho⟩ := ih (fun y hy => hx y (List.mem_cons_of_mem _ hy)) hs'
    refine ⟨e', hg, ?_⟩
    rw [ho, Spine.inOrder_graft hn hs, List.flatMap_cons, List.map_append, List.map_append,
      List.append_assoc]
    simp only [List.map_cons, List.map_nil, Token.meaning?_of_binary? hop,
      Token.meaning?_of_operand? he]

/-- Every chain is the reading of a grouped tree. -/
theorem exists_grouped {first : Token} {rest : List (Token × Token)} (hf : first.IsOperand)
    (hr : ∀ x ∈ rest, x.1.IsInfix ∧ x.2.IsOperand) :
    ∃ e : Expr, e.Grouped ∧
      e.inOrder.map some = (chainTokens first rest).map Token.meaning? := by
  obtain ⟨e₀, he₀⟩ := hf.exists_operand?
  have hn := operator?_of_operand? he₀
  obtain ⟨e, hg, ho⟩ := exists_grouped_of_spine (s := .unit e₀) hr hn
  refine ⟨e, hg, ?_⟩
  show _ = first.meaning? :: _
  rw [ho, Spine.expr, Expr.inOrder_of_operator? hn, Token.meaning?_of_operand? he₀]
  rfl

end Grammar

/-! ## Parsing chains -/

/-- The tokens of a chain are operands and operators. -/
theorem kind_of_mem_chainTokens {first : Token} {rest : List (Token × Token)}
    (hf : first.IsOperand) (hr : ∀ x ∈ rest, x.1.IsInfix ∧ x.2.IsOperand) {t : Token}
    (ht : t ∈ chainTokens first rest) : t.IsOperand ∨ t.IsInfix := by
  rcases List.mem_cons.1 ht with rfl | ht
  · exact Or.inl hf
  · obtain ⟨x, hx, ht⟩ := List.mem_flatMap.1 ht
    obtain ⟨hbinary, hoperand⟩ := hr x hx
    rcases List.mem_cons.1 ht with rfl | ht
    · exact Or.inr hbinary
    · obtain rfl := List.mem_singleton.1 ht
      exact Or.inl hoperand

/-- An operand or operator is no blank, no terminator and no bracket. -/
theorem plain_of_isOperand_or_isInfix {t : Token} (h : t.IsOperand ∨ t.IsInfix) :
    t.kind ≠ .blank ∧ t.kind ≠ .terminator ∧
      ∀ b, t.kind ≠ .opening b ∧ t.kind ≠ .closing b := by
  unfold Token.IsOperand Token.IsInfix at h
  cases hk : t.kind <;> simp_all [Kind.binary?]

/-- Tokens without brackets are balanced. -/
theorem balanced_of_plain {ts : List Token}
    (h : ∀ t ∈ ts, ∀ b, t.kind ≠ .opening b ∧ t.kind ≠ .closing b) : Balanced ts := by
  induction ts with
  | nil => exact .nil
  | cons t ts ih =>
    exact .cons (h t List.mem_cons_self) (ih fun u hu => h u (List.mem_cons_of_mem _ hu))

/-- **Precedence climbing builds the one grouped tree of a chain**: without simplification and
implicit products, the parse of a chain is the unique tree that reads as the chain from left to
right and in which every operand may stand without brackets. -/
theorem parse_chain {o : Options} (hs : o.simplify = false) (hi : o.implicitProducts = false)
    {first : Token} {rest : List (Token × Token)} (hf : first.IsOperand)
    (hr : ∀ x ∈ rest, x.1.IsInfix ∧ x.2.IsOperand) :
    ∃ e, parse o (chainTokens first rest) = .ok e ∧
      e.inOrder.map some = (chainTokens first rest).map Token.meaning? ∧ e.Grouped ∧
        ∀ e' : Expr, e'.inOrder.map some = (chainTokens first rest).map Token.meaning? →
          e'.Grouped → e' = e := by
  have hplain : ∀ t ∈ chainTokens first rest, _ :=
    fun t ht => plain_of_isOperand_or_isInfix (kind_of_mem_chainTokens hf hr ht)
  have hblanks : dropBlanks (chainTokens first rest) = chainTokens first rest :=
    List.filter_eq_self.2 fun t ht => by simpa using (hplain t ht).1
  have hprepare : Parse.prepare o (chainTokens first rest) = chainTokens first rest := by
    rw [Parse.prepare, hi, if_neg Bool.false_ne_true, hblanks]
  obtain ⟨e, hg, ho⟩ := exists_grouped hf hr
  have hread := reads_of_grouped ho.symm hg
  refine ⟨e, parse_eq_ok_iff.2 ⟨?_, ?_, ?_⟩, ho, hg, ?_⟩
  · rw [hblanks]
    exact (balanced_of_plain fun t ht => (hplain t ht).2.2).checkBrackets
  · rw [hprepare, List.all_eq_false]
    exact ⟨first, List.mem_cons_self, by simpa using (hplain first List.mem_cons_self).2.1⟩
  · rw [hprepare, hs]
    exact ⟨[], hread, rfl⟩
  -- two grouped trees with this reading are derived from the same tokens
  · intro e' ho' hg'
    have hread' := reads_of_grouped ho'.symm hg'
    exact List.singleton_inj.1 (hread'.unique hread).1

/-- The chain `x - 2 ^ y ^ z - pi` of variables, a number and a constant. -/
def towerChain : Token × List (Token × Token) :=
  (⟨.identifier, "x", "x", 0⟩,
    [(⟨.operator .sub, "-", "-", 1⟩, ⟨.natural, "2", "2", 2⟩),
      (⟨.operator .pow, "^", "^", 3⟩, ⟨.identifier, "y", "y", 4⟩),
      (⟨.operator .pow, "^", "^", 5⟩, ⟨.identifier, "z", "z", 6⟩),
      (⟨.operator .sub, "-", "-", 7⟩, ⟨.constant, "pi", "pi", 8⟩)])

/-- The parse of `x - 2 ^ y ^ z - pi` is its one grouped tree. -/
theorem parse_towerChain :
    towerChain.1.IsOperand ∧ (∀ x ∈ towerChain.2, x.1.IsInfix ∧ x.2.IsOperand) ∧
      ∃ e, parse ⟨false, false, false⟩ (chainTokens towerChain.1 towerChain.2) = .ok e ∧
        e.inOrder.map some = (chainTokens towerChain.1 towerChain.2).map Token.meaning? ∧
          e.Grouped ∧ ∀ e' : Expr,
            e'.inOrder.map some = (chainTokens towerChain.1 towerChain.2).map Token.meaning? →
              e'.Grouped → e' = e := by
  have hf : towerChain.1.IsOperand := by decide
  have hr : ∀ x ∈ towerChain.2, x.1.IsInfix ∧ x.2.IsOperand := by decide
  exact ⟨hf, hr, parse_chain rfl rfl hf hr⟩

end Formula
