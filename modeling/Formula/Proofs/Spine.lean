/-
# Right spines

While an expression is read from left to right, the operands that may still grow lie on the right
edge of the tree. A spine is a tree cut open along that edge. A further operator with its operand is
**grafted** onto the spine at the first place that binds less tightly, and the grammar does exactly
that: reading on behind a spine consumes an operator by grafting it (`Resumes.graft`).
-/
import Formula.Proofs.Derivation

namespace Formula

namespace Grammar

open Formula.Expr

/-! ## Signs -/

/-- A sign that stands before an operand and changes it. -/
inductive Sign where
  | minus
  | denial
  deriving DecidableEq

namespace Sign

/-- The operator of a sign. -/
def operator : Sign → Operator
  | minus => .sub
  | denial => .not

/-- The least level of the operators in the operand of a sign. -/
def level : Sign → Nat
  | minus => minusLevel
  | denial => notLevel

/-- An operand behind a sign. -/
def apply (σ : Sign) (e : Expr) : Expr := .operation σ.operator e .hole

end Sign

/-! ## Spines -/

/-- A tree that is open along its right edge. -/
inductive Spine where
  | unit (e : Expr)
  | signed (σ : Sign) (operand : Spine)
  | join (op : Operator) (left : Expr) (right : Spine)

namespace Spine

/-- The tree of a spine. -/
def expr : Spine → Expr
  | unit e => e
  | signed σ s => σ.apply s.expr
  | join op l s => .operation op l s.expr

/-- **Grafts an operator with its right operand onto a spine**: it goes down the edge as long as the
operator binds tightly enough there. -/
def graft : Spine → Operator → Spine → Spine
  | unit e, op, item => join op e item
  | signed σ s, op, item =>
    if σ.level ≤ op.level then signed σ (s.graft op item)
    else join op (σ.apply s.expr) item
  | join op' l s, op, item =>
    if op'.rightLevel ≤ op.level then join op' l (s.graft op item)
    else join op (.operation op' l s.expr) item

/-- Whether all operators on a spine bind at least as tightly as their place demands, where the
whole stands at the level `least`. -/
def Fits : Nat → Spine → Prop
  | _, unit _ => True
  | least, signed σ s => s.Fits (max least σ.level)
  | least, join op _ s => least ≤ op.level ∧ s.Fits op.rightLevel

/-- An operand with its signs. -/
def IsItem : Spine → Prop
  | unit _ => True
  | signed _ s => s.IsItem
  | join .. => False

/-- An operand with its signs fits everywhere. -/
theorem IsItem.fits {s : Spine} (h : s.IsItem) : ∀ least, s.Fits least := by
  induction s with
  | unit e =>
    intro least
    trivial
  | signed σ s ih =>
    intro least
    exact ih h _
  | join op l s ih => exact h.elim

/-- The right operand of an operator stands at its level or above. -/
theorem level_le_rightLevel (op : Operator) : op.level ≤ op.rightLevel := by
  unfold Operator.rightLevel
  split <;> omega

/-- **Grafting keeps a spine fitting**. -/
theorem Fits.graft {s : Spine} {op : Operator} {item : Spine} (hi : item.IsItem) :
    ∀ {least : Nat}, s.Fits least → least ≤ op.level → (s.graft op item).Fits least := by
  induction s with
  | unit e =>
    intro least _ hl
    exact ⟨hl, hi.fits _⟩
  | signed σ s ih =>
    intro least hs hl
    rw [Spine.graft]
    split
    · rename_i hσ
      exact ih hs (Nat.max_le.2 ⟨hl, hσ⟩)
    · exact ⟨hl, hi.fits _⟩
  | join op' l s ih =>
    intro least hs hl
    obtain ⟨hl', hs⟩ := hs
    rw [Spine.graft]
    split
    · rename_i hop
      exact ⟨hl', ih hs hop⟩
    · exact ⟨hl, hi.fits _⟩

end Spine

/-! ## Reading on behind a spine -/

/-- A chain that stops at a level stops at every higher one. -/
theorem Stops.mono {m n : Nat} {ts : List Token} (h : Stops m ts) (hmn : m ≤ n) : Stops n ts := by
  cases ts with
  | nil => trivial
  | cons t ts => exact fun op hop => Nat.lt_of_lt_of_le (h op hop) hmn

/-- **Reading on behind a spine** that stands at the level `least`: every operand on the edge may
grow by the tokens that follow, from the innermost to the whole. -/
def Resumes : Nat → Spine → List Token → Expr → List Token → Prop
  | least, .unit e, ts, e', rest => Reads false (.chain least e) ts [e'] rest
  | least, .signed σ s, ts, e', rest =>
    ∃ r ts₁, Resumes (max least σ.level) s ts r ts₁ ∧
      Reads false (.chain least (σ.apply r)) ts₁ [e'] rest
  | least, .join op l s, ts, e', rest =>
    ∃ r ts₁, Resumes op.rightLevel s ts r ts₁ ∧
      Reads false (.chain least (.operation op l r)) ts₁ [e'] rest

/-- Where the chain stops, the spine is the tree that was read. -/
theorem Resumes.of_stops {s : Spine} : ∀ {least : Nat} {ts : List Token}, s.Fits least →
    Stops least ts → Resumes least s ts s.expr ts := by
  induction s with
  | unit e =>
    intro least ts _ h
    exact .chainEnd h
  | signed σ s ih =>
    intro least ts hs h
    exact ⟨s.expr, ts, ih hs (h.mono (Nat.le_max_left _ _)), .chainEnd h⟩
  | join op l s ih =>
    intro least ts hs h
    obtain ⟨hl, hs⟩ := hs
    have hr : least ≤ op.rightLevel := Nat.le_trans hl (Spine.level_le_rightLevel op)
    exact ⟨s.expr, ts, ih hs (h.mono hr), .chainEnd h⟩

/-- Whether a token list spells an operand with its signs: it is read as that operand wherever no
factorial follows, at every level. -/
def Spells (ws : List Token) (item : Spine) : Prop :=
  ∀ {least : Nat} {ts : List Token} {e : Expr} {rest : List Token},
    startsAny Kind.isFactorial ts = false → Resumes least item ts e rest →
      Reads false (.expression least) (ws ++ ts) [e] rest

/-- **The grammar grafts**: an operator with its right operand, read behind a spine, is grafted onto
it. -/
theorem Resumes.graft {t : Token} {op : Operator} {ws : List Token} {item : Spine}
    (hop : t.kind.binary? = some op) (hw : Spells ws item) {ts : List Token}
    (hf : startsAny Kind.isFactorial ts = false) {s : Spine} :
    ∀ {least : Nat} {e : Expr} {rest : List Token}, s.Fits least → least ≤ op.level →
      Resumes least (s.graft op item) ts e rest → Resumes least s (t :: (ws ++ ts)) e rest := by
  -- the operator ends each chain that stands above its level
  have stop : ∀ {n : Nat}, op.level < n → Stops n (t :: (ws ++ ts)) := by
    intro n hn op' hop'
    rw [hop] at hop'
    cases hop'
    exact hn
  -- and goes on with the others, its right operand being the whole item
  have step : ∀ {least : Nat} {left e : Expr} {rest : List Token}, least ≤ op.level →
      Resumes least (.join op left item) ts e rest →
        Reads false (.chain least left) (t :: (ws ++ ts)) [e] rest := by
    intro least left e rest hl h
    obtain ⟨r, ts₁, hr, hc⟩ := h
    exact .chainStep hop hl (hw hf hr) rfl hc
  -- the edge is walked down to the innermost operand that the operator does not end
  induction s with
  | unit e₀ =>
    intro least e rest _ hl h
    exact step hl h
  | signed σ s ih =>
    intro least e rest hs hl h
    rw [Spine.graft] at h
    split at h
    · rename_i hσ
      obtain ⟨r, ts₁, hr, hc⟩ := h
      exact ⟨r, ts₁, ih hs (Nat.max_le.2 ⟨hl, hσ⟩) hr, hc⟩
    · rename_i hσ
      have hn : op.level < max least σ.level := by omega
      exact ⟨s.expr, _, .of_stops hs (stop hn), step hl h⟩
  | join op' l s ih =>
    intro least e rest hs hl h
    obtain ⟨hl', hs⟩ := hs
    rw [Spine.graft] at h
    split at h
    · rename_i hop'
      obtain ⟨r, ts₁, hr, hc⟩ := h
      exact ⟨r, ts₁, ih hs hop' hr, hc⟩
    · rename_i hop'
      exact ⟨s.expr, _, .of_stops hs (stop (Nat.lt_of_not_le hop')), step hl h⟩

/-! ## Operands that are spelled out -/

/-- Whether a token list is read as an operand without signs wherever no factorial follows. -/
structure SpellsOperand (ws : List Token) (e : Expr) : Prop where
  /-- The tokens start with no sign, whatever follows. -/
  unsigned : ∀ ts, startsAny isSign (ws ++ ts) = false
  reads : ∀ {ts}, startsAny Kind.isFactorial ts = false →
    Reads false .postfixed (ws ++ ts) [e] ts

/-- An operand spells itself. -/
theorem SpellsOperand.spells {ws : List Token} {e : Expr} (h : SpellsOperand ws e) :
    Spells ws (.unit e) :=
  fun hf hr => .expression (.unsigned (h.unsigned _) (h.reads hf)) hr

/-- A sign in front of an operand spells the signed operand. -/
theorem Spells.signed {ws : List Token} {item : Spine} (h : Spells ws item) {σ : Sign} {t : Token}
    (ht : t.kind = .operator σ.operator) : Spells (t :: ws) (.signed σ item) := by
  intro least ts e rest hf hr
  obtain ⟨r, ts₁, hr, hc⟩ := hr
  refine .expression ?_ hc
  cases σ with
  | minus => exact .minus ht (h hf hr) rfl
  | denial => exact .not ht (h hf hr) rfl

/-- A token that is a whole operand is no blank, no terminator and no bracket. -/
theorem plain_of_operand? {t : Token} {e : Expr} (h : operand? t = some e) :
    t.kind ≠ .blank ∧ t.kind ≠ .terminator ∧
      ∀ b, t.kind ≠ .opening b ∧ t.kind ≠ .closing b := by
  unfold operand? at h
  cases hk : t.kind <;> simp [hk] at h ⊢

/-- A token that is a whole operand spells it. -/
theorem spellsOperand_of_operand? {t : Token} {e : Expr} (h : operand? t = some e) :
    SpellsOperand [t] e where
  unsigned := by
    intro ts
    show isSign t.kind = false
    cases hk : t.kind <;> simp [operand?, hk] at h <;> rfl
  reads := by
    intro ts hf
    exact .postfixed (.operand h) (.factorialsEnd hf)

end Grammar

end Formula
