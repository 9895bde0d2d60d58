/-
# Layouts

A layout is a written expression as its writer meant it: operands that are spelled out, signs in
front of operands, and operators between them, without the brackets that would keep them together.
Reading the tokens of a layout grafts its operators one by one (`Layout.reads`). Where every
operator stands at a level that fits its place, **the layout is read as it was meant**
(`Layout.reading_eq_expr`).
-/
import Formula.Proofs.Spine
import Formula.Token.Product

namespace Formula

namespace Grammar

/-- An expression as it is written. -/
inductive Layout where
  /-- An operand with the tokens that spell it, blanks included. -/
  | unit (ws : List Token) (e : Expr)
  | signed (σ : Sign) (t : Token) (operand : Layout)
  | joined (op : Operator) (t : Token) (left right : Layout)

/-- A token that is a whole operand is not dropped. -/
theorem dropBlanks_operand {t : Token} {e : Expr} (h : operand? t = some e) :
    dropBlanks [t] = [t] := by
  simp [dropBlanks, (plain_of_operand? h).1]

namespace Layout

/-- The expression that is meant. -/
def expr : Layout → Expr
  | unit _ e => e
  | signed σ _ p => σ.apply p.expr
  | joined op _ l r => .operation op l.expr r.expr

/-- The tokens, without blanks. -/
def tokens : Layout → List Token
  | unit ws _ => dropBlanks ws
  | signed _ t p => t :: p.tokens
  | joined _ t l r => l.tokens ++ t :: r.tokens

/-- Whether the tokens of a layout are what they stand for. -/
def Valid : Layout → Prop
  | unit ws e => SpellsOperand (dropBlanks ws) e
  | signed σ t p => t.kind = .operator σ.operator ∧ p.Valid
  | joined op t l r => t.kind.binary? = some op ∧ l.Valid ∧ r.Valid

/-! ## How a layout is read -/

/-- The spine that stands after reading a layout, when `k` says how its first operand joins what
was read before. -/
def attach (k : Spine → Spine) : Layout → Spine
  | unit _ e => k (.unit e)
  | signed σ _ p => p.attach fun item => k (.signed σ item)
  | joined op _ l r => r.attach (l.attach k |>.graft op)

/-- The expression that is read from a layout. -/
def reading (p : Layout) : Expr := (p.attach id).expr

/-- What reading a layout leaves fits its place. -/
theorem fits_attach {p : Layout} : ∀ {k : Spine → Spine},
    (∀ item : Spine, item.IsItem → (k item).Fits 0) → (p.attach k).Fits 0 := by
  induction p with
  | unit ws e =>
    intro k h
    exact h _ trivial
  | signed σ t p ih =>
    intro k h
    exact ih fun item hi => h _ hi
  | joined op t l r ihl ihr =>
    intro k h
    exact ihr fun item hi => (ihl h).graft hi (Nat.zero_le _)

/-- **Reading a layout in a context** `R`: when the context takes a first operand as `k` says, it
takes the whole layout as `attach` says. -/
theorem reads_attach {e : Expr} {rest : List Token} {p : Layout} :
    ∀ {k : Spine → Spine} {R : List Token → Prop}, p.Valid →
      (∀ item : Spine, item.IsItem → (k item).Fits 0) →
      (∀ item ws ts, item.IsItem → Spells ws item → startsAny Kind.isFactorial ts = false →
        Resumes 0 (k item) ts e rest → R (ws ++ ts)) →
      ∀ ts, startsAny Kind.isFactorial ts = false → Resumes 0 (p.attach k) ts e rest →
        R (p.tokens ++ ts) := by
  induction p with
  | unit ws e₀ =>
    intro k R hv _ hR ts hf h
    exact hR (.unit e₀) _ ts trivial (SpellsOperand.spells hv) hf h
  | signed σ t p ih =>
    intro k R hv hs hR ts hf h
    obtain ⟨ht, hv⟩ := hv
    -- the sign is handed to the first operand behind it
    refine ih (k := fun item => k (.signed σ item)) (R := fun us => R (t :: us)) hv
      (fun item hi => hs _ hi) ?_ ts hf h
    intro item ws ts hi hw hf h
    exact hR (.signed σ item) (t :: ws) ts hi (hw.signed ht) hf h
  | joined op t l r ihl ihr =>
    intro k R hv hs hR ts hf h
    obtain ⟨ht, hl, hr⟩ := hv
    have hfit := fits_attach (p := l) hs
    -- the operator is no factorial, so the left operand is complete before it
    have hft : ∀ us, startsAny Kind.isFactorial (t :: us) = false := by
      intro us
      show t.kind.isFactorial = false
      cases hk : t.kind <;> simp [hk, Kind.binary?] at ht <;> rfl
    rw [tokens, List.append_assoc]
    -- the right operand is read where its first operand is grafted onto the left one
    refine ihr (R := fun us => R (l.tokens ++ t :: us)) hr
      (fun item hi => hfit.graft hi (Nat.zero_le _)) ?_ ts hf h
    intro item ws ts hi hw hf h
    exact ihl hl hs hR _ (hft _) (Resumes.graft ht hw hf hfit (Nat.zero_le _) h)

/-- **The tokens of a layout are read as its reading**, up to a token that is no operator. -/
theorem reads {p : Layout} {ts : List Token} (hv : p.Valid)
    (hf : startsAny Kind.isFactorial ts = false) (hs : Stops 0 ts) :
    Reads false (.expression 0) (p.tokens ++ ts) [p.reading] ts := by
  have hid : ∀ item : Spine, item.IsItem → (id item).Fits 0 := fun item hi => hi.fits 0
  refine reads_attach (k := id) (R := fun us => Reads false (.expression 0) us _ _) hv hid
    ?_ ts hf (Resumes.of_stops (fits_attach hid) hs)
  intro item ws ts _ hw hf h
  exact hw hf h

/-! ## Layouts that are read as they are meant -/

/-- Whether an operand on the left does not reach over the operator behind it. -/
def ClosesBefore (op : Operator) : Layout → Prop
  | unit .. => True
  | signed σ _ _ => op.level < σ.level
  | joined op' _ _ _ => op.level < op'.rightLevel

/-- Whether every operator of a layout stands at a level that fits its place, where the whole stands
at the level `least`. -/
def Fits : Nat → Layout → Prop
  | _, unit .. => True
  | least, signed σ _ p => p.Fits (max least σ.level)
  | least, joined op _ l r =>
    least ≤ op.level ∧ l.Fits op.level ∧ l.ClosesBefore op ∧ r.Fits op.rightLevel

/-- The layout, cut open along its right edge. -/
def toSpine : Layout → Spine
  | unit _ e => .unit e
  | signed σ _ p => .signed σ p.toSpine
  | joined op _ l r => .join op l.expr r.toSpine

/-- Cutting a layout open keeps its expression. -/
theorem expr_toSpine (p : Layout) : p.toSpine.expr = p.expr := by
  induction p with
  | unit ws e => rfl
  | signed σ t p ih => rw [toSpine, Spine.expr, ih, expr]
  | joined op t l r _ ihr => rw [toSpine, Spine.expr, ihr, expr]

/-- An operator goes on top of an operand that does not reach over it. -/
theorem graft_toSpine {p : Layout} {op : Operator} {item : Spine} (h : p.ClosesBefore op) :
    p.toSpine.graft op item = .join op p.expr item := by
  cases p with
  | unit ws e => rfl
  | signed σ t p =>
    rw [toSpine, Spine.graft, if_neg (Nat.not_le_of_lt h), expr_toSpine, expr]
  | joined op' t l r =>
    rw [toSpine, Spine.graft, if_neg (Nat.not_le_of_lt h), expr_toSpine, expr]

/-- Whether operators of the level `least` and above are grafted below whatever `k` puts
around a spine. -/
def Commutes (least : Nat) (k : Spine → Spine) : Prop :=
  ∀ s op item, least ≤ op.level → (k s).graft op item = k (s.graft op item)

/-- A fitting layout joins what was read before as a whole. -/
theorem attach_eq {p : Layout} : ∀ {least : Nat} {k : Spine → Spine}, p.Fits least →
    Commutes least k → p.attach k = k p.toSpine := by
  induction p with
  | unit ws e =>
    intro least k _ _
    rfl
  | signed σ t p ih =>
    intro least k hp hs
    refine ih (k := fun item => k (.signed σ item)) hp ?_
    intro s op item hl
    obtain ⟨hl, hσ⟩ := Nat.max_le.1 hl
    rw [hs _ op item hl, Spine.graft, if_pos hσ]
  | joined op t l r ihl ihr =>
    intro least k hp hs
    obtain ⟨hl, hfl, hc, hfr⟩ := hp
    have hop : least ≤ op.rightLevel := Nat.le_trans hl (Spine.level_le_rightLevel op)
    have hleft : l.attach k = k l.toSpine :=
      ihl hfl fun s op' item h => hs s op' item (Nat.le_trans hl h)
    -- the left operand is closed, so the operator goes on top of it
    have hstart : (fun item => (l.attach k).graft op item)
        = fun item => k (.join op l.expr item) := by
      funext item
      rw [hleft, hs _ op item hl, graft_toSpine hc]
    show r.attach (fun item => (l.attach k).graft op item) = _
    rw [hstart]
    refine ihr (k := fun item => k (.join op l.expr item)) hfr ?_
    intro s op' item h
    rw [hs _ op' item (Nat.le_trans hop h), Spine.graft, if_pos h]

/-- **A fitting layout is read as it is meant.** -/
theorem reading_eq_expr {p : Layout} (h : p.Fits 0) : p.reading = p.expr := by
  have hid : Commutes 0 id := fun _ _ _ _ => rfl
  rw [reading, attach_eq h hid]
  exact expr_toSpine p

end Layout

end Grammar

end Formula
