/-
# Regrouped layouts

A layout that does not fit is read differently from how it was meant: its operators are grafted
anew, and the layout that comes out fits, with the same entries in the same order (`regroup`). Such
a layout means what the first one meant **only if both are grouped alike** (`Frames.fits`), so that
the plain text of an expression reads back as the expression **exactly if it is settled**
(`reread_eq_iff`).
-/
import Formula.Proofs.Grouping

namespace Formula

open Grammar

namespace Grammar

/-! ## Entries -/

/-- An entry of a written expression. -/
inductive Entry where
  | unit (e : Expr)
  | sign (σ : Sign)
  | operator (op : Operator)

namespace Layout

/-- The entries of a layout, from left to right. -/
def entries : Layout → List Entry
  | unit _ e => [.unit e]
  | signed σ _ p => .sign σ :: p.entries
  | joined op _ l r => l.entries ++ .operator op :: r.entries

/-! ## Grafting -/

/-- **Grafts an operator with its right operand onto a layout**, down its right edge as long as the
operator binds tightly enough there. -/
def graft : Layout → Operator → Token → Layout → Layout
  | unit ws e, op, t, item => joined op t (unit ws e) item
  | signed σ u p, op, t, item =>
    if σ.level ≤ op.level then signed σ u (p.graft op t item)
    else joined op t (signed σ u p) item
  | joined op' u l r, op, t, item =>
    if op'.rightLevel ≤ op.level then joined op' u l (r.graft op t item)
    else joined op t (joined op' u l r) item

/-- An operand with its signs. -/
def IsItem : Layout → Prop
  | unit .. => True
  | signed _ _ p => p.IsItem
  | joined .. => False

/-- An operand with its signs fits everywhere. -/
theorem IsItem.fits {p : Layout} (h : p.IsItem) : ∀ least, p.Fits least := by
  induction p with
  | unit ws e =>
    intro least
    trivial
  | signed σ t p ih =>
    intro least
    exact ih h _
  | joined op t l r ihl ihr => exact h.elim

variable {p item : Layout} {op : Operator} {t : Token}

/-- Grafting adds its entries behind the others. -/
theorem entries_graft (p : Layout) :
    (p.graft op t item).entries = p.entries ++ .operator op :: item.entries := by
  induction p with
  | unit ws e => rfl
  | signed σ u p ih =>
    rw [graft]
    split
    · rw [entries, ih, entries, List.cons_append]
    · rfl
  | joined op' u l r ihl ihr =>
    rw [graft]
    split
    · rw [entries, ihr, entries, List.append_assoc, List.cons_append]
    · rfl

/-- Grafting onto a layout grafts onto its right edge. -/
theorem toSpine_graft (p : Layout) :
    (p.graft op t item).toSpine = p.toSpine.graft op item.toSpine := by
  induction p with
  | unit ws e => rfl
  | signed σ u p ih =>
    rw [graft, toSpine, Spine.graft]
    split
    · rw [toSpine, ih]
    · rw [toSpine, expr_toSpine, expr]
  | joined op' u l r ihl ihr =>
    rw [graft, toSpine, Spine.graft]
    split
    · rw [toSpine, ihr]
    · rw [toSpine, expr_toSpine, expr]

/-- **Grafting keeps a layout fitting**. -/
theorem Fits.graft {p : Layout} (hi : item.IsItem) :
    ∀ {least : Nat}, p.Fits least → least ≤ op.level → (p.graft op t item).Fits least := by
  induction p with
  | unit ws e =>
    intro least _ hl
    exact ⟨hl, trivial, trivial, hi.fits _⟩
  | signed σ u p ih =>
    intro least hp hl
    rw [Layout.graft]
    split
    · rename_i hσ
      exact ih hp (Nat.max_le.2 ⟨hl, hσ⟩)
    · rename_i hσ
      have hlt : op.level < σ.level := Nat.lt_of_not_le hσ
      refine ⟨hl, ?_, hlt, hi.fits _⟩
      rw [Fits, Nat.max_eq_right (Nat.le_trans hl (Nat.le_of_lt hlt))] at hp
      rw [Fits, Nat.max_eq_right (Nat.le_of_lt hlt)]
      exact hp
  | joined op' u l r ihl ihr =>
    intro least hp hl
    obtain ⟨hl', hfl, hc, hfr⟩ := hp
    rw [Layout.graft]
    split
    · rename_i hop
      exact ⟨hl', hfl, hc, ihr hfr hop⟩
    · rename_i hop
      have hlt : op.level < op'.rightLevel := Nat.lt_of_not_le hop
      have hle : op.level ≤ op'.level :=
        Nat.le_of_lt_succ (Nat.lt_of_lt_of_le hlt (Expr.rightLevel_le op'))
      exact ⟨hl, ⟨hle, hfl, hc, hfr⟩, hlt, hi.fits _⟩

/-! ## Regrouping -/

/-- The layout that stands after reading a layout, when `k` says how its first operand joins what
was read before. -/
def place (k : Layout → Layout) : Layout → Layout
  | unit ws e => k (unit ws e)
  | signed σ t p => p.place fun item => k (signed σ t item)
  | joined op t l r => r.place fun item => (l.place k).graft op t item

/-- **The layout as it is read**. -/
def regroup (p : Layout) : Layout := p.place id

/-- Placing a layout attaches its right edge. -/
theorem toSpine_place {p : Layout} : ∀ {k : Layout → Layout} {k' : Spine → Spine},
    (∀ item, (k item).toSpine = k' item.toSpine) → (p.place k).toSpine = p.attach k' := by
  induction p with
  | unit ws e =>
    intro k k' h
    exact h _
  | signed σ t p ih =>
    intro k k' h
    show (p.place _).toSpine = p.attach fun item => k' (.signed σ item)
    exact ih fun item => h _
  | joined op t l r ihl ihr =>
    intro k k' h
    show (r.place _).toSpine = r.attach fun item => (l.attach k').graft op item
    refine ihr ?_
    intro item
    rw [toSpine_graft, ihl h]

/-- The layout as it is read means what is read. -/
theorem expr_regroup (p : Layout) : p.regroup.expr = p.reading := by
  have h : p.regroup.toSpine = p.attach id := toSpine_place fun item => rfl
  rw [reading, ← h, expr_toSpine]

/-- Placing a layout in a fitting one leaves a fitting one. -/
theorem fits_place {p : Layout} : ∀ {k : Layout → Layout},
    (∀ item : Layout, item.IsItem → (k item).Fits 0) → (p.place k).Fits 0 := by
  induction p with
  | unit ws e =>
    intro k h
    exact h _ trivial
  | signed σ t p ih =>
    intro k h
    exact ih fun item hi => h _ hi
  | joined op t l r ihl ihr =>
    intro k h
    exact ihr fun item hi => (ihl h).graft hi (Nat.zero_le _)

/-- **The layout as it is read fits.** -/
theorem fits_regroup (p : Layout) : p.regroup.Fits 0 := fits_place fun _ hi => hi.fits 0

/-- Placing a layout adds its entries behind the others. -/
theorem entries_place {p : Layout} : ∀ {k : Layout → Layout} {before : List Entry},
    (∀ item, (k item).entries = before ++ item.entries) →
      (p.place k).entries = before ++ p.entries := by
  induction p with
  | unit ws e =>
    intro k before h
    exact h _
  | signed σ t p ih =>
    intro k before h
    have hp : (p.place fun item => k (signed σ t item)).entries
        = before ++ [.sign σ] ++ p.entries := by
      refine ih ?_
      intro item
      rw [h, entries, List.append_assoc, List.singleton_append]
    rw [place, hp, entries, List.append_assoc, List.singleton_append]
  | joined op t l r ihl ihr =>
    intro k before h
    have hr : (r.place fun item => (l.place k).graft op t item).entries
        = before ++ l.entries ++ [.operator op] ++ r.entries := by
      refine ihr ?_
      intro item
      rw [entries_graft, ihl h, List.append_assoc _ [_], List.singleton_append]
    rw [place, hr, entries, List.append_assoc, List.append_assoc, List.singleton_append]

/-- **Regrouping keeps the entries in their order.** -/
theorem entries_regroup (p : Layout) : p.regroup.entries = p.entries := by
  have h : (p.place id).entries = [] ++ p.entries := entries_place fun _ => rfl
  exact h

end Layout

end Grammar

/-! ## Weights -/

namespace Expr

/-- The number of nodes that are there: a hole counts nothing. -/
def weight : Expr → Nat
  | hole => 0
  | operation _ l r => l.weight + r.weight + 1
  | conditional c t e => c.weight + t.weight + e.weight + 1
  | call _ a => a.weight + 1
  | ending p t => p.weight + t.weight + 1
  | mark _ a => a.weight + 1
  | _ => 1

end Expr

namespace Grammar

/-- The weight of an entry. -/
def Entry.weight : Entry → Nat
  | unit e => e.weight
  | _ => 1

/-- The weight of some entries. -/
def weightOf : List Entry → Nat
  | [] => 0
  | x :: xs => x.weight + weightOf xs

/-- The weight of entries one after the other. -/
@[simp] theorem weightOf_append (xs ys : List Entry) :
    weightOf (xs ++ ys) = weightOf xs + weightOf ys := by
  induction xs with
  | nil => rw [List.nil_append, weightOf, Nat.zero_add]
  | cons x xs ih => rw [List.cons_append, weightOf, weightOf, ih, Nat.add_assoc]

/-- The weight of an entry and those behind it. -/
@[simp] theorem weightOf_cons (x : Entry) (xs : List Entry) :
    weightOf (x :: xs) = x.weight + weightOf xs := rfl

/-- Entries of the same weight that start a list are the same, when each entry weighs something. -/
theorem eq_of_weightOf_eq {us vs us' vs' : List Entry} (hu : ∀ x ∈ us, 0 < x.weight)
    (hu' : ∀ x ∈ us', 0 < x.weight) (h : us ++ vs = us' ++ vs') (hw : weightOf us = weightOf us') :
    us = us' ∧ vs = vs' := by
  -- no entries are left over, since each would add to the weight
  have hnil : ∀ xs : List Entry, (∀ x ∈ xs, 0 < x.weight) → weightOf xs = 0 → xs = [] := by
    intro xs hx hzero
    cases xs with
    | nil => rfl
    | cons x xs =>
      rw [weightOf_cons] at hzero
      have := hx x List.mem_cons_self
      omega
  rcases List.append_eq_append_iff.1 h with ⟨xs, rfl, rfl⟩ | ⟨xs, rfl, rfl⟩
  · rw [weightOf_append] at hw
    obtain rfl := hnil xs (fun x hx => hu' x (List.mem_append_right _ hx)) (by omega)
    simp
  · rw [weightOf_append] at hw
    obtain rfl := hnil xs (fun x hx => hu x (List.mem_append_right _ hx)) (by omega)
    simp

namespace Layout

/-- The expression of a layout weighs as much as its entries. -/
theorem weight_expr (p : Layout) : p.expr.weight = weightOf p.entries := by
  induction p with
  | unit ws e => simp [expr, entries, weightOf, Entry.weight]
  | signed σ t p ih =>
    simp only [expr, Sign.apply, Expr.weight, ih, entries, weightOf_cons, Entry.weight]
    omega
  | joined op t l r ihl ihr =>
    simp only [expr, Expr.weight, ihl, ihr, entries, weightOf_append, weightOf_cons, Entry.weight]
    omega

/-- **Reading keeps the weight.** -/
theorem weight_reading (p : Layout) : p.reading.weight = weightOf p.entries := by
  rw [← expr_regroup, weight_expr, entries_regroup]

/-! ## Layouts that mean the same -/

/-- Whether a layout is made for an expression, up to what its operands are. -/
def Frames : Layout → Expr → Prop
  | unit _ a, e => a.weight = e.weight
  | signed σ _ p, e => ∃ a, e = σ.apply a ∧ p.Frames a
  | joined op _ l r, e => ∃ a b, e = .operation op a b ∧ l.Frames a ∧ r.Frames b

/-- A layout weighs as much as an expression that it is made for. -/
theorem Frames.weight {p : Layout} : ∀ {e : Expr}, p.Frames e → weightOf p.entries = e.weight := by
  induction p with
  | unit ws a =>
    intro e h
    have h : a.weight = e.weight := h
    simpa [entries, weightOf, Entry.weight] using h
  | signed σ t p ih =>
    rintro e ⟨a, rfl, h⟩
    simp only [entries, weightOf_cons, Entry.weight, ih h, Sign.apply, Expr.weight]
    omega
  | joined op t l r ihl ihr =>
    rintro e ⟨a, b, rfl, hl, hr⟩
    simp only [entries, weightOf_append, weightOf_cons, Entry.weight, ihl hl, ihr hr, Expr.weight]
    omega

/-- Whether each entry of a layout is there. -/
def Solid (p : Layout) : Prop := ∀ x ∈ p.entries, 0 < x.weight

/-- A layout has an entry. -/
theorem entries_ne_nil (p : Layout) : p.entries ≠ [] := by
  cases p <;> simp [entries]

/-- A solid layout weighs something. -/
theorem Solid.weight_pos {p : Layout} (h : p.Solid) : 0 < weightOf p.entries := by
  obtain ⟨x, xs, hx⟩ := List.exists_cons_of_ne_nil p.entries_ne_nil
  rw [hx, weightOf_cons]
  have := h x (by rw [hx]; exact List.mem_cons_self)
  omega

/-- Both operands of a solid layout are solid. -/
theorem Solid.joined {op : Operator} {t : Token} {l r : Layout} (h : (joined op t l r).Solid) :
    l.Solid ∧ r.Solid :=
  ⟨fun x hx => h x (List.mem_append_left _ hx),
    fun x hx => h x (List.mem_append_right _ (List.mem_cons_of_mem _ hx))⟩

/-- An operation has more than one entry. -/
theorem entries_joined_ne {op : Operator} {t : Token} {l r : Layout} {x : Entry} :
    (joined op t l r).entries ≠ [x] := by
  obtain ⟨y, ys, hy⟩ := List.exists_cons_of_ne_nil l.entries_ne_nil
  simp [entries, hy]

/-- What a layout shares with one that has the same entries and means an expression for which the
first is made. -/
structure Matches (p q : Layout) (e : Expr) : Prop where
  expr : p.expr = e
  fits : ∀ {least}, q.Fits least → p.Fits least
  closes : ∀ {op}, q.ClosesBefore op → p.ClosesBefore op

/-- **Layouts with the same entries that mean the same are grouped alike.** -/
theorem Frames.matches {p : Layout} : ∀ {q : Layout} {e : Expr}, p.Frames e → p.Solid →
    q.entries = p.entries → q.expr = e → p.Matches q e := by
  -- induction on the framing layout: the expression fixes the operator on top of the other one
  induction p with
  | unit ws a =>
    intro q e _ _ hq he
    cases q with
    | unit ws' b =>
      cases hq
      exact ⟨he, id, id⟩
    | signed σ t q => cases hq
    | joined op t l r => exact absurd hq entries_joined_ne
  | signed σ t p ih =>
    rintro q e ⟨a, rfl, hp⟩ hs hq he
    have hsp : p.Solid := fun x hx => hs x (List.mem_cons_of_mem _ hx)
    cases q with
    | unit ws' b => cases hq
    | signed σ' t' q =>
      simp only [entries, List.cons.injEq, Entry.sign.injEq] at hq
      obtain ⟨rfl, hq⟩ := hq
      have hqa : q.expr = a := by
        simpa [expr, Sign.apply] using he
      obtain ⟨hexpr, hfits, _⟩ := ih hp hsp hq hqa
      exact ⟨by rw [expr, hexpr], fun h => hfits h, id⟩
    | joined op t' l r =>
      -- the right operand is there, so that the operation has two operands
      have hsq : (joined op t' l r).Solid := fun x hx => hs x (hq ▸ hx)
      have hr := hsq.joined.2.weight_pos
      simp only [expr, Sign.apply, Expr.operation.injEq] at he
      rw [← weight_expr, he.2.2] at hr
      cases hr
  | joined op t l r ihl ihr =>
    rintro q e ⟨a, b, rfl, hl, hr⟩ hs hq he
    obtain ⟨hsl, hsr⟩ := hs.joined
    cases q with
    | unit ws' c => exact absurd hq.symm entries_joined_ne
    | signed σ t' q =>
      simp only [expr, Sign.apply, Expr.operation.injEq] at he
      obtain ⟨_, _, rfl⟩ := he
      have hpos := hsr.weight_pos
      rw [hr.weight] at hpos
      cases hpos
    | joined op' t' l' r' =>
      simp only [expr, Expr.operation.injEq] at he
      obtain ⟨rfl, hla, hrb⟩ := he
      have hsq : (joined op' t' l' r').Solid := fun x hx => hs x (hq ▸ hx)
      -- the operands weigh the same on both sides, so the entries are cut at the same place
      have hw : weightOf l'.entries = weightOf l.entries := by
        rw [← weight_expr, hla, hl.weight]
      obtain ⟨hel, her⟩ := eq_of_weightOf_eq hsq.joined.1 hsl hq hw
      obtain ⟨hexl, hfl, hcl⟩ := ihl hl hsl hel hla
      obtain ⟨hexr, hfr, _⟩ := ihr hr hsr (List.cons.inj her).2 hrb
      refine ⟨by rw [expr, hexl, hexr], ?_, id⟩
      rintro least ⟨hlevel, hl, hc, hr⟩
      exact ⟨hlevel, hfl hl, hcl hc, hfr hr⟩

/-- **A layout that is read as an expression for which it is made fits**, and means the
expression. -/
theorem Frames.fits {p : Layout} {e : Expr} (h : p.Frames e) (hs : p.Solid) (hr : p.reading = e) :
    p.Fits 0 ∧ p.expr = e := by
  obtain ⟨hexpr, hfits, _⟩ :=
    h.matches hs p.entries_regroup ((expr_regroup p).trans hr)
  exact ⟨hfits p.fits_regroup, hexpr⟩

/-- Parentheses keep what a layout is made for. -/
theorem Frames.bracketed {p : Layout} {e : Expr} (h : p.Frames e) (needed : Bool) :
    (p.bracketed needed).Frames e := by
  cases needed with
  | false => exact h
  | true => exact p.weight_reading.trans h.weight

/-- Parentheses keep a layout solid. -/
theorem Solid.bracketed {p : Layout} (h : p.Solid) (needed : Bool) :
    (p.bracketed needed).Solid := by
  cases needed with
  | false => exact h
  | true =>
    intro x hx
    obtain rfl := List.mem_singleton.1 hx
    show 0 < p.reading.weight
    rw [weight_reading]
    exact h.weight_pos

/-- A layout that fits a place fits every looser one. -/
theorem Fits.mono {p : Layout} : ∀ {m n : Nat}, m ≤ n → p.Fits n → p.Fits m := by
  induction p with
  | unit ws e =>
    intro m n _ _
    trivial
  | signed σ t p ih =>
    intro m n hmn h
    exact ih (by omega) h
  | joined op t l r _ _ =>
    intro m n hmn h
    exact ⟨Nat.le_trans hmn h.1, h.2⟩

end Layout

end Grammar

/-! ## Printed expressions -/

namespace Expr

/-- A printable expression is there. -/
theorem Printable.weight_pos {e : Expr} (h : e.Printable) : 0 < e.weight := by
  cases e <;> first | exact Nat.succ_pos _ | exact h.elim

/-- An operand that stands for itself has a layout made for it. -/
theorem frames_unit {ws : List Token} {a e : Expr} (hw : a.weight = e.weight) (h : 0 < e.weight) :
    (Layout.unit ws a).Frames e ∧ (Layout.unit ws a).Solid := by
  refine ⟨hw, ?_⟩
  intro x hx
  obtain rfl := List.mem_singleton.1 hx
  show 0 < a.weight
  omega

/-- **The layout of a printable expression is made for it.** -/
theorem Printable.frames {e : Expr} (h : e.Printable) : e.layout.Frames e ∧ e.layout.Solid := by
  have hpos := h.weight_pos
  have hread : ∀ {a : Expr}, a.layout.Frames a ∧ a.layout.Solid →
      a.layout.reading.weight = a.weight :=
    fun ha => (Layout.weight_reading _).trans ha.1.weight
  have hsigned : ∀ {σ : Sign} {t : Token} {p : Layout}, p.Solid → (Layout.signed σ t p).Solid := by
    intro σ t p hp x hx
    rcases List.mem_cons.1 hx with rfl | hx
    · exact Nat.one_pos
    · exact hp x hx
  induction e with
  | operation op l r ihl ihr =>
    rcases h.operation_cases with ⟨rfl, rfl | rfl, hl⟩ | ⟨hr, hn, hpl, hpr⟩
    · obtain ⟨hframes, hsolid⟩ := frames_unit (hread (ihl hl hl.weight_pos)) hl.weight_pos
      exact ⟨⟨l, rfl, hframes⟩, hsigned hsolid⟩
    · obtain ⟨hframes, hsolid⟩ := ihl hl hl.weight_pos
      exact ⟨⟨l, rfl, hframes.bracketed _⟩, hsigned (hsolid.bracketed _)⟩
    · obtain ⟨hfl, hsl⟩ := ihl hpl hpl.weight_pos
      obtain ⟨hfr, hsr⟩ := ihr hpr hpr.weight_pos
      rw [layout_operation hn hr]
      refine ⟨⟨l, r, rfl, hfl.bracketed _, hfr.bracketed _⟩, ?_⟩
      intro x hx
      rcases List.mem_append.1 hx with hx | hx
      · exact hsl.bracketed _ x hx
      · rcases List.mem_cons.1 hx with rfl | hx
        · exact Nat.one_pos
        · exact hsr.bracketed _ x hx
  | conditional c t e ihc iht ihe =>
    obtain ⟨hc, ht, he⟩ := h
    refine frames_unit ?_ hpos
    simp only [weight, hread (ihc hc hc.weight_pos), hread (iht ht ht.weight_pos),
      hread (ihe he he.weight_pos)]
  | call name a ih =>
    have ha := hread (ih h.2.2 h.2.2.weight_pos)
    rw [layout]
    split <;> exact frames_unit (by simp only [weight, ha]) hpos
  | ending p t ihp iht =>
    obtain ⟨hp, ht⟩ := h
    refine frames_unit ?_ hpos
    simp only [weight, hread (ihp hp hp.weight_pos), hread (iht ht ht.weight_pos)]
  | number n => exact frames_unit rfl hpos
  | boolean b => exact frames_unit rfl hpos
  | constant name => exact frames_unit rfl hpos
  | identifier name => exact frames_unit rfl hpos
  | _ => exact h.elim

/-- In a fitting layout, an operand in parentheses or without fits and means what it should. -/
theorem Printable.fits_of_bracketed {a : Expr} {needed : Bool} {least : Nat} (h : a.Printable)
    (hf : (a.layout.bracketed needed).Fits least) (he : (a.layout.bracketed needed).expr = a) :
    a.layout.Fits 0 ∧ a.layout.expr = a := by
  obtain ⟨hframes, hsolid⟩ := h.frames
  cases needed with
  | true => exact hframes.fits hsolid he
  | false => exact ⟨Layout.Fits.mono (Nat.zero_le _) hf, he⟩

/-- Behind an operator, a one-sided operation keeps together or stands in brackets. -/
theorem keepsRight_of_isHole {op op' : Operator} {a : Expr} (hop : op' = .not ∨ op' = .sub) :
    keepsRight op (operation op' a hole) = true := by
  rcases hop with rfl | rfl <;> cases op <;> rfl

/-- In a fitting layout, the operand behind an operator keeps together or stands in brackets. -/
theorem Printable.keepsRight {op : Operator} {r : Expr} (h : r.Printable)
    (hf : (r.layout.bracketed (bracketsRight op r)).Fits op.rightLevel) :
    keepsRight op r = true := by
  cases r with
  | operation op' a b =>
    rcases h.operation_cases with ⟨rfl, hop, _⟩ | ⟨hb, hn, _⟩
    · exact keepsRight_of_isHole hop
    · rw [Expr.keepsRight, Bool.or_eq_true]
      cases hneeded : bracketsRight op (operation op' a b) with
      | true => exact Or.inl rfl
      | false =>
        rw [hneeded, layout_operation hn hb] at hf
        refine Or.inr ?_
        rw [holdsBehind, decide_eq_true_eq, hb]
        exact hf.1
  | _ => exact Bool.or_true _

/-- **An expression with a fitting layout that means it is settled.** -/
theorem Printable.settled_of_fits {e : Expr} (h : e.Printable) (hf : e.layout.Fits 0)
    (he : e.layout.expr = e) : e.settled = true := by
  -- an operand that is read as itself has a layout that fits
  have hread : ∀ {a : Expr}, a.Printable → a.layout.reading = a →
      a.layout.Fits 0 ∧ a.layout.expr = a :=
    fun ha hr => ha.frames.1.fits ha.frames.2 hr
  induction e with
  | operation op l r ihl ihr =>
    rcases h.operation_cases with ⟨rfl, rfl | rfl, hl⟩ | ⟨hr, hn, hpl, hpr⟩
    · have hexpr : l.layout.reading = l := by
        simpa [layout, Layout.expr, Sign.apply, Sign.operator] using he
      obtain ⟨hfits, hmeans⟩ := hread hl hexpr
      simp [isHole, ihl hl hfits hmeans]
    · have hexpr : (l.layout.bracketed (l.needsBrackets .sub false)).expr = l := by
        simpa [layout, isHole, Layout.expr, Sign.apply, Sign.operator] using he
      obtain ⟨hfits, hmeans⟩ := hl.fits_of_bracketed hf hexpr
      simp [isHole, ihl hl hfits hmeans]
    · rw [layout_operation hn hr] at hf he
      obtain ⟨_, hfl, hc, hfr⟩ := hf
      simp only [Layout.expr, operation.injEq, true_and] at he
      obtain ⟨hfitl, hmeansl⟩ := hpl.fits_of_bracketed hfl he.1
      obtain ⟨hfitr, hmeansr⟩ := hpr.fits_of_bracketed hfr he.2
      have hleft : keepsLeft op l = true := by
        rw [keepsLeft, Bool.or_eq_true]
        cases hb : bracketsLeft op l with
        | true => exact Or.inl rfl
        | false =>
          rw [hb] at hc
          exact Or.inr (hpl.closesBefore_iff.1 hc)
      simp [ihl hpl hfitl hmeansl, ihr hpr hfitr hmeansr, hleft, hpr.keepsRight hfr]
  | conditional c t e ihc iht ihe =>
    obtain ⟨hc, ht, he'⟩ := h
    simp only [layout, Layout.expr, conditional.injEq] at he
    obtain ⟨hfc, hmc⟩ := hread hc he.1
    obtain ⟨hft, hmt⟩ := hread ht he.2.1
    obtain ⟨hfe, hme⟩ := hread he' he.2.2
    simp [ihc hc hfc hmc, iht ht hft hmt, ihe he' hfe hme]
  | call name a ih =>
    have hexpr : a.layout.reading = a := by
      rw [layout] at he
      split at he <;> simpa [Layout.expr] using he
    obtain ⟨hfits, hmeans⟩ := hread h.2.2 hexpr
    exact ih h.2.2 hfits hmeans
  | ending p t ihp iht =>
    obtain ⟨hp, ht⟩ := h
    simp only [layout, Layout.expr, ending.injEq] at he
    obtain ⟨hfp, hmp⟩ := hread hp he.1
    obtain ⟨hft, hmt⟩ := hread ht he.2
    simp [ihp hp hfp hmp, iht ht hft hmt]
  | _ => rfl

/-- **Regrouping changes exactly the expressions that are not settled.** -/
theorem Printable.regrouped_eq_iff {e : Expr} (h : e.Printable) :
    e.regrouped = e ↔ e.settled = true := by
  constructor
  · intro hr
    obtain ⟨hframes, hsolid⟩ := h.frames
    obtain ⟨hf, he⟩ := hframes.fits hsolid hr
    exact h.settled_of_fits hf he
  · exact h.regrouped_of_settled

/-- **The plain text of a printable expression reads back as the expression exactly if it is
settled**, with every lexicon that knows its words. -/
theorem reread_eq_iff {l : Lexicon} {o : Options} {e : Expr} (hl : l.KnowsPunctuation)
    (ho : o.simplify = false) (h : e.Printable) (hk : e.KnownBy l) :
    l.reread o e = .ok e ↔ e.settled = true := by
  rw [reread_eq_regrouped hl ho h hk, Except.ok.injEq, h.regrouped_eq_iff]

end Expr

end Formula
