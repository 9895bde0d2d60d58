/-
# Signs without brackets

Neither a sum behind a `+` nor a negation at the start of a sum stands in brackets, so that
`a + (-b + c)` is printed as `a+-b+c`. This is read as `(a + (-b)) + c`, where the sign stands
behind the `+` itself and is printed in brackets, `a+(-b)+c`. Such a sign is **bare**. Reading and
printing an expression again **adds one pair of brackets for each of its bare signs**
(`Reprints.operation`).
-/
import Formula.Proofs.Arithmetic

namespace Formula

open Grammar Lexicon

/-! ## Texts with more brackets -/

/-- **Whether a text has `k` more pairs of brackets than another one**; with none more, it is the
same. -/
structure AddsBrackets (k : Nat) (a b : String) : Prop where
  length : b.length = a.length + 2 * k
  same : k = 0 → b = a

namespace AddsBrackets

variable {k m : Nat} {a b c d : String}

/-- A text adds nothing to itself. -/
theorem refl (a : String) : AddsBrackets 0 a a := ⟨rfl, fun _ => rfl⟩

/-- The texts are the same if no brackets are added, and only then. -/
theorem eq_iff (h : AddsBrackets k a b) : b = a ↔ k = 0 := by
  refine ⟨fun hb => ?_, h.same⟩
  have hlength := h.length
  rw [hb] at hlength
  omega

/-- What is added one after the other counts together. -/
theorem trans (h : AddsBrackets k a b) (h' : AddsBrackets m b c) : AddsBrackets (k + m) a c where
  length := by
    rw [h'.length, h.length]
    omega
  same := fun hk => (h'.same (by omega)).trans (h.same (by omega))

/-- What is added to two parts of a text counts together. -/
theorem append (h : AddsBrackets k a b) (h' : AddsBrackets m c d) :
    AddsBrackets (k + m) (a ++ c) (b ++ d) where
  length := by
    rw [String.length_append, String.length_append, h.length, h'.length]
    omega
  same := fun hk => by rw [h.same (by omega), h'.same (by omega)]

/-- What stands behind both texts adds nothing. -/
theorem append_right (h : AddsBrackets k a b) (c : String) :
    AddsBrackets k (a ++ c) (b ++ c) := h.append (.refl c)

/-- What stands in front of both texts adds nothing. -/
theorem append_left (c : String) (h : AddsBrackets k a b) :
    AddsBrackets k (c ++ a) (c ++ b) := by
  rw [← Nat.zero_add k]
  exact (AddsBrackets.refl c).append h

/-- Brackets around both texts add nothing. -/
theorem bracketed (h : AddsBrackets k a b) (needed : Bool) :
    AddsBrackets k (Expr.bracketed needed a) (Expr.bracketed needed b) := by
  cases needed with
  | false => exact h
  | true => exact (h.append_left "(").append_right ")"

/-- Brackets around a text are one pair. -/
theorem of_bracketed (needed : Bool) (a : String) :
    AddsBrackets needed.toNat a (Expr.bracketed needed a) := by
  cases needed with
  | false => exact .refl a
  | true =>
    refine ⟨?_, nofun⟩
    show ("(" ++ a ++ ")").length = a.length + 2 * 1
    rw [String.length_append, String.length_append]
    show 1 + a.length + 1 = _
    omega

end AddsBrackets

/-! ## Bare signs -/

namespace Expr

/-- Whether the first operand of a sum, or the only one, is a negation. -/
def leadsWithSign : Expr → Bool
  | operation .sub l r => r.isHole || l.leadsWithSign
  | operation .add l _ => l.leadsWithSign
  | _ => false

/-- **The number of bare signs**: those that a right operand of `+` starts with, without
brackets. -/
def bareSigns : Expr → Nat
  | operation op l r => l.bareSigns + r.bareSigns
      + (op == .add && r.leadsWithSign && !r.needsBrackets .add false).toNat
  | conditional c t e => c.bareSigns + t.bareSigns + e.bareSigns
  | call _ a => a.bareSigns
  | ending p t => p.bareSigns + t.bareSigns
  | _ => 0

/-- An operation that binds more tightly than a sum stands behind a `+` without brackets, and does
not start with a sign. -/
theorem bare_of_lt {op : Operator} {l r : Expr} (hlt : Operator.add.level < op.level)
    (hr : r.isHole = false) : (operation op l r).needsBrackets .add false = false ∧
      (operation op l r).leadsWithSign = false := by
  rw [needsBrackets_operation_congr (l := integer 0) (r := integer 0) rfl hr rfl rfl]
  cases op <;> first | exact ⟨by decide, rfl⟩ | exact absurd hlt (by decide)

end Expr

namespace Grammar.Layout

open Expr

variable {op : Operator} {t : Token} {l p : Layout}

/-- Whether the part of a layout that comes next to a `+` in front of it stands in brackets
there. -/
def leadsWithSign : Layout → Bool
  | joined op t a b =>
    if Operator.add.absorbs op then a.leadsWithSign
    else (joined op t a b).expr.needsBrackets .add false
  | p => p.expr.needsBrackets .add false

/-- Operators that regroup stand between two operands. -/
theorem ne_not_of_absorbs {op op' : Operator} (h : op.absorbs op' = true) : op' ≠ .not := by
  rintro rfl
  cases op <;> cases h

/-- The text of a sum starts with that of its left operand. -/
theorem exists_ascii_sum {op : Operator} (h : Operator.add.absorbs op = true) {r : Expr}
    (hr : r.isHole = false) : ∃ rest, ∀ l, (operation op l r).ascii = l.ascii ++ rest := by
  have hleft : ∀ l, bracketsLeft op l = false := by
    cases op <;> first | exact fun _ => rfl | cases h
  refine ⟨infixText op ++ Expr.bracketed (bracketsRight op r) r.ascii, fun l => ?_⟩
  rw [ascii_operation (ne_not_of_absorbs h) hr, hleft, String.append_assoc]
  rfl

/-- **What is printed behind an absorbed `+`**: the layout, where a leading sign has got
brackets. -/
theorem exists_ascii_absorb_add (hp : p.Full) : ∃ text,
    (absorb .add t l p).expr.ascii = l.expr.ascii ++ "+" ++ text ∧
      AddsBrackets p.leadsWithSign.toNat p.expr.ascii text := by
  induction p with
  | joined op u a b iha _ =>
    obtain ⟨ha, hb⟩ := hp
    rw [absorb, leadsWithSign]
    split
    · rename_i h
      obtain ⟨text, htext, hadds⟩ := iha ha
      obtain ⟨rest, hrest⟩ := exists_ascii_sum h hb.isHole_expr
      refine ⟨text ++ rest, ?_, ?_⟩
      · rw [expr, hrest, htext, String.append_assoc]
      · rw [expr, hrest]
        exact hadds.append_right rest
    · exact ⟨_, rfl, .of_bracketed _ _⟩
  | _ => exact ⟨_, rfl, .of_bracketed _ _⟩

/-- Behind a `+`, only sums are absorbed, and they have no brackets there. -/
theorem absorb_add_cases (hp : p.Full) :
    absorb .add t l p = joined .add t l p ∧ p.leadsWithSign = p.expr.needsBrackets .add false ∨
      p.expr.needsBrackets .add false = false := by
  cases p with
  | joined op u a b =>
    by_cases h : Operator.add.absorbs op = true
    · obtain ⟨hlevel, hright, hright'⟩ := Operator.level_of_absorbs h
      exact .inr (needsBrackets_operation_congr (l := a.expr) (r := integer 0) rfl
        hp.2.isHole_expr hlevel (hright.trans hright'.symm) _ _)
    · exact .inl ⟨if_neg h, if_neg h⟩
  | _ => exact .inl ⟨rfl, rfl⟩

/-- An operand has brackets behind a `*` if it has them in front of what regroups. -/
theorem bracketsRight_mul {op : Operator} (h : Operator.mul.absorbs op = true) (e : Expr) :
    bracketsRight .mul e = bracketsLeft op e := by
  cases e <;> cases op <;> first | rfl | cases h

/-- A product with two operands has no brackets in front of what regroups with one. -/
theorem bracketsLeft_product {op op' : Operator} (h : Operator.mul.absorbs op = true)
    (hlevel : op'.level = Operator.mul.level) (hright : op'.rightLevel = Operator.mul.rightLevel)
    {l r : Expr} (hr : r.isHole = false) : bracketsLeft op (operation op' l r) = false := by
  rw [← bracketsRight_mul h]
  exact needsBrackets_operation_congr (l := l) (r := integer 0) rfl hr hlevel hright _ _

/-- **Absorbing a product changes no text.** -/
theorem ascii_absorb_mul (hl : l.Full) (hp : p.Full) :
    (absorb .mul t l p).expr.ascii = (operation .mul l.expr p.expr).ascii := by
  induction p with
  | joined op u a b iha _ =>
    obtain ⟨ha, hb⟩ := hp
    rw [absorb]
    split
    · rename_i h
      obtain ⟨hlevel, hright, hright'⟩ := Operator.level_of_absorbs h
      -- the absorbing part is a product with two operands
      obtain ⟨op', v, x, y, heq, hlevel', hright''⟩ := absorb_eq_joined .mul t l a
      have hfull : (joined op' v x y).Full := heq ▸ Full.absorb hl ha
      have hleft : bracketsLeft op (absorb .mul t l a).expr = false := by
        rw [heq]
        exact bracketsLeft_product h hlevel' hright'' hfull.2.isHole_expr
      have hinner : bracketsRight .mul (operation op a.expr b.expr) = false := by
        rw [bracketsRight_mul h]
        exact bracketsLeft_product h hlevel (hright.trans hright'.symm) hb.isHole_expr
      have hproduct := fun x => ascii_operation (ne_not_of_absorbs h) (l := x) hb.isHole_expr
      show (operation op (absorb .mul t l a).expr b.expr).ascii
        = (operation .mul l.expr (operation op a.expr b.expr)).ascii
      rw [hproduct, hleft, iha ha, ascii_operation (by decide) ha.isHole_expr,
        ascii_operation (by decide) rfl, hinner, hproduct, bracketsRight_mul h]
      simp only [Expr.bracketed, Bool.false_eq_true, if_false, String.append_assoc]
    · rfl
  | _ => rfl

/-- **What absorbing adds to a text**: brackets around a bare sign behind a `+`, and nothing
else. -/
theorem addsBrackets_absorb (op : Operator) (t : Token) (hl : l.Full) (hp : p.Full) :
    AddsBrackets (op == .add && p.leadsWithSign && !p.expr.needsBrackets .add false).toNat
      (operation op l.expr p.expr).ascii (absorb op t l p).expr.ascii := by
  cases op with
  | add =>
    rcases absorb_add_cases (t := t) (l := l) hp with ⟨habsorb, hleads⟩ | hbare
    · rw [habsorb, hleads]
      cases p.expr.needsBrackets .add false <;> exact .refl _
    · obtain ⟨text, htext, hadds⟩ := exists_ascii_absorb_add (t := t) (l := l) hp
      have hsum : (operation .add l.expr p.expr).ascii = l.expr.ascii ++ "+" ++ p.expr.ascii := by
        show l.expr.ascii ++ "+" ++ Expr.bracketed (p.expr.needsBrackets .add false) _ = _
        rw [hbare]
        rfl
      rw [htext, hsum, hbare]
      simpa using hadds.append_left _
  | mul =>
    rw [ascii_absorb_mul hl hp]
    exact .refl _
  | _ => cases p <;> exact .refl _

/-- A sum that is absorbed starts with the layout in front of it. -/
theorem leadsWithSign_absorb_add : (absorb .add t l p).leadsWithSign = l.leadsWithSign := by
  induction p with
  | joined op u a b iha _ =>
    rw [absorb]
    split
    · rename_i h
      rw [leadsWithSign, if_pos h, iha]
    · rfl
  | _ => rfl

/-- An operation that binds more tightly than a sum does not start with a sign behind a `+`. -/
theorem leadsWithSign_absorb_of_lt (hop : Operator.add.level < op.level) {e : Bool}
    (h : (absorb op t l p).expr.needsBrackets .add false = e) :
    (absorb op t l p).leadsWithSign = e := by
  obtain ⟨op', u, a, b, heq, hlevel, -⟩ := absorb_eq_joined op t l p
  rw [heq] at h ⊢
  refine (if_neg fun habsorbs => ?_).trans h
  have hsame := (Operator.level_of_absorbs habsorbs).1
  omega

end Grammar.Layout

/-! ## Printing what is read -/

namespace Expr

variable {e l r : Expr} {p q : Layout}

/-- **Whether a layout is printed as an expression**, but for brackets around the bare signs of the
expression. -/
structure Reprints (e : Expr) (p : Layout) : Prop where
  text : AddsBrackets e.bareSigns e.ascii p.expr.ascii
  brackets : ∀ op strict, p.expr.needsBrackets op strict = e.needsBrackets op strict
  mark : p.expr.needsFactorialBrackets = e.needsFactorialBrackets
  starts : p.leadsWithSign = e.leadsWithSign

namespace Reprints

/-- A single operand is printed as an expression that stands in brackets where it does. -/
theorem of_unit {ws : List Token} {a : Expr} (htext : AddsBrackets e.bareSigns e.ascii a.ascii)
    (hb : ∀ op strict, a.needsBrackets op strict = e.needsBrackets op strict)
    (hm : a.needsFactorialBrackets = e.needsFactorialBrackets)
    (hl : e.needsBrackets .add false = e.leadsWithSign) : Reprints e (.unit ws a) :=
  ⟨htext, hb, hm, (hb .add false).trans hl⟩

/-- An operand stands in brackets in front of an operator if the expression does. -/
theorem bracketsLeft (h : Reprints e p) (op : Operator) :
    Expr.bracketsLeft op p.expr = Expr.bracketsLeft op e := by
  cases op <;> first | rfl | exact h.brackets _ _

/-- An operand stands in brackets behind an operator if the expression does. -/
theorem bracketsRight (h : Reprints e p) (op : Operator) :
    Expr.bracketsRight op p.expr = Expr.bracketsRight op e := by
  cases op <;> exact h.brackets _ _

/-- A minus sign is printed as before. -/
theorem negated (hp : Placed e p) (h : Reprints e p) :
    Reprints (negated e) (minusIf true (p.bracketed (e.needsBrackets .sub false))) where
  text := by
    show AddsBrackets e.bareSigns ("-" ++ Expr.bracketed (e.needsBrackets .sub false) e.ascii)
      ("-" ++ Expr.bracketed ((p.bracketed _).expr.needsBrackets .sub false)
        (p.bracketed _).expr.ascii)
    rw [hp.fits.expr_bracketed, h.brackets]
    exact (h.text.bracketed _).append_left _
  brackets := fun op strict => rfl
  mark := rfl
  starts := rfl

/-- An operation starts with a sign as before. -/
theorem leadsWithSign_operation {op : Operator} {t : Token} {q : Layout}
    (hop : op ∈ arithmeticOperators) (hr : r.isHole = false) (hl : Reprints l p)
    (hb : (Layout.absorb op t (p.bracketed (Expr.bracketsLeft op l)) q).expr.needsBrackets .add
      false = (Expr.operation op l r).needsBrackets .add false) :
    (Layout.absorb op t (p.bracketed (Expr.bracketsLeft op l)) q).leadsWithSign
      = (Expr.operation op l r).leadsWithSign := by
  by_cases hlt : Operator.add.level < op.level
  · obtain ⟨hbare, hstarts⟩ := bare_of_lt hlt hr (l := l)
    rw [hstarts]
    exact Layout.leadsWithSign_absorb_of_lt hlt (hb.trans hbare)
  · -- what is left are sums and differences
    simp only [arithmeticOperators, List.mem_cons, List.not_mem_nil, or_false] at hop
    rcases hop with rfl | rfl | rfl | rfl | rfl
    · exact Layout.leadsWithSign_absorb_add.trans hl.starts
    · have hjoined : Layout.absorb .sub t p q = .joined .sub t p q := by
        cases q <;> rfl
      show (Layout.absorb .sub t p q).leadsWithSign = (r.isHole || l.leadsWithSign)
      rw [hjoined, hr, Bool.false_or, ← hl.starts]
      rfl
    all_goals exact absurd (by decide) hlt

/-- The operands of an operation are printed as before. -/
theorem operands {op : Operator} (hn : op ≠ .not) (hr : r.isHole = false)
    (hr' : q.expr.isHole = false) (hl : Reprints l p) (h : Reprints r q) :
    AddsBrackets (l.bareSigns + r.bareSigns) (Expr.operation op l r).ascii
      (Expr.operation op p.expr q.expr).ascii := by
  rw [ascii_operation hn hr, ascii_operation hn hr', hl.bracketsLeft, h.bracketsRight]
  exact ((hl.text.bracketed _).append_right _).append (h.text.bracketed _)

/-- A sign behind a `+` is bare as before. -/
theorem bare_bracketed {op : Operator} (hq : Placed r q) (h : Reprints r q) :
    (op == .add && (q.bracketed (Expr.bracketsRight op r)).leadsWithSign
        && !(q.bracketed (Expr.bracketsRight op r)).expr.needsBrackets .add false)
      = (op == .add && r.leadsWithSign && !r.needsBrackets .add false) := by
  rw [hq.fits.expr_bracketed, h.brackets]
  by_cases hop : op = .add
  · subst hop
    show (true && (q.bracketed (r.needsBrackets .add false)).leadsWithSign && _) = _
    cases r.needsBrackets .add false with
    | true => simp
    | false =>
      rw [← h.starts]
      rfl
  · rw [beq_eq_false_iff_ne.2 hop]
    rfl

/-- **An operation is printed as before**, but for brackets around a bare sign. -/
theorem operation {op : Operator} (hop : op ∈ arithmeticOperators) (hr : r.isHole = false)
    (hp : Placed l p) (hq : Placed r q) (hl : Reprints l p) (hr' : Reprints r q) :
    Reprints (operation op l r) (.absorb op (operatorWord op)
      (p.bracketed (Expr.bracketsLeft op l)) (q.bracketed (Expr.bracketsRight op r))) := by
  have hn := ne_not_of_arithmetic hop
  have hfl := hp.full_bracketed (Expr.bracketsLeft op l)
  have hfr := hq.full_bracketed (Expr.bracketsRight op r)
  have hfull : (Layout.absorb op (operatorWord op) (p.bracketed (Expr.bracketsLeft op l))
      (q.bracketed (Expr.bracketsRight op r))).Full := .absorb hfl hfr
  obtain ⟨op', u, a, b, heq, hlevel, hright⟩ := Layout.absorb_eq_joined op (operatorWord op)
    (p.bracketed (Expr.bracketsLeft op l)) (q.bracketed (Expr.bracketsRight op r))
  have hbrackets : ∀ outer strict, (Layout.absorb op (operatorWord op)
      (p.bracketed (Expr.bracketsLeft op l))
        (q.bracketed (Expr.bracketsRight op r))).expr.needsBrackets outer strict
          = (Expr.operation op l r).needsBrackets outer strict := by
    intro outer strict
    rw [heq] at hfull ⊢
    exact needsBrackets_operation_congr hr hfull.2.isHole_expr hlevel hright outer strict
  refine ⟨?_, hbrackets, by rw [heq]; rfl, hl.leadsWithSign_operation hop hr (hbrackets _ _)⟩
  have habsorb := Layout.addsBrackets_absorb op (operatorWord op) hfl hfr
  rw [hr'.bare_bracketed hq, hp.fits.expr_bracketed, hq.fits.expr_bracketed] at habsorb
  exact (hl.operands hn hr hq.full.isHole_expr hr').trans habsorb

end Reprints

end Expr

end Formula
