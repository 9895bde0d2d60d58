/-
# Canonical arithmetic expressions

The expressions of the standard lexicon are built from numerals without sign, constants, single
letters, the five operations, one-sided minus signs and functions. Where no chain of sums or of
products groups to the right, **the plain text of such an expression reads back as the expression
itself** (`reread_of_canonical`).
-/
import Formula.Proofs.Grouping
import Formula.Proofs.StandardLexicon

namespace Formula

open Grammar Lexicon

namespace Expr

/-- Whether a chain that groups to the right stands behind an operator, although the printer sets no
brackets around it. -/
def groupsRight : Operator → Expr → Bool
  | .add, operation .add _ _ => true
  | .add, operation .sub _ r => !r.isHole
  | .mul, operation .mul _ _ => true
  | .mul, operation .div _ _ => true
  | _, _ => false

/-- **The arithmetic expressions that the standard lexicon can spell**, without sums behind `+` and
products behind `*`. -/
inductive Canonical : Expr → Prop where
  | integer (n : Nat) : Canonical (integer n)
  | float {x : Double} (hx : x.isFinite = true) (hs : x.signBit = false) : Canonical (float x)
  | constant {name : String} (h : name ∈ Lexicon.constantNames) : Canonical (constant name)
  | letter {c : Char} (hc : isAsciiLetter c = true) (he : c ≠ 'e') :
    Canonical (identifier (String.singleton c))
  | negated {e : Expr} (h : Canonical e) : Canonical (negated e)
  | operation {op : Operator} {l r : Expr} (hop : op ∈ arithmeticOperators) (hl : Canonical l)
    (hr : Canonical r) (h : groupsRight op r = false) : Canonical (operation op l r)
  | factorial {name : String} {a : Expr} (hn : name = "!" ∨ name = "!!") (h : Canonical a) :
    Canonical (call name a)
  | call {name : String} {a : Expr} (hn : name ∈ functionNames) (he : name ≠ endingName)
    (h : Canonical a) : Canonical (call name a)
  | ending {p t : Expr} (hp : Canonical p) (ht : Canonical t) : Canonical (ending p t)

namespace Canonical

variable {e l r : Expr} {op : Operator}

/-- A canonical expression is there. -/
theorem isHole_eq_false (h : e.Canonical) : e.isHole = false := by
  cases h <;> rfl

/-- No name of a function is a mark. -/
theorem not_mark {name : String} (h : name ∈ functionNames) : ¬ (name = "!" ∨ name = "!!") := by
  have hall : ∀ name ∈ functionNames, ¬ (name = "!" ∨ name = "!!") := by decide
  exact hall name h

/-- **Canonical expressions are printable.** -/
theorem printable (h : e.Canonical) : e.Printable := by
  induction h with
  | integer n => exact ⟨operand?_natural n, opens_natural n⟩
  | float hx hs => exact operand?_real hx hs
  | constant hn => exact opens_constant hn
  | letter hc _ => exact opens_letter hc
  | negated _ ih =>
    rw [Printable, if_pos (Or.inr ⟨rfl, rfl⟩)]
    exact ⟨rfl, ih⟩
  | @operation op l r hop _ hr _ ihl ihr =>
    have hn := ne_not_of_arithmetic hop
    rw [Printable, if_neg (by simp [hn, hr.isHole_eq_false])]
    exact ⟨ihl, ihr⟩
  | factorial hn _ ih =>
    refine ⟨?_, ?_, ih⟩
    · rcases hn with rfl | rfl <;> decide
    · exact hn.imp_right Or.inl
  | call hn he _ ih => exact ⟨he, Or.inr (Or.inr (opens_function hn)), ih⟩
  | ending _ _ ihp iht => exact ⟨ihp, iht⟩

/-- **The standard lexicon knows canonical expressions.** -/
theorem knownBy (h : e.Canonical) : e.KnownBy standard := by
  induction h with
  | integer n => exact knows_natural (by decide) n
  | float hx hs => exact knows_real (by decide) hx hs
  | constant hn => exact knows_constant hn
  | letter hc he => exact knows_letter hc he
  | negated _ ih => exact ⟨knows_operatorWord (by decide), ih, Or.inl rfl⟩
  | operation hop _ _ _ ihl ihr => exact ⟨knows_operatorWord hop, ihl, Or.inr ihr⟩
  | factorial hn _ ih =>
    refine ⟨?_, ih⟩
    rw [if_pos hn]
    exact knows_factorialWord hn
  | call hn _ _ ih =>
    refine ⟨?_, ih⟩
    rw [if_neg (not_mark hn)]
    exact knows_function hn
  | ending _ _ ihp iht => exact ⟨⟨knows_function (by decide), knows_comma⟩, ihp, iht⟩

/-! ## Brackets -/

/-- Before an operator, the printer sets the brackets that a canonical operand needs. -/
theorem keepsLeft (hop : op ∈ arithmeticOperators) (h : l.Canonical) :
    Expr.keepsLeft op l = true := by
  simp only [arithmeticOperators, List.mem_cons, List.not_mem_nil, or_false] at hop
  -- only operations may need brackets, and there are few pairs of operators
  cases h with
  | negated _ =>
    rcases hop with rfl | rfl | rfl | rfl | rfl <;> rfl
  | operation hop' _ hr _ =>
    simp only [arithmeticOperators, List.mem_cons, List.not_mem_nil, or_false] at hop'
    rcases hop with rfl | rfl | rfl | rfl | rfl <;>
      rcases hop' with rfl | rfl | rfl | rfl | rfl <;>
      simp [Expr.keepsLeft, bracketsLeft, needsBrackets, holdsBefore, hr.isHole_eq_false,
        Operator.level, Operator.rightLevel, Operator.isRightAssociative]
  | _ => exact Bool.or_true _

/-- Behind an operator, the printer sets the brackets that a canonical operand needs, except around
a chain. -/
theorem keepsRight (hop : op ∈ arithmeticOperators) (h : r.Canonical)
    (hg : groupsRight op r = false) : Expr.keepsRight op r = true := by
  simp only [arithmeticOperators, List.mem_cons, List.not_mem_nil, or_false] at hop
  cases h with
  | negated _ =>
    rcases hop with rfl | rfl | rfl | rfl | rfl <;> rfl
  | operation hop' _ hr _ =>
    simp only [arithmeticOperators, List.mem_cons, List.not_mem_nil, or_false] at hop'
    rcases hop with rfl | rfl | rfl | rfl | rfl <;>
      rcases hop' with rfl | rfl | rfl | rfl | rfl <;>
      simp_all [Expr.keepsRight, bracketsRight, needsBrackets, holdsBehind, groupsRight,
        hr.isHole_eq_false, Operator.level, Operator.rightLevel, Operator.isRightAssociative,
        Operator.yieldsTo]
  | _ => exact Bool.or_true _

/-- **Canonical expressions are settled.** -/
theorem settled (h : e.Canonical) : e.settled = true := by
  induction h with
  | negated _ ih => simp [ih, isHole]
  | operation hop hl hr hg ihl ihr =>
    simp [ihl, ihr, keepsLeft hop hl, keepsRight hop hr hg]
  | factorial _ _ ih => exact ih
  | call _ _ _ ih => exact ih
  | ending _ _ ihp iht => simp [ihp, iht]
  | _ => rfl

end Canonical

/-! ## The round trip -/

/-- **The plain text of a canonical expression reads back as the expression itself**, with implicit
products or without. -/
theorem reread_of_canonical {e : Expr} {o : Options} (h : e.Canonical) (ho : o.simplify = false) :
    standard.reread o e = .ok e :=
  reread_of_settled knowsPunctuation_standard ho h.printable h.knownBy h.settled

/-- Signs, powers, marks and functions are read back in their places. -/
theorem reread_of_canonical_power :
    let base : Expr := negated (identifier (String.singleton 'x'))
    let exponent : Expr := call "!" (call "sin" (float .one))
    let price : Expr := operation .mul (constant "pi") (ending (integer 30) (integer 9))
    let e : Expr := operation .sub (operation .pow base exponent) price
    e.Canonical ∧ e.ascii? = .ok "(-x)^(sin(1.0))!-pi*ending(30, 9)" ∧
      standard.reread ⟨true, false, false⟩ e = .ok e ∧
        standard.reread ⟨false, false, false⟩ e = .ok e := by
  intro base exponent price e
  have hbase : base.Canonical := .negated (.letter rfl (by decide))
  have hexponent : exponent.Canonical :=
    .factorial (Or.inl rfl) (.call (by decide) (by decide) (.float rfl rfl))
  have hprice : price.Canonical :=
    .operation (by decide) (.constant (by decide)) (.ending (.integer 30) (.integer 9)) rfl
  have h : e.Canonical :=
    .operation (by decide) (.operation (by decide) hbase hexponent rfl) hprice rfl
  exact ⟨h, by decide +kernel, reread_of_canonical h rfl, reread_of_canonical h rfl⟩

end Expr

end Formula
