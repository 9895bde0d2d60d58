/-
# Well-formed trees

In a well-formed tree every operation has its left operand, only a one-sided minus and a denial lack
the right one, every function has as many arguments as it takes, rationals are reduced and no
structural piece is left. These are the complete expressions (`wellFormed_iff`). **Whatever is
parsed is well-formed, and so are derivatives of well-formed trees**; no evaluation and no
differentiation of them meets a gap (`wellFormed_and_meetsNoGap`).
-/
import Formula.Evaluation.Complex
import Formula.Evaluation.Exact
import Formula.Evaluation.Real
import Formula.Proofs.Differentiation
import Formula.Proofs.Printing

namespace Formula

namespace Expr

variable {e p : Expr}

/-! ## Well-formed trees -/

/-- All parts of a tree, itself and its missing operands among them. -/
def parts : Expr → List Expr
  | operation op l r => operation op l r :: (l.parts ++ r.parts)
  | conditional c t f => conditional c t f :: (c.parts ++ t.parts ++ f.parts)
  | call name a => call name a :: a.parts
  | ending price tail => ending price tail :: (price.parts ++ tail.parts)
  | mark symbol a => mark symbol a :: a.parts
  | e => [e]

/-- Whether a part of a tree has what it needs directly below it: **a left operand, a right one
unless it is a one-sided minus or a denial**, branches, and as many arguments as the function
takes; a rational is reduced, and a structural piece is no such part. -/
def IsBuilt : Expr → Prop
  | operation op l r => l ≠ hole ∧ (r = hole → op = .sub ∨ op = .not) ∧ (op = .not → r = hole)
  | conditional c t f => c ≠ hole ∧ t ≠ hole ∧ f ≠ hole
  | call name a => arity name = [a].length ∧ a ≠ hole
  | ending price tail => arity endingName = [price, tail].length ∧ price ≠ hole ∧ tail ≠ hole
  | number (.rational q) => 0 < q.den ∧ q.num.natAbs.Coprime q.den
  | mark _ _ | closer _ => False
  | _ => True

/-- **Whether a tree is well-formed**: it is there, and each of its parts has what it needs. -/
structure WellFormed (e : Expr) : Prop where
  present : e ≠ hole
  built : ∀ p ∈ e.parts, p.IsBuilt

/-- A tree is a part of itself. -/
theorem mem_parts_self (e : Expr) : e ∈ e.parts := by
  cases e <;> exact List.mem_cons_self

/-- A complete expression is no missing operand. -/
theorem Complete.ne_hole (h : e.Complete) : e ≠ hole := by
  rintro rfl
  cases h

/-- **Complete expressions are well-formed.** -/
theorem Complete.wellFormed (h : e.Complete) : e.WellFormed := by
  refine ⟨h.ne_hole, ?_⟩
  -- induction on the expression: its own operands first, then the parts of each
  induction h with
  | number n =>
    refine List.forall_mem_singleton.2 ?_
    cases n with
    | rational q => exact ⟨q.den_pos, q.reduced⟩
    | _ => trivial
  | boolean | constant | identifier | literal => exact List.forall_mem_singleton.2 trivial
  | operation hop hl hr ihl ihr =>
    have hbuilt : (Expr.operation _ _ _).IsBuilt :=
      ⟨hl.ne_hole, fun hhole => absurd hhole hr.ne_hole, fun hnot => absurd hnot hop⟩
    exact List.forall_mem_cons.2 ⟨hbuilt, List.forall_mem_append.2 ⟨ihl, ihr⟩⟩
  | negated he ih =>
    have hbuilt : (Expr.negated _).IsBuilt := ⟨he.ne_hole, fun _ => Or.inl rfl, nofun⟩
    exact List.forall_mem_cons.2 ⟨hbuilt,
      List.forall_mem_append.2 ⟨ih, List.forall_mem_singleton.2 trivial⟩⟩
  | denied he ih =>
    have hbuilt : (Expr.denied _).IsBuilt := ⟨he.ne_hole, fun _ => Or.inr rfl, fun _ => rfl⟩
    exact List.forall_mem_cons.2 ⟨hbuilt,
      List.forall_mem_append.2 ⟨ih, List.forall_mem_singleton.2 trivial⟩⟩
  | conditional hc ht he ihc iht ihe =>
    have hbuilt : (Expr.conditional _ _ _).IsBuilt := ⟨hc.ne_hole, ht.ne_hole, he.ne_hole⟩
    exact List.forall_mem_cons.2 ⟨hbuilt,
      List.forall_mem_append.2 ⟨List.forall_mem_append.2 ⟨ihc, iht⟩, ihe⟩⟩
  | call hname ha ih => exact List.forall_mem_cons.2 ⟨⟨if_neg hname, ha.ne_hole⟩, ih⟩
  | ending hp ht ihp iht =>
    have hbuilt : (Expr.ending _ _).IsBuilt := ⟨rfl, hp.ne_hole, ht.ne_hole⟩
    exact List.forall_mem_cons.2 ⟨hbuilt, List.forall_mem_append.2 ⟨ihp, iht⟩⟩

/-- **Well-formed trees are complete.** -/
theorem WellFormed.complete (h : e.WellFormed) : e.Complete := by
  obtain ⟨hpresent, hbuilt⟩ := h
  have hself := hbuilt e e.mem_parts_self
  -- induction on the tree: what stands below a part is there, and has what it needs itself
  induction e with
  | hole => exact absurd rfl hpresent
  | number n => exact .number n
  | boolean b => exact .boolean b
  | constant name => exact .constant name
  | identifier name => exact .identifier name
  | literal text => exact .literal text
  | operation op l r ihl ihr =>
    obtain ⟨hl, hright, hnot⟩ := hself
    have hparts := List.forall_mem_append.1 (List.forall_mem_cons.1 hbuilt).2
    have hleft : l.Complete := ihl hl hparts.1 (hparts.1 l l.mem_parts_self)
    by_cases hr : r = hole
    · subst hr
      rcases hright rfl with rfl | rfl
      · exact .negated hleft
      · exact .denied hleft
    · have hop : op ≠ .not := fun hop => hr (hnot hop)
      exact .operation hop hleft (ihr hr hparts.2 (hparts.2 r r.mem_parts_self))
  | conditional c t f ihc iht ihf =>
    obtain ⟨hc, ht, hf⟩ := hself
    obtain ⟨hyes, hno⟩ := List.forall_mem_append.1 (List.forall_mem_cons.1 hbuilt).2
    have hparts := List.forall_mem_append.1 hyes
    exact .conditional (ihc hc hparts.1 (hparts.1 c c.mem_parts_self))
      (iht ht hparts.2 (hparts.2 t t.mem_parts_self)) (ihf hf hno (hno f f.mem_parts_self))
  | call name a ih =>
    obtain ⟨harity, ha⟩ := hself
    have hparts := (List.forall_mem_cons.1 hbuilt).2
    have hname : name ≠ endingName := by
      rintro rfl
      cases harity
    exact .call hname (ih ha hparts (hparts a a.mem_parts_self))
  | ending price tail ihp iht =>
    obtain ⟨-, hprice, htail⟩ := hself
    have hparts := List.forall_mem_append.1 (List.forall_mem_cons.1 hbuilt).2
    exact .ending (ihp hprice hparts.1 (hparts.1 price price.mem_parts_self))
      (iht htail hparts.2 (hparts.2 tail tail.mem_parts_self))
  | mark symbol a ih => exact absurd hself id
  | closer b => exact absurd hself id

/-- The well-formed trees are the complete expressions. -/
theorem wellFormed_iff : e.WellFormed ↔ e.Complete := ⟨WellFormed.complete, Complete.wellFormed⟩

end Expr

open Formula.Expr Grammar

/-! ## Evaluation -/

namespace Scope

variable {α : Type} {s : Scope} {name : String} {g : FunctionEntry → Except Error α}

/-- Looking up a variable meets no gap. -/
@[simp]
theorem meetsNoGap_lookup : MeetsNoGap (s.lookup name) := by
  simp [lookup]

/-- A function of a sound registry is used without meeting a gap. -/
theorem meetsNoGap_resolve {domain : Domain} (hs : s.functions.IsSound)
    (hg : ∀ f, (∀ vs, MeetsNoGap (f.apply vs)) → MeetsNoGap (g f)) :
    MeetsNoGap (s.resolve domain name >>= g) := by
  refine meetsNoGap_bind.2 ⟨by simp [resolve], fun f hf => hg f (hs f ?_)⟩
  cases hfind : s.functions.find? domain name with
  | none =>
    rw [resolve, hfind] at hf
    cases hf
  | some f' =>
    rw [resolve, hfind] at hf
    cases hf
    exact List.mem_of_find?_eq_some hfind

/-- The same for an exact function. -/
theorem meetsNoGap_exactFunction (hs : s.functions.IsSound)
    (hg : ∀ f, (∀ vs, MeetsNoGap (f.apply vs)) → MeetsNoGap (g f)) :
    MeetsNoGap (exactFunction s name >>= g) := by
  unfold exactFunction
  split
  · rename_i f hfind
    exact hg f (hs f (List.mem_of_find?_eq_some hfind))
  · split <;> simp

end Scope

namespace Expr

variable {s : Scope} {l r e : Expr}

/-- The value of a constant meets no gap. -/
theorem meetsNoGap_constantValue {name : String} : MeetsNoGap (constantValue name) := by
  unfold constantValue
  split <;> simp

/-- The complex value of a constant meets no gap. -/
theorem meetsNoGap_complexConstant {name : String} : MeetsNoGap (complexConstant name) := by
  unfold complexConstant
  split <;> simp

/-- The value of a variable meets no gap. -/
theorem meetsNoGap_variableValue {d : Dialect} {name : String} :
    MeetsNoGap (variableValue d s name) := by
  refine meetsNoGap_bind.2 ⟨Scope.meetsNoGap_lookup, fun v _ => ?_⟩
  split <;> simp

/-- Arithmetic on values meets no gap. -/
theorem meetsNoGap_arithmeticValue {op : Operator} {a b : Value} :
    MeetsNoGap (arithmeticValue op a b) := by
  unfold arithmeticValue
  split <;> simp

/-- The value of an operation meets no gap where those of its operands do not. -/
theorem meetsNoGap_value_operation {d : Dialect} {op : Operator} (hl : l.Complete)
    (hr : r.Complete) (ihl : MeetsNoGap (l.value d s)) (ihr : MeetsNoGap (r.value d s)) :
    MeetsNoGap ((operation op l r).value d s) := by
  unfold Expr.value
  rw [lacksOperand_eq_false hl hr, if_neg Bool.false_ne_true, hr.isHole_eq_false,
    if_neg Bool.false_ne_true]
  split
  · -- truth values: what is not evaluated meets no gap either
    split
    · split <;> simp [ihl, ihr]
    · simp
  · split
    · exact meetsNoGap_bind.2 ⟨ihr, fun _ _ => by simp [exponentialValue]⟩
    · exact meetsNoGap_bind.2 ⟨ihl, fun _ _ =>
        meetsNoGap_bind.2 ⟨ihr, fun _ _ => meetsNoGap_arithmeticValue⟩⟩

/-- **The value of a complete expression** is found, or refused, without meeting a gap. -/
theorem Complete.meetsNoGap_value (d : Dialect) (hs : s.functions.IsSound) (h : e.Complete) :
    MeetsNoGap (e.value d s) := by
  induction h with
  | number n => exact meetsNoGap_ok _
  | boolean b => simp [Expr.value, booleanRefused]
  | constant name => exact meetsNoGap_constantValue
  | identifier name => exact meetsNoGap_variableValue
  | literal text => simp [Expr.value, literalRefused]
  | operation _ hl hr ihl ihr => exact meetsNoGap_value_operation hl hr ihl ihr
  | negated he ih =>
    have hno : lacksOperand .sub _ hole = false := lacksOperand_hole he rfl
    unfold Expr.value
    rw [hno, if_neg Bool.false_ne_true]
    exact meetsNoGap_bind.2 ⟨ih, fun _ _ => Value.meetsNoGap_neg⟩
  | denied he ih =>
    have hno : lacksOperand .not _ hole = false := lacksOperand_hole he rfl
    have hlogical : Operator.isLogical .not = true := rfl
    unfold Expr.value
    rw [hno, if_neg Bool.false_ne_true, if_pos hlogical]
    simp [ih]
  | conditional _ _ _ ihc iht ihe => simp [Expr.value, ihc, iht, ihe, conditionalRefused]
  | call _ _ ih =>
    exact Scope.meetsNoGap_resolve hs fun f hf => meetsNoGap_bind.2 ⟨ih, fun _ _ => hf _⟩
  | ending _ _ ihp iht =>
    exact Scope.meetsNoGap_resolve hs fun f hf =>
      meetsNoGap_bind.2 ⟨ihp, fun _ _ => meetsNoGap_bind.2 ⟨iht, fun _ _ => hf _⟩⟩

/-- **The exact value of a complete expression** is found, or refused, without meeting a gap. -/
theorem Complete.meetsNoGap_exactValue (hs : s.functions.IsSound) (h : e.Complete) :
    MeetsNoGap (e.exactValue s) := by
  have happly : ∀ f : FunctionEntry, (∀ vs, MeetsNoGap (f.apply vs)) →
      ∀ qs, MeetsNoGap (exactApply f qs) :=
    fun f hf qs => meetsNoGap_bind.2 ⟨hf _, fun _ _ => Value.meetsNoGap_asRational⟩
  induction h with
  | number n => cases n <;> simp [Expr.exactValue, exactNumber]
  | boolean b => simp [Expr.exactValue]
  | constant name =>
    refine meetsNoGap_error.2 ?_
    rw [exactConstant]
    split <;> rfl
  | identifier name => simp [Expr.exactValue]
  | literal text => simp [Expr.exactValue, literalRefused]
  | @operation op l r _ hl hr ihl ihr => 
    rw [Expr.exactValue, lacksOperand_eq_false hl hr, if_neg Bool.false_ne_true, hr.isHole_eq_false,
      if_neg Bool.false_ne_true]
    split
    · simp
    · refine meetsNoGap_bind.2 ⟨ihl, fun _ _ => meetsNoGap_bind.2 ⟨ihr, fun _ _ => ?_⟩⟩
      cases op <;> simp [exactArithmetic]
  | negated he ih =>
    have hno : lacksOperand .sub _ hole = false := lacksOperand_hole he rfl
    unfold Expr.exactValue
    rw [hno, if_neg Bool.false_ne_true]
    exact meetsNoGap_except_map.2 ih
  | denied he =>
    have hno : lacksOperand .not _ hole = false := lacksOperand_hole he rfl
    have hlogical : Operator.isLogical .not = true := rfl
    unfold Expr.exactValue
    rw [hno, if_neg Bool.false_ne_true, if_pos hlogical]
    simp
  | conditional => simp [Expr.exactValue, conditionalRefused]
  | call _ _ ih =>
    exact Scope.meetsNoGap_exactFunction hs fun f hf =>
      meetsNoGap_bind.2 ⟨ih, fun _ _ => happly f hf _⟩
  | ending _ _ ihp iht =>
    exact Scope.meetsNoGap_exactFunction hs fun f hf =>
      meetsNoGap_bind.2 ⟨ihp, fun _ _ => meetsNoGap_bind.2 ⟨iht, fun _ _ => happly f hf _⟩⟩

/-- **The complex value of a complete expression** is found, or refused, without meeting a gap. -/
theorem Complete.meetsNoGap_complexValue (hs : s.functions.IsSound) (h : e.Complete) :
    MeetsNoGap (e.complexValue s) := by
  have happly : ∀ f : FunctionEntry, (∀ vs, MeetsNoGap (f.apply vs)) →
      ∀ zs, MeetsNoGap (complexApply f zs) :=
    fun f hf qs => meetsNoGap_bind.2 ⟨hf _, fun _ _ => Value.meetsNoGap_toComplex⟩
  induction h with
  | number n => cases n <;> simp [Expr.complexValue]
  | boolean b => simp [Expr.complexValue, booleanRefused]
  | constant name => exact meetsNoGap_complexConstant
  | identifier name => simp [Expr.complexValue]
  | literal text => simp [Expr.complexValue, literalRefused]
  | @operation op l r _ hl hr ihl ihr => 
    rw [Expr.complexValue, lacksOperand_eq_false hl hr, if_neg Bool.false_ne_true, hr.isHole_eq_false,
      if_neg Bool.false_ne_true]
    split
    · simp
    · split
      · exact meetsNoGap_bind.2 ⟨ihr, fun _ _ => Complex.meetsNoGap_exp⟩
      · refine meetsNoGap_bind.2 ⟨ihl, fun _ _ => meetsNoGap_bind.2 ⟨ihr, fun _ _ => ?_⟩⟩
        cases op <;> simp [complexArithmetic]
  | negated he ih =>
    have hno : lacksOperand .sub _ hole = false := lacksOperand_hole he rfl
    unfold Expr.complexValue
    rw [hno, if_neg Bool.false_ne_true]
    exact meetsNoGap_except_map.2 ih
  | denied he =>
    have hno : lacksOperand .not _ hole = false := lacksOperand_hole he rfl
    have hlogical : Operator.isLogical .not = true := rfl
    unfold Expr.complexValue
    rw [hno, if_neg Bool.false_ne_true, if_pos hlogical]
    simp
  | conditional => simp [Expr.complexValue, conditionalRefused]
  | call _ _ ih =>
    exact Scope.meetsNoGap_resolve hs fun f hf =>
      meetsNoGap_bind.2 ⟨ih, fun _ _ => happly f hf _⟩
  | ending _ _ ihp iht =>
    exact Scope.meetsNoGap_resolve hs fun f hf =>
      meetsNoGap_bind.2 ⟨ihp, fun _ _ => meetsNoGap_bind.2 ⟨iht, fun _ _ => happly f hf _⟩⟩

end Expr

/-! ## The main result -/

/-- **Whatever is parsed is well-formed, and so is every derivative of a well-formed tree.** No
differentiation and no evaluation of a well-formed tree reports a missing operand or a structural
piece, unless a function does that is applied in it, and no built-in one does. -/
theorem wellFormed_and_meetsNoGap :
    (∀ (o : Options) (ts : List Token) (e : Expr), parse o ts = .ok e → e.WellFormed) ∧
    (∀ (x : String) (e d : Expr), e.WellFormed → e.derivative x = .ok d → d.WellFormed) ∧
    (∀ e : Expr, e.WellFormed → (∀ x, MeetsNoGap (e.derivative x)) ∧
      ∀ s : Scope, s.functions.IsSound → (∀ d : Dialect, MeetsNoGap (e.value d s)) ∧
        MeetsNoGap (e.exactValue s) ∧ MeetsNoGap (e.complexValue s)) ∧
    Registry.builtin.IsSound := by
  refine ⟨?_, ?_, ?_, Registry.isSound_builtin⟩
  · intro o ts e h
    exact (complete_of_parse h).wellFormed
  · intro x e d he h
    exact ((he.complete.derivative x).holds d h).wellFormed
  · intro e h
    have he := h.complete
    refine ⟨fun x => (he.derivative x).meetsNoGap, fun s hs => ⟨fun d => ?_, ?_, ?_⟩⟩
    · exact he.meetsNoGap_value d hs
    · exact he.meetsNoGap_exactValue hs
    · exact he.meetsNoGap_complexValue hs

/-- The sine of a one-sided minus, with its derivative. -/
theorem wellFormed_and_meetsNoGap_sine :
    let ts := [plainWord .function "sin", openWord .paren, operatorWord .sub,
      plainWord .identifier "x", closeWord .paren]
    let e : Expr := call "sin" (negated (identifier "x"))
    let d : Expr := operation .mul (integer (-1)) (call "cos" (negated (identifier "x")))
    parse {} ts = .ok e ∧ e.WellFormed ∧ e.derivative "x" = .ok d ∧ d.WellFormed ∧
      ∀ bindings, MeetsNoGap (d.value .arithmetic (.standard bindings)) := by
  intro ts e d
  have hparse : parse {} ts = .ok e := by cbv
  have hd : e.derivative "x" = .ok d := rfl
  have he : e.WellFormed := wellFormed_and_meetsNoGap.1 {} ts e hparse
  have hd' : d.WellFormed := wellFormed_and_meetsNoGap.2.1 "x" e d he hd
  refine ⟨hparse, he, hd, hd', fun bindings => ?_⟩
  exact ((wellFormed_and_meetsNoGap.2.2.1 d hd').2 (.standard bindings)
    wellFormed_and_meetsNoGap.2.2.2).1 .arithmetic

end Formula
