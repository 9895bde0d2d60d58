/-
# Simplification from the leaves

A parse that simplifies folds each operation as soon as its operands are read. It yields exactly
what folding the plain expression from its leaves yields, or meets the same error first
(`parse_simplified`): branches of conditionals are folded too, whether they can be reached or not.
-/
import Formula.Proofs.Complete
import Formula.Proofs.Refusal

namespace Formula

open Grammar Outcome

/-! ## Folding from the leaves -/

namespace Expr

/-- **Folds an expression from its leaves.** -/
def simplified : Expr → Except Error Expr
  | operation op l r => do Simplify.build op (← l.simplified) (← r.simplified)
  | conditional c t e =>
    do return Simplify.choice (← c.simplified) (← t.simplified) (← e.simplified)
  | call name a => do return call name (← a.simplified)
  | ending p t => do return ending (← p.simplified) (← t.simplified)
  | e => .ok e

/-- Folds some expressions one after the other. -/
def simplifiedAll : List Expr → Except Error (List Expr)
  | [] => .ok []
  | e :: es => do return (← e.simplified) :: (← simplifiedAll es)

-- expressions fold from their folded parts
attribute [local simp] simplified simplifiedAll

/-- Folding one expression. -/
theorem simplifiedAll_singleton (e : Expr) :
    simplifiedAll [e] = e.simplified.map fun e' => [e'] := by
  rw [simplifiedAll]
  cases e.simplified <;> rfl

/-- A token that is an operand folds to itself. -/
theorem simplified_of_operand? {t : Token} {e : Expr} (h : operand? t = some e) :
    e.simplified = .ok e := by
  unfold operand? at h
  split at h <;> cases h <;> rfl

/-- An application folds by folding its arguments. -/
theorem simplified_of_ofCall {name : String} {es : List Expr} {e : Expr}
    (h : ofCall name es = .ok e) : e.simplified = simplifiedAll es >>= ofCall name := by
  unfold ofCall at h
  split at h
  · rename_i hname
    split at h
    · rename_i p t
      cases h
      rw [simplified, simplifiedAll, simplifiedAll_singleton]
      cases p.simplified with
      | error x => rfl
      | ok p' =>
        cases t.simplified with
        | error x => rfl
        | ok t' => simp [bind, Except.bind, Except.map, Pure.pure, Except.pure, ofCall, hname]
    · cases h
  · rename_i hname
    split at h
    · rename_i a
      cases h
      rw [simplified, simplifiedAll_singleton]
      cases a.simplified with
      | error x => rfl
      | ok a' => simp [bind, Except.bind, Except.map, Pure.pure, Except.pure, ofCall, hname]
    · cases h

/-- The parts of a folded operation. -/
theorem simplified_operation_eq_ok {op : Operator} {l r e : Expr} :
    (operation op l r).simplified = .ok e ↔ ∃ l' r', l.simplified = .ok l' ∧
      r.simplified = .ok r' ∧ Simplify.build op l' r' = .ok e := by
  cases hl : l.simplified with
  | error x => simp [hl, bind, Except.bind]
  | ok l' => cases hr : r.simplified <;> simp [hl, hr, bind, Except.bind]

/-- The operand of a folded operation of one operand. -/
theorem simplified_prefix_eq_ok {op : Operator} {l e : Expr} :
    (operation op l hole).simplified = .ok e ↔
      ∃ l', l.simplified = .ok l' ∧ Simplify.build op l' hole = .ok e := by
  refine simplified_operation_eq_ok.trans ⟨?_, ?_⟩
  · rintro ⟨l', _, hl, ⟨⟩, h⟩
    exact ⟨l', hl, h⟩
  · rintro ⟨l', hl, h⟩
    exact ⟨l', hole, hl, rfl, h⟩

/-- The parts of a folded conditional. -/
theorem simplified_conditional_eq_ok {c t n e : Expr} :
    (conditional c t n).simplified = .ok e ↔ ∃ c' t' n', c.simplified = .ok c' ∧
      t.simplified = .ok t' ∧ n.simplified = .ok n' ∧ Simplify.choice c' t' n' = e := by
  rw [simplified]
  cases c.simplified with
  | error x => simp [bind, Except.bind]
  | ok c' =>
    cases t.simplified with
    | error x => simp [bind, Except.bind]
    | ok t' => cases n.simplified <;> simp [bind, Except.bind, Pure.pure, Except.pure]

/-- The argument of a folded call. -/
theorem simplified_call_eq_ok {name : String} {a e : Expr} :
    (call name a).simplified = .ok e ↔ ∃ a', a.simplified = .ok a' ∧ call name a' = e := by
  cases ha : a.simplified <;> simp [ha, bind, Except.bind, Pure.pure, Except.pure]

/-- The parts of a folded price with an ending. -/
theorem simplified_ending_eq_ok {p t e : Expr} :
    (ending p t).simplified = .ok e ↔ ∃ p' t', p.simplified = .ok p' ∧ t.simplified = .ok t' ∧
      ending p' t' = e := by
  cases hp : p.simplified with
  | error x => simp [hp, bind, Except.bind]
  | ok p' =>
    cases ht : t.simplified <;> simp [hp, ht, bind, Except.bind, Pure.pure, Except.pure]

/-- What refuses an operation: its first operand that is refused, or the operation itself. -/
theorem simplified_operation_eq_error {op : Operator} {l r : Expr} {x : Error}
    (h : (operation op l r).simplified = .error x) :
    l.simplified = .error x ∨ ∃ l', l.simplified = .ok l' ∧ (r.simplified = .error x ∨
      ∃ r', r.simplified = .ok r' ∧ Simplify.build op l' r' = .error x) := by
  rw [simplified] at h
  cases hl : l.simplified with
  | error y =>
    rw [hl] at h
    cases h
    exact .inl rfl
  | ok l' =>
    refine .inr ⟨l', rfl, ?_⟩
    cases hr : r.simplified with
    | error y =>
      rw [hl, hr] at h
      cases h
      exact .inl rfl
    | ok r' =>
      rw [hl, hr] at h
      exact .inr ⟨r', rfl, h⟩

/-- What refuses a conditional: its first part that is refused. -/
theorem simplified_conditional_eq_error {c t e : Expr} {x : Error}
    (h : (conditional c t e).simplified = .error x) :
    c.simplified = .error x ∨ ∃ c', c.simplified = .ok c' ∧
      (t.simplified = .error x ∨ e.simplified = .error x) := by
  rw [simplified] at h
  cases hc : c.simplified with
  | error y =>
    rw [hc] at h
    cases h
    exact .inl rfl
  | ok c' =>
    refine .inr ⟨c', rfl, ?_⟩
    cases ht : t.simplified with
    | error y =>
      rw [hc, ht] at h
      cases h
      exact .inl rfl
    | ok t' =>
      cases he : e.simplified with
      | error y =>
        rw [hc, ht, he] at h
        cases h
        exact .inr rfl
      | ok e' =>
        rw [hc, ht, he] at h
        cases h

/-- What refuses a call: its argument. -/
theorem simplified_call_eq_error {name : String} {a : Expr} {x : Error}
    (h : (call name a).simplified = .error x) : a.simplified = .error x := by
  rw [simplified] at h
  cases ha : a.simplified with
  | error y =>
    rw [ha] at h
    cases h
    rfl
  | ok a' =>
    rw [ha] at h
    cases h

/-- What refuses a price with an ending: its first part that is refused. -/
theorem simplified_ending_eq_error {p t : Expr} {x : Error}
    (h : (ending p t).simplified = .error x) :
    p.simplified = .error x ∨ t.simplified = .error x := by
  rw [simplified] at h
  cases hp : p.simplified with
  | error y =>
    rw [hp] at h
    cases h
    exact .inl rfl
  | ok p' =>
    cases ht : t.simplified with
    | error y =>
      rw [hp, ht] at h
      cases h
      exact .inr rfl
    | ok t' =>
      rw [hp, ht] at h
      cases h

/-- The operations of an expression, with their operands. -/
def operations : Expr → List (Operator × Expr × Expr)
  | operation op l r => (op, l, r) :: (l.operations ++ r.operations)
  | conditional c t e => c.operations ++ (t.operations ++ e.operations)
  | call _ a => a.operations
  | ending p t => p.operations ++ t.operations
  | _ => []

/-- Whether the folded operands of an operation are refused. -/
def RefusedAt (o : Operator × Expr × Expr) (x : Error) : Prop :=
  ∃ l r, o.2.1.simplified = .ok l ∧ o.2.2.simplified = .ok r ∧ Simplify.Refused o.1 l r x

/-- What is refused in a part is refused in the whole. -/
theorem exists_refused_of_subset {d e : Expr} {x : Error} (hsub : d.operations ⊆ e.operations)
    (h : ∃ o ∈ d.operations, RefusedAt o x) : ∃ o ∈ e.operations, RefusedAt o x :=
  h.imp fun _ ho => ⟨hsub ho.1, ho.2⟩

/-- **Folding refuses an expression** only at one of its operations, whose folded operands are
refused. -/
theorem exists_refused {e : Expr} {x : Error} (h : e.simplified = .error x) :
    ∃ o ∈ e.operations, RefusedAt o x := by
  induction e with
  | operation op l r ihl ihr =>
    rcases simplified_operation_eq_error h with h | ⟨l', hl, h | ⟨r', hr, h⟩⟩
    · exact exists_refused_of_subset (by simp [operations]) (ihl h)
    · exact exists_refused_of_subset (by simp [operations]) (ihr h)
    · exact ⟨(op, l, r), by simp [operations], l', r', hl, hr, Simplify.refused_of_build h⟩
  | conditional c t e ihc iht ihe =>
    rcases simplified_conditional_eq_error h with h | ⟨c', -, h | h⟩
    · exact exists_refused_of_subset (by simp [operations]) (ihc h)
    · exact exists_refused_of_subset (by simp [operations]) (iht h)
    · exact exists_refused_of_subset (by simp [operations]) (ihe h)
  | call name a ih => exact ih (simplified_call_eq_error h)
  | ending p t ihp iht =>
    rcases simplified_ending_eq_error h with h | h
    · exact exists_refused_of_subset (by simp [operations]) (ihp h)
    · exact exists_refused_of_subset (by simp [operations]) (iht h)
  | _ => cases h

/-- **Folding keeps expressions complete.** -/
theorem Complete.simplified {e : Expr} (h : e.Complete) :
    ∀ {e'}, e.simplified = .ok e' → e'.Complete := by
  induction h with
  | number n =>
    intro e' h
    cases h
    exact .number n
  | boolean b =>
    intro e' h
    cases h
    exact .boolean b
  | constant name =>
    intro e' h
    cases h
    exact .constant name
  | identifier name =>
    intro e' h
    cases h
    exact .identifier name
  | literal text =>
    intro e' h
    cases h
    exact .literal text
  | operation hop _ _ ihl ihr =>
    intro e' h
    obtain ⟨l', r', hl, hr, h⟩ := simplified_operation_eq_ok.1 h
    exact Simplify.complete_build hop (ihl hl) (ihr hr) h
  | negated _ ih =>
    intro e' h
    obtain ⟨l', hl, h⟩ := simplified_prefix_eq_ok.1 h
    exact Simplify.complete_build_negated (ih hl) h
  | denied _ ih =>
    intro e' h
    obtain ⟨l', hl, h⟩ := simplified_prefix_eq_ok.1 h
    exact Simplify.complete_build_denied (ih hl) h
  | conditional _ _ _ ihc iht ihe =>
    intro e' h
    obtain ⟨c', t', n', hc, ht, hn, rfl⟩ := simplified_conditional_eq_ok.1 h
    exact Simplify.complete_choice (ihc hc) (iht ht) (ihe hn)
  | call hname _ ih =>
    intro e' h
    obtain ⟨a', ha, rfl⟩ := simplified_call_eq_ok.1 h
    exact .call hname (ih ha)
  | ending _ _ ihp iht =>
    intro e' h
    obtain ⟨p', t', hp, ht, rfl⟩ := simplified_ending_eq_ok.1 h
    exact .ending (ihp hp) (iht ht)

end Expr

/-! ## Derivations that are folded -/

namespace Grammar

open Formula.Expr

/-- **Whether the simplifying reader yields the folded expressions** on the tokens of a plain
derivation, or their first error. -/
structure Folds (k : Nonterminal) (ts : List Token) (es : List Expr) (rest : List Token) :
    Prop where
  /-- Behind a folded operand, the reader yields the folded expressions. -/
  reads : ∀ left', (∀ left, k.operand? = some left → left.simplified = .ok left') →
    ∀ p, yield true p (k.withOperand left') ts = (simplifiedAll es).map fun es' => (es', rest)
  /-- The error of the operand comes first. -/
  fails : ∀ left x, k.operand? = some left → left.simplified = .error x →
    simplifiedAll es = .error x

/-- A reader of one expression yields the folded expression. -/
theorem single_eq_simplified {r : Except Error (Expr × List Token)} {e : Expr}
    {rest : List Token} :
    single r = (simplifiedAll [e]).map (fun es' => (es', rest)) ↔
      r = e.simplified.map fun e' => (e', rest) := by
  rw [simplifiedAll_singleton]
  cases r with
  | error x => cases e.simplified <;> simp [single, Except.map]
  | ok y =>
    obtain ⟨e', rest'⟩ := y
    cases e.simplified <;> simp [single, Except.map]

namespace Folds

variable {k : Nonterminal} {ts rest : List Token} {left left' e : Expr} {es : List Expr}

/-- A derivation that depends on no operand folds when its reader yields the folded expressions. -/
theorem of_none (hk : k.operand? = none)
    (h : ∀ p, yield true p k ts = (simplifiedAll es).map fun es' => (es', rest)) :
    Folds k ts es rest where
  reads := by
    intro left' _ p
    rw [Nonterminal.withOperand_of_operand? hk]
    exact h p
  fails := by
    intro left x hl
    rw [hk] at hl
    cases hl

/-- A derivation of one expression that depends on no operand folds when its reader yields the
folded expression. -/
theorem of_one (hk : k.operand? = none) {r : Pending → Except Error (Expr × List Token)}
    (hy : ∀ p, yield true p k ts = single (r p))
    (h : ∀ p, r p = e.simplified.map fun e' => (e', rest)) : Folds k ts [e] rest :=
  of_none hk fun p => (hy p).trans (single_eq_simplified.2 (h p))

/-- A derivation of one expression behind an operand folds when its reader yields the folded
expression behind the folded operand, and the error of the operand comes first. -/
theorem of_behind (hk : k.operand? = some left)
    {r : Expr → Pending → Except Error (Expr × List Token)}
    (hy : ∀ left' p, yield true p (k.withOperand left') ts = single (r left' p))
    (h : ∀ left' p, left.simplified = .ok left' → r left' p = e.simplified.map fun e' => (e', rest))
    (hx : ∀ x, left.simplified = .error x → e.simplified = .error x) : Folds k ts [e] rest where
  reads := fun left' hl p => (hy left' p).trans (single_eq_simplified.2 (h left' p (hl left hk)))
  fails := by
    intro left' x hl hfail
    rw [hk] at hl
    cases hl
    rw [simplifiedAll_singleton, hx x hfail]
    rfl

/-- What the reader yields, when it depends on no operand. -/
theorem all (h : Folds k ts es rest) (hk : k.operand? = none) (p : Pending) :
    yield true p k ts = (simplifiedAll es).map fun es' => (es', rest) := by
  have hy := h.reads hole (fun left hl => by rw [hk] at hl; cases hl) p
  rwa [Nonterminal.withOperand_of_operand? hk] at hy

/-- What the reader of one expression yields, when it depends on no operand. -/
theorem one (h : Folds k ts [e] rest) (hk : k.operand? = none)
    {r : Pending → Except Error (Expr × List Token)} (hy : ∀ p, yield true p k ts = single (r p))
    (p : Pending) : r p = e.simplified.map fun e' => (e', rest) :=
  single_eq_simplified.1 ((hy p).symm.trans (h.all hk p))

/-- What the reader of one expression yields behind a folded operand. -/
theorem behind (h : Folds k ts [e] rest) (hk : k.operand? = some left)
    (hl : left.simplified = .ok left') {r : Pending → Except Error (Expr × List Token)}
    (hy : ∀ p, yield true p (k.withOperand left') ts = single (r p)) (p : Pending) :
    r p = e.simplified.map fun e' => (e', rest) :=
  single_eq_simplified.1 ((hy p).symm.trans
    (h.reads left' (fun l hl' => by cases hk.symm.trans hl'; exact hl) p))

/-- The error of an operand is the error of what is read behind it. -/
theorem error {x : Error} (h : Folds k ts [e] rest) (hk : k.operand? = some left)
    (hx : left.simplified = .error x) : e.simplified = .error x := by
  have hfails := h.fails left x hk hx
  rw [simplifiedAll_singleton] at hfails
  cases he : e.simplified with
  | error y =>
    rw [he] at hfails
    cases hfails
    rfl
  | ok e' =>
    rw [he] at hfails
    cases hfails

end Folds

/-! ## Folding wholes -/

/-- The error of the left operand is the error of the operation. -/
theorem simplified_operation_left {op : Operator} {l r : Expr} {x : Error}
    (h : l.simplified = .error x) : (operation op l r).simplified = .error x := by
  rw [simplified, h]
  rfl

/-- The error of the right operand is the error of the operation. -/
theorem simplified_operation_right {op : Operator} {l l' r : Expr} {x : Error}
    (hl : l.simplified = .ok l') (h : r.simplified = .error x) :
    (operation op l r).simplified = .error x := by
  rw [simplified, hl, h]
  rfl

/-- Folding an operation with folded operands. -/
theorem simplified_operation {op : Operator} {l l' r r' : Expr} (hl : l.simplified = .ok l')
    (hr : r.simplified = .ok r') : (operation op l r).simplified = operate true op l' r' := by
  rw [simplified, hl, hr]
  rfl

/-- Folding an operation with one operand. -/
theorem simplified_signed (op : Operator) (e : Expr) :
    (operation op e hole).simplified = e.simplified >>= fun e' => operate true op e' hole :=
  rfl

/-- The error of the condition is the error of the conditional. -/
theorem simplified_select_condition {c t e : Expr} {x : Error} (h : c.simplified = .error x) :
    (select false c t e).simplified = .error x := by
  show (conditional c t e).simplified = _
  rw [simplified, h]
  rfl

/-- Folding a conditional with a folded condition. -/
theorem simplified_select {c c' t e : Expr} (hc : c.simplified = .ok c') :
    (select false c t e).simplified
      = t.simplified >>= fun t' => e.simplified.map (select true c' t') := by
  show (conditional c t e).simplified = _
  rw [simplified, hc]
  cases t.simplified with
  | error x => rfl
  | ok t' => cases e.simplified <;> rfl

/-- Folding arguments. -/
theorem simplifiedAll_cons {e : Expr} {es : List Expr} :
    simplifiedAll (e :: es)
      = e.simplified >>= fun e' => (simplifiedAll es).map fun es' => e' :: es' := by
  rw [simplifiedAll]
  cases e.simplified with
  | error x => rfl
  | ok e' => cases simplifiedAll es <;> rfl

/-- A factorial of a folded operand is the folded factorial. -/
theorem simplified_factorial {name : String} {e e' f : Expr} (h : ofCall name [e] = .ok f)
    (he : e.simplified = .ok e') : ∃ f', ofCall name [e'] = .ok f' ∧ f.simplified = .ok f' := by
  have hf := simplified_of_ofCall h
  rw [simplifiedAll_singleton, he] at hf
  -- whether a call is well formed depends on its name alone
  unfold ofCall at h ⊢
  split at h
  · cases h
  · rename_i hname
    cases h
    exact ⟨call name e', if_neg hname, by rw [hf]; exact if_neg hname⟩

/-- The error of the operand is the error of its factorial. -/
theorem simplified_factorial_error {name : String} {e f : Expr} {x : Error}
    (h : ofCall name [e] = .ok f) (he : e.simplified = .error x) : f.simplified = .error x := by
  rw [simplified_of_ofCall h, simplifiedAll_singleton, he]
  rfl

/-- Branches fold behind the folded condition. -/
theorem Folds.of_condition {c yes no : Expr} {ts rest : List Token}
    (h : ∀ c' p, c.simplified = .ok c' → (branches true p c' ts).result
      = (yes.simplified >>= fun yes' => no.simplified.map (select true c' yes')).map
        fun e' => (e', rest)) :
    Folds (.branches c) ts [select false c yes no] rest := by
  refine .of_behind rfl (fun _ _ => rfl) (fun c' p hc => ?_)
    fun x hx => simplified_select_condition hx
  rw [simplified_select hc]
  exact h c' p hc

/-- **Simplifying readers fold what plain ones read.** -/
theorem Reads.folds {k : Nonterminal} {ts rest : List Token} {es : List Expr}
    (h : Reads false k ts es rest) : Folds k ts es rest := by
  -- induction on the derivation: a reader meets the same errors in the same order as folding
  induction h with
  | expression _ _ ihl ihc =>
    refine .of_one rfl (fun _ => rfl) fun p => ?_
    rw [Grammar.expression]
    exact result_andThen_eq (ihl.one rfl (fun _ => rfl) p)
      (fun left' _ hl => ihc.behind rfl hl (fun _ => rfl) p) fun x hx => ihc.error rfl hx
  | chainEnd hs =>
    refine .of_behind rfl (fun _ _ => rfl) (fun left' p hl => ?_) fun x hx => hx
    rw [hl]
    exact result_chain_of_stops hs
  | @chainStep least left t op ts right ts₁ whole e rest hop hle _ ho _ ihr ihc =>
    cases ho
    refine .of_behind rfl (fun _ _ => rfl) (fun left' p hl => ?_)
      fun x hx => ihc.error rfl (simplified_operation_left hx)
    rw [chain, hop]
    simp only [if_neg (Nat.not_lt_of_le hle), result_after, result_relax]
    refine result_andThen_eq (ihr.one rfl (fun _ => rfl) _) (fun right' _ hr => ?_)
      fun x hx => ihc.error rfl (simplified_operation_right hl hx)
    have hwhole : (operation op left right).simplified = operate true op left' right' :=
      simplified_operation hl hr
    split
    · rename_i x hx
      rw [ihc.error rfl (hwhole.trans hx)]
      rfl
    · rename_i whole' hw
      exact ihc.behind rfl (hwhole.trans hw) (fun _ => rfl) p
  | plus hk _ ih =>
    refine .of_one rfl (fun _ => rfl) fun p => ?_
    rw [Grammar.unary, hk]
    simp only [result_after]
    exact ih.one rfl (fun _ => rfl) p
  | minus hk _ ho ih =>
    cases ho
    refine .of_one rfl (fun _ => rfl) fun p => ?_
    rw [Grammar.unary, hk, simplified_signed]
    simp only [result_after]
    exact result_andThen_bind (ih.one rfl (fun _ => rfl) p) fun e' _ _ => result_ofExcept _ _
  | not hk _ ho ih =>
    cases ho
    refine .of_one rfl (fun _ => rfl) fun p => ?_
    rw [Grammar.unary, hk, simplified_signed]
    simp only [result_after]
    exact result_andThen_bind (ih.one rfl (fun _ => rfl) p) fun e' _ _ => result_ofExcept _ _
  | unsigned hs _ ih =>
    refine .of_one rfl (fun _ => rfl) fun p => ?_
    rw [unary_eq_postfixed hs]
    exact ih.one rfl (fun _ => rfl) p
  | postfixed _ _ ihp ihf =>
    refine .of_one rfl (fun _ => rfl) fun p => ?_
    rw [Grammar.postfixed]
    exact result_andThen_eq (ihp.one rfl (fun _ => rfl) p)
      (fun e' _ he => ihf.behind rfl he (fun _ => rfl) p) fun x hx => ihf.error rfl hx
  | factorialsEnd hs =>
    refine .of_behind rfl (fun _ _ => rfl) (fun e' p he => ?_) fun x hx => hx
    rw [he]
    exact result_factorials_of_startsAny hs
  | factorialsStep hk ho _ ih =>
    refine .of_behind rfl (fun _ _ => rfl) (fun e' p he => ?_)
      fun x hx => ih.error rfl (simplified_factorial_error ho hx)
    obtain ⟨f', hf, hf'⟩ := simplified_factorial ho he
    rw [factorials, if_pos hk, hf]
    simp only [result_after]
    exact ih.behind rfl hf' (fun _ => rfl) p
  | operand ho =>
    refine .of_one rfl (fun _ => rfl) fun p => ?_
    rw [primary, ho, simplified_of_operand? ho]
    rfl
  | paren hk _ hc ih =>
    refine .of_one rfl (fun _ => rfl) fun p => ?_
    rw [result_primary_paren hk]
    exact result_followedBy_eq hc (ih.one rfl (fun _ => rfl) p)
  | braces hk _ ih =>
    refine .of_one rfl (fun _ => rfl) fun p => ?_
    rw [primary_brace hk]
    exact ih.one rfl (fun _ => rfl) p
  | function hk _ ih =>
    refine .of_one rfl (fun _ => rfl) fun p => ?_
    rw [primary_function hk]
    exact ih.one rfl (fun _ => rfl) p
  | ifWord hk _ ih =>
    refine .of_one rfl (fun _ => rfl) fun p => ?_
    rw [primary_ifWord hk]
    exact ih.one rfl (fun _ => rfl) p
  | application hopen _ hc ho ih =>
    refine .of_one rfl (fun _ => rfl) fun p => ?_
    rw [Grammar.application, result_after, simplified_of_ofCall ho]
    refine result_andThen_bind (result_followedBy_eq hc ?_) fun es' _ _ => result_ofExcept _ _
    rw [result_andThen_of_ok (result_take hopen)]
    exact ih.all rfl p
  | noArguments hs =>
    refine .of_none rfl fun p => ?_
    show (arguments true p _).result = _
    rw [arguments, hs, if_pos rfl]
    rfl
  | someArguments hs _ _ ihe ihes =>
    refine .of_none rfl fun p => ?_
    show (arguments true p _).result = _
    rw [arguments, hs, if_neg Bool.false_ne_true, result_relax, simplifiedAll_cons]
    exact result_andThen_bind (ihe.one rfl (fun _ => rfl) p)
      fun e' _ _ => result_map_eq (ihes.all rfl p)
  | @lastArgument ts hs =>
    refine .of_none rfl fun p => ?_
    show (moreArguments true p ts).result = .ok ([], ts)
    cases ts with
    | nil => rw [moreArguments, result_pure]
    | cons t ts =>
      have hk : ¬ t.kind = .terminator := by simpa [startsWith] using hs
      rw [moreArguments, if_neg hk, result_pure]
  | nextArgument hk _ _ ihe ihes =>
    refine .of_none rfl fun p => ?_
    show (moreArguments true p _).result = _
    rw [moreArguments, if_pos hk, result_after, result_relax, simplifiedAll_cons]
    exact result_andThen_bind (ihe.one rfl (fun _ => rfl) p)
      fun e' _ _ => result_map_eq (ihes.all rfl p)
  | block hb _ hts hc ih =>
    refine .of_one rfl (fun _ => rfl) fun p => ?_
    rw [Grammar.block, result_andThen_of_ok (result_take hb),
      result_andThen_of_ok (result_skipTerminators p _),
      result_andRead_of_ok (result_skipReturn p _)]
    refine result_followedBy_eq hc (result_andThen_eq (ih.one rfl (fun _ => rfl) p)
      (fun e' _ he => ?_) fun x hx => hx)
    rw [he]
    refine result_map_eq_ok.2 ⟨(), ?_, rfl⟩
    rw [result_skipTerminators]
    exact congrArg (fun r => Except.ok ((), r)) hts
  | listed hl _ ih =>
    refine .of_one rfl (fun _ => rfl) fun p => ?_
    rw [Grammar.alternatives, result_after, if_pos hl]
    exact ih.one rfl (fun _ => rfl) p
  | conditioned hl _ _ ihc ihb =>
    refine .of_one rfl (fun _ => rfl) fun p => ?_
    rw [Grammar.alternatives, result_after, hl, if_neg Bool.false_ne_true]
    exact result_andRead_eq (ihc.one rfl (fun _ => rfl) p)
      (fun c' _ hc => ihb.behind rfl hc (fun _ => rfl) p) fun x hx => ihb.error rfl hx
  | words hk _ hw _ ihy ihn =>
    refine .of_condition fun c' p hc => ?_
    rw [branches, hk]
    simp only [result_after]
    exact result_andRead_bind (result_followedBy_eq hw (ihy.one rfl (fun _ => rfl) p))
      fun yes' _ _ => result_map_eq (ihn.one rfl (fun _ => rfl) p)
  | blockElseIf hk _ hw hi _ ihy ihn =>
    refine .of_condition fun c' p hc => ?_
    rw [branches, hk]
    refine result_andRead_bind (result_followedBy_eq hw (ihy.one rfl (fun _ => rfl) p))
      fun yes' _ _ => ?_
    rw [if_pos hi]
    exact result_map_eq (ihn.one rfl (fun _ => rfl) p)
  | blocks hk _ hw hi _ ihy ihn =>
    refine .of_condition fun c' p hc => ?_
    rw [branches, hk]
    refine result_andRead_bind (result_followedBy_eq hw (ihy.one rfl (fun _ => rfl) p))
      fun yes' _ _ => ?_
    rw [hi, if_neg Bool.false_ne_true]
    exact result_map_eq (ihn.one rfl (fun _ => rfl) p)
  | list hk _ h₁ _ h₂ _ h₃ ihc ihy ihn =>
    refine .of_one rfl (fun _ => rfl) fun p => ?_
    rw [Grammar.listAlternatives, result_andRead_of_ok (result_take hk)]
    refine result_andRead_eq (result_followedBy_eq h₁ (ihc.one rfl (fun _ => rfl) p))
      (fun c' _ hc => ?_) fun x hx => simplified_select_condition hx
    rw [simplified_select hc]
    exact result_andRead_bind (result_followedBy_eq h₂ (ihy.one rfl (fun _ => rfl) p))
      fun yes' _ _ => result_map_eq (result_followedBy_eq h₃ (ihn.one rfl (fun _ => rfl) p))

end Grammar

/-! ## Simplifying parses -/

/-- Reading a whole token list while folding. -/
theorem result_whole_simplified {ts ts₁ : List Token} {e : Expr}
    (h : Reads false (.expression 0) ts [e] ts₁) (hrest : afterTerminators ts₁ = []) :
    (Parse.whole true ts).result = e.simplified.map fun e' => (e', []) := by
  refine result_andThen_eq (h.folds.one rfl (fun _ => rfl) []) (fun e' _ he => ?_) fun x hx => hx
  have hskip : (skipTerminators [] ts₁).result = .ok ((), []) :=
    (result_skipTerminators [] ts₁).trans (congrArg (fun r => Except.ok ((), r)) hrest)
  rw [he]
  exact result_andThen_of_ok hskip

/-- **A simplifying parse folds the plain expression from its leaves**, and fails with the first
error that this meets. -/
theorem parse_simplified {o : Options} {ts : List Token} {e : Expr}
    (h : parse { o with simplify := false } ts = .ok e) :
    parse { o with simplify := true } ts = e.simplified := by
  obtain ⟨hb, ht, ts₁, hr, hrest⟩ := parse_eq_ok_iff.1 h
  have hprepare : Parse.prepare { o with simplify := true } ts
      = Parse.prepare { o with simplify := false } ts := rfl
  have hparse : parse { o with simplify := true } ts
      = (Parse.whole true (Parse.prepare { o with simplify := false } ts)).result.map (·.1) := by
    unfold parse Parse.ofTokens
    rw [hb]
    simp only [hprepare, ht, Bool.false_eq_true, if_false]
    rfl
  rw [hparse, result_whole_simplified hr hrest]
  cases e.simplified <;> rfl

end Formula
