/-
# Inherited properties

A property of expressions is often handed on from operands to what is built of them, and from tokens
to what is read from them. Folding an operation takes its operands apart at most once and builds
numbers, truth values and operations that it keeps as they are, so that **a property that these few
steps hand on is handed on by every folding** (`Inherits.build`) **and by every reading**
(`Reads.inherits`).
-/
import Formula.Proofs.Folding
import Formula.Proofs.Locality

namespace Formula

open Grammar

/-! ## Folding -/

namespace Simplify

open Formula.Expr

/-- **Whether a property is handed on in every step of folding** operations with allowed
operators. An operation that folding builds is one that it keeps. -/
structure Inherits (allowed : Operator → Prop) (P : Expr → Prop) : Prop where
  /-- No missing operand has the property. -/
  present {e : Expr} : P e → e.isHole = false
  number (n : Number) : P (number n)
  /-- What connectives and relations are folded to. -/
  boolean {op : Operator} : allowed op → op.isLogical = true → ∀ b, P (boolean b)
  operation {op : Operator} {l r : Expr} : allowed op → op ≠ .not → P l → P r →
    build op l r = .ok (operation op l r) → P (operation op l r)
  negated {e : Expr} : allowed .sub → P e → opposite e = negated e → P (negated e)
  denied {e : Expr} : allowed .not → P e → denial e = denied e → P (denied e)
  left {op : Operator} {l r : Expr} : P (Expr.operation op l r) → P l

namespace Inherits

variable {allowed : Operator → Prop} {P : Expr → Prop} {op : Operator} {l r e : Expr}
variable (h : Inherits allowed P)
include h

/-- A number that is kept inherits. -/
theorem keep {x : Except Error Number} (he : keep x = .ok e) : P e := by
  obtain ⟨n, -, rfl⟩ := keep_eq_ok he
  exact h.number n

/-- Simplified sums inherit. -/
theorem sum (hop : allowed .add) (hl : P l) (hr : P r) (he : sum l r = .ok e) : P e := by
  have hkept := he
  unfold Simplify.sum at he
  split at he
  · exact h.keep he
  · split_ifs at he <;> cases he
    · exact hr
    · exact hl
    · exact h.operation hop (by decide) hl hr hkept

/-- Simplified negations inherit. -/
theorem opposite (hop : allowed .sub) (he : P e) : P (opposite e) := by
  obtain ⟨e', hkept⟩ : ∃ e', Simplify.opposite e = e' := ⟨_, rfl⟩
  have hform := hkept
  unfold Simplify.opposite at hform
  rw [hkept]
  split at hform <;> subst hform
  · exact h.left he
  · exact h.number _
  · exact h.negated hop he hkept

/-- Simplified differences inherit. -/
theorem difference (hop : allowed .sub) (hl : P l) (hr : P r) (he : difference l r = .ok e) :
    P e := by
  have hkept : Simplify.build .sub l r = .ok e := by rw [Simplify.build, h.present hr]; exact he
  unfold Simplify.difference at he
  split at he
  · exact h.keep he
  · split_ifs at he <;> cases he
    · exact hl
    · exact h.opposite hop hr
    · exact h.number _
    · exact h.operation hop (by decide) hl hr hkept

/-- Simplified products inherit. -/
theorem product (hop : allowed .mul) (hl : P l) (hr : P r) (he : product l r = .ok e) : P e := by
  have hkept := he
  unfold Simplify.product at he
  split at he
  · exact h.keep he
  · split_ifs at he <;> cases he
    · exact h.number _
    · exact hr
    · exact hl
    · exact h.operation hop (by decide) hl hr hkept

/-- Quotients of numbers inherit. -/
theorem numberQuotient {a b : Number} (he : numberQuotient a b = .ok e) : P e := by
  unfold Simplify.numberQuotient at he
  split at he
  · exact h.keep he
  · exact h.keep he
  · exact h.keep he
  · exact h.keep he
  · obtain ⟨x, -, he⟩ := bind_eq_ok.1 he
    obtain ⟨y, -, he⟩ := bind_eq_ok.1 he
    split at he
    · cases he
    · cases he
      exact h.number _

/-- Simplified quotients inherit. -/
theorem quotient (hop : allowed .div) (hl : P l) (hr : P r) (he : quotient l r = .ok e) :
    P e := by
  have hkept := he
  unfold Simplify.quotient at he
  split at he
  · cases he
  · split at he
    · exact h.numberQuotient he
    · split_ifs at he <;> cases he
      · exact h.number _
      · exact hl
      · exact h.number _
      · exact h.operation hop (by decide) hl hr hkept

/-- A power of two numbers that is kept inherits. -/
theorem plainPower (hop : allowed .pow) {b n : Number}
    (hkept : Simplify.build .pow (Expr.number b) (Expr.number n)
      = .ok (Expr.operation .pow (Expr.number b) (Expr.number n))) :
    P (Expr.operation .pow (Expr.number b) (Expr.number n)) :=
  h.operation hop (by decide) (h.number b) (h.number n) hkept

/-- Exact powers inherit. -/
theorem exactPower (hop : allowed .pow) {b : Number} {q : Rat} {n : Int} {wrap : Rat → Number}
    (hkept : Simplify.build .pow (Expr.number b) (integer n) = .ok e)
    (he : exactPower b q n wrap = .ok e) : P e := by
  unfold Simplify.exactPower at he
  dsimp only at he
  split_ifs at he
  · cases he
    exact h.plainPower hop hkept
  · exact h.keep he
  · cases he
    exact h.plainPower hop hkept

/-- Powers over doubles inherit. -/
theorem floatPower (hop : allowed .pow) {b n : Number}
    (hkept : Simplify.build .pow (Expr.number b) (Expr.number n) = .ok e)
    (he : floatPower b n = e) : P e := by
  unfold Simplify.floatPower at he
  dsimp only at he
  split at he
  · split at he
    · split at he <;> subst he
      · exact h.number _
      · exact h.plainPower hop hkept
    · subst he
      exact h.plainPower hop hkept
  · subst he
    exact h.plainPower hop hkept

/-- Powers of numbers inherit. -/
theorem numberPower (hop : allowed .pow) {b n : Number}
    (hkept : Simplify.build .pow (Expr.number b) (Expr.number n) = .ok e)
    (he : numberPower b n = .ok e) : P e := by
  unfold Simplify.numberPower at he
  split at he
  · exact h.exactPower hop hkept he
  · exact h.exactPower hop hkept he
  · cases he
    exact h.plainPower hop hkept
  · cases he
    exact h.plainPower hop hkept
  · exact h.floatPower hop hkept (Except.ok.inj he)

/-- Simplified powers inherit. -/
theorem power (hop : allowed .pow) (hl : P l) (hr : P r) (he : power l r = .ok e) : P e := by
  have hkept : Simplify.build .pow l r = .ok e := he
  -- along the nested powers that the definition unfolds
  fun_induction Simplify.power l r with
  | case1 => cases he
  | case2 =>
    cases he
    exact h.number _
  | case3 =>
    cases he
    exact hl
  | case4 => exact h.numberPower hop hkept he
  | case5 e₀ a m _ _ ih => exact ih (h.left hl) (h.number _) he he
  | case6 l n =>
    cases he
    exact h.operation hop (by decide) hl hr hkept
  | case7 l r =>
    cases he
    exact h.operation hop (by decide) hl hr hkept

/-- Simplified relations inherit. -/
theorem relation (hop : allowed op) (hrelation : op.isRelation = true) (hl : P l) (hr : P r) :
    P (relation op l r) := by
  have hkept : Simplify.build op l r = .ok (Simplify.relation op l r) := by
    cases op <;> first | rfl | cases hrelation
  unfold Simplify.relation at hkept ⊢
  split at hkept
  · refine h.boolean hop ?_ _
    rw [Operator.isLogical, hrelation, Bool.true_or]
  · refine h.operation hop ?_ hl hr hkept
    rintro rfl
    cases hrelation

/-- Simplified conjunctions inherit. -/
theorem conjunction (hop : allowed .and) (hl : P l) (hr : P r) : P (conjunction l r) := by
  have hkept : Simplify.build .and l r = .ok (Simplify.conjunction l r) := rfl
  unfold Simplify.conjunction at hkept ⊢
  split at hkept
  · exact h.boolean hop rfl _
  · exact h.operation hop (by decide) hl hr hkept

/-- Simplified disjunctions inherit. -/
theorem disjunction (hop : allowed .or) (hl : P l) (hr : P r) : P (disjunction l r) := by
  have hkept : Simplify.build .or l r = .ok (Simplify.disjunction l r) := rfl
  unfold Simplify.disjunction at hkept ⊢
  split at hkept
  · exact h.boolean hop rfl _
  · exact h.operation hop (by decide) hl hr hkept

/-- Simplified denials inherit. -/
theorem denial (hop : allowed .not) (he : P e) : P (denial e) := by
  obtain ⟨e', hkept⟩ : ∃ e', Simplify.denial e = e' := ⟨_, rfl⟩
  have hform := hkept
  unfold Simplify.denial at hform
  rw [hkept]
  split at hform <;> subst hform
  · exact h.boolean hop rfl _
  · exact h.denied hop he hkept

/-- **A simplified operation inherits from its operands.** -/
theorem build (hop : allowed op) (hn : op ≠ .not) (hl : P l) (hr : P r)
    (he : build op l r = .ok e) : P e := by
  cases op with
  | add => exact h.sum hop hl hr he
  | sub =>
    rw [Simplify.build, h.present hr] at he
    exact h.difference hop hl hr he
  | mul => exact h.product hop hl hr he
  | div => exact h.quotient hop hl hr he
  | pow => exact h.power hop hl hr he
  | and =>
    cases he
    exact h.conjunction hop hl hr
  | or =>
    cases he
    exact h.disjunction hop hl hr
  | not => exact absurd rfl hn
  | _ =>
    cases he
    exact h.relation hop rfl hl hr

/-- A simplified one-sided minus inherits from its operand. -/
theorem build_negated (hop : allowed .sub) (hl : P l) (he : Simplify.build .sub l hole = .ok e) :
    P e := by
  cases he
  exact h.opposite hop hl

/-- A simplified denial inherits from its operand. -/
theorem build_denied (hop : allowed .not) (hl : P l) (he : Simplify.build .not l hole = .ok e) :
    P e := by
  cases he
  exact h.denial hop hl

end Inherits

end Simplify

/-! ## Reading -/

/-- The marks behind operands. -/
theorem Kind.factorial_cases {k : Kind} (h : k.isFactorial = true) :
    k = .factorial ∨ k = .semiFactorial := by
  cases k with
  | factorial => exact Or.inl rfl
  | semiFactorial => exact Or.inr rfl
  | _ => cases h

/-- An operator between two operands is of its kind, and is no denial. -/
theorem Kind.operator_of_binary? {k : Kind} {op : Operator} (h : k.binary? = some op) :
    k = .operator op ∧ op ≠ .not := by
  cases k with
  | operator op' => cases op' <;> cases h <;> exact ⟨rfl, by decide⟩
  | _ => cases h

namespace Grammar

/-- **Whether a property is handed on in every step of reading** from tokens with the property `Q`,
simplifying or not. The words of conditionals may be excluded. -/
structure Inherits (s : Bool) (Q : Token → Prop) (branching : Prop) (P : Expr → Prop) : Prop where
  operand {t : Token} {e : Expr} : Q t → operand? t = some e → P e
  operate {t : Token} {op : Operator} {l r e : Expr} : Q t → t.kind = .operator op → op ≠ .not →
    P l → P r → operate s op l r = .ok e → P e
  minus {t : Token} {l e : Expr} : Q t → t.kind = .operator .sub → P l →
    Grammar.operate s .sub l .hole = .ok e → P e
  denial {t : Token} {l e : Expr} : Q t → t.kind = .operator .not → P l →
    Grammar.operate s .not l .hole = .ok e → P e
  mark {t : Token} {a e : Expr} : Q t → t.kind.isFactorial = true → P a →
    Expr.ofCall t.value [a] = .ok e → P e
  application {t : Token} {es : List Expr} {e : Expr} : Q t → t.kind = .function →
    (∀ a ∈ es, P a) → Expr.ofCall t.value es = .ok e → P e
  ifWord {t : Token} : Q t → t.kind = .ifWord → branching
  select {c yes no : Expr} : branching → P c → P yes → P no → P (select s c yes no)

/-- Whether a nonterminal reads on behind the word that starts a conditional. -/
def Nonterminal.isBranching : Nonterminal → Bool
  | .branches _ | .listAlternatives => true
  | _ => false

/-- What holds of the tokens holds of those that are left. -/
theorem Consumes.forall_mem {Q : Token → Prop} {n : Nat} {ts rest : List Token}
    (h : Consumes n ts rest) (hts : ∀ t ∈ ts, Q t) : ∀ t ∈ rest, Q t := by
  obtain ⟨ws, rfl, -⟩ := h
  exact (List.forall_mem_append.1 hts).2

variable {s : Bool} {Q : Token → Prop} {branching : Prop} {P : Expr → Prop}

/-- **Whatever is read inherits**, behind an operand that does. -/
theorem Reads.inherits (hP : Inherits s Q branching P) {k : Nonterminal} {ts rest : List Token}
    {es : List Expr} (h : Reads s k ts es rest) (ho : k.Opens ts)
    (hb : k.isBranching = true → branching) (hts : ∀ t ∈ ts, Q t)
    (hleft : ∀ left, k.operand? = some left → P left) : ∀ e ∈ es, P e := by
  have hone : ∀ {e : Expr}, P e → ∀ e' ∈ [e], P e' := List.forall_mem_singleton.2
  have hbehind : ∀ {e : Expr}, P e → ∀ left, some e = some left → P left := by
    rintro e he _ ⟨⟩
    exact he
  -- induction on the derivation: each rule builds on what its parts read from the tokens left over
  induction h with
  | expression hu _ ihu ihc =>
    have hl := ihu trivial nofun hts nofun
    exact ihc trivial nofun ((hu.consumes trivial).forall_mem hts)
      (hbehind (hl _ List.mem_cons_self))
  | chainEnd _ => exact hone (hleft _ rfl)
  | @chainStep _ _ t op _ _ _ _ _ _ hop _ hr hw _ ihr ihc =>
    obtain ⟨ht, hts⟩ := List.forall_mem_cons.1 hts
    have hright := ihr trivial nofun hts nofun
    obtain ⟨hk, hnot⟩ := Kind.operator_of_binary? hop
    have hwhole := hP.operate ht hk hnot (hleft _ rfl) (hright _ List.mem_cons_self) hw
    exact ihc trivial nofun ((hr.consumes trivial).forall_mem hts) (hbehind hwhole)
  | plus _ _ ih => exact ih trivial nofun (List.forall_mem_cons.1 hts).2 nofun
  | minus hk _ hw ih =>
    obtain ⟨ht, hts⟩ := List.forall_mem_cons.1 hts
    exact hone (hP.minus ht hk (ih trivial nofun hts nofun _ List.mem_cons_self) hw)
  | not hk _ hw ih =>
    obtain ⟨ht, hts⟩ := List.forall_mem_cons.1 hts
    exact hone (hP.denial ht hk (ih trivial nofun hts nofun _ List.mem_cons_self) hw)
  | unsigned _ _ ih => exact ih trivial nofun hts nofun
  | postfixed hp _ ihp ihf =>
    have he := ihp trivial nofun hts nofun
    exact ihf trivial nofun ((hp.consumes trivial).forall_mem hts)
      (hbehind (he _ List.mem_cons_self))
  | factorialsEnd _ => exact hone (hleft _ rfl)
  | factorialsStep hk hw _ ih =>
    obtain ⟨ht, hts⟩ := List.forall_mem_cons.1 hts
    exact ih trivial nofun hts (hbehind (hP.mark ht hk (hleft _ rfl) hw))
  | operand he => exact hone (hP.operand (List.forall_mem_cons.1 hts).1 he)
  | paren _ _ _ ih => exact ih trivial nofun (List.forall_mem_cons.1 hts).2 nofun
  | braces _ _ ih => exact ih trivial nofun hts nofun
  | function hk _ ih => exact ih (startsWith_cons.2 hk) nofun hts nofun
  | ifWord hk _ ih => exact ih (startsWith_cons.2 hk) nofun hts nofun
  | application _ _ _ hcall ih =>
    obtain ⟨ht, hts⟩ := List.forall_mem_cons.1 hts
    have hes := ih trivial nofun (List.forall_mem_cons.1 hts).2 nofun
    exact hone (hP.application ht (startsWith_cons.1 ho) hes hcall)
  | noArguments _ => exact List.forall_mem_nil _
  | someArguments _ he _ ihe ihes =>
    have hfirst := ihe trivial nofun hts nofun
    have hes := ihes trivial nofun ((he.consumes trivial).forall_mem hts) nofun
    exact List.forall_mem_cons.2 ⟨hfirst _ List.mem_cons_self, hes⟩
  | lastArgument _ => exact List.forall_mem_nil _
  | nextArgument _ he _ ihe ihes =>
    have hts := (List.forall_mem_cons.1 hts).2
    have hfirst := ihe trivial nofun hts nofun
    have hes := ihes trivial nofun ((he.consumes trivial).forall_mem hts) nofun
    exact List.forall_mem_cons.2 ⟨hfirst _ List.mem_cons_self, hes⟩
  | @block b ts _ _ _ _ _ _ _ _ ih =>
    have hskip := (Consumes.afterTerminators ts).trans (Consumes.afterReturn _)
    exact ih trivial nofun (hskip.forall_mem (List.forall_mem_cons.1 hts).2) nofun
  | listed _ _ ih =>
    obtain ⟨ht, hts⟩ := List.forall_mem_cons.1 hts
    exact ih trivial (fun _ => hP.ifWord ht (startsWith_cons.1 ho)) hts nofun
  | conditioned _ hc _ ihc ihb =>
    obtain ⟨ht, hts⟩ := List.forall_mem_cons.1 hts
    have hcondition := ihc trivial nofun hts nofun
    exact ihb trivial (fun _ => hP.ifWord ht (startsWith_cons.1 ho))
      ((hc.consumes trivial).forall_mem hts) (hbehind (hcondition _ List.mem_cons_self))
  | words _ hy _ _ ihy ihn =>
    have hts := (List.forall_mem_cons.1 hts).2
    have hyes := ihy trivial nofun hts nofun
    have hrest := List.forall_mem_cons.1 ((hy.consumes trivial).forall_mem hts)
    have hno := ihn trivial nofun hrest.2 nofun
    exact hone (hP.select (hb rfl) (hleft _ rfl) (hyes _ List.mem_cons_self)
      (hno _ List.mem_cons_self))
  | blockElseIf _ hy _ hi _ ihy ihn =>
    have hyes := ihy trivial nofun hts nofun
    have hrest := List.forall_mem_cons.1 ((hy.consumes trivial).forall_mem hts)
    have hno := ihn hi nofun hrest.2 nofun
    exact hone (hP.select (hb rfl) (hleft _ rfl) (hyes _ List.mem_cons_self)
      (hno _ List.mem_cons_self))
  | blocks _ hy _ _ _ ihy ihn =>
    have hyes := ihy trivial nofun hts nofun
    have hrest := List.forall_mem_cons.1 ((hy.consumes trivial).forall_mem hts)
    have hno := ihn trivial nofun hrest.2 nofun
    exact hone (hP.select (hb rfl) (hleft _ rfl) (hyes _ List.mem_cons_self)
      (hno _ List.mem_cons_self))
  | list _ hc _ hy _ _ _ ihc ihy ihn =>
    have hts := (List.forall_mem_cons.1 hts).2
    have hcondition := ihc trivial nofun hts nofun
    have hts₁ := (List.forall_mem_cons.1 ((hc.consumes trivial).forall_mem hts)).2
    have hyes := ihy trivial nofun hts₁ nofun
    have hts₂ := (List.forall_mem_cons.1 ((hy.consumes trivial).forall_mem hts₁)).2
    have hno := ihn trivial nofun hts₂ nofun
    exact hone (hP.select (hb rfl) (hcondition _ List.mem_cons_self) (hyes _ List.mem_cons_self)
      (hno _ List.mem_cons_self))

end Grammar

/-- **What is parsed inherits from its tokens** and from the signs of implicit products. -/
theorem inherits_of_parse {o : Options} {Q : Token → Prop} {branching : Prop} {P : Expr → Prop}
    (hP : Grammar.Inherits o.simplify Q branching P) (hsign : ∀ t, Q (productSign t))
    {ts : List Token} (hts : ∀ t ∈ ts, Q t) {e : Expr} (h : parse o ts = .ok e) : P e := by
  obtain ⟨-, -, _, hr, -⟩ := parse_eq_ok_iff.1 h
  exact hr.inherits hP trivial nofun (Parse.forall_mem_prepare hsign hts) nofun e
    List.mem_cons_self

end Formula
