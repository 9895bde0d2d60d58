/-
# Simplification while parsing

A simplifying parse folds each operation as soon as it is read. It reads the same tokens as the
parse that keeps everything, and each expression that it finds may be replaced by what it found
(`Refines`): the exact value, when there is one, stays the same. **Simplification is sound for exact
values** (`exactValue_of_simplified`).
-/
import Formula.Lexicon
import Formula.Proofs.Folding
import Formula.Proofs.Parsing

namespace Formula

/-! ## Refinement -/

namespace Expr

/-- Whether an operand may be replaced by another one: it keeps its exact value. -/
structure Refines (s : Scope) (e e' : Expr) : Prop where
  isHole : e.isHole = false
  exactValue : ∀ {v : Rat}, e.exactValue s = .ok v → e'.exactValue s = .ok v

variable {s : Scope}

/-- Every operand may be replaced by itself. -/
theorem Refines.refl {e : Expr} (h : e.isHole = false) : Refines s e e := ⟨h, id⟩

/-- Whatever has no value may be replaced by anything. -/
theorem Refines.of_error {e e' : Expr} {x : Error} (hh : e.isHole = false)
    (h : e.exactValue s = .error x) : Refines s e e' where
  isHole := hh
  exactValue := by
    intro v hv
    cases h.symm.trans hv

/-- **Folding an operation refines it.** -/
theorem Refines.build {op : Operator} {l l' r r' e : Expr} (hl : Refines s l l')
    (hr : Refines s r r') (h : Simplify.build op l' r' = .ok e) :
    Refines s (operation op l r) e where
  isHole := rfl
  exactValue := by
    intro v hv
    obtain ⟨x, y, hx, hy, hxy⟩ := (exactValue_operation_eq_ok hr.isHole).1 hv
    exact Simplify.exactValue_build h (hl.exactValue hx) (hr.exactValue hy) hxy

/-- Folding a minus sign refines it. -/
theorem Refines.build_negated {l l' e : Expr} (hl : Refines s l l')
    (h : Simplify.build .sub l' hole = .ok e) : Refines s (negated l) e where
  isHole := rfl
  exactValue := by
    intro v hv
    obtain ⟨x, hx, rfl⟩ := exactValue_negated_eq_ok.1 hv
    cases h
    exact Simplify.exactValue_opposite (hl.exactValue hx)

/-- A denial has no exact value. -/
theorem Refines.denied {l e : Expr} : Refines s (denied l) e where
  isHole := rfl
  exactValue := fun hv => absurd hv (exactValue_operation_hole (by decide))

/-- **A function of refined arguments refines the function.** -/
theorem Refines.ofCall {name : String} {es es' : List Expr} {e' : Expr}
    (hs : List.Forall₂ (Refines s) es es') (h : ofCall name es' = .ok e') :
    ∃ e, ofCall name es = .ok e ∧ Refines s e e' := by
  unfold Expr.ofCall at h ⊢
  by_cases hname : name = endingName
  · simp only [hname, if_true] at h ⊢
    match es', es, hs with
    | [p', t'], [p, t], .cons hp (.cons ht .nil) =>
      cases h
      refine ⟨_, rfl, rfl, ?_⟩
      intro v hv
      obtain ⟨f, x, y, hf, hx, hy, hv⟩ := exactValue_ending_eq_ok.1 hv
      exact exactValue_ending_eq_ok.2 ⟨f, x, y, hf, hp.exactValue hx, ht.exactValue hy, hv⟩
  · simp only [hname, if_false] at h ⊢
    match es', es, hs with
    | [a'], [a], .cons ha .nil =>
      cases h
      refine ⟨_, rfl, rfl, ?_⟩
      intro v hv
      obtain ⟨f, x, hf, hx, hv⟩ := exactValue_call_eq_ok.1 hv
      exact exactValue_call_eq_ok.2 ⟨f, x, hf, ha.exactValue hx, hv⟩

end Expr

namespace Grammar

open Formula.Expr

variable {s : Scope}

/-! ## Derivations side by side -/

/-- **Whether a simplified derivation has a plain one beside it**: on the same tokens, behind any
operand that is refined by the one of the simplified derivation, and with expressions that are
refined by the simplified ones. -/
def Mirrored (s : Scope) (k : Nonterminal) (ts : List Token) (es' : List Expr)
    (rest : List Token) : Prop :=
  ∀ left, (∀ left', k.operand? = some left' → Refines s left left') →
    ∃ es, Reads false (k.withOperand left) ts es rest ∧ List.Forall₂ (Refines s) es es'

namespace Mirrored

variable {k : Nonterminal} {ts rest : List Token} {e' : Expr} {es' : List Expr}

/-- The plain derivations beside one that depends on no operand. -/
theorem many (h : Mirrored s k ts es' rest) (hk : k.operand? = none) :
    ∃ es, Reads false k ts es rest ∧ List.Forall₂ (Refines s) es es' := by
  obtain ⟨es, hr, hes⟩ := h hole fun left' hl => by rw [hk] at hl; cases hl
  rw [Nonterminal.withOperand_of_operand? hk] at hr
  exact ⟨es, hr, hes⟩

/-- The plain derivation of one expression beside one that depends on no operand. -/
theorem one (h : Mirrored s k ts [e'] rest) (hk : k.operand? = none) :
    ∃ e, Reads false k ts [e] rest ∧ Refines s e e' := by
  obtain ⟨es, hr, hes⟩ := h.many hk
  match es, hes with
  | [e], .cons he .nil => exact ⟨e, hr, he⟩

/-- The plain derivation of one expression behind an operand. -/
theorem behind {left left' : Expr} (h : Mirrored s k ts [e'] rest)
    (hk : k.operand? = some left') (hl : Refines s left left') :
    ∃ e, Reads false (k.withOperand left) ts [e] rest ∧ Refines s e e' := by
  obtain ⟨es, hr, hes⟩ := h left fun left'' h' => by
    cases hk.symm.trans h'
    exact hl
  match es, hes with
  | [e], .cons he .nil => exact ⟨e, hr, he⟩

/-- A derivation of one expression that depends on no operand is mirrored by a plain one. -/
theorem of_one (hk : k.operand? = none) {e : Expr} (hr : Reads false k ts [e] rest)
    (he : Refines s e e') : Mirrored s k ts [e'] rest := by
  intro left _
  rw [Nonterminal.withOperand_of_operand? hk]
  exact ⟨[e], hr, .cons he .nil⟩

/-- A derivation behind an operand is mirrored by plain ones behind the operands it refines. -/
theorem of_behind {left' : Expr} (hk : k.operand? = some left')
    (h : ∀ {left}, Refines s left left' →
      ∃ e, Reads false (k.withOperand left) ts [e] rest ∧ Refines s e e') :
    Mirrored s k ts [e'] rest := by
  intro left hl
  obtain ⟨e, hr, he⟩ := h (hl left' hk)
  exact ⟨[e], hr, .cons he .nil⟩

end Mirrored

/-- An operand that is a single token is no hole. -/
theorem isHole_of_operand? {t : Token} {e : Expr} (h : operand? t = some e) :
    e.isHole = false := by
  unfold operand? at h
  split at h <;> cases h <;> rfl

/-- **Simplified derivations are mirrored**: simplification changes the expressions that are read,
and neither the tokens that are read nor the exact values. -/
theorem Reads.mirrored {k : Nonterminal} {ts rest : List Token} {es' : List Expr}
    (h : Reads true k ts es' rest) : Mirrored s k ts es' rest := by
  induction h with
  | expression _ _ ihl ihc =>
    obtain ⟨l, hl, hrl⟩ := ihl.one rfl
    obtain ⟨e, he, hre⟩ := ihc.behind rfl hrl
    exact .of_one rfl (.expression hl he) hre
  | chainEnd hs => exact .of_behind rfl fun hl => ⟨_, .chainEnd hs, hl⟩
  | chainStep hop hle _ ho _ ihr ihc =>
    refine .of_behind rfl fun hl => ?_
    obtain ⟨r, hr, hrr⟩ := ihr.one rfl
    obtain ⟨e, he, hre⟩ := ihc.behind rfl (hl.build hrr ho)
    exact ⟨e, .chainStep hop hle hr rfl he, hre⟩
  | plus hk _ ih =>
    obtain ⟨e, he, hre⟩ := ih.one rfl
    exact .of_one rfl (.plus hk he) hre
  | minus hk _ ho ih =>
    obtain ⟨e, he, hre⟩ := ih.one rfl
    exact .of_one rfl (.minus hk he rfl) (hre.build_negated ho)
  | not hk _ ho ih =>
    obtain ⟨e, he, hre⟩ := ih.one rfl
    exact .of_one rfl (.not hk he rfl) .denied
  | unsigned hs _ ih =>
    obtain ⟨e, he, hre⟩ := ih.one rfl
    exact .of_one rfl (.unsigned hs he) hre
  | postfixed _ _ ihp ihf =>
    obtain ⟨p, hp, hrp⟩ := ihp.one rfl
    obtain ⟨e, he, hre⟩ := ihf.behind rfl hrp
    exact .of_one rfl (.postfixed hp he) hre
  | factorialsEnd hs => exact .of_behind rfl fun hl => ⟨_, .factorialsEnd hs, hl⟩
  | factorialsStep hk ho _ ih =>
    refine .of_behind rfl fun hl => ?_
    obtain ⟨e₁, he₁, hre₁⟩ := Refines.ofCall (.cons hl .nil) ho
    obtain ⟨e, he, hre⟩ := ih.behind rfl hre₁
    exact ⟨e, .factorialsStep hk he₁ he, hre⟩
  | operand ho => exact .of_one rfl (.operand ho) (.refl (isHole_of_operand? ho))
  | paren hk _ hc ih =>
    obtain ⟨e, he, hre⟩ := ih.one rfl
    exact .of_one rfl (.paren hk he hc) hre
  | braces hk _ ih =>
    obtain ⟨e, he, hre⟩ := ih.one rfl
    exact .of_one rfl (.braces hk he) hre
  | function hk _ ih =>
    obtain ⟨e, he, hre⟩ := ih.one rfl
    exact .of_one rfl (.function hk he) hre
  | ifWord hk _ ih =>
    obtain ⟨e, he, hre⟩ := ih.one rfl
    exact .of_one rfl (.ifWord hk he) hre
  | application hk _ hc ho ih =>
    obtain ⟨es, hes, hres⟩ := ih.many rfl
    obtain ⟨e, he, hre⟩ := Refines.ofCall hres ho
    exact .of_one rfl (.application hk hes hc he) hre
  | noArguments hs => exact fun _ _ => ⟨[], .noArguments hs, .nil⟩
  | someArguments hs _ _ ihe ihes =>
    obtain ⟨e, he, hre⟩ := ihe.one rfl
    obtain ⟨es, hes, hres⟩ := ihes.many rfl
    exact fun _ _ => ⟨e :: es, .someArguments hs he hes, .cons hre hres⟩
  | lastArgument hs => exact fun _ _ => ⟨[], .lastArgument hs, .nil⟩
  | nextArgument hk _ _ ihe ihes =>
    obtain ⟨e, he, hre⟩ := ihe.one rfl
    obtain ⟨es, hes, hres⟩ := ihes.many rfl
    exact fun _ _ => ⟨e :: es, .nextArgument hk he hes, .cons hre hres⟩
  | block hb _ hts hc ih =>
    obtain ⟨e, he, hre⟩ := ih.one rfl
    exact .of_one rfl (.block hb he hts hc) hre
  | listed hl _ ih =>
    obtain ⟨e, he, hre⟩ := ih.one rfl
    exact .of_one rfl (.listed hl he) hre
  | conditioned hl _ _ ihc ihb =>
    obtain ⟨c, hc, hrc⟩ := ihc.one rfl
    obtain ⟨e, he, hre⟩ := ihb.behind rfl hrc
    exact .of_one rfl (.conditioned hl hc he) hre
  -- a conditional has no exact value, whatever it becomes
  | words hk _ hw _ ihy ihn =>
    refine .of_behind rfl fun _ => ?_
    obtain ⟨y, hy, _⟩ := ihy.one rfl
    obtain ⟨n, hn, _⟩ := ihn.one rfl
    exact ⟨_, .words hk hy hw hn, .of_error rfl rfl⟩
  | blockElseIf hk _ hw hi _ ihy ihn =>
    refine .of_behind rfl fun _ => ?_
    obtain ⟨y, hy, _⟩ := ihy.one rfl
    obtain ⟨n, hn, _⟩ := ihn.one rfl
    exact ⟨_, .blockElseIf hk hy hw hi hn, .of_error rfl rfl⟩
  | blocks hk _ hw hi _ ihy ihn =>
    refine .of_behind rfl fun _ => ?_
    obtain ⟨y, hy, _⟩ := ihy.one rfl
    obtain ⟨n, hn, _⟩ := ihn.one rfl
    exact ⟨_, .blocks hk hy hw hi hn, .of_error rfl rfl⟩
  | list hk _ h₁ _ h₂ _ h₃ ihc ihy ihn =>
    obtain ⟨c, hc, _⟩ := ihc.one rfl
    obtain ⟨y, hy, _⟩ := ihy.one rfl
    obtain ⟨n, hn, _⟩ := ihn.one rfl
    exact .of_one rfl (.list hk hc h₁ hy h₂ hn h₃) (.of_error rfl rfl)

end Grammar

/-! ## Simplifying parses -/

open Grammar

/-- **A simplifying parse refines the plain one**: where both yield an expression, the simplified
one may replace the plain one. -/
theorem refines_of_simplified {s : Scope} {o : Options} {ts : List Token} {e e' : Expr}
    (h : parse { o with simplify := false } ts = .ok e)
    (h' : parse { o with simplify := true } ts = .ok e') : Expr.Refines s e e' := by
  obtain ⟨_, _, rest, hr, _⟩ := parse_eq_ok_iff.1 h
  obtain ⟨_, _, rest', hr', _⟩ := parse_eq_ok_iff.1 h'
  obtain ⟨e₁, hr₁, he₁⟩ := hr'.mirrored.one rfl
  -- the plain derivation that the mirror gives is the one of the plain parse
  obtain ⟨h₁, _⟩ := hr₁.unique hr
  rwa [List.singleton_inj.1 h₁] at he₁

/-- **Simplification is sound for exact values**: for every text and all values of its variables,
whenever the plain expression has an exact value and the simplifying parse of the same tokens yields
an expression, that expression has the same exact value. -/
theorem exactValue_of_simplified {s : Scope} {o : Options} {text : String} {e e' : Expr} {v : Rat}
    (h : (Lexicon.standard.tokenize text).bind (parse { o with simplify := false }) = .ok e)
    (hv : e.exactValue s = .ok v)
    (h' : (Lexicon.standard.tokenize text).bind (parse { o with simplify := true }) = .ok e') :
    e'.exactValue s = .ok v := by
  cases ht : Lexicon.standard.tokenize text with
  | error x =>
    rw [ht] at h
    cases h
  | ok ts =>
    rw [ht] at h h'
    exact (refines_of_simplified h h').exactValue hv

/-- A nested power and a product with zero fold to one power with the same value. -/
theorem exactValue_of_simplified_nested :
    let text := "(x^2)^(-3)+0*x"
    let x : Expr := .identifier "x"
    let power : Expr := .operation .pow (.operation .pow x (.integer 2)) (.negated (.integer 3))
    let plain : Expr := .operation .add power (.operation .mul (.integer 0) x)
    let folded : Expr := .operation .pow x (.integer (-6))
    let s := Scope.standard [("x", .rational (mkRat 1 2))]
    (Lexicon.standard.tokenize text).bind (parse ⟨true, false, false⟩) = .ok plain ∧
      plain.exactValue s = .ok 64 ∧
        (Lexicon.standard.tokenize text).bind (parse ⟨true, true, false⟩) = .ok folded ∧
          folded.exactValue s = .ok 64 := by
  intro text x power plain folded s
  have h : (Lexicon.standard.tokenize text).bind (parse ⟨true, false, false⟩) = .ok plain := by
    decide +kernel
  have hv : plain.exactValue s = .ok 64 := by decide +kernel
  have h' : (Lexicon.standard.tokenize text).bind (parse ⟨true, true, false⟩) = .ok folded := by
    decide +kernel
  exact ⟨h, hv, h', exactValue_of_simplified (o := ⟨true, false, false⟩) h hv h'⟩

end Formula
