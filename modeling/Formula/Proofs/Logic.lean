/-
# Logical expressions

The logic lexicon reads truth values, integers and names with connectives, relations, conditionals
and products of neighbours. Such an expression always reads back from its plain text, **as itself
exactly if it is settled**; with the same value also where only chains of one connective are grouped
to the left (`value_of_reread`).
-/
import Formula.Proofs.Chains
import Formula.Proofs.Inherited
import Formula.Proofs.KnownWords

namespace Formula

open Grammar Lexicon

/-- The operators that the logic lexicon shares with implicit products. -/
def Lexicon.logicalOperators : List Operator := [.and, .or, .eq, .ne, .gt, .lt, .ge, .le, .mul]

namespace Expr

/-! ## Expressions of the logic lexicon -/

/-- **The expressions of logic.** -/
inductive Logical : Expr → Prop where
  | integer (n : Nat) : Logical (integer n)
  | boolean (b : Bool) : Logical (boolean b)
  | identifier {name : String} (h : logic.IsName name) : Logical (identifier name)
  | denied {e : Expr} (h : Logical e) : Logical (denied e)
  | operation {op : Operator} {l r : Expr} (hop : op ∈ logicalOperators) (hl : Logical l)
    (hr : Logical r) : Logical (operation op l r)
  | conditional {c t e : Expr} (hc : Logical c) (ht : Logical t) (he : Logical e) :
    Logical (conditional c t e)

namespace Logical

variable {e : Expr}

/-- A logical expression is there. -/
theorem isHole_eq_false (h : e.Logical) : e.isHole = false := by
  cases h <;> rfl

/-- An operator between two logical expressions is no denial. -/
theorem ne_not {op : Operator} (h : op ∈ logicalOperators) : op ≠ .not := by
  rintro rfl
  exact absurd h (by decide)

/-- **Logical expressions are printable.** -/
theorem printable (h : e.Logical) : e.Printable := by
  induction h with
  | integer n => exact ⟨operand?_natural n, opens_natural n⟩
  | boolean b => trivial
  | identifier hn => exact (isName_iff.1 hn).opens
  | denied _ ih => exact ⟨rfl, ih⟩
  | operation hop _ hr ihl ihr =>
    rw [Printable, if_neg (by simp [ne_not hop, hr.isHole_eq_false])]
    exact ⟨ihl, ihr⟩
  | conditional _ _ _ ihc iht ihe => exact ⟨ihc, iht, ihe⟩

/-- **The logic lexicon knows logical expressions.** -/
theorem knownBy (h : e.Logical) : e.KnownBy logic := by
  have hl : logic ∈ builtin := by decide
  induction h with
  | integer n => exact knows_natural hl n
  | boolean b => exact knows_keyword hl (by cases b <;> decide) (by cases b <;> decide)
  | identifier hn => exact (isName_iff.1 hn).knows hl fun _ hcs => Boundary.endsWord hcs
  | denied _ ih => exact ⟨knows_operator hl (by decide), ih, Or.inl rfl⟩
  | @operation op _ _ hop _ _ ihl ihr =>
    have hmem : ∀ op ∈ logicalOperators, .operator op ∈ logic.kinds := by decide
    exact ⟨knows_operator hl (hmem op hop), ihl, Or.inr ihr⟩
  | conditional _ _ _ ihc iht ihe =>
    have hif : logic.Knows (plainWord .ifWord "if") := knows_keyword hl (by decide) (by decide)
    have helse : logic.Knows (plainWord .elseWord "else") :=
      knows_keyword hl (by decide) (by decide)
    have hbraces : logic.Knows (openWord .brace) ∧ logic.Knows (closeWord .brace) :=
      ⟨knows_punctuation hl (by decide), knows_punctuation hl (by decide)⟩
    exact ⟨⟨hif, helse, hbraces⟩, ihc, iht, ihe⟩

end Logical

end Expr

/-! ## Texts of logic -/

/-- Whether a kind of token belongs to logic. -/
def Kind.isLogical : Kind → Bool
  | .natural | .boolean | .identifier | .ifWord | .thenWord | .elseWord | .returnWord => true
  | .opening _ | .closing _ | .blank | .terminator => true
  | .operator op => op == .not || logicalOperators.contains op
  | _ => false

/-- Whether a token belongs to logic, and names are names of the logic lexicon. -/
def Token.SpellsLogic (t : Token) : Prop :=
  t.kind.isLogical = true ∧ (t.kind = .identifier → logic.IsName t.value)

namespace Grammar

/-- A token of logic that is an operand stands for a logical expression. -/
theorem logical_of_operand? {t : Token} {e : Expr} (ht : t.SpellsLogic) (h : operand? t = some e) :
    e.Logical := by
  obtain ⟨hkind, hname⟩ := ht
  unfold operand? at h
  split at h <;> cases h
  · exact .integer _
  · simp_all [Kind.isLogical]
  · exact .boolean _
  · simp_all [Kind.isLogical]
  · rename_i hk
    exact .identifier (hname hk)
  · simp_all [Kind.isLogical]

/-- An operator that belongs to logic is the denial or stands between two operands. -/
theorem mem_logicalOperators {op : Operator} (hk : (Kind.operator op).isLogical = true)
    (hn : op ≠ .not) : op ∈ logicalOperators := by
  revert hk hn
  cases op <;> decide

/-- **Reading tokens of logic hands on that expressions are logical.** -/
theorem inherits_logical : Inherits false Token.SpellsLogic True Expr.Logical := by
  -- minus signs, marks and functions are no tokens of logic
  have hforeign : ∀ {t : Token} {k : Kind}, t.SpellsLogic → t.kind = k → k.isLogical = true :=
    fun ht hk => hk ▸ ht.1
  refine ⟨logical_of_operand?, ?_, ?_, ?_, ?_, ?_, fun _ _ => trivial, ?_⟩
  · rintro t op l r e ht hk hn hl hr ⟨⟩
    exact .operation (mem_logicalOperators (hforeign ht hk) hn) hl hr
  · intro t l e ht hk
    exact absurd (hforeign ht hk) (by decide)
  · rintro t l e - - hl ⟨⟩
    exact .denied hl
  · intro t a e ht hk
    rcases Kind.factorial_cases hk with hk | hk
    · exact absurd (hforeign ht hk) (by decide)
    · exact absurd (hforeign ht hk) (by decide)
  · intro t es e ht hk
    exact absurd (hforeign ht hk) (by decide)
  · exact fun _ hc hy hn => .conditional hc hy hn

end Grammar

/-! ## Parsed texts -/

/-- The tokens of a text that belong to logic spell it. -/
theorem Lexicon.spellsLogic_of_tokenize {text : String} {ts : List Token}
    (h : logic.tokenize text = .ok ts) (hk : ∀ t ∈ ts, t.kind.isLogical = true) :
    ∀ t ∈ ts, t.SpellsLogic := by
  intro t ht
  obtain ⟨position, cs, hfirst⟩ := exists_first?_of_scan h t ht
  refine ⟨hk t ht, fun hidentifier => ?_⟩
  have hname := names_of_first? (by decide) hfirst (by simp [hidentifier, namingKinds])
  rw [hidentifier] at hname
  exact isName_iff.2 hname

/-- **A text of logic is parsed as a logical expression.** -/
theorem Expr.logical_of_parse {o : Options} {ts : List Token} {e : Expr}
    (ho : o.simplify = false) (ht : ∀ t ∈ ts, t.SpellsLogic) (h : parse o ts = .ok e) :
    e.Logical := by
  have hproduct : (Kind.operator .mul).isLogical = true := by decide
  have hlogical := inherits_logical
  rw [← ho] at hlogical
  exact inherits_of_parse hlogical (fun _ => ⟨hproduct, nofun⟩) ht h

/-! ## Values -/

namespace Expr

variable {d : Dialect} {s : Scope} {e l r : Expr} {p q : Layout}

/-- **What a layout shares with the printed one**, when it is read alike, fits, and keeps the value
of the expression. -/
structure Regroups (d : Dialect) (s : Scope) (e : Expr) (q : Layout) : Prop where
  fits : q.Fits 0
  full : q.Full
  attach : ∀ k, q.attach k = e.layout.attach k
  closes : ∀ {op}, e.holdsBefore op = true → q.ClosesBefore op
  stands : ∀ {op}, e.holdsBehind op = true → q.StandsAt op.rightLevel
  continues : ∀ {op}, e.continues op = true → q.Continues op
  keeps : Keeps d s e q.expr

namespace Regroups

/-- The printed layout is read as the expression of the other one. -/
theorem reading (h : Regroups d s e q) : e.layout.reading = q.expr := by
  rw [← Layout.reading_eq_expr h.fits, Layout.reading, Layout.reading, h.attach]

/-- What is read keeps the value. -/
theorem keeps_reading (h : Regroups d s e q) : Keeps d s e e.layout.reading := by
  rw [h.reading]
  exact h.keeps

/-- Parentheses around both layouts are read alike. -/
theorem attach_bracketed (h : Regroups d s e q) (needed : Bool) (k : Spine → Spine) :
    (q.bracketed needed).attach k = (e.layout.bracketed needed).attach k := by
  cases needed with
  | false => exact h.attach k
  | true =>
    show k (.unit q.reading) = k (.unit e.layout.reading)
    rw [h.reading, Layout.reading_eq_expr h.fits]

/-- An operand in parentheses or without is there. -/
theorem full_bracketed (h : Regroups d s e q) (needed : Bool) : (q.bracketed needed).Full := by
  cases needed with
  | false => exact h.full
  | true =>
    show q.reading.isHole = false
    rw [Layout.reading_eq_expr h.fits]
    exact h.full.isHole_expr

/-- An operand in parentheses or without keeps its value. -/
theorem keeps_bracketed (h : Regroups d s e q) (needed : Bool) :
    Keeps d s e (q.bracketed needed).expr := by
  rw [h.fits.expr_bracketed]
  exact h.keeps

/-- An expression that is printed as one operand regroups. -/
theorem of_unit {ws : List Token} {a : Expr} (hl : e.layout = .unit ws a) (hk : Keeps d s e a) :
    Regroups d s e (.unit ws a) where
  fits := trivial
  full := hk.isHole
  attach := fun k => by rw [hl]
  closes := fun _ => trivial
  stands := fun _ => trivial
  continues := fun _ => trivial
  keeps := hk

/-- A denial regroups when its operand does. -/
theorem of_denied (hd : d.logical = true) (hh : e.isHole = false) (h : Regroups d s e q) :
    Regroups d s (denied e) (denied e).layout where
  fits := trivial
  full := h.keeps_reading.isHole
  attach := fun _ => rfl
  closes := by
    intro op hb
    rw [holdsBefore, decide_eq_true_eq] at hb
    exact hb
  stands := by
    intro op hb
    rw [holdsBehind, decide_eq_true_eq] at hb
    exact hb
  continues := by
    intro op hc
    simp only [Expr.continues, Bool.and_eq_true, beq_iff_eq] at hc
    obtain ⟨⟨hop, rfl⟩, _⟩ := hc
    cases hop
  keeps := .denied hd hh h.keeps_reading

/-- A layout with the operator of an operation on top regroups it, when it is read alike, fits, and
keeps the value. -/
theorem of_joined {op : Operator} {t : Token} {a b : Layout} (hr : r.isHole = false)
    (hf : (Layout.joined op t a b).Fits 0) (hfull : a.Full ∧ b.Full)
    (ha : ∀ k, (Layout.joined op t a b).attach k = (operation op l r).layout.attach k)
    (hg : (operation op l r).continues op = true → a.Continues op)
    (hk : Keeps d s (operation op l r) (.operation op a.expr b.expr)) :
    Regroups d s (operation op l r) (.joined op t a b) where
  fits := hf
  full := hfull
  attach := ha
  closes := by
    intro op' hb
    rw [holdsBefore, decide_eq_true_eq, hr] at hb
    exact hb
  stands := by
    intro op' hb
    rw [holdsBehind, decide_eq_true_eq, hr] at hb
    exact hb
  continues := by
    intro op' hc
    have hsame : op = op' := by
      simp only [Expr.continues, Bool.and_eq_true, beq_iff_eq] at hc
      exact hc.1.2
    subst hsame
    exact Or.inl ⟨rfl, hg hc⟩
  keeps := hk

/-- **A connective regroups by chaining** the layout of its right operand, which it goes on with,
behind the left one. -/
theorem of_chain {op : Operator} {t : Token} (hd : d.logical = true)
    (hside : op.rightLevel = op.level + 1) (hr : r.isHole = false) (hfits : p.Fits op.level)
    (hcloses : p.ClosesBefore op) (hfull : p.Full) (h : Regroups d s r q)
    (hc : r.continues op = true)
    (ha : ∀ k, (Layout.joined op t p q).attach k = (operation op l r).layout.attach k)
    (hg : (operation op l r).continues op = true → p.Continues op)
    (hk : Keeps d s (operation op l r) (.operation op p.expr q.expr)) :
    Regroups d s (operation op l r) (.chain op t p q) := by
  have hchain : (Layout.chain op t p q).Fits op.level :=
    Layout.Fits.chain hside hfits hcloses h.fits (h.continues hc)
  have hparts : (Layout.chain op t p q).Full := Layout.Full.chain hfull h.full
  have hkept : Keeps d s (operation op l r) (Layout.chain op t p q).expr :=
    hk.trans (Layout.keeps_chain hd (joinsTruth_of_continues hc) hfull h.full)
  have hread : ∀ k, (Layout.chain op t p q).attach k = (operation op l r).layout.attach k :=
    fun k => (Layout.attach_chain k).trans (ha k)
  have hgoes : (operation op l r).continues op = true → (Layout.chain op t p q).Continues op :=
    fun hgo => Layout.Continues.chain (hg hgo)
  -- the chain has the same operator on top
  obtain ⟨u, a, b, hjoined⟩ := Layout.chain_eq_joined op t p q
  rw [hjoined] at hchain hparts hkept hread hgoes ⊢
  have hleft : (operation op l r).continues op = true → a.Continues op := by
    intro hgo
    rcases hgoes hgo with ⟨_, hleft⟩ | hlevel
    · exact hleft
    · omega
  exact of_joined hr (Layout.Fits.mono (Nat.zero_le _) hchain) hparts hread hleft hkept

/-- **An operation regroups** when its operands do, and its value is kept. -/
theorem of_operation {op : Operator} (hd : d.logical = true) (hop : op ∈ logicalOperators)
    (hl : l.isHole = false) (hr : r.isHole = false) (h : Regroups d s l p) (h' : Regroups d s r q)
    (hleft : keepsLeft op l = true) (hright : keepsRight op r = true ∨ r.continues op = true) :
    ∃ p', Regroups d s (operation op l r) p' := by
  have hn := Logical.ne_not hop
  have hvalue : joinsTruth op = true ∨ op.isRelation = true ∨ op = .mul := by
    revert hop
    cases op <;> decide
  have hside : op.rightLevel = op.level + 1 := by
    revert hop
    cases op <;> decide
  rw [keepsLeft, Bool.or_eq_true] at hleft
  have hfl : (p.bracketed (bracketsLeft op l)).Fits op.level :=
    h.fits.bracketed _ (hleft.imp_right fun hb => standsAt_of_closesBefore (h.closes hb))
  have hcl : (p.bracketed (bracketsLeft op l)).ClosesBefore op := by
    cases hb : bracketsLeft op l with
    | true => trivial
    -- a connective goes on behind itself: its layout is chained onto the one on its left
    | false => exact h.closes (hleft.resolve_left (by simp [hb]))
  -- a chain of a connective has no brackets on its left
  have hgl : (operation op l r).continues op = true →
      (p.bracketed (bracketsLeft op l)).Continues op := by
    intro hc
    simp only [Expr.continues, Bool.and_eq_true, Bool.or_eq_true] at hc
    obtain ⟨⟨hjoins, _⟩, hc⟩ := hc
    have hb : bracketsLeft op l = false := by
      cases op <;> first | rfl | cases hjoins
    rw [hb]
    exact hc.elim (fun hc => (h.stands hc).continues) h.continues
  have hkeeps : ∀ needed, Keeps d s (operation op l r)
      (.operation op (p.bracketed (bracketsLeft op l)).expr (q.bracketed needed).expr) :=
    fun needed => .operation hd hvalue hl hr (h.keeps_bracketed _) (h'.keeps_bracketed _)
  have hattach : ∀ k, (Layout.joined op (operatorWord op) (p.bracketed (bracketsLeft op l))
      (q.bracketed (bracketsRight op r))).attach k = (operation op l r).layout.attach k := by
    intro k
    rw [layout_operation hn hr]
    show (q.bracketed _).attach (fun item => ((p.bracketed _).attach k).graft op item) = _
    rw [h.attach_bracketed, h'.attach_bracketed]
    rfl
  cases hkr : keepsRight op r with
  | true =>
    rw [keepsRight, Bool.or_eq_true] at hkr
    have hfr : (q.bracketed (bracketsRight op r)).Fits op.rightLevel :=
      h'.fits.bracketed _ (hkr.imp_right h'.stands)
    exact ⟨_, of_joined hr ⟨Nat.zero_le _, hfl, hcl, hfr⟩
      ⟨h.full_bracketed _, h'.full_bracketed _⟩ hattach hgl (hkeeps _)⟩
  | false =>
    rw [hkr] at hright
    have hc := hright.resolve_left Bool.false_ne_true
    -- a right operand that goes on is printed without brackets
    have hb : bracketsRight op r = false := (Bool.or_eq_false_iff.1 hkr).1
    rw [hb] at hattach
    exact ⟨_, of_chain hd hside hr hfl hcl (h.full_bracketed _) h' hc hattach hgl (hkeeps false)⟩

end Regroups

/-- **A logical expression whose value is kept regroups.** -/
theorem Logical.regroups (hd : d.logical = true) (h : e.Logical) (hk : e.keepsValue = true) :
    ∃ q, Regroups d s e q := by
  induction h with
  | integer n => exact ⟨_, .of_unit rfl (.refl rfl)⟩
  | boolean b => exact ⟨_, .of_unit rfl (.refl rfl)⟩
  | identifier hn => exact ⟨_, .of_unit rfl (.refl rfl)⟩
  -- the operand of a denial always stands in parentheses
  | denied he ih =>
    obtain ⟨q, hq⟩ := ih (by simpa [isHole] using hk)
    exact ⟨_, hq.of_denied hd he.isHole_eq_false⟩
  | operation hop hl hr ihl ihr =>
    simp only [keepsValue_operation, hr.isHole_eq_false, Bool.false_or, Bool.and_eq_true,
      Bool.or_eq_true] at hk
    obtain ⟨hkl, hkr, hleft, hright⟩ := hk
    obtain ⟨p, hp⟩ := ihl hkl
    obtain ⟨q, hq⟩ := ihr hkr
    exact hp.of_operation hd hop hl.isHole_eq_false hr.isHole_eq_false hq hleft hright
  | conditional _ _ _ ihc iht ihe =>
    simp only [keepsValue_conditional, Bool.and_eq_true] at hk
    obtain ⟨⟨hkc, hkt⟩, hke⟩ := hk
    obtain ⟨_, hc⟩ := ihc hkc
    obtain ⟨_, ht⟩ := iht hkt
    obtain ⟨_, he⟩ := ihe hke
    exact ⟨_, .of_unit rfl (.conditional hd hc.keeps_reading ht.keeps_reading he.keeps_reading)⟩

/-- **The plain text of a logical expression reads back**, grouped anew: as the expression itself
exactly if the expression is settled, and with its value wherever the value is kept. -/
theorem value_of_reread {o o' : Options} {text : String} {ts : List Token} {v : Value}
    (ho : o.simplify = false) (ho' : o'.simplify = false) (hts : logic.tokenize text = .ok ts)
    (hk : ∀ t ∈ ts, t.kind.isLogical = true) (he : parse o ts = .ok e)
    (hv : e.value .logic s = .ok v) :
    logic.reread o' e = .ok e.regrouped ∧ (e.regrouped = e ↔ e.settled = true) ∧
      (e.keepsValue = true → e.regrouped.value .logic s = .ok v) := by
  have h : e.Logical := logical_of_parse ho (spellsLogic_of_tokenize hts hk) he
  refine ⟨?_, h.printable.regrouped_eq_iff, ?_⟩
  · exact reread_eq_regrouped (knowsPunctuation (by decide)) ho' h.printable h.knownBy
  · intro hkeeps
    obtain ⟨q, hq⟩ := h.regroups (d := .logic) (s := s) rfl hkeeps
    exact hq.keeps_reading.value hv

/-- A chain of conjunctions to the right is read as one to the left, with the same value. -/
theorem value_of_reread_conjunctions :
    let text := "if (x <> 2) {NOT (y && (x && TRUE))} else {1 < 2 || y}"
    let ts := (logic.tokenize text).toOption.getD []
    let x : Expr := identifier "x"
    let y : Expr := identifier "y"
    let chain : Expr := operation .and y (operation .and x (boolean true))
    let e : Expr := conditional (operation .ne x (integer 2)) (denied chain)
      (operation .or (operation .lt (integer 1) (integer 2)) y)
    let s := Scope.standard [("x", .boolean true), ("y", .boolean false)]
    logic.tokenize text = .ok ts ∧ (∀ t ∈ ts, t.kind.isLogical = true) ∧
      parse ⟨true, false, false⟩ ts = .ok e ∧ e.value .logic s = .ok (.boolean true) ∧
        e.keepsValue = true ∧ e.settled = false ∧
          logic.reread ⟨true, false, false⟩ e = .ok e.regrouped ∧ e.regrouped ≠ e ∧
            e.regrouped.value .logic s = .ok (.boolean true) := by
  intro text ts x y chain e s
  have hts : logic.tokenize text = .ok ts := by decide +kernel
  have hk : ∀ t ∈ ts, t.kind.isLogical = true := by decide +kernel
  have he : parse ⟨true, false, false⟩ ts = .ok e := by decide +kernel
  have hv : e.value .logic s = .ok (.boolean true) := by decide +kernel
  have hkeeps : e.keepsValue = true := by decide
  have hsettled : e.settled = false := by decide
  have ho : Options.simplify ⟨true, false, false⟩ = false := rfl
  obtain ⟨hreread, hsame, hvalue⟩ := value_of_reread ho ho hts hk he hv
  exact ⟨hts, hk, he, hv, hkeeps, hsettled, hreread, by simp [hsame, hsettled], hvalue hkeeps⟩

/-- **A disjunction behind `&&` loses its parentheses**, and the value changes. -/
theorem reread_disjunction :
    let text := "FALSE && (FALSE || TRUE)"
    let ts := (logic.tokenize text).toOption.getD []
    let o : Options := ⟨true, false, false⟩
    let e : Expr := operation .and (boolean false) (operation .or (boolean false) (boolean true))
    let again : Expr :=
      operation .or (operation .and (boolean false) (boolean false)) (boolean true)
    let s := Scope.standard []
    logic.tokenize text = .ok ts ∧ (∀ t ∈ ts, t.kind.isLogical = true) ∧ parse o ts = .ok e ∧
      e.value .logic s = .ok (.boolean false) ∧ e.ascii? = .ok "FALSE AND FALSE OR TRUE" ∧
        logic.reread o e = .ok again ∧ again.value .logic s = .ok (.boolean true) := by
  decide +kernel

/-! ## Values that change -/

/-- Whether an expression with a value loses it when it is regrouped. -/
def changesValue (e : Expr) : Bool :=
  let v := e.value .logic (.standard [])
  v.isOk && decide (e.regrouped.value .logic (.standard []) ≠ v)

/-- The connectives and the relations. -/
def truthOperators : List Operator := [.and, .or, .eq, .ne, .gt, .lt, .ge, .le]

/-- The places of an operation inside another one. -/
inductive Nesting where
  | left
  | right
  /-- On the left of a right operand. -/
  | inner
  deriving DecidableEq

/-- An operation, or a denial, inside another operation. -/
def Nesting.expr (n : Nesting) (op op' : Operator) (a b c d : Expr) : Expr :=
  let nested := if op' = .not then denied a else operation op' a b
  match n with
  | left => operation op nested c
  | right => operation op c nested
  | inner => operation op c (operation op nested d)

/-- **Where the plain text does not keep the value, there are operands for which it changes**: for
every operation inside another one, some truth values and integers. -/
theorem exists_changesValue :
    let operands : List Expr := [boolean true, boolean false, integer 0, integer 1, integer 2]
    ∀ n ∈ [Nesting.left, .right, .inner], ∀ op ∈ truthOperators, ∀ op' ∈ .not :: truthOperators,
      (n.expr op op' (integer 0) (integer 1) (integer 2) (integer 2)).keepsValue = false →
        ∃ a ∈ operands, ∃ b ∈ operands, ∃ c ∈ operands, ∃ d ∈ operands,
          (n.expr op op' a b c d).changesValue = true := by
  decide +kernel

end Expr

end Formula
