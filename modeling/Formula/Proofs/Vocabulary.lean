/-
# Expressions in the words of a lexicon

Whatever is parsed from the tokens of a built-in lexicon can be said in its words again: operators
and marks are among its kinds, and names are names that it finds. Folding makes up nothing but
numbers and truth values, and there are truth values wherever a relation or a connective can be
folded. Hence **every expression that is read from a text is worded in the lexicon of the text**
(`worded_of_parse`), simplified or not.
-/
import Formula.Proofs.Inherited
import Formula.Proofs.KnownWords

namespace Formula

open Grammar

namespace Lexicon

variable {l : Lexicon} {t : Token}

/-! ## Expressions -/

/-- **Whether an expression can be said in the words of a lexicon.** -/
inductive Worded (l : Lexicon) : Expr → Prop where
  | number (n : Number) : Worded l (.number n)
  | boolean (h : .boolean ∈ l.kinds) (b : Bool) : Worded l (.boolean b)
  | constant {name : String} (h : l.Names .constant name) : Worded l (.constant name)
  | identifier {name : String} (h : l.Names .identifier name) : Worded l (.identifier name)
  /-- A literal text is a decimal tail. -/
  | literal {a b : Char} (ha : isDecimalDigit a = true) (hb : isDecimalDigit b = true) :
      Worded l (.literal (String.ofList ['.', a, b]))
  | operation {op : Operator} {x y : Expr} (hop : .operator op ∈ l.kinds) (hn : op ≠ .not)
      (hx : Worded l x) (hy : Worded l y) : Worded l (.operation op x y)
  | negated {x : Expr} (hop : .operator .sub ∈ l.kinds) (hx : Worded l x) : Worded l (.negated x)
  | denied {x : Expr} (hop : .operator .not ∈ l.kinds) (hx : Worded l x) : Worded l (.denied x)
  | conditional {c x y : Expr} (h : .ifWord ∈ l.kinds) (hc : Worded l c) (hx : Worded l x)
      (hy : Worded l y) : Worded l (.conditional c x y)
  | factorial {name : String} {x : Expr} (hname : name = "!" ∨ name = "!!")
      (hk : (factorialWord name).kind ∈ l.kinds) (hx : Worded l x) : Worded l (.call name x)
  | application {name : String} {x : Expr} (hname : l.Names .function name)
      (he : name ≠ Expr.endingName) (hx : Worded l x) : Worded l (.call name x)
  | ending {x y : Expr} (hname : l.Names .function Expr.endingName) (hx : Worded l x)
      (hy : Worded l y) : Worded l (.ending x y)

namespace Worded

variable {op : Operator} {x y e : Expr}

/-- A worded expression is there. -/
theorem isHole_eq_false (h : l.Worded e) : e.isHole = false := by
  cases h <;> rfl

/-- The left operand of a worded operation is worded. -/
theorem left (h : l.Worded (.operation op x y)) : l.Worded x := by
  cases h with
  | operation _ _ hx _ => exact hx
  | negated _ hx => exact hx
  | denied _ hx => exact hx

/-- A function of worded arguments is worded. -/
theorem of_ofCall {name : String} {es : List Expr} (hname : l.Names .function name)
    (h : Expr.ofCall name es = .ok e) (hes : ∀ a ∈ es, l.Worded a) : l.Worded e := by
  unfold Expr.ofCall at h
  split at h
  · rename_i hending
    split at h
    · cases h
      exact .ending (hending ▸ hname) (hes _ (by simp)) (hes _ (by simp))
    · cases h
  · rename_i hending
    split at h
    · cases h
      exact .application hname hending (hes _ (by simp))
    · cases h

/-- A mark behind a worded operand is worded. -/
theorem of_mark {name : String} (hname : name = "!" ∨ name = "!!")
    (hk : (factorialWord name).kind ∈ l.kinds) (hx : l.Worded x)
    (h : Expr.ofCall name [x] = .ok e) : l.Worded e := by
  have hending : name ≠ Expr.endingName := by rcases hname with rfl | rfl <;> decide
  rw [Expr.ofCall, if_neg hending] at h
  cases h
  exact .factorial hname hk hx

end Worded

/-! ## Folding -/

/-- Where relations or connectives can be folded, there are truth values. -/
theorem boolean_of_isLogical : ∀ l ∈ builtin, ∀ op ∈ Operator.all, .operator op ∈ l.kinds →
    op.isLogical = true → .boolean ∈ l.kinds := by
  decide

/-- **Folding keeps to the words of a built-in lexicon.** -/
theorem inherits_simplify (hl : l ∈ builtin) :
    Simplify.Inherits (fun op => .operator op ∈ l.kinds) l.Worded where
  present := fun h => h.isHole_eq_false
  number := .number
  boolean := fun {op} hop hlogical =>
    .boolean (boolean_of_isLogical l hl op (by cases op <;> decide) hop hlogical)
  operation := fun hop hn hl hr _ => .operation hop hn hl hr
  negated := fun hop he _ => .negated hop he
  denied := fun hop he _ => .denied hop he
  left := fun h => h.left

/-! ## Reading -/

/-- Whether a token is one that a lexicon finds, or the sign of an implicit product. -/
def Utters (l : Lexicon) (t : Token) : Prop :=
  (∃ position cs, l.first? position cs = some t) ∨ ∃ u, t = productSign u

/-- The kind of a token is one of the lexicon. -/
theorem Utters.kind_mem (hl : l ∈ builtin) (h : l.Utters t) : t.kind ∈ l.kinds := by
  obtain ⟨position, cs, h⟩ | ⟨u, rfl⟩ := h
  · obtain ⟨d, hd, htoken⟩ := List.exists_of_findSome?_eq_some h
    rw [Definition.kind_of_token? htoken]
    exact List.mem_map_of_mem hd
  · have hmul : ∀ l ∈ builtin, .operator .mul ∈ l.kinds := by decide
    exact hmul l hl

/-- A token that is no operator is found. -/
theorem Utters.exists_first? (h : l.Utters t) (hk : t.kind ≠ .operator .mul) :
    ∃ position cs, l.first? position cs = some t := by
  obtain h | ⟨u, rfl⟩ := h
  · exact h
  · exact absurd rfl hk

/-- An operand is worded. -/
theorem worded_operand? (hl : l ∈ builtin) {e : Expr} (h : l.Utters t) (he : operand? t = some e) :
    l.Worded e := by
  have hmem := h.kind_mem hl
  have hnames : t.kind ∈ namingKinds → l.Names t.kind t.value := by
    intro hk
    have hmul : t.kind ≠ .operator .mul := by
      intro hmul
      rw [hmul] at hk
      exact absurd hk (by decide)
    obtain ⟨position, cs, hfirst⟩ := h.exists_first? hmul
    exact names_of_first? hl hfirst hk
  unfold operand? at he
  split at he <;> cases he
  · exact .number _
  · exact .number _
  · rename_i hk
    exact .boolean (hk ▸ hmem) _
  · rename_i hk
    exact .constant (hk ▸ hnames (by simp [hk, namingKinds]))
  · rename_i hk
    exact .identifier (hk ▸ hnames (by simp [hk, namingKinds]))
  · rename_i hk
    obtain ⟨position, cs, hfirst⟩ := h.exists_first? (by simp [hk])
    obtain ⟨a, b, ha, hb, hvalue⟩ := tail_of_first? hl hfirst hk
    rw [hvalue]
    exact .literal ha hb

/-- A function of worded arguments is worded. -/
theorem worded_application (hl : l ∈ builtin) {es : List Expr} {e : Expr} (h : l.Utters t)
    (hk : t.kind = .function) (hes : ∀ a ∈ es, l.Worded a)
    (he : Expr.ofCall t.value es = .ok e) : l.Worded e := by
  obtain ⟨position, cs, hfirst⟩ := h.exists_first? (by simp [hk])
  have hname := names_of_first? hl hfirst (by simp [hk, namingKinds])
  rw [hk] at hname
  exact .of_ofCall hname he hes

/-- A mark behind a worded operand is worded. -/
theorem worded_mark (hl : l ∈ builtin) {a e : Expr} (h : l.Utters t)
    (hk : t.kind.isFactorial = true) (ha : l.Worded a)
    (he : Expr.ofCall t.value [a] = .ok e) : l.Worded e := by
  have hmul : t.kind ≠ .operator .mul := by
    intro hmul
    rw [hmul] at hk
    cases hk
  obtain ⟨position, cs, hfirst⟩ := h.exists_first? hmul
  obtain ⟨hname, hmem⟩ := mark_of_first? hl hfirst hk
  exact .of_mark hname hmem ha he

/-- **Reading keeps to the words of a built-in lexicon.** -/
theorem inherits_worded (hl : l ∈ builtin) (s : Bool) :
    Grammar.Inherits s l.Utters (.ifWord ∈ l.kinds) l.Worded := by
  have hkind : ∀ {t : Token} {k : Kind}, l.Utters t → t.kind = k → k ∈ l.kinds := by
    rintro t k h rfl
    exact h.kind_mem hl
  cases s with
  | false =>
    refine ⟨worded_operand? hl, ?_, ?_, ?_, worded_mark hl, worded_application hl, hkind, ?_⟩
    · rintro t op x y e ht hk hn hx hy ⟨⟩
      exact .operation (hkind ht hk) hn hx hy
    · rintro t x e ht hk hx ⟨⟩
      exact .negated (hkind ht hk) hx
    · rintro t x e ht hk hx ⟨⟩
      exact .denied (hkind ht hk) hx
    · exact fun h hc hx hy => .conditional h hc hx hy
  | true =>
    have hfold := inherits_simplify hl
    refine ⟨worded_operand? hl, ?_, ?_, ?_, worded_mark hl, worded_application hl, hkind, ?_⟩
    · exact fun ht hk hn hx hy he => hfold.build (hkind ht hk) hn hx hy he
    · exact fun ht hk hx he => hfold.build_negated (hkind ht hk) hx he
    · exact fun ht hk hx he => hfold.build_denied (hkind ht hk) hx he
    · intro c x y h hc hx hy
      show l.Worded (Simplify.choice c x y)
      unfold Simplify.choice
      split
      · exact hx
      · exact hy
      · exact .conditional h hc hx hy

/-- **Every expression that is read from a text is worded** in the lexicon of the text, simplified
or not. -/
theorem worded_of_parse (hl : l ∈ builtin) {o : Options} {source : String} {ts : List Token}
    {e : Expr} (ht : l.tokenize source = .ok ts) (h : parse o ts = .ok e) : l.Worded e :=
  inherits_of_parse (inherits_worded hl o.simplify) (fun u => Or.inr ⟨u, rfl⟩)
    (fun t hmem => Or.inl (exists_first?_of_scan ht t hmem)) h

end Lexicon

end Formula
