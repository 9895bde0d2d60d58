/-
# Relations between terms

Terms are the expressions without relations, connectives and conditionals. The plain text of a
relation puts the symbol right behind its left term, and the logic lexicon looks for `!=` before it
looks for `!`: behind a mark, an equals sign becomes an inequality of what the mark stands on.
**Every other relation between terms is read as itself, between what its terms are read as**
(`reread_relation`).
-/
import Formula.Proofs.BareSigns
import Formula.Proofs.Conversions
import Formula.Proofs.Readable

namespace Formula

open Grammar Lexicon

/-! ## Terms -/

/-- Whether a kind of token belongs to relations, connectives or conditionals. -/
def Kind.isLogicalWord : Kind → Bool
  | .operator op => op.isLogical
  | .ifWord | .thenWord | .elseWord => true
  | _ => false

/-- **Whether an expression is a term of a lexicon**: what is read, without simplifying, from a text
without relations, connectives and conditionals. -/
def Lexicon.Term (l : Lexicon) (e : Expr) : Prop :=
  ∃ (o : Options) (source : String) (ts : List Token), o.simplify = false ∧
    l.tokenize source = .ok ts ∧ (∀ t ∈ ts, t.kind.isLogicalWord = false) ∧ parse o ts = .ok e

/-- Whether a number is one that a numeral denotes. -/
def Number.isUnsigned : Number → Bool
  | integer n => decide (0 ≤ n)
  | rational _ => false
  | float x => !x.signBit

/-- A number that a numeral denotes is not negative. -/
theorem Number.isNegative_of_isUnsigned {n : Number} (h : n.isUnsigned = true) :
    n.isNegative = false := by
  cases n with
  | integer n => exact decide_eq_false (Int.not_lt.2 (of_decide_eq_true h))
  | rational q => cases h
  | float x =>
    match x with
    | .nan => rfl
    | .infinity false => rfl
    | .finite false r hr =>
      show decide ((r : Int) < 0) = false
      exact decide_eq_false (by omega)

namespace Expr

/-- Whether an expression is built of numerals and names by arithmetic and functions. -/
def isTerm : Expr → Bool
  | number n => n.isUnsigned
  | operation op l r => arithmeticOperators.contains op && l.isTerm && (r.isHole || r.isTerm)
  | conditional .. => false
  | call _ a => a.isTerm
  | ending p t => p.isTerm && t.isTerm
  | _ => true

/-- An unsigned number stands without brackets. -/
theorem needsBrackets_number {n : Number} (h : n.isUnsigned = true) (op : Operator)
    (strict : Bool) : (number n).needsBrackets op strict = false := by
  have hn := Number.isNegative_of_isUnsigned h
  cases n with
  | rational q => cases h
  | _ => simp [needsBrackets, hn]

/-- A function of terms is a term. -/
theorem isTerm_ofCall {name : String} {es : List Expr} {e : Expr} (h : ofCall name es = .ok e)
    (hes : ∀ a ∈ es, a.isTerm = true) : e.isTerm = true := by
  unfold ofCall at h
  split at h
  · split at h
    · cases h
      simp only [isTerm, Bool.and_eq_true]
      exact ⟨hes _ (by simp), hes _ (by simp)⟩
    · cases h
  · split at h
    · cases h
      rename_i a
      exact hes a (by simp)
    · cases h

end Expr

/-- Whether a token belongs to terms, and decimal numerals have no sign. -/
def Token.SpellsTerm (t : Token) : Prop :=
  t.kind.isLogicalWord = false ∧ (t.kind = .real → (numeralValue t.value).signBit = false)

namespace Grammar

/-- A token of terms that is an operand is a term. -/
theorem isTerm_of_operand? {t : Token} {e : Expr} (ht : t.SpellsTerm) (h : operand? t = some e) :
    e.isTerm = true := by
  unfold operand? at h
  split at h <;> cases h
  · show decide (0 ≤ ((digitsValue t.value.toList : Nat) : Int)) = true
    exact decide_eq_true (Int.natCast_nonneg _)
  · rename_i hk
    show (!(numeralValue t.value).signBit) = true
    rw [ht.2 hk]
    rfl
  all_goals rfl

/-- **Reading tokens of terms hands on that expressions are terms.** -/
theorem inherits_isTerm : Inherits false Token.SpellsTerm False (·.isTerm = true) := by
  have hforeign : ∀ {t : Token} {k : Kind}, t.SpellsTerm → t.kind = k → k.isLogicalWord = false :=
    fun ht hk => hk ▸ ht.1
  have harithmetic : ∀ {op : Operator}, (Kind.operator op).isLogicalWord = false →
      op ∈ arithmeticOperators := by
    intro op h
    revert h
    cases op <;> decide
  refine ⟨isTerm_of_operand?, ?_, ?_, ?_, ?_, ?_, ?_, fun hb => hb.elim⟩
  · rintro t op l r e ht hk - hl hr ⟨⟩
    simp [Expr.isTerm, harithmetic (hforeign ht hk), hl, hr]
  · rintro t l e - - hl ⟨⟩
    simpa [Expr.isTerm, Expr.isHole, arithmeticOperators] using hl
  · intro t l e ht hk
    exact absurd (hforeign ht hk) (by decide)
  · intro t a e _ _ ha h
    exact Expr.isTerm_ofCall h (List.forall_mem_singleton.2 ha)
  · intro t es e _ _ hes h
    exact Expr.isTerm_ofCall h hes
  · intro t ht hk
    exact absurd (hforeign ht hk) (by decide)

end Grammar

namespace Lexicon

variable {l : Lexicon} {e x y : Expr}

namespace Term

/-- A term has no relations, connectives and conditionals. -/
theorem isTerm (hl : l ∈ builtin) (h : l.Term e) : e.isTerm = true := by
  obtain ⟨o, source, ts, ho, hts, hk, he⟩ := h
  have hinherits := inherits_isTerm
  rw [← ho] at hinherits
  have hsign : ∀ t, Token.SpellsTerm (productSign t) := fun _ => ⟨rfl, nofun⟩
  refine inherits_of_parse hinherits hsign (fun t ht => ⟨hk t ht, fun hr => ?_⟩) he
  obtain ⟨position, cs, hfirst⟩ := exists_first?_of_scan hts t ht
  obtain ⟨d, hd, htoken⟩ := List.exists_of_findSome?_eq_some hfirst
  exact Definition.signBit_numeralValue (isSound_of_builtin hl d hd) htoken hr

/-- A term is worded in its lexicon. -/
theorem worded (hl : l ∈ builtin) (h : l.Term e) : l.Worded e := by
  obtain ⟨o, source, ts, -, hts, -, he⟩ := h
  exact worded_of_parse hl hts he

/-- A term is complete. -/
theorem complete (h : l.Term e) : e.Complete := by
  obtain ⟨o, source, ts, -, -, -, he⟩ := h
  exact complete_of_parse he

end Term

end Lexicon

/-! ## Marks at the end -/

/-- **Whether the text of an expression ends with a simple mark.** -/
def Expr.endsInMark : Expr → Bool
  | operation op l r =>
    if r.isHole then !l.needsBrackets .sub false && l.endsInMark
    else !bracketsRight op r && r.endsInMark
  | call name _ => name == "!"
  | _ => false

/-! ## Layouts of terms -/

/-- An operand that closes before an operator closes before one that binds less tightly. -/
theorem Grammar.Layout.ClosesBefore.mono {p : Layout} {op op' : Operator} (h : p.ClosesBefore op)
    (hlevel : op'.level ≤ op.level) : p.ClosesBefore op' := by
  cases p with
  | unit ws e => trivial
  | _ => exact Nat.lt_of_le_of_lt hlevel h

namespace Grammar.Layout.PrintedAs

variable {l : Lexicon} {p q : Layout} {barred : List Char} {a : String} {op : Operator} {t : Token}

/-- Absorbing does not change what is printed. -/
theorem absorb (h : (Layout.joined op t p q).PrintedAs l barred a) :
    (Layout.absorb op t p q).PrintedAs l barred a where
  text := by rw [words_absorb, h.text]
  opens := by
    rw [words_absorb]
    exact h.opens
  recovers := by
    intro cs hcs hhead
    rw [words_absorb]
    exact h.recovers hcs hhead
  written := h.written.absorb

/-- Parentheses are printed where they are needed, and bar nothing. -/
theorem bracketed (hl : l ∈ builtin) (h : p.PrintedAs l ['!', '='] a) (needed : Bool) :
    (p.bracketed needed).PrintedAs l ['!', '='] (Expr.bracketed needed a) := by
  cases needed with
  | false => exact h
  | true => exact (h.parenthesized hl).mono (List.nil_subset _)

end Grammar.Layout.PrintedAs

namespace Lexicon

open Expr

/-- What a text bars behind it, which ends with a simple mark or not. -/
def barredBehind (marked : Bool) : List Char := if marked then ['!', '='] else ['!']

/-- **Whether a layout is that of a term as it is read**: it is printed as the term and stands
wherever the term does. If the term ends with a mark, there is such a layout without the mark. -/
structure Lays (l : Lexicon) (e : Expr) (p : Layout) : Prop extends Placed e p, Reprints e p where
  printed : p.PrintedAs l (barredBehind e.endsInMark) e.ascii
  word : e.needsFactorialBrackets = false → ∃ t, l.OperandWord e.ascii t p.expr
  unmarked : e.endsInMark = true → ∃ (q : Layout) (text : String),
    Placed e q ∧ q.PrintedAs l [] text ∧ text ++ "!" = e.ascii

namespace Lays

variable {l : Lexicon} {e a x y : Expr} {p q : Layout} {t : Token} {op : Operator}

/-- A single word lays out a term that is printed as what it stands for. -/
theorem of_word (h : l.OperandWord e.ascii t a) (hh : a.isHole = false)
    (hr : Reprints e (.unit [t] a)) (hm : e.endsInMark = false) : l.Lays e (.unit [t] a) where
  toPlaced := .of_unit hh
  toReprints := hr
  printed := h.printedAs.mono (List.nil_subset _)
  word := fun _ => ⟨t, h⟩
  unmarked := fun hmark => by
    rw [hm] at hmark
    cases hmark

/-- A call that is no mark is laid out as one operand. -/
theorem of_unit {ws : List Token} (h : (Layout.unit ws a).PrintedAs l [] e.ascii)
    (hh : a.isHole = false) (hr : Reprints e (.unit ws a)) (hm : e.endsInMark = false)
    (hb : e.needsFactorialBrackets = true) : l.Lays e (.unit ws a) where
  toPlaced := .of_unit hh
  toReprints := hr
  printed := h.mono (List.nil_subset _)
  word := fun hn => by
    rw [hb] at hn
    cases hn
  unmarked := fun hmark => by
    rw [hm] at hmark
    cases hmark

/-- Whatever a term ends with, its layout is printed in front of anything but marks and equals
signs. -/
theorem printed_closed (h : l.Lays e p) : p.PrintedAs l ['!', '='] e.ascii := by
  refine h.printed.mono ?_
  cases e.endsInMark <;> decide

/-- Parentheses end no text with a mark. -/
theorem printed_bracketed (hl : l ∈ builtin) (h : l.Lays e p) (needed : Bool) :
    (p.bracketed needed).PrintedAs l (barredBehind (!needed && e.endsInMark))
      (Expr.bracketed needed e.ascii) := by
  cases needed with
  | false => exact h.printed
  | true => exact (h.printed_closed.parenthesized hl).mono (List.nil_subset _)

/-- Without parentheses, the mark of an operand may be left out. -/
theorem unmarked_bracketed (h : l.Lays e p) {needed : Bool}
    (hm : (!needed && e.endsInMark) = true) : ∃ (q : Layout) (text : String), Placed e q ∧
      (q.bracketed needed).PrintedAs l [] text ∧
        text ++ "!" = Expr.bracketed needed e.ascii := by
  cases needed with
  | false => exact h.unmarked hm
  | true => cases hm

/-- **A minus sign is laid out** in front of its operand. -/
theorem negated (hl : l ∈ builtin) (h : l.Lays e p) :
    l.Lays (negated e) (minusIf true (p.bracketed (e.needsBrackets .sub false))) where
  toPlaced := h.toPlaced.negated
  toReprints := h.toReprints.negated h.toPlaced
  printed := (h.printed_bracketed hl _).minus hl
  word := nofun
  unmarked := by
    intro hm
    obtain ⟨q, text, hq, hprinted, htext⟩ := h.unmarked_bracketed hm
    refine ⟨_, "-" ++ text, hq.negated, hprinted.minus hl, ?_⟩
    rw [String.append_assoc, htext]
    rfl

/-- **An operation is laid out** with its operands. -/
theorem operation (hl : l ∈ builtin) (hop : op ∈ arithmeticOperators) (hk : .operator op ∈ l.kinds)
    (hy : y.isHole = false) (hx : l.Lays x p) (h : l.Lays y q) :
    l.Lays (operation op x y) (.absorb op (operatorWord op) (p.bracketed (bracketsLeft op x))
      (q.bracketed (bracketsRight op y))) := by
  have hn := ne_not_of_arithmetic hop
  have hne : op ≠ .eq := by
    rintro rfl
    exact absurd hop (by decide)
  have hbetween := Layout.Between.operatorWord hl hk hn
  rw [if_neg hne] at hbetween
  have hleft := hx.printed_closed.bracketed hl (bracketsLeft op x)
  have hmark : (Expr.operation op x y).endsInMark = (!bracketsRight op y && y.endsInMark) := by
    rw [endsInMark, if_neg (by simp [hy])]
  have htext := ascii_operation (l := x) hn hy
  refine ⟨hx.toPlaced.operation hop hy h.toPlaced,
    .operation hop hy hx.toPlaced h.toPlaced hx.toReprints h.toReprints, ?_, nofun, ?_⟩
  · rw [htext, hmark]
    exact (hleft.joined hn hbetween (h.printed_bracketed hl _)).absorb
  · intro hm
    rw [hmark] at hm
    -- the mark at the end of the right operand is one of the whole text
    obtain ⟨r, text, hr, hprinted, hright⟩ := h.unmarked_bracketed hm
    refine ⟨_, _, hx.toPlaced.operation hop hy hr, (hleft.joined hn hbetween hprinted).absorb, ?_⟩
    rw [htext, String.append_assoc, hright]

/-- **A mark is laid out** behind its operand. -/
theorem factorial {name : String} (hl : l ∈ builtin) (hname : name = "!" ∨ name = "!!")
    (hk : (factorialWord name).kind ∈ l.kinds) (h : l.Lays e p) :
    ∃ ws, l.Lays (call name e) (.unit ws (call name p.expr)) := by
  obtain ⟨ws, hws, hprimary⟩ : ∃ ws, (Layout.unit ws p.expr).PrintedAs l []
      (Expr.bracketed e.needsFactorialBrackets e.ascii) ∧
        ∀ ts, Reads false .primary (dropBlanks ws ++ ts) [p.expr] ts := by
    cases hn : e.needsFactorialBrackets with
    | false =>
      obtain ⟨t, ht⟩ := h.word hn
      exact ⟨[t], ht.printedAs, ht.primary⟩
    | true =>
      rw [← h.reading]
      exact ⟨_, h.printed_closed.parenthesized hl, fun ts => h.printed.written.valid.primary ts⟩
  have hmark := hws.factorial hl hname hk hprimary
  have htext := ascii_mark (a := e) hname
  have hreprints : Reprints (call name e)
      (.unit (ws ++ [factorialWord name]) (call name p.expr)) := by
    refine .of_unit ?_ (fun _ _ => rfl) rfl rfl
    rw [htext, ascii_mark hname, h.mark]
    exact (h.text.bracketed _).append_right name
  refine ⟨_, .of_unit rfl, hreprints, ?_, (fun hn => by cases hn), ?_⟩
  · rw [htext]
    rcases hname with rfl | rfl
    · exact hmark
    · exact hmark.mono (List.nil_subset _)
  · intro hm
    obtain rfl : name = "!" := beq_iff_eq.1 hm
    refine ⟨_, _, .of_unit ?_, hws, htext.symm⟩
    exact h.full.isHole_expr

/-- A function is laid out in front of its argument. -/
theorem application {name : String} (hl : l ∈ builtin) (hname : l.Names .function name)
    (he : name ≠ endingName) (h : l.Lays e p) :
    ∃ ws, l.Lays (call name e) (.unit ws (call name p.expr)) := by
  have hprinted := h.printed_closed.application hl hname he
  rw [h.reading, ← ascii_application hname.not_mark] at hprinted
  refine ⟨_, .of_unit hprinted rfl (.of_unit ?_ (fun _ _ => rfl) rfl rfl) ?_ rfl⟩
  · rw [ascii_application hname.not_mark, ascii_application hname.not_mark]
    exact (h.text.append_left _).append_right _
  · exact beq_eq_false_iff_ne.2 fun hmark => hname.not_mark (.inl hmark)

/-- A price ending is laid out with both arguments. -/
theorem ending (hl : l ∈ builtin) (hname : l.Names .function endingName) (hx : l.Lays x p)
    (hy : l.Lays y q) : ∃ ws, l.Lays (ending x y) (.unit ws (ending p.expr q.expr)) := by
  have hprinted := hx.printed_closed.ending hl hname hy.printed_closed
  rw [hx.reading, hy.reading] at hprinted
  refine ⟨_, .of_unit hprinted rfl (.of_unit ?_ (fun _ _ => rfl) rfl rfl) rfl rfl⟩
  exact (((hx.text.append_left _).append_right _).append hy.text).append_right _

/-- A natural number is laid out as itself. -/
theorem natural (hl : l ∈ builtin) (n : Nat) :
    ∃ p, l.Lays (integer n) p := by
  have hb := fun op strict => needsBrackets_number (n := .integer n)
    (decide_eq_true (Int.natCast_nonneg n)) op strict
  exact ⟨_, .of_word (e := integer n) (operandWord_natural hl n) rfl
    (.of_unit (.refl _) (fun _ _ => rfl) rfl (hb _ _)) rfl⟩

/-- A name is laid out as an operand of its name. -/
theorem exists_name {name : String} (hl : l ∈ builtin)
    (h : l.Names .constant name ∨ l.Names .identifier name) (htext : e.ascii = name)
    (hb : ∀ op strict, e.needsBrackets op strict = false) (hm : e.needsFactorialBrackets = false)
    (hs : e.bareSigns = 0) (hstarts : e.leadsWithSign = false) (hmark : e.endsInMark = false) :
    ∃ p, l.Lays e p := by
  subst htext
  have hreprints : ∀ {a : Expr} {ws : List Token}, a.ascii = e.ascii →
      (∀ op strict, a.needsBrackets op strict = false) → a.needsFactorialBrackets = false →
        Reprints e (.unit ws a) := by
    intro a ws ha hab ham
    refine .of_unit ?_ (fun op strict => (hab op strict).trans (hb op strict).symm)
      (ham.trans hm.symm) ((hb _ _).trans hstarts.symm)
    rw [ha, hs]
    exact .refl _
  rcases operandWord_name hl h with h | h
  · exact ⟨_, .of_word h rfl (hreprints rfl (fun _ _ => rfl) rfl) hmark⟩
  · exact ⟨_, .of_word h rfl (hreprints rfl (fun _ _ => rfl) rfl) hmark⟩

/-- **A double without sign is laid out**, infinity and what is no number as names. -/
theorem exists_double (hl : l ∈ builtin) {x : Double} (hx : x.signBit = false) :
    ∃ p, l.Lays (float x) p := by
  have hunsigned : (Number.float x).isUnsigned = true := by
    show (!x.signBit) = true
    rw [hx]
    rfl
  have hb := fun op strict => needsBrackets_number hunsigned op strict
  have hm : (float x).needsFactorialBrackets = false := by
    simp [needsFactorialBrackets, Number.isNegative_of_isUnsigned hunsigned]
  cases x with
  | nan => exact exists_name hl (names_of_notFinite l hl "NAN" (by decide)) rfl hb hm rfl rfl rfl
  | infinity s =>
    obtain rfl : s = false := hx
    exact exists_name hl (names_of_notFinite l hl "INF" (by decide)) rfl hb hm rfl rfl rfl
  | finite s r hr =>
    obtain rfl : s = false := hx
    have hword := operandWord_real hl (x := .finite false r hr) rfl rfl
    exact ⟨_, .of_word (e := float (.finite false r hr)) hword rfl
      (.of_unit (.refl _) (fun _ _ => rfl) rfl (hb _ _)) rfl⟩

end Lays

/-- **Every term is laid out.** -/
theorem Worded.exists_lays {l : Lexicon} {e : Expr} (hl : l ∈ builtin) (h : l.Worded e)
    (ht : e.isTerm = true) : ∃ p, l.Lays e p := by
  induction h with
  | number n =>
    cases n with
    | integer n =>
      obtain ⟨k, rfl⟩ := Int.eq_ofNat_of_zero_le (of_decide_eq_true ht)
      exact Lays.natural hl k
    | rational q => cases ht
    | float x => exact Lays.exists_double hl (by simpa [isTerm, Number.isUnsigned] using ht)
  | boolean h b =>
    exact ⟨_, .of_word (operandWord_boolean hl h b) rfl
      (.of_unit (.refl _) (fun _ _ => rfl) rfl rfl) rfl⟩
  | constant h => exact Lays.exists_name hl (.inl h) rfl (fun _ _ => rfl) rfl rfl rfl rfl
  | identifier h => exact Lays.exists_name hl (.inr h) rfl (fun _ _ => rfl) rfl rfl rfl rfl
  | literal ha hb =>
    exact ⟨_, .of_word (e := .literal _) (operandWord_tail hl ha hb) rfl
      (.of_unit (.refl _) (fun _ _ => rfl) rfl rfl) rfl⟩
  | operation hk _ _ hy ihx ihy =>
    simp only [isTerm, hy.isHole_eq_false, Bool.false_or, Bool.and_eq_true,
      List.contains_iff_mem] at ht
    obtain ⟨⟨hop, hx⟩, hright⟩ := ht
    obtain ⟨p, hp⟩ := ihx hx
    obtain ⟨q, hq⟩ := ihy hright
    exact ⟨_, hp.operation hl hop hk hy.isHole_eq_false hq⟩
  | negated _ _ ih =>
    simp only [isTerm, Bool.and_eq_true] at ht
    obtain ⟨p, hp⟩ := ih ht.1.2
    exact ⟨_, hp.negated hl⟩
  | denied => cases ht
  | conditional => cases ht
  | factorial hname hk _ ih =>
    obtain ⟨p, hp⟩ := ih ht
    obtain ⟨ws, hws⟩ := hp.factorial hl hname hk
    exact ⟨_, hws⟩
  | application hname he _ ih =>
    obtain ⟨p, hp⟩ := ih ht
    obtain ⟨ws, hws⟩ := hp.application hl hname he
    exact ⟨_, hws⟩
  | ending hname _ _ ihx ihy =>
    simp only [isTerm, Bool.and_eq_true] at ht
    obtain ⟨p, hp⟩ := ihx ht.1
    obtain ⟨q, hq⟩ := ihy ht.2
    obtain ⟨ws, hws⟩ := hp.ending hl hname hq
    exact ⟨_, hws⟩

/-! ## Relations -/

variable {l : Lexicon} {x y : Expr} {p q : Layout} {r : Operator}

/-- A relation stands between two sides. -/
theorem ne_not_of_isRelation (h : r.isRelation = true) : r ≠ .not := by
  rintro rfl
  cases h

/-- The sides of a relation keep together. -/
theorem fits_relation {t : Token} (hr : r.isRelation = true) (hx : Placed x p) (hy : Placed y q)
    (needed : Bool) : (Layout.joined r t p (q.bracketed needed)).Fits 0 := by
  have hlevel : r.level = 2 ∧ r.rightLevel = 3 := by
    revert hr
    cases r <;> decide
  -- terms keep together beside sums, which bind more tightly than relations
  have hcloses : ∀ {e : Expr} {p : Layout}, Placed e p → p.ClosesBefore .add :=
    fun h => h.closes .add (by decide) rfl
  have hfits : p.Fits Operator.add.level := hx.fits.at (standsAt_of_closesBefore (hcloses hx))
  refine ⟨Nat.zero_le _, .mono ?_ hfits, (hcloses hx).mono ?_, ?_⟩
  · rw [hlevel.1]
    decide
  · rw [hlevel.1]
    decide
  · rw [hlevel.2]
    exact hy.fits.bracketed needed (.inr (standsAt_of_closesBefore (hcloses hy)))

/-- **A relation is read between its sides**, whatever stands for its symbol. -/
theorem reread_between {o : Options} {r' : Operator} {t : Token} {barred : List Char}
    {text symbol : String} (hl : l ∈ builtin) (ho : o.simplify = false) (hr : r'.isRelation = true)
    (hx : Placed x p) (hp : p.PrintedAs l barred text) (ht : Layout.Between l barred r' t symbol)
    (hq : l.Lays y q) {e : Expr} (he : e.Complete)
    (htext : text ++ symbol ++ Expr.bracketed (bracketsRight r y) y.ascii = e.ascii) :
    l.reread o e = .ok (.operation r' p.reading q.reading) := by
  have hprinted := hp.joined (ne_not_of_isRelation hr) ht (hq.printed_bracketed hl (bracketsRight r y))
  rw [htext] at hprinted
  rw [reread_of_printedAs he ho hprinted,
    Layout.reading_eq_expr (fits_relation hr hx hq.toPlaced _), hx.reading, hq.reading]
  show Except.ok (operation r' p.expr (q.bracketed _).expr) = _
  rw [hq.fits.expr_bracketed]

/-- **Relations between terms are read as themselves**, between what their sides are read as; only
behind a mark, an equals sign is read as an inequality of what the mark stands on. The sides are
printed as before if they have no bare signs, and only then. -/
theorem reread_relation {o : Options} (ho : o.simplify = false) (hx : logic.Term x)
    (hy : logic.Term y) (hr : r.isRelation = true) :
    ∃ x' y', logic.reread o x = .ok x' ∧ logic.reread o y = .ok y' ∧
      (x'.ascii = x.ascii ↔ x.bareSigns = 0) ∧ (y'.ascii = y.ascii ↔ y.bareSigns = 0) ∧
      (¬(r = .eq ∧ x.endsInMark = true) →
        logic.reread o (operation r x y) = .ok (operation r x' y')) ∧
      (r = .eq → x.endsInMark = true → ∃ text u, text ++ "!" = x.ascii ∧
        (logic.tokenize text).bind (parse o) = .ok u ∧
          logic.reread o (operation r x y) = .ok (operation .ne u y')) := by
  have hl : logic ∈ builtin := by decide
  obtain ⟨p, hp⟩ := (hx.worded hl).exists_lays hl (hx.isTerm hl)
  obtain ⟨q, hq⟩ := (hy.worded hl).exists_lays hl (hy.isTerm hl)
  have hn := ne_not_of_isRelation hr
  have hk : .operator r ∈ logic.kinds := by
    revert hr
    cases r <;> decide
  have hcomplete : (operation r x y).Complete := .operation hn hx.complete hy.complete
  have htext := ascii_operation (l := x) hn hy.complete.isHole_eq_false
  have hleft : bracketsLeft r x = false := by
    cases r <;> first | rfl | cases hr
  rw [hleft] at htext
  have hbetween := Layout.Between.operatorWord hl hk hn
  refine ⟨p.reading, q.reading, reread_of_printedAs hx.complete ho hp.printed,
    reread_of_printedAs hy.complete ho hq.printed, ?_, ?_, ?_, ?_⟩
  · rw [hp.reading]
    exact hp.text.eq_iff
  · rw [hq.reading]
    exact hq.text.eq_iff
  · intro hm
    refine reread_between hl ho hr hp.toPlaced (hp.printed.mono ?_) hbetween hq hcomplete htext.symm
    by_cases heq : r = .eq
    · rw [if_pos heq, Bool.eq_false_iff.2 fun hmark => hm ⟨heq, hmark⟩]
      decide
    · rw [if_neg heq]
      cases x.endsInMark <;> decide
  · rintro rfl hm
    obtain ⟨u, text, hu, hprinted, hmark⟩ := hp.unmarked hm
    obtain ⟨ts, hts, hparse⟩ := hprinted.parse
    refine ⟨text, u.reading, hmark, ?_, ?_⟩
    · rw [hts]
      exact hparse o ho
    · refine reread_between (r := .eq) hl ho rfl hu hprinted (.unequalWord hl hk) hq hcomplete ?_
      have hsymbol : text ++ "!" ++ "=" = text ++ "!=" := by
        rw [String.append_assoc]
        rfl
      rw [htext, ← hmark]
      show _ = text ++ "!" ++ "=" ++ _
      rw [hsymbol]

/-- A mark in front of any other relation is kept. -/
theorem reread_relation_ge :
    let x : Expr := operation .mul (integer 2) (call "!" (identifier "x"))
    let y : Expr := negated (operation .add (identifier "y") (integer 1))
    let o : Options := ⟨true, false, false⟩
    logic.Term x ∧ logic.Term y ∧ (operation .ge x y).ascii? = .ok "2*x!>=(-(y+1))" ∧
      logic.reread o (operation .ge x y) = .ok (operation .ge x y) := by
  intro x y o
  have hx : logic.Term x :=
    ⟨o, "2x!", (logic.tokenize "2x!").toOption.getD [], rfl, by decide +kernel, by decide +kernel,
      by decide +kernel⟩
  have hy : logic.Term y :=
    ⟨o, "-(y + 1)", (logic.tokenize "-(y + 1)").toOption.getD [], rfl, by decide +kernel,
      by decide +kernel, by decide +kernel⟩
  have hread : logic.reread o x = .ok x ∧ logic.reread o y = .ok y := by decide +kernel
  obtain ⟨x', y', hx', hy', -, -, hrelation, -⟩ :=
    reread_relation (o := o) (r := .ge) rfl hx hy (by decide)
  cases hx'.symm.trans hread.1
  cases hy'.symm.trans hread.2
  exact ⟨hx, hy, by decide +kernel, hrelation (by decide)⟩

/-- **A mark in front of an equals sign makes an inequality**, and a bare sign gets brackets. -/
theorem reread_relation_mark :
    let o : Options := ⟨true, false, false⟩
    let a : Expr := identifier "a"
    let b : Expr := identifier "b"
    let x : Expr := call "!" a
    let y : Expr := operation .add a (operation .add (negated b) (integer 1))
    let y' : Expr := operation .add (operation .add a (negated b)) (integer 1)
    (logic.tokenize "a!").bind (parse o) = .ok x ∧
      (logic.tokenize "a+(-b+1)").bind (parse o) = .ok y ∧
        (operation .eq x y).ascii? = .ok "a!=a+-b+1" ∧
          logic.reread o (operation .eq x y) = .ok (operation .ne a y') ∧
            y.ascii = "a+-b+1" ∧ y'.ascii = "a+(-b)+1" := by
  decide +kernel

end Lexicon

end Formula
