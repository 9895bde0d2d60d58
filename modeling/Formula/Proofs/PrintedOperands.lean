/-
# Operands before marks and powers

A mark and the operator of a power bind more tightly than a minus sign in front of their operand, so
the printer sets negative operands in parentheses. It tells them by their value, but a negative zero
is not below zero and still starts with a minus sign. **Negative zero is the only operand that loses
the mark behind it; negative zero and a mark behind it lose the power** (`reread_operand`).
-/
import Formula.Proofs.Readable

namespace Formula

open Grammar

namespace Expr

/-- The double that starts with a minus sign without being negative. -/
def negativeZero : Double := .finite true 0 rankLimit_pos

/-- What stands behind the minus sign of an operand that starts with one without parentheses. -/
def behindSign? : Expr → Option Expr
  | number (.float x) => if x = negativeZero then some (float .zero) else none
  | call name (number (.float x)) =>
    if x = negativeZero ∧ (name = "!" ∨ name = "!!") then some (call name (float .zero)) else none
  | _ => none

/-- Operations stand in parentheses in front of a power. -/
theorem needsBrackets_operation_pow (op : Operator) (l r : Expr) :
    (operation op l r).needsBrackets .pow true = true := by
  cases op <;> simp [needsBrackets, Operator.level]

/-- Negative zero starts with a minus sign. -/
theorem ascii_negativeZero : (float negativeZero).ascii = "-" ++ (float .zero).ascii :=
  Double.literalText_negative 0 rankLimit_pos

end Expr

namespace Lexicon

open Expr

variable {l : Lexicon} {e a : Expr} {name : String}

/-! ## Operands and what they are read as -/

/-- **Whether an operand is read as `a`** wherever it is printed: by itself, and without parentheses
in front of a mark and of a power, unless it starts with a minus sign there. -/
structure Carries (l : Lexicon) (e a : Expr) : Prop where
  alone : ∃ p : Layout, p.PrintedAs l ['!', '='] e.ascii ∧ p.reading = a
  marked : e.needsFactorialBrackets = false → e.behindSign? = none →
    ∃ ws, (Layout.unit ws a).PrintedAs l [] e.ascii ∧
      ∀ ts, Reads false .primary (dropBlanks ws ++ ts) [a] ts
  raised : e.needsBrackets .pow true = false → e.behindSign? = none →
    ∃ ws, (Layout.unit ws a).PrintedAs l ['!', '='] e.ascii

/-- A single word carries its operand. -/
theorem OperandWord.carries {t : Token} (h : l.OperandWord e.ascii t a) : l.Carries e a where
  alone := ⟨_, h.printedAs.mono (List.nil_subset _), rfl⟩
  marked := fun _ _ => ⟨[t], h.printedAs, h.primary⟩
  raised := fun _ _ => ⟨[t], h.printedAs.mono (List.nil_subset _)⟩

/-- An operand that stands in parentheses wherever it starts with no sign carries what its text
reads as. -/
theorem Rereads.exists_carries (h : l.Rereads e.ascii)
    (hmark : e.needsFactorialBrackets = true ∨ e.behindSign? ≠ none)
    (hpower : e.needsBrackets .pow true = true ∨ e.behindSign? ≠ none) : ∃ a, l.Carries e a := by
  obtain ⟨p, hp⟩ := h.exists_printedAs
  refine ⟨p.reading, ⟨p, hp, rfl⟩, fun hm hs => ?_, fun hm hs => ?_⟩
  · rw [hm] at hmark
    exact absurd hs (hmark.resolve_left Bool.false_ne_true)
  · rw [hm] at hpower
    exact absurd hs (hpower.resolve_left Bool.false_ne_true)

/-- A call is an operand of its own, which stands in parentheses before a mark. -/
theorem carries_of_unit {ws : List Token} (h : (Layout.unit ws a).PrintedAs l ['!', '='] e.ascii)
    (hmark : e.needsFactorialBrackets = true) : l.Carries e a where
  alone := ⟨_, h, rfl⟩
  marked := fun hm _ => by
    rw [hmark] at hm
    cases hm
  raised := fun _ _ => ⟨ws, h⟩

/-- A name that stands for an operand carries that operand. -/
theorem exists_carries_name (hl : l ∈ builtin) (he : e.ascii = name)
    (h : l.Names .constant name ∨ l.Names .identifier name) : ∃ a, l.Carries e a := by
  subst he
  rcases operandWord_name hl h with h | h
  · exact ⟨_, h.carries⟩
  · exact ⟨_, h.carries⟩

/-! ## Numbers -/

/-- A number that counts as negative stands in parentheses. -/
theorem exists_carries_of_isNegative (hl : l ∈ builtin) {n : Number} (hn : n.isNegative = true) :
    ∃ a, l.Carries (.number n) a := by
  refine (rereads_number hl n).exists_carries (.inl ?_) (.inl ?_)
  · simp [needsFactorialBrackets, hn]
  · simp [needsBrackets, hn]

/-- An integer that is not negative carries itself. -/
theorem carries_integer (hl : l ∈ builtin) {n : Int} (hn : 0 ≤ n) :
    l.Carries (integer n) (integer n) := by
  obtain ⟨k, rfl⟩ := Int.eq_ofNat_of_zero_le hn
  exact (operandWord_natural hl k).carries

/-- **A rational carries a quotient**, or its numerator when it is whole. -/
theorem exists_carries_rational (hl : l ∈ builtin) (q : Rat) : ∃ a, l.Carries (rational q) a := by
  have hmark : (rational q).needsFactorialBrackets = true := by simp [needsFactorialBrackets]
  by_cases hd : q.den = 1
  · by_cases hn : q.num < 0
    · exact exists_carries_of_isNegative hl (isNegative_of_den_eq_one hd hn)
    · obtain ⟨k, hk⟩ := Int.eq_ofNat_of_zero_le (Int.not_lt.1 hn)
      have htext : (rational q).ascii = intText k := by
        show ratText q = intText k
        rw [ratText, if_pos hd, hk]
      have hword := operandWord_natural hl k
      rw [← htext] at hword
      exact ⟨_, carries_of_unit (hword.printedAs.mono (List.nil_subset _)) hmark⟩
  · exact (rereads_rational hl q).exists_carries (.inl hmark)
      (.inl (isLoose_rational hd .pow (by decide) true))

/-- **A double carries an operand**: itself, or the name of an infinity. -/
theorem exists_carries_double (hl : l ∈ builtin) (x : Double) : ∃ a, l.Carries (float x) a := by
  match x with
  | .nan => exact exists_carries_name hl rfl (names_of_notFinite l hl "NAN" (by decide))
  | .infinity false => exact exists_carries_name hl rfl (names_of_notFinite l hl "INF" (by decide))
  | .infinity true => exact exists_carries_of_isNegative hl (by decide)
  | .finite false r hr =>
    have hword := operandWord_real hl (x := .finite false r hr) rfl rfl
    exact ⟨_, OperandWord.carries (e := float (.finite false r hr)) hword⟩
  | .finite true 0 hr =>
    have hsign : (float (.finite true 0 hr)).behindSign? ≠ none := nofun
    exact (rereads_number hl (.float (.finite true 0 hr))).exists_carries (.inr hsign) (.inr hsign)
  | .finite true (r + 1) hr =>
    refine exists_carries_of_isNegative hl ?_
    show decide (-((r + 1 : Nat) : Int) < 0) = true
    exact decide_eq_true (by omega)

/-! ## Expressions -/

/-- The operand of a mark is printed with its parentheses as one unit, unless it is negative
zero. -/
theorem Carries.exists_unit (hl : l ∈ builtin) (h : l.Carries e a)
    (hs : e.needsFactorialBrackets = false → e.behindSign? = none) :
    ∃ ws, (Layout.unit ws a).PrintedAs l [] (bracketed e.needsFactorialBrackets e.ascii) ∧
      ∀ ts, Reads false .primary (dropBlanks ws ++ ts) [a] ts := by
  cases hn : e.needsFactorialBrackets with
  | false => exact h.marked hn (hs hn)
  | true =>
    obtain ⟨p, hp, rfl⟩ := h.alone
    exact ⟨_, hp.parenthesized hl, fun ts => hp.written.valid.primary ts⟩

/-- An operand without parentheses in front of a mark starts with a minus sign only if it is
negative zero. -/
theorem eq_negativeZero (hn : e.needsFactorialBrackets = false) (hs : e.behindSign? ≠ none) :
    e = float negativeZero := by
  cases e with
  | number n =>
    cases n with
    | float x =>
      by_cases hx : x = negativeZero
      · rw [hx]
      · exact absurd (if_neg hx) hs
    | _ => exact absurd rfl hs
  | call => cases hn
  | _ => exact absurd rfl hs

/-- **A mark is kept by its operand**, unless that is negative zero. -/
theorem Carries.mark (hl : l ∈ builtin) (hname : name = "!" ∨ name = "!!")
    (hk : (factorialWord name).kind ∈ l.kinds) (h : l.Carries e a)
    (hz : e ≠ float negativeZero) : ∃ ws,
      (Layout.unit ws (call name a)).PrintedAs l ['!', '='] (call name e).ascii := by
  have hs : e.needsFactorialBrackets = false → e.behindSign? = none := by
    intro hn
    by_contra hs
    exact hz (eq_negativeZero hn hs)
  obtain ⟨ws, hp, hprimary⟩ := h.exists_unit hl hs
  have hmark := hp.factorial hl hname hk hprimary
  rw [← ascii_mark hname] at hmark
  exact ⟨_, hmark.mono (by split <;> simp)⟩

/-- **Behind negative zero, a mark belongs to the zero.** -/
theorem printedAs_markedZero (hl : l ∈ builtin) (hname : name = "!" ∨ name = "!!")
    (hk : (factorialWord name).kind ∈ l.kinds) :
    ∃ ws, (Layout.unit ws (call name (float .zero))).PrintedAs l ['!', '=']
        (call name (float .zero)).ascii ∧
      (call name (float negativeZero)).ascii = "-" ++ (call name (float .zero)).ascii := by
  have hzero := operandWord_real hl (x := .zero) rfl rfl
  obtain ⟨ws, hws⟩ := (OperandWord.carries (e := float .zero) hzero).mark hl hname hk (by decide)
  refine ⟨ws, hws, ?_⟩
  rw [ascii_mark hname, ascii_mark hname, ascii_negativeZero, ← String.append_assoc]
  rfl

/-- **Every worded expression carries an operand.** -/
theorem Worded.exists_carries (hl : l ∈ builtin) (h : l.Worded e) : ∃ a, l.Carries e a := by
  have hrereads := h.rereads hl
  induction h with
  | number n =>
    cases n with
    | integer n =>
      by_cases hn : n < 0
      · exact exists_carries_of_isNegative hl (decide_eq_true hn)
      · exact ⟨_, carries_integer hl (Int.not_lt.1 hn)⟩
    | rational q => exact exists_carries_rational hl q
    | float x => exact exists_carries_double hl x
  | boolean h b => exact ⟨_, (operandWord_boolean hl h b).carries⟩
  | constant h => exact exists_carries_name hl rfl (.inl h)
  | identifier h => exact exists_carries_name hl rfl (.inr h)
  | literal ha hb => exact ⟨_, OperandWord.carries (e := .literal _) (operandWord_tail hl ha hb)⟩
  | operation | negated | denied =>
    exact hrereads.exists_carries (.inl rfl) (.inl (needsBrackets_operation_pow _ _ _))
  | conditional => exact hrereads.exists_carries (.inl rfl) (.inl rfl)
  | @factorial name x hname hk hx ih =>
    by_cases hz : x = float negativeZero
    · subst hz
      have hsign : (call name (float negativeZero)).behindSign? ≠ none := by
        simp [behindSign?, hname]
      exact hrereads.exists_carries (.inl rfl) (.inr hsign)
    · obtain ⟨a, ha⟩ := ih (hx.rereads hl)
      obtain ⟨ws, hws⟩ := ha.mark hl hname hk hz
      exact ⟨_, carries_of_unit hws rfl⟩
  | @application name x hname he hx =>
    obtain ⟨p, hp⟩ := (hx.rereads hl).exists_printedAs
    have happly := hp.application hl hname he
    rw [← ascii_application hname.not_mark] at happly
    exact ⟨_, carries_of_unit (happly.mono (List.nil_subset _)) rfl⟩
  | ending hname hx hy =>
    obtain ⟨p, hp⟩ := (hx.rereads hl).exists_printedAs
    obtain ⟨q, hq⟩ := (hy.rereads hl).exists_printedAs
    exact ⟨_, carries_of_unit ((hp.ending hl hname hq).mono (List.nil_subset _)) rfl⟩

/-! ## Powers -/

/-- The text of a power of a letter. -/
theorem ascii_power (e : Expr) (name : String) : (operation .pow e (identifier name)).ascii
    = bracketed (e.needsBrackets .pow true) e.ascii ++ "^" ++ name := rfl

/-- **The operator of a power behind one unit** is printed and read. -/
theorem exists_printedAs_power (hl : l ∈ builtin) (hop : .operator .pow ∈ l.kinds)
    (hname : l.Names .identifier name) {ws : List Token} {text : String}
    (h : (Layout.unit ws a).PrintedAs l ['!', '='] text) :
    ∃ p : Layout, p.PrintedAs l [] (text ++ "^" ++ name) ∧
      p.reading = operation .pow a (identifier name) ∧
      (Layout.signed .minus (operatorWord .sub) p).reading
        = negated (operation .pow a (identifier name)) := by
  have hexponent : l.OperandWord name (plainWord .identifier name) (identifier name) :=
    ⟨rfl, hname.knows hl fun _ hcs => Boundary.endsWord hcs, fun _ hcs => hcs, hname.opens, rfl⟩
  have hbetween := Layout.Between.operatorWord hl hop (by decide)
  exact ⟨_, h.joined (by decide) hbetween hexponent.printedAs, rfl, rfl⟩

/-- **A power keeps its base**, unless that starts with a minus sign. -/
theorem Carries.power (hl : l ∈ builtin) (hop : .operator .pow ∈ l.kinds)
    (hname : l.Names .identifier name) (h : l.Carries e a) (hs : e.behindSign? = none) :
    ∃ p : Layout, p.PrintedAs l [] (operation .pow e (identifier name)).ascii ∧
      p.reading = operation .pow a (identifier name) := by
  obtain ⟨ws, hws⟩ : ∃ ws, (Layout.unit ws a).PrintedAs l ['!', '=']
      (bracketed (e.needsBrackets .pow true) e.ascii) := by
    cases hn : e.needsBrackets .pow true with
    | false => exact h.raised hn hs
    | true =>
      obtain ⟨p, hp, rfl⟩ := h.alone
      exact ⟨_, (hp.parenthesized hl).mono (List.nil_subset _)⟩
  obtain ⟨p, hp, hread, -⟩ := exists_printedAs_power hl hop hname hws
  rw [ascii_power]
  exact ⟨p, hp, hread⟩

/-- What stands behind the sign of an operand is one unit, and the operand has no parentheses in
front of a power. -/
theorem exists_printedAs_behindSign (hl : l ∈ builtin)
    (hmark : ∀ name, name = "!" ∨ name = "!!" → (factorialWord name).kind ∈ l.kinds)
    (hs : e.behindSign? = some a) :
    e.ascii = "-" ++ a.ascii ∧ e.needsBrackets .pow true = false ∧
      ∃ ws, (Layout.unit ws a).PrintedAs l ['!', '='] a.ascii := by
  unfold behindSign? at hs
  split at hs
  · split_ifs at hs with hx
    cases hs
    subst hx
    have hzero := operandWord_real hl (x := .zero) rfl rfl
    exact ⟨ascii_negativeZero, by decide, _, hzero.printedAs.mono (List.nil_subset _)⟩
  · split_ifs at hs with hx
    obtain ⟨rfl, hname⟩ := hx
    cases hs
    obtain ⟨ws, hws, htext⟩ := printedAs_markedZero hl hname (hmark _ hname)
    exact ⟨htext, rfl, ws, hws⟩
  · cases hs

/-- **Behind an operand that starts with a minus sign, a power belongs to what stands behind the
sign.** -/
theorem exists_printedAs_behindSign_power (hl : l ∈ builtin) (hop : .operator .pow ∈ l.kinds)
    (hmark : ∀ name, name = "!" ∨ name = "!!" → (factorialWord name).kind ∈ l.kinds)
    (hname : l.Names .identifier name) (hs : e.behindSign? = some a) :
    ∃ p : Layout, p.PrintedAs l [] (operation .pow e (identifier name)).ascii ∧
      p.reading = negated (operation .pow a (identifier name)) := by
  obtain ⟨htext, hbare, ws, hws⟩ := exists_printedAs_behindSign hl hmark hs
  obtain ⟨p, hp, -, hread⟩ := exists_printedAs_power hl hop hname hws
  refine ⟨_, ?_, hread⟩
  rw [ascii_power, hbare, htext]
  have hminus := hp.minus hl
  rwa [← String.append_assoc, ← String.append_assoc] at hminus

/-! ## The main result -/

/-- **An operand keeps the mark or the power behind it**, which are read behind what the operand
itself is read as; only negative zero loses both, and a mark behind it the power. -/
theorem reread_operand {o o' : Options} {source : String} {ts : List Token}
    (ho : o'.simplify = false) (hts : standard.tokenize source = .ok ts) (he : parse o ts = .ok e)
    (hname : standard.Names .identifier name) :
    ∃ a, standard.reread o' e = .ok a ∧
      (∀ mark ∈ ["!", "!!"], standard.reread o' (call mark e) = .ok
        (if e = float negativeZero then negated (call mark (float .zero)) else call mark a)) ∧
      standard.reread o' (operation .pow e (identifier name)) = .ok
        (match e.behindSign? with
          | some b => negated (operation .pow b (identifier name))
          | none => operation .pow a (identifier name)) := by
  have hl : standard ∈ builtin := by decide
  have hop : Kind.operator .pow ∈ standard.kinds := by decide
  have hmarks : ∀ name, name = "!" ∨ name = "!!" → (factorialWord name).kind ∈ standard.kinds := by
    rintro name (rfl | rfl) <;> decide
  have hcomplete := complete_of_parse he
  obtain ⟨a, ha⟩ := (worded_of_parse hl hts he).exists_carries hl
  refine ⟨a, ?_, ?_, ?_⟩
  · obtain ⟨p, hp, rfl⟩ := ha.alone
    exact reread_of_printedAs hcomplete ho hp
  · intro mark hmem
    have hmark : mark = "!" ∨ mark = "!!" := by simpa using hmem
    have hcall : (call mark e).Complete := by
      refine .call ?_ hcomplete
      rcases hmark with rfl | rfl <;> decide
    by_cases hz : e = float negativeZero
    · subst hz
      obtain ⟨ws, hws, htext⟩ := printedAs_markedZero hl hmark (hmarks mark hmark)
      have hminus := hws.minus hl
      rw [← htext] at hminus
      rw [if_pos rfl]
      exact reread_of_printedAs hcall ho hminus
    · obtain ⟨ws, hws⟩ := ha.mark hl hmark (hmarks mark hmark) hz
      rw [if_neg hz]
      exact reread_of_printedAs hcall ho hws
  · have hpower : (operation .pow e (identifier name)).Complete :=
      .operation (by decide) hcomplete (.identifier name)
    split
    · rename_i b hb
      obtain ⟨p, hp, hread⟩ := exists_printedAs_behindSign_power hl hop hmarks hname hb
      rw [← hread]
      exact reread_of_printedAs hpower ho hp
    · rename_i hb
      obtain ⟨p, hp, hread⟩ := ha.power hl hop hname hb
      rw [← hread]
      exact reread_of_printedAs hpower ho hp

/-- A simplified quotient and an exponent stand in parentheses. -/
theorem reread_operand_quotient :
    let ts := (standard.tokenize "4/6").toOption.getD []
    let e : Expr := rational (2 / 3)
    let a : Expr := operation .div (integer 2) (integer 3)
    parse ⟨true, true, false⟩ ts = .ok e ∧
      standard.reread ⟨true, false, false⟩ e = .ok a ∧
      standard.reread ⟨true, false, false⟩ (call "!" e) = .ok (call "!" a) ∧
      standard.reread ⟨true, false, false⟩ (operation .pow e (identifier "x"))
        = .ok (operation .pow a (identifier "x")) := by
  intro ts e a
  have hts : standard.tokenize "4/6" = .ok ts := by decide +kernel
  have he : parse ⟨true, true, false⟩ ts = .ok e := by decide +kernel
  have hx : standard.Names .identifier "x" :=
    ⟨Pattern.isWord_of_isWordText (by decide), by decide +kernel⟩
  have ho : Options.simplify ⟨true, false, false⟩ = false := rfl
  obtain ⟨b, hread, hmark, hpower⟩ := reread_operand ho hts he hx
  have ha : standard.reread ⟨true, false, false⟩ e = .ok a := by decide +kernel
  obtain rfl := Except.ok.inj (hread.symm.trans ha)
  exact ⟨he, ha, hmark "!" (by decide), hpower⟩

/-- **Negative zero loses the mark and the power behind it.** -/
theorem reread_negativeZero :
    let o : Options := ⟨true, false, false⟩
    let x : Expr := identifier "x"
    ((standard.tokenize "0.0*(-1)").bind (parse ⟨true, true, false⟩)) = .ok (float negativeZero) ∧
      (call "!" (float negativeZero)).ascii? = .ok "-0.0!" ∧
      standard.reread o (call "!" (float negativeZero)) = .ok (negated (call "!" (float .zero))) ∧
      standard.reread o (operation .pow (float negativeZero) x)
        = .ok (negated (operation .pow (float .zero) x)) := by
  decide +kernel

end Lexicon

end Formula
