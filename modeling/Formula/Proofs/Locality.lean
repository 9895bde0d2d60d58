/-
# Derivations within longer texts

What the grammar reads is a piece of text in itself: its brackets are balanced, and no terminator in
it counts outside (`Reads.consumes`). Reading a piece does not depend on what comes behind it, when
that is no operator and no factorial (`Reads.extend`), although the choice between the spellings of
a conditional looks ahead without bound.
-/
import Formula.Proofs.Rereading

namespace Formula

namespace Grammar

open Outcome

/-! ## Pieces of text -/

/-- Whether a token list goes on to a rest by a piece that is balanced and has no terminator that
counts, inside at least `n` brackets. -/
def Consumes (n : Nat) (ts rest : List Token) : Prop :=
  ∃ ws, ts = ws ++ rest ∧ Balanced ws ∧ Quiet n ws

/-- Whether a kind of token is no bracket and no terminator. -/
def isPlain : Kind → Bool
  | .opening _ | .closing _ | .terminator => false
  | _ => true

/-- A token of a plain kind is plain. -/
theorem isPlain_of_eq {t : Token} {k : Kind} (ht : t.kind = k) (hk : isPlain k = true) :
    isPlain t.kind = true := by
  rw [ht, hk]

namespace Consumes

variable {m n : Nat} {ts us rest : List Token}

/-- Nothing is consumed. -/
theorem refl : Consumes n ts ts := ⟨[], rfl, .nil, fun _ _ _ => rfl⟩

/-- Pieces one after the other are consumed. -/
theorem trans (h : Consumes n ts us) (h' : Consumes n us rest) : Consumes n ts rest := by
  obtain ⟨vs, rfl, hb, hq⟩ := h
  obtain ⟨ws, rfl, hb', hq'⟩ := h'
  exact ⟨vs ++ ws, (List.append_assoc _ _ _).symm, hb.append hb', hq.append hq'⟩

/-- Inside more brackets, fewer terminators count. -/
theorem mono (h : Consumes m ts rest) (hmn : m ≤ n) : Consumes n ts rest := by
  obtain ⟨ws, hts, hb, hq⟩ := h
  exact ⟨ws, hts, hb, fun depth hd => hq depth (Nat.le_trans hmn hd)⟩

/-- A token that is no bracket and no terminator is consumed in front. -/
theorem cons {t : Token} (ht : isPlain t.kind = true) (h : Consumes n ts rest) :
    Consumes n (t :: ts) rest := by
  have hb : ∀ b, t.kind ≠ .opening b ∧ t.kind ≠ .closing b := by
    intro b
    constructor <;> (intro hk; rw [hk] at ht; cases ht)
  have hn : t.kind = .terminator → 2 ≤ n := by
    intro hk
    rw [hk] at ht
    cases ht
  exact trans ⟨[t], rfl, Balanced.nil.cons hb, .single hb hn⟩ h

/-- A terminator is consumed inside two brackets. -/
theorem terminator {t : Token} (ht : t.kind = .terminator) (h : Consumes 2 ts rest) :
    Consumes 2 (t :: ts) rest := by
  have hb : ∀ b, t.kind ≠ .opening b ∧ t.kind ≠ .closing b := by simp [ht]
  exact trans ⟨[t], rfl, Balanced.nil.cons hb, .single hb fun _ => Nat.le_refl 2⟩ h

/-- What is consumed inside two brackets is consumed with brackets around it. -/
theorem wrap {o c : Token} {b : Bracket} (ho : o.kind = .opening b) (hc : c.kind = .closing b)
    (h : Consumes 2 ts (c :: rest)) : Consumes 1 (o :: ts) rest := by
  obtain ⟨ws, rfl, hb, hq⟩ := h
  refine ⟨o :: (ws ++ [c]), by simp, hb.wrap ho hc, hq.wrap ho hc⟩

/-- Leading terminators are consumed inside two brackets. -/
theorem afterTerminators : ∀ ts, Consumes 2 ts (afterTerminators ts)
  | [] => refl
  | t :: ts => by
    rw [Grammar.afterTerminators, List.dropWhile_cons]
    by_cases ht : t.kind = .terminator
    · rw [if_pos (by simp [ht])]
      exact terminator ht (afterTerminators ts)
    · rw [if_neg (by simpa using ht)]
      exact refl

/-- A leading `return` is consumed. -/
theorem afterReturn (ts : List Token) : Consumes n ts (afterReturn ts) := by
  cases ts with
  | nil => exact refl
  | cons t ts =>
    rw [Outcome.afterReturn]
    split
    · rename_i ht
      exact cons (isPlain_of_eq ht rfl) refl
    · exact refl

end Consumes

/-! ## What is read is a piece of text -/

/-- The brackets inside which the terminators count that a nonterminal reads. -/
def Nonterminal.brackets : Nonterminal → Nat
  | .arguments | .moreArguments => 2
  | _ => 1

/-- Whether a token list starts with the word that a nonterminal takes for granted. -/
def Nonterminal.Opens : Nonterminal → List Token → Prop
  | .application, ts => startsWith .function ts = true
  | .alternatives, ts => startsWith .ifWord ts = true
  | _, _ => True

variable {s : Bool} {k : Nonterminal} {ts rest us : List Token} {es : List Expr}

/-- A list that starts with a kind of token. -/
theorem startsWith_cons {kind : Kind} {t : Token} :
    startsWith kind (t :: ts) = true ↔ t.kind = kind := beq_iff_eq

/-- **What is read is a piece of text.** -/
theorem Reads.consumes (h : Reads s k ts es rest) (ho : k.Opens ts) :
    Consumes k.brackets ts rest := by
  -- one rule after the other: a token that is no bracket, or what stands between two brackets
  induction h with
  | expression _ _ ihu ihc => exact (ihu trivial).trans (ihc trivial)
  | chainEnd => exact .refl
  | @chainStep _ _ t _ _ _ _ _ _ _ hop _ _ _ _ ihr ihc =>
    have ht : isPlain t.kind = true := by
      cases hk : t.kind <;> first | rfl | (rw [hk] at hop; cases hop)
    exact .cons ht ((ihr trivial).trans (ihc trivial))
  | plus hk _ ih => exact .cons (isPlain_of_eq hk rfl) (ih trivial)
  | minus hk _ _ ih => exact .cons (isPlain_of_eq hk rfl) (ih trivial)
  | not hk _ _ ih => exact .cons (isPlain_of_eq hk rfl) (ih trivial)
  | unsigned _ _ ih => exact ih trivial
  | postfixed _ _ ihp ihf => exact (ihp trivial).trans (ihf trivial)
  | factorialsEnd => exact .refl
  | @factorialsStep _ t _ _ _ _ hf _ _ ih =>
    have ht : isPlain t.kind = true := by
      cases hk : t.kind <;> first | rfl | (rw [hk] at hf; cases hf)
    exact .cons ht (ih trivial)
  | @operand t _ _ he =>
    have ht : isPlain t.kind = true := by
      cases hk : t.kind <;> first | rfl | simp [operand?, hk] at he
    exact .cons ht .refl
  | paren hk _ hc ih => exact .wrap hk hc ((ih trivial).mono (Nat.le_succ 1))
  | braces _ _ ih => exact ih trivial
  | function hk _ ih => exact ih (startsWith_cons.2 hk)
  | ifWord hk _ ih => exact ih (startsWith_cons.2 hk)
  | application ho' _ hc _ ih =>
    exact .cons (isPlain_of_eq (startsWith_cons.1 ho) rfl) (.wrap ho' hc (ih trivial))
  | noArguments => exact .refl
  | someArguments _ _ _ ihe ihm =>
    exact ((ihe trivial).mono (Nat.le_succ 1)).trans (ihm trivial)
  | lastArgument => exact .refl
  | nextArgument hk _ _ ihe ihm =>
    exact .terminator hk (((ihe trivial).mono (Nat.le_succ 1)).trans (ihm trivial))
  | @block b ts e ts₁ c rest hb _ hrest hc ih =>
    have hinside : Consumes 2 ts (c :: rest) := by
      rw [← hrest]
      exact (Consumes.afterTerminators ts).trans ((Consumes.afterReturn _).trans
        (((ih trivial).mono (Nat.le_succ 1)).trans (Consumes.afterTerminators ts₁)))
    exact .wrap hb hc hinside
  | listed _ _ ih => exact .cons (isPlain_of_eq (startsWith_cons.1 ho) rfl) (ih trivial)
  | conditioned _ _ _ ihc ihb =>
    exact .cons (isPlain_of_eq (startsWith_cons.1 ho) rfl) ((ihc trivial).trans (ihb trivial))
  | words hk _ hw _ ihy ihn => exact .cons (isPlain_of_eq hk rfl) ((ihy trivial).trans (.cons (isPlain_of_eq hw rfl) (ihn trivial)))
  | blockElseIf _ _ hw hi _ ihy ihn => exact (ihy trivial).trans (.cons (isPlain_of_eq hw rfl) (ihn hi))
  | blocks _ _ hw _ _ ihy ihn => exact (ihy trivial).trans (.cons (isPlain_of_eq hw rfl) (ihn trivial))
  | list ho' _ h₁ _ h₂ _ h₃ ihc ihy ihn =>
    have hno := (ihn trivial).mono (Nat.le_succ 1)
    have hyes := ((ihy trivial).mono (Nat.le_succ 1)).trans (.terminator h₂ hno)
    exact .wrap ho' h₃ (((ihc trivial).mono (Nat.le_succ 1)).trans (.terminator h₁ hyes))

/-! ## What is read within a longer text -/

/-- Whether a text that comes behind ends an expression: it goes on with no operator and no
factorial. -/
def Closes (us : List Token) : Prop :=
  ∀ t ∈ us.head?, t.kind.binary? = none ∧ t.kind.isFactorial = false

/-- No operand is read at the end. -/
theorem Reads.ne_nil_of_postfixed (h : Reads s .postfixed ts es rest) : ts ≠ [] := by
  rintro rfl
  cases h with | postfixed hp _ => cases hp

/-- No block is read at the end. -/
theorem Reads.ne_nil_of_block (h : Reads s .block ts es rest) : ts ≠ [] := by
  rintro rfl
  cases h

/-- No expression is read at the end. -/
theorem Reads.ne_nil_of_expression {least : Nat} (h : Reads s (.expression least) ts es rest) :
    ts ≠ [] := by
  obtain ⟨t, us, rfl, -⟩ := h.head
  exact List.cons_ne_nil t us

/-- A terminator that counts counts in a longer text. -/
theorem hasTerminator_append (us : List Token) :
    ∀ {depth ts}, hasTerminator depth ts = true → hasTerminator depth (ts ++ us) = true := by
  intro depth ts
  induction ts generalizing depth with
  | nil => exact fun h => by cases h
  | cons t ts ih =>
    rw [List.cons_append, hasTerminator, hasTerminator]
    cases ht : t.kind with
    | opening b => exact ih
    | closing b =>
      simp only
      split
      · exact id
      · exact ih
    | terminator =>
      simp only
      split
      · exact id
      · exact ih
    | _ => exact ih

/-- An expression that starts with a parenthesis starts with an expression in parentheses. -/
theorem Reads.exists_closing {t : Token} {least : Nat}
    (h : Reads s (.expression least) (t :: ts) es rest) (ht : t.kind = .opening .paren) :
    ∃ c us, Consumes 1 ts (c :: us) ∧ c.kind = .closing .paren := by
  cases h with | expression hu _ =>
  cases hu with
  | plus hk => rw [ht] at hk; cases hk
  | minus hk => rw [ht] at hk; cases hk
  | not hk => rw [ht] at hk; cases hk
  | unsigned _ hp =>
    cases hp with | postfixed hp _ =>
    cases hp with
    | operand ho => simp [Grammar.operand?, ht] at ho
    | paren _ he hc => exact ⟨_, _, he.consumes trivial, hc⟩
    | braces hk => rw [ht] at hk; cases hk
    | function hk => rw [ht] at hk; cases hk
    | ifWord hk => rw [ht] at hk; cases hk

/-- **No expression starts like a list of arguments**, whatever comes behind it. -/
theorem Reads.startsList_append (h : Reads s (.expression 0) ts es rest) (us : List Token) :
    startsList (ts ++ us) = false := by
  obtain ⟨t, ts', rfl, -⟩ := h.head
  by_cases ht : t.kind = .opening .paren
  · -- the closing parenthesis comes before any terminator that counts
    obtain ⟨c, r, ⟨ws, rfl, -, hquiet⟩, hc⟩ := h.exists_closing ht
    rw [List.cons_append, startsList, List.append_assoc, hquiet 1 (Nat.le_refl 1),
      List.cons_append, hasTerminator, hc]
    simp
  · rw [List.cons_append, startsList, beq_false_of_ne ht, Bool.false_and]

/-- What starts a text starts a longer one. -/
theorem startsAny_append {p : Kind → Bool} (h : ts ≠ []) :
    startsAny p (ts ++ us) = startsAny p ts := by
  obtain ⟨t, ts', rfl⟩ := List.exists_cons_of_ne_nil h
  rfl

/-- The kind that starts a text starts a longer one. -/
theorem startsWith_append {kind : Kind} (h : ts ≠ []) :
    startsWith kind (ts ++ us) = startsWith kind ts := by
  obtain ⟨t, ts', rfl⟩ := List.exists_cons_of_ne_nil h
  rfl

/-- Terminators are skipped in a longer text as far as in one that does not consist of them. -/
theorem afterTerminators_append (h : afterTerminators ts ≠ []) :
    afterTerminators (ts ++ us) = afterTerminators ts ++ us := by
  rw [afterTerminators, List.dropWhile_append]
  split
  · rename_i hempty
    exact absurd (by simpa using hempty) h
  · rfl

/-- A leading `return` is skipped in a longer text. -/
theorem afterReturn_append (h : ts ≠ []) : afterReturn (ts ++ us) = afterReturn ts ++ us := by
  obtain ⟨t, ts', rfl⟩ := List.exists_cons_of_ne_nil h
  simp only [List.cons_append, afterReturn]
  split <;> rfl

/-- A chain of operators that stops at the end of a text stops at a token that closes it. -/
theorem stops_append {least : Nat} (h : Stops least ts) (hus : Closes us) :
    Stops least (ts ++ us) := by
  cases ts with
  | nil =>
    cases us with
    | nil => trivial
    | cons u us => exact stops_of_binary? (hus u rfl).1
  | cons t ts => exact h

/-- **What is read does not depend on what comes behind it**, when that ends an expression. -/
theorem Reads.extend (h : Reads s k ts es rest) (hus : Closes us) (ho : k.Opens ts)
    (hrest : rest = [] → k.brackets = 1) : Reads s k (ts ++ us) es (rest ++ us) := by
  -- where a rule looks at what follows, that is the same, or it is where the text ended
  induction h with
  | expression _ _ ihu ihc =>
    exact .expression (ihu trivial fun _ => rfl) (ihc trivial fun _ => rfl)
  | chainEnd hs => exact .chainEnd (stops_append hs hus)
  | chainStep hop hle _ hw _ ihr ihc =>
    exact .chainStep hop hle (ihr trivial fun _ => rfl) hw (ihc trivial fun _ => rfl)
  | plus hk _ ih => exact .plus hk (ih trivial fun _ => rfl)
  | minus hk _ hw ih => exact .minus hk (ih trivial fun _ => rfl) hw
  | not hk _ hw ih => exact .not hk (ih trivial fun _ => rfl) hw
  | unsigned hs hp ih =>
    exact .unsigned ((startsAny_append hp.ne_nil_of_postfixed).trans hs) (ih trivial fun _ => rfl)
  | postfixed _ _ ihp ihf => exact .postfixed (ihp trivial fun _ => rfl) (ihf trivial fun _ => rfl)
  | @factorialsEnd e ts hs =>
    refine .factorialsEnd ?_
    cases ts with
    | nil =>
      cases us with
      | nil => rfl
      | cons u us => exact (hus u rfl).2
    | cons t ts => exact hs
  | factorialsStep hk hw _ ih => exact .factorialsStep hk hw (ih trivial fun _ => rfl)
  | operand he => exact .operand he
  | paren hk _ hc ih => exact .paren hk (ih trivial nofun) hc
  | braces hk _ ih => exact .braces hk (ih trivial fun _ => rfl)
  | function hk _ ih => exact .function hk (ih (startsWith_cons.2 hk) fun _ => rfl)
  | ifWord hk _ ih => exact .ifWord hk (ih (startsWith_cons.2 hk) fun _ => rfl)
  | application ho' _ hc hw ih => exact .application ho' (ih trivial nofun) hc hw
  | @noArguments ts hs =>
    have hne : ts ≠ [] := by
      rintro rfl
      cases hs
    exact .noArguments ((startsWith_append hne).trans hs)
  | someArguments hs he _ ihe ihm =>
    exact .someArguments ((startsWith_append he.ne_nil_of_expression).trans hs)
      (ihe trivial fun _ => rfl) (ihm trivial hrest)
  | @lastArgument ts hs =>
    have hne : ts ≠ [] := fun h => absurd (hrest h) (by decide)
    exact .lastArgument ((startsWith_append hne).trans hs)
  | nextArgument hk _ _ ihe ihm =>
    exact .nextArgument hk (ihe trivial fun _ => rfl) (ihm trivial hrest)
  | @block b ts e ts₁ c rest hb he hc' hc ih =>
    have hne : afterTerminators ts ≠ [] := by
      intro hnil
      rw [hnil] at he
      exact he.ne_nil_of_expression rfl
    have hbody : Reads s (.expression 0) (afterReturn (afterTerminators (ts ++ us))) [e]
        (ts₁ ++ us) := by
      rw [afterTerminators_append hne, afterReturn_append hne]
      exact ih trivial fun _ => rfl
    have hclose : afterTerminators (ts₁ ++ us) = c :: (rest ++ us) := by
      rw [afterTerminators_append (by rw [hc']; exact List.cons_ne_nil c rest), hc',
        List.cons_append]
    exact .block hb hbody hclose hc
  | @listed t ts e rest hl _ ih =>
    have hl' : startsList (ts ++ us) = true := by
      cases ts with
      | nil => cases hl
      | cons u ts =>
        obtain ⟨hu, hterminator⟩ := Bool.and_eq_true_iff.1 hl
        exact Bool.and_eq_true_iff.2 ⟨hu, hasTerminator_append us hterminator⟩
    exact .listed hl' (ih trivial fun _ => rfl)
  | conditioned _ hc _ ihc ihb =>
    exact .conditioned (hc.startsList_append us) (ihc trivial fun _ => rfl)
      (ihb trivial fun _ => rfl)
  | words hk _ hw _ ihy ihn => exact .words hk (ihy trivial nofun) hw (ihn trivial fun _ => rfl)
  | @blockElseIf _ _ _ _ _ ts₁ _ _ hk _ hw hi _ ihy ihn =>
    have hne : ts₁ ≠ [] := by
      rintro rfl
      cases hi
    exact .blockElseIf hk (ihy trivial nofun) hw ((startsWith_append hne).trans hi)
      (ihn hi fun _ => rfl)
  | blocks hk _ hw hi hn ihy ihn =>
    exact .blocks hk (ihy trivial nofun) hw ((startsWith_append hn.ne_nil_of_block).trans hi)
      (ihn trivial fun _ => rfl)
  | list ho' _ h₁ _ h₂ _ h₃ ihc ihy ihn =>
    exact .list ho' (ihc trivial nofun) h₁ (ihy trivial nofun) h₂ (ihn trivial nofun) h₃

end Grammar

end Formula
