/-
# Parses as derivations

A parse succeeds exactly when the brackets are balanced and the prepared tokens derive an expression
up to trailing terminators (`parse_eq_ok_iff`). Preparing tokens inserts nothing but signs of
implicit products. Token lists that leave the bracket check where it stands are closed under
concatenation and bracketing.
-/
import Formula.Parse
import Formula.Proofs.Derivation

namespace Formula

open Grammar Outcome

/-! ## Parses -/

/-- Reading a whole token list derives an expression and leaves terminators. -/
theorem result_whole_eq_ok {s : Bool} {ts rest : List Token} {e : Expr} :
    (Parse.whole s ts).result = .ok (e, rest) ↔
      rest = [] ∧ ∃ ts₁, Reads s (.expression 0) ts [e] ts₁ ∧ afterTerminators ts₁ = [] := by
  simp only [Parse.whole, result_andThen_eq_ok, result_skipTerminators, result_expression_eq_ok]
  constructor
  · rintro ⟨e₁, ts₁, _, hr, u, ts₂, _, ht, h⟩
    have ht' : afterTerminators ts₁ = ts₂ := congrArg Prod.snd (Except.ok.inj ht)
    cases ts₂ with
    | nil =>
      cases h
      exact ⟨rfl, ts₁, hr, ht'⟩
    | cons t ts₂ => cases h
  · rintro ⟨rfl, ts₁, hr, ht⟩
    have hlt := length_lt_of_result (result_expression_eq_ok (p := []).2 hr)
    refine ⟨e, ts₁, hlt, hr, (), [], by simp, by rw [← ht], rfl⟩

/-- **A parse yields an expression exactly when the tokens derive it.** -/
theorem parse_eq_ok_iff {o : Options} {ts : List Token} {e : Expr} :
    parse o ts = .ok e ↔
      checkBrackets (dropBlanks ts) = .ok () ∧
        (Parse.prepare o ts).all (·.kind == .terminator) = false ∧
          ∃ ts₁, Reads o.simplify (.expression 0) (Parse.prepare o ts) [e] ts₁ ∧
            afterTerminators ts₁ = [] := by
  unfold parse Parse.ofTokens
  cases hb : checkBrackets (dropBlanks ts) with
  | error e₁ => simp
  | ok u =>
    by_cases ht : (Parse.prepare o ts).all (·.kind == .terminator) = true
    · simp [ht]
    · rw [if_neg ht]
      rw [Bool.not_eq_true] at ht
      simp only [Parse.ofOutcome, ht, true_and]
      constructor
      · intro h
        cases hw : (Parse.whole o.simplify (Parse.prepare o ts)).result with
        | error e₁ =>
          rw [hw] at h
          cases h
        | ok x =>
          rw [hw] at h
          cases h
          exact (result_whole_eq_ok.1 hw).2
      · intro h
        rw [result_whole_eq_ok.2 ⟨rfl, h⟩]
        rfl

/-! ## Prepared tokens -/

section Prepared

variable {P : Token → Prop} (hsign : ∀ t, P (productSign t)) {ts : List Token}
include hsign

/-- Inserting signs of implicit products keeps what holds of every token and of the signs. -/
theorem forall_mem_insertProductsAfter (h : ∀ t ∈ ts, P t) (previous : Token) :
    ∀ t ∈ insertProductsAfter previous ts, P t := by
  induction ts generalizing previous with
  | nil => exact List.forall_mem_nil _
  | cons u us ih =>
    obtain ⟨hu, hus⟩ := List.forall_mem_cons.1 h
    have hrest := List.forall_mem_cons.2 ⟨hu, ih hus u⟩
    rw [insertProductsAfter]
    split
    · exact List.forall_mem_cons.2 ⟨hsign u, hrest⟩
    · exact hrest

/-- **Preparing tokens for reading keeps what holds of every token** and of the signs of implicit
products. -/
theorem Parse.forall_mem_prepare {o : Options} (h : ∀ t ∈ ts, P t) :
    ∀ t ∈ Parse.prepare o ts, P t := by
  have hplain : ∀ t ∈ dropBlanks ts, P t := fun t ht => h t (List.mem_filter.1 ht).1
  rw [Parse.prepare]
  split
  · cases hts : dropBlanks ts with
    | nil => exact List.forall_mem_nil _
    | cons u us =>
      rw [hts, List.forall_mem_cons] at hplain
      exact List.forall_mem_cons.2
        ⟨hplain.1, forall_mem_insertProductsAfter hsign hplain.2 u⟩
  · exact hplain

end Prepared

/-! ## Balanced token lists -/

/-- Whether a token list leaves the bracket check where it stands. -/
def Balanced (ws : List Token) : Prop :=
  ∀ stack ts, closeBrackets stack (ws ++ ts) = closeBrackets stack ts

namespace Balanced

/-- Nothing is balanced. -/
theorem nil : Balanced [] := fun _ _ => rfl

/-- Balanced lists one after the other are balanced. -/
theorem append {us vs : List Token} (hu : Balanced us) (hv : Balanced vs) :
    Balanced (us ++ vs) := by
  intro stack ts
  rw [List.append_assoc, hu, hv]

/-- A token that is no bracket in front of a balanced list leaves it balanced. -/
theorem cons {t : Token} {us : List Token} (ht : ∀ b, t.kind ≠ .opening b ∧ t.kind ≠ .closing b)
    (hu : Balanced us) : Balanced (t :: us) := by
  intro stack ts
  -- only brackets touch the stack
  have key : closeBrackets stack (t :: (us ++ ts)) = closeBrackets stack (us ++ ts) := by
    cases stack <;> cases hk : t.kind <;> simp_all [closeBrackets]
  rw [List.cons_append, key, hu]

/-- A balanced list in matching brackets is balanced. -/
theorem wrap {o c : Token} {us : List Token} {b : Bracket} (ho : o.kind = .opening b)
    (hc : c.kind = .closing b) (hu : Balanced us) : Balanced (o :: (us ++ [c])) := by
  intro stack ts
  have hopen : closeBrackets stack (o :: (us ++ [c] ++ ts))
      = closeBrackets ((b, o.value) :: stack) (us ++ (c :: ts)) := by
    rw [List.append_assoc]
    cases stack <;> simp [closeBrackets, ho]
  rw [List.cons_append, hopen, hu]
  simp [closeBrackets, hc]

/-- A balanced list passes the bracket check. -/
theorem checkBrackets {ws : List Token} (h : Balanced ws) : checkBrackets ws = .ok () := by
  have := h [] []
  rw [List.append_nil] at this
  exact this.trans (by simp [closeBrackets])

end Balanced

end Formula
