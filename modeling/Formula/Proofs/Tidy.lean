/-
# Tidy token lists

A tidy token list may stand inside any other: its brackets are balanced, it is no list of arguments
by itself, and no two of its neighbours multiply implicitly. Tidy lists are closed under the ways in
which expressions are written.
-/
import Mathlib.Data.List.Chain
import Formula.Proofs.Parsing
import Formula.Token.Product

namespace Formula

open Grammar

/-! ## Lists without terminators of their own -/

/-- Whether a token list, inside at least `n` brackets, has no terminator that counts. -/
def Quiet (n : Nat) (ws : List Token) : Prop :=
  ∀ depth, n ≤ depth → ∀ ts, hasTerminator depth (ws ++ ts) = hasTerminator depth ts

namespace Quiet

variable {n : Nat} {us vs : List Token}

/-- Quiet lists one after the other are quiet. -/
theorem append (hu : Quiet n us) (hv : Quiet n vs) : Quiet n (us ++ vs) := by
  intro depth hd ts
  rw [List.append_assoc, hu depth hd, hv depth hd]

/-- A token that is no bracket is quiet; a terminator is quiet inside two brackets. -/
theorem single {t : Token} (ht : ∀ b, t.kind ≠ .opening b ∧ t.kind ≠ .closing b)
    (hn : t.kind = .terminator → 2 ≤ n) : Quiet n [t] := by
  intro depth hd ts
  rw [List.singleton_append, hasTerminator]
  cases hk : t.kind with
  | opening b => exact absurd hk (ht b).1
  | closing b => exact absurd hk (ht b).2
  | terminator =>
    have hne : depth ≠ 1 := by
      have := hn hk
      omega
    simp [hne]
  | _ => rfl

/-- Brackets make a list quiet that is quiet inside two. -/
theorem wrap {o c : Token} {b : Bracket} (ho : o.kind = .opening b) (hc : c.kind = .closing b)
    (hu : Quiet 2 us) : Quiet 1 (o :: (us ++ [c])) := by
  intro depth hd ts
  rw [List.cons_append, hasTerminator, ho]
  simp only
  rw [List.append_assoc, hu _ (Nat.succ_le_succ hd), List.singleton_append, hasTerminator, hc]
  simp only
  rw [if_neg (by omega), Nat.succ_sub_one]

end Quiet

/-! ## Lists without implicit products -/

/-- Whether no two neighbours in a token list multiply implicitly. -/
def Apart (ws : List Token) : Prop := ws.IsChain fun t u => t.kind.multiplies u.kind = false

/-- Where no neighbours multiply, nothing is inserted behind a token. -/
theorem insertProductsAfter_of_apart {ts : List Token} : ∀ {t : Token}, Apart (t :: ts) →
    insertProductsAfter t ts = ts := by
  induction ts with
  | nil => exact fun _ => rfl
  | cons u ts ih =>
    intro t h
    obtain ⟨htu, h⟩ := List.isChain_cons_cons.1 h
    rw [insertProductsAfter, htu, if_neg Bool.false_ne_true, ih h]

/-- **Where no neighbours multiply, nothing is inserted.** -/
theorem insertProducts_of_apart {ts : List Token} (h : Apart ts) : insertProducts ts = ts := by
  cases ts with
  | nil => rfl
  | cons t ts => rw [insertProducts, insertProductsAfter_of_apart h]

namespace Apart

variable {us vs : List Token}

/-- A token that ends no factor multiplies with nothing behind it. -/
theorem multiplies_of_endsFactor {t u : Token} (h : t.kind.endsFactor = false) :
    t.kind.multiplies u.kind = false := by
  rw [Kind.multiplies, h, Bool.and_false, Bool.false_and]

/-- A token that starts no factor multiplies with nothing before it. -/
theorem multiplies_of_startsFactor {t u : Token} (h : u.kind.startsFactor = false) :
    t.kind.multiplies u.kind = false := by
  rw [Kind.multiplies, h, Bool.and_false]

/-- Lists whose neighbours do not multiply may be joined where no factor ends or none starts. -/
theorem append (hu : Apart us) (hv : Apart vs)
    (h : (∀ t ∈ us.getLast?, t.kind.endsFactor = false) ∨
      ∀ t ∈ vs.head?, t.kind.startsFactor = false) : Apart (us ++ vs) := by
  refine List.IsChain.append hu hv ?_
  intro t ht u hu
  rcases h with h | h
  · exact multiplies_of_endsFactor (h t ht)
  · exact multiplies_of_startsFactor (h u hu)

end Apart

/-! ## Tidy lists -/

/-- Whether a token list may stand inside `n` brackets. -/
structure Tidy (n : Nat) (ws : List Token) : Prop where
  balanced : Balanced ws
  quiet : Quiet n ws
  apart : Apart ws

namespace Tidy

variable {n : Nat} {us vs : List Token}

/-- Nothing is tidy. -/
theorem nil : Tidy n [] := ⟨.nil, fun _ _ _ => rfl, List.isChain_nil⟩

/-- Inside more brackets, more is tidy. -/
theorem mono {m : Nat} (h : Tidy m us) (hmn : m ≤ n) : Tidy n us :=
  ⟨h.balanced, fun d hd => h.quiet d (Nat.le_trans hmn hd), h.apart⟩

/-- A token that is no bracket is tidy; a terminator is tidy inside two brackets. -/
theorem single {t : Token} (ht : ∀ b, t.kind ≠ .opening b ∧ t.kind ≠ .closing b)
    (hn : t.kind = .terminator → 2 ≤ n) : Tidy n [t] :=
  ⟨Balanced.nil.cons ht, .single ht hn, List.isChain_singleton t⟩

/-- Tidy lists may be joined where no factor ends or none starts. -/
theorem append (hu : Tidy n us) (hv : Tidy n vs)
    (h : (∀ t ∈ us.getLast?, t.kind.endsFactor = false) ∨
      ∀ t ∈ vs.head?, t.kind.startsFactor = false) : Tidy n (us ++ vs) :=
  ⟨hu.balanced.append hv.balanced, hu.quiet.append hv.quiet, hu.apart.append hv.apart h⟩

/-- A token in front of a tidy list that ends no factor. -/
theorem cons {t : Token} (ht : Tidy n [t]) (he : t.kind.endsFactor = false) (hu : Tidy n us) :
    Tidy n (t :: us) := by
  refine ht.append hu (Or.inl ?_)
  intro u hu'
  cases hu'
  exact he

/-- A token between tidy lists that is part of no factor. -/
theorem join {t : Token} (hu : Tidy n us) (ht : Tidy n [t]) (he : t.kind.endsFactor = false)
    (hs : t.kind.startsFactor = false) (hv : Tidy n vs) : Tidy n (us ++ t :: vs) := by
  refine hu.append (ht.cons he hv) (Or.inr ?_)
  intro u hu'
  cases hu'
  exact hs

/-- **A list in matching brackets is tidy.** -/
theorem wrap {o c : Token} {b : Bracket} (ho : o.kind = .opening b) (hc : c.kind = .closing b)
    (hu : Tidy 2 us) : Tidy 1 (o :: (us ++ [c])) := by
  refine ⟨hu.balanced.wrap ho hc, hu.quiet.wrap ho hc, ?_⟩
  have hsnoc : Apart (us ++ [c]) := by
    refine hu.apart.append (List.isChain_singleton c) (Or.inr ?_)
    intro u hu'
    cases hu'
    rw [hc]
    rfl
  refine List.IsChain.cons hsnoc ?_
  intro u _
  exact Apart.multiplies_of_endsFactor (by rw [ho]; rfl)

/-- A function in front of its list of arguments is tidy. -/
theorem apply {f o : Token} (hf : f.kind = .function) (ho : o.kind = .opening .paren)
    (hu : Tidy n (o :: us)) : Tidy n (f :: o :: us) := by
  have hb : ∀ b, f.kind ≠ .opening b ∧ f.kind ≠ .closing b := by simp [hf]
  refine ⟨hu.balanced.cons hb, ?_, ?_⟩
  · exact (Quiet.single hb (by simp [hf])).append hu.quiet
  · refine List.IsChain.cons hu.apart ?_
    intro u hu'
    cases hu'
    rw [hf, ho]
    rfl

end Tidy

end Formula
