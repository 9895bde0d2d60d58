/-
# Results of combined outcomes

What a combined outcome yields, in terms of what its parts yield. The record of consumed tokens
never influences a result, so the statements are about results alone: a value with the rest.
-/
import Formula.Grammar.Outcome

namespace Formula

namespace Outcome

variable {α β : Type} {m n : Nat}

/-! ## Bounds and records -/

/-- A weaker bound changes no result. -/
@[simp] theorem result_weaken (h : m ≤ n) (o : Outcome α m) : (o.weaken h).result = o.result := by
  cases o <;> rfl

/-- Relaxing the bound changes no result. -/
@[simp] theorem result_relax (o : Outcome α n) : o.relax.result = o.result :=
  result_weaken _ o

/-- A recorded token changes no result. -/
@[simp] theorem result_after (step : Step) (o : Outcome α n) :
    (o.after step).result = o.result := by
  cases o <;> rfl

/-- The rest of a result is shorter than the bound. -/
theorem length_lt_of_result {o : Outcome α n} {v : α} {rest : List Token}
    (h : o.result = .ok (v, rest)) : rest.length < n := by
  cases o with
  | failed steps e => cases h
  | done steps u t shorter =>
    cases h
    exact shorter

/-! ## Values -/

@[simp] theorem result_pure (v : α) (rest : List Token) : (pure v rest).result = .ok (v, rest) :=
  rfl

@[simp] theorem result_accept (step : Step) (v : α) (rest : List Token) :
    (accept step v rest).result = .ok (v, rest) :=
  rfl

@[simp] theorem result_failed (steps : List Step) (e : Error) :
    (failed steps e : Outcome α n).result = .error e :=
  rfl

/-- A transformed outcome yields the transformed value. -/
theorem result_map_eq_ok {f : α → β} {o : Outcome α n} {w : β} {rest : List Token} :
    (o.map f).result = .ok (w, rest) ↔ ∃ v, o.result = .ok (v, rest) ∧ f v = w := by
  cases o with
  | failed steps e => simp [map, result]
  | done steps v t h =>
    simp only [map, result, Except.ok.injEq, Prod.mk.injEq]
    constructor
    · rintro ⟨hv, ht⟩
      exact ⟨v, ⟨rfl, ht⟩, hv⟩
    · rintro ⟨u, ⟨rfl, ht⟩, hw⟩
      exact ⟨hw, ht⟩

/-- A computation that consumes nothing has its own result. -/
theorem result_ofExcept (r : Except Error α) (ts : List Token) :
    (ofExcept r ts).result = r.map fun v => (v, ts) := by
  cases r <;> rfl

/-- A computation that consumes nothing yields its value and leaves all tokens. -/
theorem result_ofExcept_eq_ok {r : Except Error α} {v : α} {ts rest : List Token} :
    (ofExcept r ts).result = .ok (v, rest) ↔ r = .ok v ∧ rest = ts := by
  cases r with
  | error e => simp [ofExcept]
  | ok u =>
    simp only [ofExcept, result_pure, Except.ok.injEq, Prod.mk.injEq]
    constructor
    · rintro ⟨rfl, rfl⟩
      exact ⟨rfl, rfl⟩
    · rintro ⟨rfl, rfl⟩
      exact ⟨rfl, rfl⟩

/-! ## Sequences -/

/-- Behind a first reader that succeeds, reading on yields what the second reader yields. -/
theorem result_andThen_of_ok {o : Outcome α n}
    {next : (v : α) → (t : List Token) → t.length < n → Outcome β (t.length + 1)} {v : α}
    {t : List Token} (h : o.result = .ok (v, t)) :
    (o.andThen next).result = (next v t (length_lt_of_result h)).result := by
  cases o with
  | failed steps e => cases h
  | done steps u s shorter =>
    cases h
    simp only [andThen]
    cases next v t shorter <;> rfl

/-- Behind a first reader that succeeds, reading on with at least one token yields what the second
reader yields. -/
theorem result_andRead_of_ok {o : Outcome α n}
    {next : (v : α) → (t : List Token) → t.length < n → Outcome β t.length} {v : α}
    {t : List Token} (h : o.result = .ok (v, t)) :
    (o.andRead next).result = (next v t (length_lt_of_result h)).result := by
  rw [andRead, result_andThen_of_ok h, result_relax]

/-- **Reading on yields what the second reader yields** behind the first. -/
theorem result_andThen_eq_ok {o : Outcome α n}
    {next : (v : α) → (t : List Token) → t.length < n → Outcome β (t.length + 1)} {w : β}
    {rest : List Token} :
    (o.andThen next).result = .ok (w, rest) ↔
      ∃ v t, ∃ h : t.length < n, o.result = .ok (v, t) ∧ (next v t h).result = .ok (w, rest) := by
  constructor
  · intro h
    cases o with
    | failed steps e => cases h
    | done steps v t shorter =>
      rw [result_andThen_of_ok rfl] at h
      exact ⟨v, t, shorter, rfl, h⟩
  · rintro ⟨v, t, hlt, ho, h⟩
    rw [result_andThen_of_ok ho]
    exact h

/-- Reading on with at least one token yields what the second reader yields. -/
theorem result_andRead_eq_ok {o : Outcome α n}
    {next : (v : α) → (t : List Token) → t.length < n → Outcome β t.length} {w : β}
    {rest : List Token} :
    (o.andRead next).result = .ok (w, rest) ↔
      ∃ v t, ∃ h : t.length < n, o.result = .ok (v, t) ∧ (next v t h).result = .ok (w, rest) := by
  simp only [andRead, result_andThen_eq_ok, result_relax]

/-! ## Results that are known -/

section Known

variable {o : Outcome α n} {r : Except Error α} {q : Except Error β} {f : α → Except Error β}
  {ts rest : List Token}

/-- **Reading on behind a first reader whose result is known**: where it yields a value, the second
reader decides, and its error is the error of both. -/
theorem result_andThen_eq
    {next : (v : α) → (t : List Token) → t.length < n → Outcome β (t.length + 1)}
    (ho : o.result = r.map fun v => (v, ts))
    (hok : ∀ v h, r = .ok v → (next v ts h).result = q.map fun w => (w, rest))
    (herr : ∀ x, r = .error x → q = .error x) :
    (o.andThen next).result = q.map fun w => (w, rest) := by
  cases r with
  | error x =>
    rw [herr x rfl]
    cases o with
    | failed steps e =>
      cases ho
      rfl
    | done steps v t h => cases ho
  | ok v =>
    rw [result_andThen_of_ok ho]
    exact hok v _ rfl

/-- Reading on with at least one token, behind a first reader whose result is known. -/
theorem result_andRead_eq
    {next : (v : α) → (t : List Token) → t.length < n → Outcome β t.length}
    (ho : o.result = r.map fun v => (v, ts))
    (hok : ∀ v h, r = .ok v → (next v ts h).result = q.map fun w => (w, rest))
    (herr : ∀ x, r = .error x → q = .error x) :
    (o.andRead next).result = q.map fun w => (w, rest) := by
  refine result_andThen_eq ho (fun v h hr => ?_) herr
  rw [result_relax]
  exact hok v h hr

/-- **Readers in sequence compute in sequence**: behind a first reader whose result is known, a
second one that goes on from its value yields what both computations yield. -/
theorem result_andThen_bind
    {next : (v : α) → (t : List Token) → t.length < n → Outcome β (t.length + 1)}
    (ho : o.result = r.map fun v => (v, ts))
    (hok : ∀ v h, r = .ok v → (next v ts h).result = (f v).map fun w => (w, rest)) :
    (o.andThen next).result = (r >>= f).map fun w => (w, rest) := by
  refine result_andThen_eq ho (fun v h hr => ?_) fun x hx => ?_
  · rw [hr]
    exact hok v h hr
  · rw [hx]
    rfl

/-- Readers in sequence compute in sequence, where the second one consumes at least one token. -/
theorem result_andRead_bind
    {next : (v : α) → (t : List Token) → t.length < n → Outcome β t.length}
    (ho : o.result = r.map fun v => (v, ts))
    (hok : ∀ v h, r = .ok v → (next v ts h).result = (f v).map fun w => (w, rest)) :
    (o.andRead next).result = (r >>= f).map fun w => (w, rest) := by
  refine result_andThen_bind ho fun v h hr => ?_
  rw [result_relax]
  exact hok v h hr

end Known

/-- A transformed outcome has the transformed result. -/
theorem result_map_eq {f : α → β} {o : Outcome α n} {r : Except Error α} {t : List Token}
    (ho : o.result = r.map fun v => (v, t)) :
    (o.map f).result = (r.map f).map fun w => (w, t) := by
  cases o with
  | failed steps x =>
    cases r with
    | error y =>
      cases ho
      rfl
    | ok v => cases ho
  | done steps v t h =>
    cases r with
    | error y => cases ho
    | ok w =>
      cases ho
      rfl

/-! ## Single tokens -/

/-- Taking a token of a kind succeeds exactly when such a token comes first. -/
theorem result_take_eq_ok {p : Pending} {kind : Kind} {cause : Malformed} {ts rest : List Token}
    {u : Unit} :
    (take p kind cause ts).result = .ok (u, rest) ↔ ∃ t, t.kind = kind ∧ ts = t :: rest := by
  cases ts with
  | nil => simp [take]
  | cons t ts =>
    by_cases hk : t.kind = kind
    · simp only [take, if_pos hk, result_accept]
      constructor
      · intro h
        cases h
        exact ⟨t, hk, rfl⟩
      · rintro ⟨t', -, h⟩
        cases h
        rfl
    · simp only [take, if_neg hk]
      constructor
      · intro h
        cases h
      · rintro ⟨t', hk', h⟩
        cases h
        exact absurd hk' hk

/-- A token of the wanted kind is taken. -/
theorem result_take {p : Pending} {kind : Kind} {cause : Malformed} {t : Token}
    {rest : List Token} (h : t.kind = kind) :
    (take p kind cause (t :: rest)).result = .ok ((), rest) :=
  result_take_eq_ok.2 ⟨t, h, rfl⟩

/-- An outcome that has to be followed by a token leaves the tokens behind it. -/
theorem result_followedBy_eq_ok {p : Pending} {kind : Kind} {cause : Malformed}
    {o : Outcome α n} {v : α} {rest : List Token} :
    (o.followedBy p kind cause).result = .ok (v, rest) ↔
      ∃ t, t.kind = kind ∧ o.result = .ok (v, t :: rest) := by
  simp only [followedBy, result_andRead_eq_ok, result_map_eq_ok, result_take_eq_ok]
  constructor
  · rintro ⟨u, ts, -, ho, w, ⟨t, ht, rfl⟩, rfl⟩
    exact ⟨t, ht, ho⟩
  · rintro ⟨t, ht, ho⟩
    exact ⟨v, t :: rest, length_lt_of_result ho, ho, (), ⟨t, ht, rfl⟩, rfl⟩

/-- An outcome that is followed by the wanted token has its own result without that token. -/
theorem result_followedBy_eq {p : Pending} {kind : Kind} {cause : Malformed} {o : Outcome α n}
    {r : Except Error α} {c : Token} {rest : List Token} (hc : c.kind = kind)
    (ho : o.result = r.map fun v => (v, c :: rest)) :
    (o.followedBy p kind cause).result = r.map fun v => (v, rest) := by
  refine result_andRead_eq ho (fun v h hr => ?_) fun x hr => hr
  rw [hr]
  exact result_map_eq_ok.2 ⟨(), result_take hc, rfl⟩

/-- Terminators are skipped up to the first other token. -/
theorem result_skipTerminators (p : Pending) (ts : List Token) :
    (skipTerminators p ts).result = .ok ((), ts.dropWhile (·.kind == .terminator)) := by
  induction ts with
  | nil => rfl
  | cons t ts ih =>
    by_cases hk : t.kind = .terminator
    · simp [skipTerminators, hk, ih]
    · simp [skipTerminators, hk]

/-- The tokens behind an optional `return`. -/
def afterReturn : List Token → List Token
  | [] => []
  | t :: rest => if t.kind = .returnWord then rest else t :: rest

/-- An optional `return` is skipped. -/
theorem result_skipReturn (p : Pending) (ts : List Token) :
    (skipReturn p ts).result = .ok ((), afterReturn ts) := by
  cases ts with
  | nil => rfl
  | cons t ts =>
    by_cases hk : t.kind = .returnWord
    · simp [skipReturn, afterReturn, hk]
    · simp [skipReturn, afterReturn, hk]

end Outcome

end Formula
