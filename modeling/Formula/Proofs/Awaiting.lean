/-
# Operators that await the end of their right operand

When a token is consumed, some operators in front of it stand between two operands of which the
right one has begun and has not ended. They can be told from the tokens alone (`awaiting`), and a
reader that has them waiting around it records them with every token: **outcomes that leave a
faithful record** (`Follows`) are closed under all the ways in which readers are combined.
-/
import Formula.Proofs.Complete

namespace Formula

/-- Whether a token may end an operand. -/
def Kind.endsOperand : Kind → Bool
  | .natural | .real | .boolean | .identifier | .constant | .literal | .factorial | .semiFactorial
  | .closing _ => true
  | _ => false

namespace Grammar

open Outcome

/-! ## Operators that await the end of their right operand -/

/-- Whether an operand ends right before a place of a token list. -/
def behindOperand (all : List Token) : Nat → Bool
  | 0 => false
  | n + 1 => (all[n]?).any (·.kind.endsOperand)

/-- The operator at a place of a token list, if it stands between two operands; a sign in front of
an operand does not. -/
def infixAt? (all : List Token) (i : Nat) : Option Operator :=
  if behindOperand all i then (all[i]?).bind (·.kind.binary?) else none

/-- The place behind the right operand of an operator, if that ends. -/
def operandEnd? (s : Bool) (all : List Token) (i : Nat) (op : Operator) : Option Nat :=
  match (expression s [] op.rightLevel (all.drop (i + 1))).result with
  | .ok (_, rest) => some (all.length - rest.length)
  | .error _ => none

/-- The operator at a place, if it awaits the end of its right operand at the place `k`. -/
def awaitedAt? (s : Bool) (all : List Token) (k i : Nat) : Option Operator :=
  (infixAt? all i).filter fun op => (operandEnd? s all i op).all (k < ·)

/-- **The operators that await the end of their right operand** when the token at the place `k` is
consumed, the outermost first. -/
def awaiting (s : Bool) (all : List Token) (k : Nat) : List Operator :=
  (List.range (k + 1)).filterMap (awaitedAt? s all k)

/-- The operators from the place `n` on that await the end of their right operand. -/
def awaitingFrom (s : Bool) (all : List Token) (n k : Nat) : List Operator :=
  (List.range' n (k + 1 - n)).filterMap (awaitedAt? s all k)

section Awaiting

variable {s : Bool} {all ts rest : List Token} {t : Token} {n e k : Nat} {op : Operator}

/-- From the first place on, all operators count. -/
theorem awaitingFrom_zero : awaitingFrom s all 0 k = awaiting s all k := by
  rw [awaitingFrom, awaiting, Nat.sub_zero, List.range_eq_range']

/-- The operator at the first place, and those behind it. -/
theorem awaitingFrom_cons (h : n ≤ k) : awaitingFrom s all n k
    = (awaitedAt? s all k n).toList ++ awaitingFrom s all (n + 1) k := by
  have hlength : k + 1 - n = k + 1 - (n + 1) + 1 := by omega
  rw [awaitingFrom, hlength, List.range'_succ, List.filterMap_cons, awaitingFrom]
  cases awaitedAt? s all k n <;> rfl

/-- Behind the last place, no operator counts. -/
theorem awaitingFrom_succ : awaitingFrom s all (n + 1) n = [] := by
  rw [awaitingFrom, Nat.sub_self]
  rfl

/-- Where no operator stands, none is awaited. -/
theorem awaitedAt?_of_infixAt? (h : infixAt? all n = none) : awaitedAt? s all k n = none := by
  rw [awaitedAt?, h]
  rfl

/-- **Whether every operator between two places has its right operand there.** -/
def Closed (s : Bool) (all : List Token) (n e : Nat) : Prop :=
  ∀ i, n ≤ i → i < e → ∀ op, infixAt? all i = some op →
    ∃ j, operandEnd? s all i op = some j ∧ j ≤ e

/-- Behind operators that have their right operands, only later ones are awaited. -/
theorem awaitingFrom_of_closed (h : Closed s all n e) (hne : n ≤ e) (hek : e ≤ k) :
    awaitingFrom s all n k = awaitingFrom s all e k := by
  have hsplit : List.range' n (k + 1 - n) = List.range' n (e - n) ++ List.range' e (k + 1 - e) := by
    have hlength : k + 1 - n = (e - n) + (k + 1 - e) := by omega
    have hplace : n + (e - n) = e := by omega
    rw [hlength, ← List.range'_append_1, hplace]
  have hnone : (List.range' n (e - n)).filterMap (awaitedAt? s all k) = [] := by
    rw [List.filterMap_eq_nil_iff]
    intro i hi
    obtain ⟨hni, hie⟩ := List.mem_range'_1.1 hi
    cases hop : infixAt? all i with
    | none => exact awaitedAt?_of_infixAt? hop
    | some op =>
      obtain ⟨j, hj, hje⟩ := h i hni (by omega) op hop
      have hended : ¬ k < j := by omega
      simp [awaitedAt?, hop, hj, hended]
  rw [awaitingFrom, hsplit, List.filterMap_append, hnone, List.nil_append, awaitingFrom]

/-- Nothing stands between a place and itself. -/
theorem closed_self : Closed s all n n := fun _ hn hi => absurd hn (Nat.not_le_of_lt hi)

/-- Stretches one after the other have the right operands of their operators. -/
theorem Closed.trans (h : Closed s all n e) (h' : Closed s all e k) (hek : e ≤ k) :
    Closed s all n k := by
  intro i hn hi op hop
  by_cases hie : i < e
  · obtain ⟨j, hj, hje⟩ := h i hn hie op hop
    exact ⟨j, hj, Nat.le_trans hje hek⟩
  · exact h' i (Nat.le_of_not_lt hie) hi op hop

/-- A place without operator lacks no right operand. -/
theorem closed_single (hn : infixAt? all n = none) : Closed s all n (n + 1) := by
  intro i hi hie op hop
  obtain rfl : i = n := by omega
  rw [hn] at hop
  cases hop

/-! ## Places in a token list -/

/-- **Whether the tokens from a place on are the given ones.** -/
structure At (all : List Token) (n : Nat) (ts : List Token) : Prop where
  drop : all.drop n = ts
  le : n ≤ all.length

/-- The whole list starts at the first place. -/
theorem at_zero : At all 0 all := ⟨rfl, Nat.zero_le _⟩

/-- The first token of a list stands at its place. -/
theorem At.getElem? (h : At all n (t :: ts)) : all[n]? = some t := by
  have hhead : (all.drop n)[0]? = some t := by rw [h.drop]; rfl
  rwa [List.getElem?_drop] at hhead

/-- Behind the first token, the list goes on at the next place. -/
theorem At.tail (h : At all n (t :: ts)) : At all (n + 1) ts where
  drop := by rw [← List.drop_drop, h.drop]; rfl
  le := by
    have hlt : n < all.length := (List.getElem?_eq_some_iff.1 h.getElem?).1
    exact hlt

/-- A place is determined by the number of tokens that are left. -/
theorem At.length_sub (h : At all n ts) : all.length - ts.length = n := by
  have hle := h.le
  rw [← h.drop, List.length_drop]
  omega

/-- Behind a token, an operand ends if it ends with the token. -/
theorem At.behindOperand (h : At all n (t :: ts)) :
    behindOperand all (n + 1) = t.kind.endsOperand := by
  simp [Grammar.behindOperand, h.getElem?]

/-- A token that is no operator between operands is none at its place. -/
theorem At.infixAt?_of_binary? (h : At all n (t :: ts)) (ht : t.kind.binary? = none) :
    infixAt? all n = none := by
  simp [infixAt?, h.getElem?, ht]

/-- Where an operand has to begin, no operator stands between two operands. -/
theorem infixAt?_of_behindOperand (h : Grammar.behindOperand all n = false) :
    infixAt? all n = none := by
  simp [infixAt?, h]

/-- **A right operand that is read ends where its rest begins.** -/
theorem At.operandEnd? {p : Pending} {right : Expr} {m : Nat} (h : At all e rest)
    (hr : (expression s p op.rightLevel (all.drop (m + 1))).result = .ok (right, rest)) :
    operandEnd? s all m op = some e := by
  rw [Grammar.operandEnd?, result_expression_eq_ok.2 (result_expression_eq_ok.1 hr)]
  exact congrArg some h.length_sub

/-- A right operand that is not read has no end. -/
theorem operandEnd?_of_error {p : Pending} {x : Error}
    (hr : (expression s p op.rightLevel (all.drop (n + 1))).result = .error x) :
    Grammar.operandEnd? s all n op = none := by
  rw [Grammar.operandEnd?]
  split
  · rename_i right rest hok
    rw [result_expression_eq_ok.2 (result_expression_eq_ok.1 hok)] at hr
    cases hr
  · rfl

end Awaiting

/-! ## Recorded steps -/

/-- **Whether a step is the record of the token at the place `k`**, consumed by a reader that
started at the place `n` with operators waiting around it. -/
structure IsStepAt (s : Bool) (all : List Token) (n : Nat) (p : Pending) (k : Nat) (st : Step) :
    Prop where
  token : all[k]? = some st.token
  operators : st.pending.reverse.map (·.1) = p.reverse.map (·.1) ++ awaitingFrom s all n k
  /-- No left operand that waits misses an operand of its own. -/
  complete : ∀ q ∈ st.pending, q ∈ p ∨ q.2.Complete

/-- Whether steps are the record of the tokens from the place `n` on. -/
def Recorded (s : Bool) (all : List Token) (n : Nat) (p : Pending) (steps : List Step) : Prop :=
  ∀ m st, steps[m]? = some st → IsStepAt s all n p (n + m) st

section Recorded

variable {s : Bool} {all ts : List Token} {t : Token} {n : Nat} {p : Pending} {op : Operator}
  {left : Expr} {steps more : List Step}

/-- No step is the record of no token. -/
theorem recorded_nil : Recorded s all n p [] := nofun

/-- **Steps of readers one after the other.** -/
theorem Recorded.append (h : Recorded s all n p steps)
    (hclosed : Closed s all n (n + steps.length))
    (hmore : Recorded s all (n + steps.length) p more) : Recorded s all n p (steps ++ more) := by
  intro m st hst
  by_cases hm : m < steps.length
  · rw [List.getElem?_append_left hm] at hst
    exact h m st hst
  · rw [List.getElem?_append_right (Nat.le_of_not_lt hm)] at hst
    have hplace : n + steps.length + (m - steps.length) = n + m := by omega
    obtain ⟨htoken, hoperators, hcomplete⟩ := hmore _ st hst
    rw [hplace] at htoken hoperators
    refine ⟨htoken, ?_, hcomplete⟩
    rw [hoperators, awaitingFrom_of_closed hclosed (by omega) (by omega)]

/-- **The step of a token that is no operator between two operands.** -/
theorem recorded_single (hat : At all n (t :: ts)) (hn : infixAt? all n = none) :
    Recorded s all n p [⟨t, p⟩] := by
  intro m st hst
  cases m with
  | zero =>
    cases hst
    refine ⟨hat.getElem?, ?_, fun q hq => .inl hq⟩
    rw [Nat.add_zero, awaitingFrom_cons (Nat.le_refl n), awaitedAt?_of_infixAt? hn,
      awaitingFrom_succ]
    simp
  | succ m => cases hst

/-- **The step of an operator in front of the steps of its right operand**, during which the
operator waits. -/
theorem Recorded.operator (hat : At all n (t :: ts)) (hn : infixAt? all n = some op)
    (hend : ∀ j ∈ operandEnd? s all n op, n + 1 + steps.length ≤ j) (hleft : left.Complete)
    (h : Recorded s all (n + 1) ((op, left) :: p) steps) :
    Recorded s all n p (⟨t, (op, left) :: p⟩ :: steps) := by
  have hsome : ∀ k, n ≤ k → k < n + 1 + steps.length →
      awaitingFrom s all n k = op :: awaitingFrom s all (n + 1) k := by
    intro k hnk hk
    have hawaited : (operandEnd? s all n op).all (k < ·) = true := by
      cases hj : operandEnd? s all n op with
      | none => rfl
      | some j =>
        have hlong := hend j hj
        exact decide_eq_true (by omega)
    rw [awaitingFrom_cons hnk, awaitedAt?, hn, Option.filter_some, if_pos hawaited]
    rfl
  intro m st hst
  cases m with
  | zero =>
    cases hst
    refine ⟨hat.getElem?, ?_, ?_⟩
    · rw [Nat.add_zero, hsome n (Nat.le_refl n) (by omega), awaitingFrom_succ]
      simp
    · intro q hq
      rcases List.mem_cons.1 hq with rfl | hq
      · exact .inr hleft
      · exact .inl hq
  | succ m =>
    obtain ⟨htoken, hoperators, hcomplete⟩ := h m st hst
    have hm : m + 1 < steps.length + 1 := (List.getElem?_eq_some_iff.1 hst).1
    have hplace : n + 1 + m = n + (m + 1) := by omega
    rw [hplace] at htoken hoperators
    refine ⟨htoken, ?_, ?_⟩
    · rw [hoperators, hsome _ (by omega) (by omega)]
      simp
    · intro q hq
      rcases hcomplete q hq with hq | hq
      · rcases List.mem_cons.1 hq with rfl | hq
        · exact .inr hleft
        · exact .inl hq
      · exact .inr hq

end Recorded

/-! ## Outcomes that leave a faithful record -/

/-- **Whether an outcome of reading from the place `n` on leaves a faithful record**: of the tokens
up to its rest, among which every operator has its right operand. With a flag, it is known whether
an operand ends right before the rest. -/
structure Follows (s : Bool) (all : List Token) (n : Nat) (p : Pending) (flag : Option Bool)
    {α : Type} {m : Nat} (o : Outcome α m) : Prop where
  recorded : Recorded s all n p o.steps
  ended : ∀ v rest, o.result = .ok (v, rest) → At all (n + o.steps.length) rest ∧
    Closed s all n (n + o.steps.length) ∧
      ∀ b ∈ flag, behindOperand all (n + o.steps.length) = b

namespace Follows

variable {α β : Type} {s : Bool} {all ts rest : List Token} {t : Token} {k m n : Nat}
  {p : Pending} {flag flag' : Option Bool} {op : Operator} {left : Expr} {steps : List Step}

/-- Consuming nothing leaves nothing. -/
theorem pure {v : α} (hat : At all n ts) (hb : ∀ b ∈ flag, behindOperand all n = b) :
    Follows s all n p flag (Outcome.pure v ts) where
  recorded := recorded_nil
  ended := by
    rintro _ _ ⟨⟩
    exact ⟨hat, closed_self, hb⟩

/-- A failure before the first token leaves nothing. -/
theorem failed {x : Error} : Follows s all n p flag (Outcome.failed [] x : Outcome α m) where
  recorded := recorded_nil
  ended := nofun

/-- A computation that consumes nothing leaves nothing. -/
theorem ofExcept {r : Except Error α} (hat : At all n ts)
    (hb : ∀ b ∈ flag, behindOperand all n = b) :
    Follows s all n p flag (Outcome.ofExcept r ts) := by
  cases r with
  | ok v => exact pure hat hb
  | error x => exact failed

/-- A weaker bound changes no record. -/
theorem relax {o : Outcome α m} (h : Follows s all n p flag o) :
    Follows s all n p flag o.relax := by
  cases o with
  | done => exact ⟨h.recorded, fun v rest hr => h.ended v rest (by simpa using hr)⟩
  | failed => exact ⟨h.recorded, fun v rest hr => by cases hr⟩

/-- A transformed value changes no record. -/
theorem map {f : α → β} {o : Outcome α m} (h : Follows s all n p flag o) :
    Follows s all n p flag (o.map f) := by
  cases o with
  | done steps v rest hlt =>
    refine ⟨h.recorded, ?_⟩
    rintro _ _ ⟨⟩
    exact h.ended v rest rfl
  | failed => exact ⟨h.recorded, nofun⟩

/-- **Reading behind recorded tokens**, among which every operator has its right operand. -/
theorem behind {o : Outcome α m} {o' : Outcome α k} (hsteps : Recorded s all n p steps)
    (hclosed : Closed s all n (n + steps.length)) (h : Follows s all (n + steps.length) p flag o)
    (hall : o'.steps = steps ++ o.steps) (hresult : o'.result = o.result) :
    Follows s all n p flag o' where
  recorded := by
    rw [hall]
    exact hsteps.append hclosed h.recorded
  ended := by
    intro v rest hr
    rw [hresult] at hr
    obtain ⟨hrest, hmore, hb⟩ := h.ended v rest hr
    rw [Nat.add_assoc, ← List.length_append, ← hall] at hrest hmore hb
    refine ⟨hrest, hclosed.trans hmore ?_, hb⟩
    rw [hall, List.length_append]
    omega

/-- A token that is no operator between two operands comes in front of what is read behind it. -/
theorem after {o : Outcome α m} (hat : At all n (t :: ts)) (hn : infixAt? all n = none)
    (h : Follows s all (n + 1) p flag o) : Follows s all n p flag (o.after ⟨t, p⟩) := by
  refine behind (recorded_single hat hn) (closed_single hn) h ?_ ?_
  · cases o <;> rfl
  · exact result_after _ _

/-- A token that is no operator between two operands is consumed alone. -/
theorem accept {v : α} (hat : At all n (t :: ts)) (hn : infixAt? all n = none)
    (hb : ∀ b ∈ flag, t.kind.endsOperand = b) :
    Follows s all n p flag (Outcome.accept ⟨t, p⟩ v ts) := by
  have hnext : Follows s all (n + 1) p flag (Outcome.pure v ts) :=
    pure hat.tail fun b hmem => by rw [hat.behindOperand, hb b hmem]
  exact behind (recorded_single hat hn) (closed_single hn) hnext rfl rfl

/-- **Reading on.** -/
theorem andThen {o : Outcome α m}
    {next : (v : α) → (rest : List Token) → rest.length < m → Outcome β (rest.length + 1)}
    (h : Follows s all n p flag o)
    (hnext : ∀ v rest hlt e, o.result = .ok (v, rest) → At all e rest →
      (∀ b ∈ flag, behindOperand all e = b) → Follows s all e p flag' (next v rest hlt)) :
    Follows s all n p flag' (o.andThen next) := by
  cases o with
  | failed steps x => exact ⟨h.recorded, nofun⟩
  | done steps v rest hlt =>
    obtain ⟨hrest, hclosed, hb⟩ := h.ended v rest rfl
    refine behind h.recorded hclosed (hnext v rest hlt _ rfl hrest hb) ?_ (result_andThen_of_ok rfl)
    simp only [Outcome.andThen]
    cases next v rest hlt <;> rfl

/-- Reading on with at least one token. -/
theorem andRead {o : Outcome α m}
    {next : (v : α) → (rest : List Token) → rest.length < m → Outcome β rest.length}
    (h : Follows s all n p flag o)
    (hnext : ∀ v rest hlt e, o.result = .ok (v, rest) → At all e rest →
      (∀ b ∈ flag, behindOperand all e = b) → Follows s all e p flag' (next v rest hlt)) :
    Follows s all n p flag' (o.andRead next) :=
  h.andThen fun v rest hlt e hr hat hb => (hnext v rest hlt e hr hat hb).relax

/-- **An operator between two operands** waits while its right operand is read, and no longer. -/
theorem operator {q : Pending} {o : Outcome Expr m}
    {next : (v : Expr) → (rest : List Token) → rest.length < m → Outcome β (rest.length + 1)}
    (hat : At all n (t :: ts)) (hn : infixAt? all n = some op) (hleft : left.Complete)
    (ho : o.result = (expression s q op.rightLevel ts).result)
    (h : Follows s all (n + 1) ((op, left) :: p) flag o)
    (hnext : ∀ v rest hlt e, o.result = .ok (v, rest) → At all e rest →
      (∀ b ∈ flag, behindOperand all e = b) → Follows s all e p flag' (next v rest hlt)) :
    Follows s all n p flag' ((o.andThen next).relax.after ⟨t, (op, left) :: p⟩) := by
  rw [← hat.tail.drop] at ho
  cases o with
  | failed steps x =>
    refine ⟨h.recorded.operator hat hn ?_ hleft, nofun⟩
    rw [operandEnd?_of_error ho.symm]
    exact nofun
  | done steps v rest hlt =>
    obtain ⟨hrest, hclosed, hb⟩ := h.ended v rest rfl
    have hplace : n + 1 + steps.length = n + (steps.length + 1) := by omega
    have hend : operandEnd? s all n op = some (n + 1 + steps.length) := hrest.operandEnd? ho.symm
    have hfront : Recorded s all n p (⟨t, (op, left) :: p⟩ :: steps) := by
      refine h.recorded.operator hat hn ?_ hleft
      rintro j hj
      rw [hend] at hj
      cases hj
      exact Nat.le_refl _
    have hdone : Closed s all n (n + (steps.length + 1)) := by
      intro i hi hie op' hop
      rw [← hplace] at hie ⊢
      rcases Nat.eq_or_lt_of_le hi with rfl | hlt
      · rw [hn] at hop
        cases hop
        exact ⟨_, hend, Nat.le_refl _⟩
      · exact hclosed i hlt hie op' hop
    have hmore := hnext v rest hlt _ rfl hrest hb
    rw [Outcome.steps, hplace] at hmore
    refine behind hfront hdone hmore ?_ ?_
    · simp only [Outcome.andThen]
      cases next v rest hlt <;> rfl
    · rw [result_after, result_relax, result_andThen_of_ok rfl]

/-! ### Single tokens -/

/-- A token of a kind that is no operator is taken. -/
theorem take {kind : Kind} {cause : Malformed} {b : Bool} (hat : At all n ts)
    (hk : kind.binary? = none) (hb : kind.endsOperand = b) :
    Follows s all n p (some b) (Outcome.take p kind cause ts) := by
  unfold Outcome.take
  split
  · exact failed
  · split
    · rename_i t ts hkind
      refine accept hat (hat.infixAt?_of_binary? (by rw [hkind, hk])) ?_
      rintro _ ⟨⟩
      rw [hkind, hb]
    · exact failed

/-- An outcome that has to be followed by a token that is no operator. -/
theorem followedBy {kind : Kind} {cause : Malformed} {b : Bool} {o : Outcome α m}
    (h : Follows s all n p flag o) (hk : kind.binary? = none) (hb : kind.endsOperand = b) :
    Follows s all n p (some b) (o.followedBy p kind cause) :=
  h.andRead fun _ _ _ _ _ hat _ => (take hat hk hb).map

/-- Terminators end no operand. -/
theorem skipTerminators : ∀ {ts : List Token} {n : Nat}, At all n ts →
    (∀ b ∈ flag, b = false ∧ behindOperand all n = false) →
    Follows s all n p flag (Outcome.skipTerminators p ts)
  | [], n, hat, hb => pure hat fun b hmem => by rw [(hb b hmem).1, (hb b hmem).2]
  | t :: ts, n, hat, hb => by
    rw [Outcome.skipTerminators]
    split
    · rename_i hk
      refine (skipTerminators hat.tail fun b hmem => ⟨(hb b hmem).1, ?_⟩).after hat
        (hat.infixAt?_of_binary? (by rw [hk]; rfl))
      rw [hat.behindOperand, hk]
      rfl
    · exact pure hat fun b hmem => by rw [(hb b hmem).1, (hb b hmem).2]

/-- Behind skipped terminators anything may follow. -/
theorem skipTerminators_relaxed (hat : At all n ts) :
    Follows s all n p none (Outcome.skipTerminators p ts) :=
  skipTerminators hat nofun

/-- The word `return` ends no operand. -/
theorem skipReturn (hat : At all n ts) (hb : behindOperand all n = false) :
    Follows s all n p (some false) (Outcome.skipReturn p ts) := by
  have hflag : ∀ b ∈ some false, behindOperand all n = b := by
    rintro _ ⟨⟩
    exact hb
  cases ts with
  | nil => exact pure hat hflag
  | cons t ts =>
    rw [Outcome.skipReturn]
    split
    · rename_i hk
      refine (accept hat (infixAt?_of_behindOperand hb) ?_).relax
      rintro _ ⟨⟩
      rw [hk]
      rfl
    · exact pure hat hflag

end Follows

end Grammar

end Formula
