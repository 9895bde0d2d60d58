/-
# Outlines

An outline has one line for each node of an expression, its label behind two blanks for each level
of depth. Labels hold no blanks, so **the lines of an outline are those of the nodes**
(`Expr.layout`). From them the tree is decoded from the root down: the lines of an operand are the
ones up to the next line that is no deeper, and the label says what the node is, as a name is either
a constant or a variable in one lexicon. **Hence the outline determines a parsed expression**
(`Lexicon.outline_injective`).
-/
import Formula.Expr.Outline
import Formula.Proofs.LatexFactors
import Formula.Proofs.WrittenRationals

namespace Formula

/-! ## Lines -/

/-- Whether a text holds no blank and is not empty. -/
def IsLabel (cs : List Char) : Prop := cs ≠ [] ∧ ∀ c ∈ cs, isBlank c = false

/-- Only blanks end lines. -/
theorem isBlank_of_isLineEnd {c : Char} (h : isLineEnd c = true) : isBlank c = true := by
  simp only [isLineEnd, isBlank, inRanges, blankRanges, List.any_cons, List.any_nil,
    Bool.or_false, Bool.or_eq_true, decide_eq_true_eq] at h ⊢
  omega

/-- A character that ends no line belongs to the first line. -/
theorem linesOf_cons {c : Char} (hc : isLineEnd c = false) (cs : List Char) :
    linesOf (c :: cs) = match linesOf cs with
      | [] => [[c]]
      | line :: lines => (c :: line) :: lines := by
  rw [linesOf]
  · rw [hc]
    rfl
  · rintro rest rfl
    cases hc

/-- The first line ends where the text says so. -/
theorem linesOf_append {cs : List Char} (h : ∀ c ∈ cs, isLineEnd c = false) (rest : List Char) :
    linesOf (cs ++ '\n' :: rest) = cs :: linesOf rest := by
  induction cs with
  | nil =>
    rw [List.nil_append, linesOf]
    · rfl
    · exact fun _ h => absurd h (by decide)
  | cons c cs ih =>
    rw [List.cons_append, linesOf_cons (h c List.mem_cons_self),
      ih fun c hc => h c (List.mem_cons_of_mem _ hc)]

/-- A text without line ends is one line. -/
theorem linesOf_single {cs : List Char} (hne : cs ≠ []) (h : ∀ c ∈ cs, isLineEnd c = false) :
    linesOf cs = [cs] := by
  induction cs with
  | nil => exact absurd rfl hne
  | cons c cs ih =>
    rw [linesOf_cons (h c List.mem_cons_self)]
    cases cs with
    | nil => rw [linesOf]
    | cons d ds => rw [ih (List.cons_ne_nil d ds) fun c hc => h c (List.mem_cons_of_mem _ hc)]

/-- **Lines that are joined are the lines of the text.** -/
theorem linesOf_intercalate : ∀ {lines : List String}, (∀ s ∈ lines, s.toList ≠ [] ∧
    ∀ c ∈ s.toList, isLineEnd c = false) →
      linesOf ("\n".intercalate lines).toList = lines.map String.toList
  | [], _ => rfl
  | [s], h => by
    obtain ⟨hne, hs⟩ := h s List.mem_cons_self
    rw [String.intercalate_singleton, linesOf_single hne hs]
    rfl
  | s :: t :: lines, h => by
    have hrest := linesOf_intercalate fun u hu => h u (List.mem_cons_of_mem s hu)
    have hline := linesOf_append (h s List.mem_cons_self).2 ("\n".intercalate (t :: lines)).toList
    rw [String.intercalate_cons_cons, String.toList_append, String.toList_append,
      show "\n".toList = ['\n'] from rfl, List.append_assoc, List.singleton_append, hline, hrest]
    rfl

namespace Expr

variable {e f : Expr} {d : Nat}

/-! ## Nodes -/

/-- The text of a node in an outline, without its operands. -/
def label : Expr → String
  | hole => ""
  | number n => n.outline
  | boolean b => (if b then "true" else "false") ++ ":bool"
  | constant name => name
  | identifier name => name
  | literal text => text ++ ":string"
  | operation op _ _ => op.symbol
  | conditional _ _ _ => "if"
  | call name _ => name ++ "()"
  | ending _ _ => endingName ++ "()"
  | mark symbol _ => symbol
  | closer b => b.closing

/-- The operands of a node, without those that are missing. -/
def children : Expr → List Expr
  | operation _ l r => [l, r].filter (!·.isHole)
  | conditional c t f => [c, t, f].filter (!·.isHole)
  | call _ a => [a].filter (!·.isHole)
  | ending p t => [p, t].filter (!·.isHole)
  | mark _ a => [a].filter (!·.isHole)
  | _ => []

/-- **The nodes of an expression** with their depths: each node in front of its operands, from the
depth of the root on. -/
def nodes : Expr → Nat → List (Nat × Expr)
  | hole, _ => []
  | operation op l r, d => (d, operation op l r) :: (l.nodes (d + 1) ++ r.nodes (d + 1))
  | conditional c t f, d =>
    (d, conditional c t f) :: (c.nodes (d + 1) ++ t.nodes (d + 1) ++ f.nodes (d + 1))
  | call name a, d => (d, call name a) :: a.nodes (d + 1)
  | ending p t, d => (d, ending p t) :: (p.nodes (d + 1) ++ t.nodes (d + 1))
  | mark symbol a, d => (d, mark symbol a) :: a.nodes (d + 1)
  | e, d => [(d, e)]

/-- The line of a node in an outline. -/
def line (n : Nat × Expr) : String := String.ofList (List.replicate (2 * n.1) ' ') ++ n.2.label

/-- The nodes of an expression are its parts that are there. -/
theorem map_snd_nodes (e : Expr) (d : Nat) :
    (e.nodes d).map Prod.snd = e.parts.filter (!·.isHole) := by
  induction e generalizing d with
  | operation op l r ihl ihr =>
    simp only [nodes, parts, List.map_cons, List.map_append, ihl, ihr, List.filter_cons, isHole,
      List.filter_append, Bool.not_false, if_true]
  | conditional c t f ihc iht ihf =>
    simp only [nodes, parts, List.map_cons, List.map_append, ihc, iht, ihf, List.filter_cons,
      isHole, List.filter_append, Bool.not_false, if_true]
  | call name a ih =>
    simp only [nodes, parts, List.map_cons, ih, List.filter_cons, isHole, Bool.not_false, if_true]
  | ending p t ihp iht =>
    simp only [nodes, parts, List.map_cons, List.map_append, ihp, iht, List.filter_cons, isHole,
      List.filter_append, Bool.not_false, if_true]
  | mark symbol a ih =>
    simp only [nodes, parts, List.map_cons, ih, List.filter_cons, isHole, Bool.not_false, if_true]
  | _ => rfl

/-- A missing operand has no nodes. -/
theorem nodes_of_isHole (h : e.isHole = true) : e.nodes d = [] := by
  cases e <;> cases h
  rfl

/-- Missing operands add no nodes. -/
theorem flatMap_filter_nodes (es : List Expr) :
    (es.filter (!·.isHole)).flatMap (·.nodes d) = es.flatMap (·.nodes d) := by
  induction es with
  | nil => rfl
  | cons e es ih =>
    cases h : e.isHole with
    | true => rw [List.filter_cons_of_neg (by simp [h]), ih, List.flatMap_cons,
        nodes_of_isHole h, List.nil_append]
    | false => rw [List.filter_cons_of_pos (by simp [h]), List.flatMap_cons, List.flatMap_cons, ih]

/-- **The nodes are the root and those of the operands**, one level deeper. -/
theorem nodes_eq (h : e.isHole = false) :
    e.nodes d = (d, e) :: e.children.flatMap (·.nodes (d + 1)) := by
  cases e with
  | hole => cases h
  | _ =>
    simp only [children, flatMap_filter_nodes, List.flatMap_cons, List.flatMap_nil,
      List.append_nil, ← List.append_assoc]
    rfl

/-- A missing operand is no child. -/
theorem isHole_of_mem_children (h : f ∈ e.children) : f.isHole = false := by
  cases e <;> simp only [children, List.mem_filter, Bool.not_eq_true', List.not_mem_nil] at h <;>
    exact h.2

/-- A one-sided operation has one operand. -/
theorem children_oneSided (op : Operator) (h : e.isHole = false) :
    (operation op e hole).children = [e] := by
  rw [children, List.filter_cons_of_pos (by simp [h])]
  rfl

/-- **Induction from the operands to the node.** -/
theorem children_induction {P : Expr → Prop} (h : ∀ e, (∀ f ∈ e.children, P f) → P e)
    (e : Expr) : P e := by
  induction e with
  | operation op l r ihl ihr =>
    refine h _ fun f hf => ?_
    simp only [children, List.mem_filter, List.mem_cons, List.not_mem_nil, or_false] at hf
    rcases hf.1 with rfl | rfl
    · exact ihl
    · exact ihr
  | conditional c t f ihc iht ihf =>
    refine h _ fun g hg => ?_
    simp only [children, List.mem_filter, List.mem_cons, List.not_mem_nil, or_false] at hg
    rcases hg.1 with rfl | rfl | rfl
    · exact ihc
    · exact iht
    · exact ihf
  | ending p t ihp iht =>
    refine h _ fun f hf => ?_
    simp only [children, List.mem_filter, List.mem_cons, List.not_mem_nil, or_false] at hf
    rcases hf.1 with rfl | rfl
    · exact ihp
    · exact iht
  | call name a ih | mark name a ih =>
    refine h _ fun f hf => ?_
    simp only [children, List.mem_filter, List.mem_singleton] at hf
    exact hf.1 ▸ ih
  | _ =>
    refine h _ fun f hf => ?_
    cases hf

/-- A node a level deeper is indented by two more blanks. -/
theorem nodes_succ (e : Expr) (d : Nat) :
    (e.nodes (d + 1)).map line = (e.nodes d).map fun n => "  " ++ line n := by
  have hline : ∀ (k : Nat) (f : Expr), line (k + 1, f) = "  " ++ line (k, f) := by
    intro k f
    refine String.toList_inj.1 ?_
    simp [line, Nat.mul_add, List.replicate_succ]
  induction e using children_induction generalizing d with
  | h e ih =>
    cases hhole : e.isHole with
    | true => rw [nodes_of_isHole hhole, nodes_of_isHole hhole]; rfl
    | false =>
      rw [nodes_eq hhole, nodes_eq hhole, List.map_cons, List.map_cons, hline, List.map_flatMap,
        List.map_flatMap]
      congr 1
      exact List.flatMap_congr fun f hf => ih f hf (d + 1)

/-! ## Layout -/

/-- The lines of the outlines of some operands. -/
theorem flatMap_filter_outline (es : List Expr) :
    ((es.filter (!·.isHole)).map outline).flatMap
        (fun c => (linesOf c.toList).map fun l => "  " ++ String.ofList l)
      = (es.map outline).flatMap
        fun c => (linesOf c.toList).map fun l => "  " ++ String.ofList l := by
  induction es with
  | nil => rfl
  | cons e es ih =>
    cases h : e.isHole with
    | true =>
      have hempty : e.outline = "" := by
        cases e <;> cases h
        rfl
      rw [List.filter_cons_of_neg (by simp [h]), ih, List.map_cons, List.flatMap_cons, hempty]
      rfl
    | false =>
      rw [List.filter_cons_of_pos (by simp [h]), List.map_cons, List.flatMap_cons, List.map_cons,
        List.flatMap_cons, ih]

/-- **An outline is the label of the root over the outlines of the operands.** -/
theorem outline_eq (e : Expr) : e.outline = branch e.label (e.children.map outline) := by
  cases e with
  | operation | conditional | call | ending | mark =>
    rw [branch, children, flatMap_filter_outline]
    rfl
  | _ => exact (String.intercalate_singleton (s := "\n")).symm

/-- The characters of a line. -/
theorem toList_line (n : Nat × Expr) :
    (line n).toList = List.replicate (2 * n.1) ' ' ++ n.2.label.toList := by
  rw [line, String.toList_append, String.toList_ofList]

/-- The line of a node with a label ends nowhere before its end. -/
theorem isLine_line {n : Nat × Expr} (h : IsLabel n.2.label.toList) :
    (line n).toList ≠ [] ∧ ∀ c ∈ (line n).toList, isLineEnd c = false := by
  rw [toList_line]
  refine ⟨List.append_ne_nil_of_right_ne_nil _ h.1, fun c hc => ?_⟩
  rcases List.mem_append.1 hc with hc | hc
  · obtain rfl := List.eq_of_mem_replicate hc
    decide
  · by_contra hend
    rw [Bool.not_eq_false] at hend
    exact absurd (isBlank_of_isLineEnd hend) (by rw [h.2 c hc]; decide)

/-- The parts of an operand are parts of the expression. -/
theorem parts_of_mem_children (h : f ∈ e.children) {p : Expr} (hp : p ∈ f.parts) :
    p ∈ e.parts := by
  cases e <;>
    simp only [children, List.mem_filter, List.mem_cons, List.not_mem_nil, or_false] at h <;>
    simp only [parts, List.mem_cons, List.mem_append]
  case operation | ending =>
    rcases h.1 with rfl | rfl
    · exact .inr (.inl hp)
    · exact .inr (.inr hp)
  case conditional =>
    rcases h.1 with rfl | rfl | rfl
    · exact .inr (.inl (.inl hp))
    · exact .inr (.inl (.inr hp))
    · exact .inr (.inr hp)
  case call | mark => exact .inr (h.1 ▸ hp)

/-- Whether the labels of all nodes hold no blank. -/
def Labelled (e : Expr) : Prop :=
  ∀ p ∈ e.parts, p.isHole = false → IsLabel p.label.toList

/-- The nodes of a labelled expression have labels. -/
theorem Labelled.of_mem_nodes (h : e.Labelled) {n : Nat × Expr} (hn : n ∈ e.nodes d) :
    IsLabel n.2.label.toList := by
  have hpart : n.2 ∈ e.parts.filter (!·.isHole) := by
    rw [← map_snd_nodes e d]
    exact List.mem_map_of_mem hn
  rw [List.mem_filter, Bool.not_eq_true'] at hpart
  exact h n.2 hpart.1 hpart.2

/-- Joined lines of nodes are the lines of the text. -/
theorem linesOf_nodes (h : e.Labelled) (d : Nat) :
    linesOf ("\n".intercalate ((e.nodes d).map line)).toList
      = (e.nodes d).map fun n => (line n).toList := by
  rw [linesOf_intercalate, List.map_map]
  · rfl
  intro s hs
  obtain ⟨n, hn, rfl⟩ := List.mem_map.1 hs
  exact isLine_line (h.of_mem_nodes hn)

/-- **An outline joins the lines of the nodes**, if every label holds no blank. -/
theorem outline_eq_nodes (h : e.Labelled) (he : e.isHole = false) :
    e.outline = "\n".intercalate ((e.nodes 0).map line) := by
  induction e using children_induction with
  | h e ih =>
    have hlines : ∀ f ∈ e.children,
        (linesOf f.outline.toList).map (fun l => "  " ++ String.ofList l)
          = (f.nodes 1).map line := by
      intro f hf
      have hlabels : f.Labelled := fun p hp => h p (parts_of_mem_children hf hp)
      rw [ih f hf hlabels (isHole_of_mem_children hf), linesOf_nodes hlabels, nodes_succ,
        List.map_map]
      exact List.map_congr_left fun n _ => by
        rw [Function.comp_apply, String.ofList_toList]
    rw [outline_eq, branch, nodes_eq he, List.map_cons, List.flatMap_map, List.map_flatMap,
      List.flatMap_congr hlines]
    rfl

end Expr

/-! ## Labels -/

/-- Whether a text may stand in front of the type in a label: it holds no colon either. -/
def IsStem (cs : List Char) : Prop := cs ≠ [] ∧ ∀ c ∈ cs, isBlank c = false ∧ c ≠ ':'

/-- Without a type, a stem is a label. -/
theorem IsStem.isLabel {cs : List Char} (h : IsStem cs) : IsLabel cs :=
  ⟨h.1, fun c hc => (h.2 c hc).1⟩

/-- A label may go on. -/
theorem IsLabel.append {cs ds : List Char} (h : IsLabel cs) (hd : ∀ c ∈ ds, isBlank c = false) :
    IsLabel (cs ++ ds) :=
  ⟨List.append_ne_nil_of_left_ne_nil h.1 _,
    fun c hc => (List.mem_append.1 hc).elim (h.2 c) (hd c)⟩

/-- No digit is a blank or a colon. -/
theorem stem_of_isDecimalDigit {c : Char} (h : isDecimalDigit c = true) :
    isBlank c = false ∧ c ≠ ':' := by
  refine ⟨isBlank_of_isDecimalDigit h, ?_⟩
  rintro rfl
  exact absurd h (by decide)

/-- A whole number is a stem. -/
theorem isStem_whole {cs : List Char} {n : Int} (h : Rational.IsWhole cs n) : IsStem cs := by
  refine ⟨h.ne_nil, fun c hc => ?_⟩
  rcases h.forall_mem c hc with hdigit | rfl
  · exact stem_of_isDecimalDigit hdigit
  · decide

/-- The numerator and the denominator of a rational. -/
def quotientText (q : Rat) : List Char := (intText q.num).toList ++ '/' :: digits q.den

/-- A quotient writes its numerator and its denominator. -/
theorem writes_quotientText (q : Rat) : Rational.Writes (quotientText q) q.num q.den := by
  have hgap : Rational.IsGap [] := fun c hc => by cases hc
  have hwrites := Rational.Writes.quotient hgap (Rational.isWhole_intText q.num) hgap hgap
    (Rational.isDigits_digits q.den) hgap
  rw [digitsValue_digits] at hwrites
  simpa [quotientText] using hwrites

/-- A quotient is a stem. -/
theorem isStem_quotientText (q : Rat) : IsStem (quotientText q) := by
  obtain ⟨hne, hnum⟩ := isStem_whole (Rational.isWhole_intText q.num)
  refine ⟨List.append_ne_nil_of_left_ne_nil hne _, fun c hc => ?_⟩
  rcases List.mem_append.1 hc with hc | hc
  · exact hnum c hc
  · rcases List.mem_cons.1 hc with rfl | hc
    · decide
    · exact stem_of_isDecimalDigit ((Rational.isDigits_digits q.den).2 c hc)

/-- The text of a double is a stem. -/
theorem isStem_text (x : Double) : IsStem x.text.toList := by
  have hmark : ∀ c ∈ ['.', 'e', '+', '-'], isBlank c = false ∧ c ≠ ':' :=
    forall_mem_of_all (by decide)
  cases hx : x.isFinite with
  | true =>
    constructor
    · cases x with
      | finite s r hr =>
        obtain ⟨c, cs, hc, -⟩ := Double.head_text r hr
        rw [Double.text_finite, hc]
        exact List.append_ne_nil_of_right_ne_nil _ (List.cons_ne_nil c cs)
      | _ => cases hx
    · intro c hc
      rcases Double.isNumeralChar_of_mem_text hx hc with hdigit | hc
      · exact stem_of_isDecimalDigit (isDecimalDigit_of_isDigit hdigit)
      · exact hmark c hc
  | false =>
    cases x with
    | nan => exact ⟨by decide, forall_mem_of_all (by decide)⟩
    | infinity s => cases s <;> exact ⟨by decide, forall_mem_of_all (by decide)⟩
    | finite s r hr => cases hx

/-- A word is a stem. -/
theorem isStem_word {cs : List Char} (h : IsWord cs) : IsStem cs := by
  obtain ⟨c, us, rfl, hc, hus⟩ := h
  refine ⟨List.cons_ne_nil c us, fun d hd => ?_⟩
  rcases List.mem_cons.1 hd with rfl | hd
  · refine ⟨(plain_of_startsName hc).2.1, ?_⟩
    rintro rfl
    exact absurd hc (by decide)
  · have hword : isWordChar d = true := List.all_eq_true.1 hus d hd
    constructor
    · simp only [isWordChar, Bool.or_eq_true, beq_iff_eq] at hword
      rcases hword with (hletter | hdigit) | rfl
      · exact (Lexicon.plain_of_isAsciiLetter hletter).2.1
      · have hdigit : d.isDigit = true := by
          simpa [isAsciiDigit, Char.isDigit, Char.le_def] using hdigit
        exact isBlank_of_isDecimalDigit (isDecimalDigit_of_isDigit hdigit)
      · decide
    · rintro rfl
      exact absurd hword (by decide)

/-! ## Leaves -/

/-- What a leaf is, as its label tells. -/
inductive LeafKind where
  | integer | rational | float | boolean | literal | name

/-- The type behind the text of a leaf. -/
def LeafKind.typeText : LeafKind → List Char
  | integer => [':', 'i', 'n', 't']
  | rational => [':', 'r', 'a', 't', 'i', 'o', 'n', 'a', 'l']
  | float => [':', 'f', 'l', 'o', 'a', 't']
  | boolean => [':', 'b', 'o', 'o', 'l']
  | literal => [':', 's', 't', 'r', 'i', 'n', 'g']
  | name => []

/-- Types are told apart by their texts, and start with a colon. -/
theorem LeafKind.typeText_injective {k m : LeafKind} (h : k.typeText = m.typeText) : k = m := by
  cases k <;> cases m <;> first | rfl | cases h

/-- **A stem and a type are told apart** by the first colon. -/
theorem stem_and_type_unique {cs ds : List Char} {k m : LeafKind} (hc : IsStem cs) (hd : IsStem ds)
    (h : cs ++ k.typeText = ds ++ m.typeText) : cs = ds ∧ k = m := by
  have hstem : ∀ {es : List Char}, IsStem es → ∀ k : LeafKind,
      (es ++ k.typeText).takeWhile (· != ':') = es := by
    intro es hes k
    rw [List.takeWhile_append_of_pos fun c hc => by simpa using (hes.2 c hc).2]
    cases k <;> simp [LeafKind.typeText]
  have hstems := congrArg (List.takeWhile (· != ':')) h
  rw [hstem hc, hstem hd] at hstems
  subst hstems
  exact ⟨rfl, LeafKind.typeText_injective (List.append_cancel_left h)⟩

namespace Lexicon

/-- **The leaves of worded expressions**, with what their labels say. -/
inductive Leaf (l : Lexicon) : Expr → LeafKind → List Char → Prop where
  | integer {cs : List Char} (n : Int) (h : cs = (intText n).toList) :
    Leaf l (.integer n) .integer cs
  | rational {cs : List Char} (q : Rat) (h : cs = quotientText q) : Leaf l (.rational q) .rational cs
  | float {cs : List Char} (x : Double) (h : cs = x.text.toList) : Leaf l (.float x) .float cs
  | boolean {cs : List Char} (b : Bool) (h : cs = (if b then "true" else "false").toList) :
    Leaf l (.boolean b) .boolean cs
  | literal {cs : List Char} {text : String} (hs : IsStem cs) (h : cs = text.toList) :
    Leaf l (.literal text) .literal cs
  | constant {cs : List Char} {name : String} (hn : l.Names .constant name)
    (h : cs = name.toList) : Leaf l (.constant name) .name cs
  | identifier {cs : List Char} {name : String} (hn : l.Names .identifier name)
    (h : cs = name.toList) : Leaf l (.identifier name) .name cs

variable {l : Lexicon} {e f : Expr} {k : LeafKind} {cs : List Char}

namespace Leaf

/-- The text of a leaf is a stem. -/
theorem isStem (h : l.Leaf e k cs) : IsStem cs := by
  cases h with
  | integer n h => exact h ▸ isStem_whole (Rational.isWhole_intText _)
  | rational q h => exact h ▸ isStem_quotientText _
  | float x h => exact h ▸ isStem_text _
  | boolean b h =>
    rw [h]
    cases b <;> exact ⟨by decide, forall_mem_of_all (by decide)⟩
  | literal hs => exact hs
  | constant hn h => exact h ▸ isStem_word hn.word
  | identifier hn h => exact h ▸ isStem_word hn.word

/-- The label of a leaf is its text with its type. -/
theorem label_eq (h : l.Leaf e k cs) : e.label.toList = cs ++ k.typeText := by
  cases h with
  | integer n h => simp [h, Expr.label, Number.outline, LeafKind.typeText]
  | rational q h => simp [h, Expr.label, Number.outline, LeafKind.typeText, quotientText]
  | float x h => simp [h, Expr.label, Number.outline, LeafKind.typeText]
  | boolean b h => simp [h, Expr.label, LeafKind.typeText]
  | literal _ h => simp [h, Expr.label, LeafKind.typeText]
  | constant _ h => simp [h, Expr.label, LeafKind.typeText]
  | identifier _ h => simp [h, Expr.label, LeafKind.typeText]

/-- **A leaf is determined by its text and its type**, as a name is of one kind in a lexicon. -/
theorem unique (he : l.Leaf e k cs) (hf : l.Leaf f k cs) : e = f := by
  cases he with
  | integer n h =>
    cases hf with
    | integer m h' =>
      have hn := Rational.readInteger?_eq_some_iff.2 (Rational.isWhole_intText n)
      have hm := Rational.readInteger?_eq_some_iff.2 (Rational.isWhole_intText m)
      rw [← h, h', hm] at hn
      cases hn
      rfl
  | rational q h =>
    cases hf with
    | rational p h' =>
      obtain ⟨hnum, hden⟩ := (writes_quotientText q).unique (h ▸ h' ▸ writes_quotientText p)
      rw [Rat.ext hnum hden]
  | float x h =>
    cases hf with
    | float y h' => rw [Double.text_injective (String.toList_inj.1 (h.symm.trans h'))]
  | boolean b h =>
    cases hf with
    | boolean c h' =>
      rw [h] at h'
      cases b <;> cases c <;> first | rfl | exact absurd h' (by decide)
  | literal _ h =>
    cases hf with
    | literal _ h' => rw [String.toList_inj.1 (h.symm.trans h')]
  | constant hn h =>
    cases hf with
    | constant _ h' => rw [String.toList_inj.1 (h.symm.trans h')]
    | identifier hn' h' =>
      obtain rfl := String.toList_inj.1 (h.symm.trans h')
      have halone := hn.alone.symm.trans hn'.alone
      cases halone
  | identifier hn h =>
    cases hf with
    | identifier _ h' => rw [String.toList_inj.1 (h.symm.trans h')]
    | constant hn' h' =>
      obtain rfl := String.toList_inj.1 (h.symm.trans h')
      have halone := hn.alone.symm.trans hn'.alone
      cases halone

end Leaf

/-! ## Roots -/

/-- **The roots of worded expressions**, with their operands. -/
inductive Root (l : Lexicon) : Expr → List Expr → Prop where
  | leaf {e : Expr} {k : LeafKind} {cs : List Char} (h : l.Leaf e k cs) : Root l e []
  | oneSided (op : Operator) (x : Expr) : Root l (.operation op x .hole) [x]
  | call {name : String} (h : IsLabel name.toList) (x : Expr) : Root l (.call name x) [x]
  | operation (op : Operator) (x y : Expr) : Root l (.operation op x y) [x, y]
  | ending (x y : Expr) : Root l (.ending x y) [x, y]
  | conditional (x y z : Expr) : Root l (.conditional x y z) [x, y, z]

/-- A worded expression has one of these roots. -/
theorem Worded.root (h : l.Worded e) : l.Root e e.children := by
  cases h with
  | number n =>
    cases n with
    | integer n => exact .leaf (.integer n rfl)
    | rational q => exact .leaf (.rational q rfl)
    | float x => exact .leaf (.float x rfl)
  | boolean _ b => exact .leaf (.boolean b rfl)
  | constant hn => exact .leaf (.constant hn rfl)
  | identifier hn => exact .leaf (.identifier hn rfl)
  | @literal a b ha hb =>
    have hstem : IsStem (String.ofList ['.', a, b]).toList := by
      rw [String.toList_ofList]
      refine ⟨List.cons_ne_nil _ _, fun c hc => ?_⟩
      simp only [List.mem_cons, List.not_mem_nil, or_false] at hc
      rcases hc with rfl | rfl | rfl
      · decide
      · exact stem_of_isDecimalDigit ha
      · exact stem_of_isDecimalDigit hb
    exact .leaf (.literal hstem rfl)
  | @operation op x y _ _ hx hy =>
    simpa [Expr.children, hx.isHole_eq_false, hy.isHole_eq_false] using Root.operation op x y
  | @negated x _ hx =>
    rw [Expr.children_oneSided .sub hx.isHole_eq_false]
    exact .oneSided .sub x
  | @denied x _ hx =>
    rw [Expr.children_oneSided .not hx.isHole_eq_false]
    exact .oneSided .not x
  | @conditional c x y _ hc hx hy =>
    simpa [Expr.children, hc.isHole_eq_false, hx.isHole_eq_false, hy.isHole_eq_false]
      using Root.conditional c x y
  | @factorial name x hname _ hx =>
    have hlabel : IsLabel name.toList := by
      rcases hname with rfl | rfl <;> exact ⟨by decide, forall_mem_of_all (by decide)⟩
    simpa [Expr.children, hx.isHole_eq_false] using Root.call hlabel x
  | @application name x hname _ hx =>
    simpa [Expr.children, hx.isHole_eq_false] using Root.call (isStem_word hname.word).isLabel x
  | @ending x y _ hx hy =>
    simpa [Expr.children, hx.isHole_eq_false, hy.isHole_eq_false] using Root.ending x y

/-- The symbols of operators hold no blank and no bracket. -/
theorem isLabel_symbol (op : Operator) : IsLabel op.symbol.toList ∧ ')' ∉ op.symbol.toList := by
  cases op <;> exact ⟨⟨by decide, forall_mem_of_all (by decide)⟩, by decide⟩

/-- Different operators have different symbols. -/
theorem symbol_injective {op op' : Operator} (h : op.symbol = op'.symbol) : op = op' := by
  have hfound : ∀ op : Operator, Operator.ofSymbol? op.symbol = some op := by
    intro op
    cases op <;> decide
  exact Option.some.inj ((hfound op).symm.trans (h ▸ hfound op'))

/-- No symbol is the label of a function. -/
theorem symbol_ne_label (op : Operator) (name : String) : op.symbol ≠ name ++ "()" := by
  intro h
  refine (isLabel_symbol op).2 ?_
  rw [h, String.toList_append]
  exact List.mem_append_right _ (by decide)

namespace Root

variable {es : List Expr}

/-- The label of a root holds no blank. -/
theorem isLabel (h : l.Root e es) : IsLabel e.label.toList := by
  have htype : ∀ k : LeafKind, ∀ c ∈ k.typeText, isBlank c = false := by
    intro k
    cases k <;> exact forall_mem_of_all (by decide)
  have hbrackets : ∀ c ∈ "()".toList, isBlank c = false := forall_mem_of_all (by decide)
  cases h with
  | @leaf _ k _ h =>
    rw [h.label_eq]
    exact h.isStem.isLabel.append (htype k)
  | oneSided op x => exact (isLabel_symbol op).1
  | @call name h x =>
    show IsLabel (name ++ "()").toList
    rw [String.toList_append]
    exact h.append hbrackets
  | operation op x y => exact (isLabel_symbol op).1
  | ending x y =>
    show IsLabel (Expr.endingName ++ "()").toList
    exact ⟨by decide, forall_mem_of_all (by decide)⟩
  | conditional x y z =>
    show IsLabel "if".toList
    exact ⟨by decide, forall_mem_of_all (by decide)⟩

/-- **A root is determined by its label and its operands.** -/
theorem unique (he : l.Root e es) (hf : l.Root f es) (h : e.label = f.label) : e = f := by
  cases he with
  | leaf he =>
    cases hf with
    | leaf hf =>
      have hlabel := congrArg String.toList h
      rw [he.label_eq, hf.label_eq] at hlabel
      obtain ⟨rfl, rfl⟩ := stem_and_type_unique he.isStem hf.isStem hlabel
      exact he.unique hf
  | oneSided op x =>
    cases hf with
    | oneSided op' => rw [symbol_injective h]
    | call _ => exact absurd h (symbol_ne_label op _)
  | call _ x =>
    cases hf with
    | oneSided op => exact absurd h.symm (symbol_ne_label op _)
    | call _ => rw [(String.append_left_inj _).1 h]
  | operation op x y =>
    cases hf with
    | operation op' => rw [symbol_injective h]
    | ending => exact absurd h (symbol_ne_label op _)
  | ending x y =>
    cases hf with
    | operation op => exact absurd h.symm (symbol_ne_label op _)
    | ending => rfl
  | conditional x y z =>
    cases hf with
    | conditional => rfl

end Root

/-- **The labels of a worded expression hold no blank.** -/
theorem Worded.labelled (h : l.Worded e) : e.Labelled := by
  intro p hp hpresent
  rcases Expr.worded_of_mem_parts h p hp with rfl | hworded
  · cases hpresent
  · exact hworded.root.isLabel

/-- The operands of a worded expression are worded. -/
theorem Worded.of_mem_children (h : l.Worded e) (hf : f ∈ e.children) : l.Worded f := by
  have hpart := Expr.parts_of_mem_children hf (Expr.mem_parts_self f)
  refine (Expr.worded_of_mem_parts h f hpart).resolve_left ?_
  rintro rfl
  cases Expr.isHole_of_mem_children hf

end Lexicon

/-! ## Decoding -/

namespace Expr

variable {l : Lexicon} {e f : Expr} {d : Nat}

/-- The depths and labels of the nodes of an expression. -/
def rows (e : Expr) (d : Nat) : List (Nat × String) := (e.nodes d).map fun n => (n.1, n.2.label)

/-- The rows are the root and those of the operands, one level deeper. -/
theorem rows_eq (h : e.isHole = false) :
    e.rows d = (d, e.label) :: e.children.flatMap (·.rows (d + 1)) := by
  rw [rows, nodes_eq h, List.map_cons, List.map_flatMap]
  rfl

/-- The rows of an expression are as deep as its root at least. -/
theorem le_of_mem_rows {r : Nat × String} (h : r ∈ e.rows d) : d ≤ r.1 := by
  induction e using children_induction generalizing d with
  | h e ih =>
    cases hhole : e.isHole with
    | true =>
      rw [rows, nodes_of_isHole hhole] at h
      cases h
    | false =>
      rw [rows_eq hhole] at h
      rcases List.mem_cons.1 h with rfl | h
      · exact le_rfl
      · obtain ⟨f, hf, hr⟩ := List.mem_flatMap.1 h
        have hdeeper := ih f hf hr
        omega

/-- The rows of several operands start with the row of the first. -/
theorem head?_flatMap_rows {es : List Expr} (h : ∀ e ∈ es, e.isHole = false) :
    ∀ r ∈ (es.flatMap (·.rows d)).head?, r.1 = d := by
  cases es with
  | nil => exact fun r hr => by cases hr
  | cons e es =>
    rw [List.flatMap_cons, rows_eq (h e List.mem_cons_self)]
    exact fun r hr => by cases hr; rfl

/-- **The rows of an operand end** where a row is no deeper than it. -/
theorem takeWhile_rows {es rest : List Expr} (h : ∀ e ∈ rest, e.isHole = false) :
    (es.flatMap (·.rows (d + 1)) ++ rest.flatMap (·.rows d)).takeWhile (fun r => decide (d < r.1))
      = es.flatMap (·.rows (d + 1)) := by
  rw [List.takeWhile_append_of_pos]
  · have hhead := head?_flatMap_rows (d := d) h
    cases hrest : rest.flatMap (·.rows d) with
    | nil => simp
    | cons r rs =>
      rw [hrest] at hhead
      simp [hhead r rfl]
  · intro r hr
    obtain ⟨e, -, hr⟩ := List.mem_flatMap.1 hr
    have hdepth := le_of_mem_rows hr
    rw [decide_eq_true_iff]
    omega

/-- **Operands are determined by their rows**, if each of them is. -/
theorem eq_of_flatMap_rows : ∀ {es fs : List Expr}, (∀ e ∈ es, e.isHole = false) →
    (∀ f ∈ fs, f.isHole = false) →
    (∀ e ∈ es, ∀ f ∈ fs, e.rows d = f.rows d → e = f) →
    es.flatMap (·.rows d) = fs.flatMap (·.rows d) → es = fs
  | [], [], _, _, _, _ => rfl
  | [], f :: fs, _, hf, _, h => by
    rw [List.flatMap_cons, rows_eq (hf f List.mem_cons_self)] at h
    cases h
  | e :: es, [], he, _, _, h => by
    rw [List.flatMap_cons, rows_eq (he e List.mem_cons_self)] at h
    cases h
  | e :: es, f :: fs, he, hf, heq, h => by
    have hes : ∀ e ∈ es, e.isHole = false := fun e h => he e (List.mem_cons_of_mem _ h)
    have hfs : ∀ f ∈ fs, f.isHole = false := fun f h => hf f (List.mem_cons_of_mem _ h)
    have hrowe := rows_eq (d := d) (he e List.mem_cons_self)
    have hrowf := rows_eq (d := d) (hf f List.mem_cons_self)
    rw [List.flatMap_cons, List.flatMap_cons, hrowe, hrowf, List.cons_append, List.cons_append,
      List.cons.injEq] at h
    obtain ⟨hroot, hrest⟩ := h
    -- the rows behind the root are cut where the next operand starts
    have hcut := congrArg (List.takeWhile fun r => decide (d < r.1)) hrest
    rw [takeWhile_rows hes, takeWhile_rows hfs] at hcut
    rw [hcut, List.append_cancel_left_eq] at hrest
    have hfirst : e = f :=
      heq e List.mem_cons_self f List.mem_cons_self (by rw [hrowe, hrowf, hroot, hcut])
    rw [hfirst, eq_of_flatMap_rows hes hfs
      (fun e he f hf => heq e (List.mem_cons_of_mem _ he) f (List.mem_cons_of_mem _ hf)) hrest]

/-- **A worded expression is determined by its rows.** -/
theorem eq_of_rows (he : l.Worded e) (hf : l.Worded f) (h : e.rows d = f.rows d) : e = f := by
  induction e using children_induction generalizing f d with
  | h e ih =>
    rw [rows_eq he.isHole_eq_false, rows_eq hf.isHole_eq_false, List.cons.injEq,
      Prod.mk.injEq] at h
    obtain ⟨⟨-, hlabel⟩, hrows⟩ := h
    have hchildren : e.children = f.children :=
      eq_of_flatMap_rows (fun _ => isHole_of_mem_children) (fun _ => isHole_of_mem_children)
        (fun g hg g' hg' => ih g hg (he.of_mem_children hg) (hf.of_mem_children hg')) hrows
    exact he.root.unique (hchildren ▸ hf.root) hlabel

/-- The depth and the label that a line shows. -/
def rowOf (cs : List Char) : Nat × String :=
  ((cs.takeWhile isBlank).length / 2, String.ofList (cs.dropWhile isBlank))

/-- **A line shows the depth and the label of its node.** -/
theorem rowOf_line {n : Nat × Expr} (h : IsLabel n.2.label.toList) :
    rowOf (line n).toList = (n.1, n.2.label) := by
  have hblanks : ∀ c ∈ List.replicate (2 * n.1) ' ', isBlank c = true := by
    intro c hc
    rw [List.eq_of_mem_replicate hc]
    decide
  rw [rowOf, toList_line, List.takeWhile_append_of_pos hblanks, List.dropWhile_append_of_pos hblanks]
  cases hlabel : n.2.label.toList with
  | nil => exact absurd hlabel h.1
  | cons c cs =>
    have hc : isBlank c = false := h.2 c (hlabel ▸ List.mem_cons_self)
    rw [List.takeWhile_cons_of_neg (by simp [hc]), List.dropWhile_cons_of_neg (by simp [hc]),
      ← hlabel, String.ofList_toList, List.append_nil, List.length_replicate,
      Nat.mul_div_cancel_left _ (by decide)]

/-- The rows of a labelled expression are shown by its lines. -/
theorem rows_eq_map (h : e.Labelled) (d : Nat) :
    e.rows d = ((e.nodes d).map fun n => (line n).toList).map rowOf := by
  rw [rows, List.map_map]
  exact List.map_congr_left fun n hn => (rowOf_line (h.of_mem_nodes hn)).symm

/-- **A worded expression is determined by its outline.** -/
theorem eq_of_outline_eq (he : l.Worded e) (hf : l.Worded f) (h : e.outline = f.outline) :
    e = f := by
  have hlines := congrArg (fun s => linesOf s.toList) h
  rw [outline_eq_nodes he.labelled he.isHole_eq_false,
    outline_eq_nodes hf.labelled hf.isHole_eq_false] at hlines
  simp only [linesOf_nodes he.labelled, linesOf_nodes hf.labelled] at hlines
  refine eq_of_rows (d := 0) he hf ?_
  rw [rows_eq_map he.labelled, rows_eq_map hf.labelled, hlines]

/-- **An expression without NaN is structurally equal to itself.** -/
theorem same_self (h : float .nan ∉ e.parts) : e.same e = true := by
  induction e with
  | number n =>
    cases n with
    | float x =>
      cases x with
      | nan => exact absurd (mem_parts_self _) h
      | _ => simp [same, Number.same, Double.eqv, Double.place?]
    | _ => simp [same, Number.same]
  | operation op l r ihl ihr =>
    simp only [parts, List.mem_cons, List.mem_append, not_or] at h
    simp [same, ihl h.2.1, ihr h.2.2]
  | conditional c t f ihc iht ihf =>
    simp only [parts, List.mem_cons, List.mem_append, not_or] at h
    simp [same, ihc h.2.1.1, iht h.2.1.2, ihf h.2.2]
  | call name a ih | mark name a ih =>
    simp only [parts, List.mem_cons, not_or] at h
    simp [same, ih h.2]
  | ending p t ihp iht =>
    simp only [parts, List.mem_cons, List.mem_append, not_or] at h
    simp [same, ihp h.2.1, iht h.2.2]
  | _ => simp [same]

end Expr

namespace Lexicon

open Formula.Expr

variable {l : Lexicon} {e f : Expr}

/-- **Outlines determine parsed expressions.** The lines of the outline of an expression that is
read from a text are those of its nodes, each indented by two blanks for each level of depth; and
two expressions that are read from texts of one built-in lexicon and have the same outline are the
same, hence structurally equal as long as they hold no NaN. -/
theorem outline_injective (hl : l ∈ builtin) {o o' : Options} {source source' : String}
    {ts ts' : List Token} (ht : l.tokenize source = .ok ts) (he : parse o ts = .ok e)
    (ht' : l.tokenize source' = .ok ts') (hf : parse o' ts' = .ok f) :
    (e.outline = "\n".intercalate ((e.nodes 0).map line) ∧
      linesOf e.outline.toList = (e.nodes 0).map (fun n => (line n).toList) ∧
      (e.nodes 0).map Prod.snd = e.parts.filter (!·.isHole)) ∧
    (e.outline = f.outline → e = f ∧ (float .nan ∉ e.parts → e.same f = true)) := by
  have hworded := worded_of_parse hl ht he
  have hjoined := outline_eq_nodes hworded.labelled hworded.isHole_eq_false
  refine ⟨⟨hjoined, ?_, map_snd_nodes e 0⟩, fun h => ?_⟩
  · rw [hjoined, linesOf_nodes hworded.labelled]
  · obtain rfl := eq_of_outline_eq hworded (worded_of_parse hl ht' hf) h
    exact ⟨rfl, same_self⟩

/-- A sum with a negation, with and without brackets. -/
theorem outline_injective_sum :
    let o : Options := ⟨true, false, false⟩
    let e : Expr := operation .add (negated (identifier "x")) (integer 2)
    ∃ ts ts', standard.tokenize "-x+2" = .ok ts ∧ parse o ts = .ok e ∧
      standard.tokenize "(-x) + 2" = .ok ts' ∧ parse o ts' = .ok e ∧
      e.outline = "+\n  -\n    x\n  2:int" ∧
      (e.nodes 0).map line = ["+", "  -", "    x", "  2:int"] ∧ e.same e = true := by
  intro o e
  obtain ⟨ts, hts⟩ : ∃ ts, ts = (standard.tokenize "-x+2").toOption.getD [] := ⟨_, rfl⟩
  obtain ⟨ts', hts'⟩ : ∃ ts', ts' = (standard.tokenize "(-x) + 2").toOption.getD [] := ⟨_, rfl⟩
  have htokens : standard.tokenize "-x+2" = .ok ts := by
    rw [hts]
    decide +kernel
  have hparse : parse o ts = .ok e := by
    rw [hts]
    decide +kernel
  have htokens' : standard.tokenize "(-x) + 2" = .ok ts' := by
    rw [hts']
    decide +kernel
  have hparse' : parse o ts' = .ok e := by
    rw [hts']
    decide +kernel
  obtain ⟨⟨hjoined, -⟩, hsame⟩ :=
    outline_injective (by decide) htokens hparse htokens' hparse'
  have hlines : (e.nodes 0).map line = ["+", "  -", "    x", "  2:int"] := by decide +kernel
  refine ⟨ts, ts', htokens, hparse, htokens', hparse', ?_, hlines, (hsame rfl).2 (by decide)⟩
  rw [hjoined, hlines]
  decide

end Lexicon

end Formula
