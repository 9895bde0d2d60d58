/-
# Words of the standard lexicon

The standard lexicon has the elementary functions, the constants and single letters for names, and
it finds marks where they are not doubled.
-/
import Formula.Proofs.KnownWords

namespace Formula

open Grammar

namespace Lexicon

/-! ## Names -/

/-- The names of the elementary functions. -/
def functionNames : List String := functionSpellings.map fun s => s.2.getD (s.1.headD "")

/-- Each function name is a name of the standard lexicon. -/
theorem names_of_function {name : String} (h : name ∈ functionNames) :
    standard.Names .function name := by
  have hfound : ∀ name ∈ functionNames, Pattern.isWordText name = true ∧
      standard.first? 0 name.toList = some (plainWord .function name) := by
    decide +kernel
  obtain ⟨hword, halone⟩ := hfound name h
  exact ⟨Pattern.isWord_of_isWordText hword, halone⟩

/-- The name of a function opens. -/
theorem opens_function {name : String} (h : name ∈ functionNames) : Opens name.toList :=
  (names_of_function h).opens

/-- **The standard lexicon knows function names** before their arguments. -/
theorem knows_function {name : String} (h : name ∈ functionNames) :
    standard.Knows (plainWord .function name) :=
  (names_of_function h).knows_function (by decide)

/-- The names of the constants. -/
def constantNames : List String := ["pi", "e", "NAN", "INF"]

/-- Each constant is a name of the standard lexicon. -/
theorem names_of_constant {name : String} (h : name ∈ constantNames) :
    standard.Names .constant name := by
  have hfound : ∀ name ∈ constantNames, Pattern.isWordText name = true ∧
      standard.first? 0 name.toList = some (plainWord .constant name) := by
    decide +kernel
  obtain ⟨hword, halone⟩ := hfound name h
  exact ⟨Pattern.isWord_of_isWordText hword, halone⟩

/-- **The standard lexicon knows the constants.** -/
theorem knows_constant {name : String} (h : name ∈ constantNames) :
    standard.Knows (plainWord .constant name) :=
  (names_of_constant h).knows (by decide) fun _ hcs => Boundary.endsWord hcs

/-- The name of a constant opens. -/
theorem opens_constant {name : String} (h : name ∈ constantNames) : Opens name.toList :=
  (names_of_constant h).opens

/-- **Each letter is a name of the standard lexicon**, except for Euler's number. -/
theorem names_of_letter {c : Char} (hc : isAsciiLetter c = true) (he : c ≠ 'e') :
    standard.Names .identifier (String.singleton c) where
  word := by
    rw [String.toList_singleton]
    exact ⟨c, [], rfl, by simp [startsName, hc], rfl⟩
  alone := by
    rw [String.toList_singleton]
    have hcommon : (common false).first? 0 [c] = none :=
      first?_of_skipsLetters (by decide) hc trivial
    have heuler : (constant false "e").token? 0 [c] = none := by
      refine token?_eq_none ?_
      show Pattern.firstLength [Pattern.wordLength "e" [c]] = 0
      have hlength : Pattern.wordLength "e" [c] = 0 := by
        rw [Pattern.wordLength, if_neg]
        simpa using fun h => he h.symm
      rw [hlength]
      rfl
    have hbefore : Lexicon.first? (common false ++ [constant false "e"]) 0 [c] = none := by
      rw [first?_skip hcommon, first?_cons_of_none heuler]
      rfl
    have hletter : (⟨.letter, .identifier, none⟩ : Definition).token? 0 ([c] ++ [])
        = some ⟨.identifier, String.ofList [c], String.ofList [c], 0⟩ :=
      token?_eq_some (by simp) (by simp [Pattern.length, hc])
    exact first?_append_cons hbefore hletter

/-- **The standard lexicon knows single letters**, except for Euler's number. -/
theorem knows_letter {c : Char} (hc : isAsciiLetter c = true) (he : c ≠ 'e') :
    standard.Knows (plainWord .identifier (String.singleton c)) :=
  (names_of_letter hc he).knows (by decide) fun _ hcs => Boundary.endsWord hcs

/-- A single letter opens. -/
theorem opens_letter {c : Char} (hc : isAsciiLetter c = true) :
    Opens (String.singleton c).toList := by
  rw [String.toList_singleton]
  exact opens_of_isAsciiLetter hc []

/-! ## Punctuation, operators and marks -/

/-- The standard lexicon knows spaces and parentheses. -/
theorem knowsPunctuation_standard : standard.KnowsPunctuation := knowsPunctuation (by decide)

/-- The standard lexicon knows the separator of arguments. -/
theorem knows_comma : standard.Knows comma := knows_punctuation (by decide) (by decide)

/-- The operators of arithmetic. -/
def arithmeticOperators : List Operator := [.add, .sub, .mul, .div, .pow]

/-- The operators of arithmetic stand between two operands. -/
theorem ne_not_of_arithmetic {op : Operator} (h : op ∈ arithmeticOperators) : op ≠ .not := by
  rintro rfl
  exact absurd h (by decide)

/-- **The standard lexicon knows the operators of arithmetic.** -/
theorem knows_operatorWord {op : Operator} (h : op ∈ arithmeticOperators) :
    standard.Knows (operatorWord op) := by
  have hmem : ∀ op ∈ arithmeticOperators, .operator op ∈ standard.kinds := by decide
  exact knows_operator (by decide) (hmem op h)

/-- **The standard lexicon knows the marks** behind operands. -/
theorem knows_factorialWord {name : String} (h : name = "!" ∨ name = "!!") :
    standard.Knows (factorialWord name) := by
  rcases h with rfl | rfl
  · have hsettles : standard.settles "!" ['!'] = true := by decide +kernel
    refine knows_of_symbol (t := factorialWord "!") hsettles (by decide +kernel) ?_
    rintro cs hcs c hc hmark
    rw [List.mem_singleton.1 hmark] at hc
    exact hcs hc
  · have hsettles : standard.settles "!!" [] = true := by decide
    exact knows_of_symbol (t := factorialWord "!!") hsettles (by decide)
      fun _ _ _ _ => List.not_mem_nil

end Lexicon

end Formula
