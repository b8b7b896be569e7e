import FileSpec.Proofs.Pattern.TokenLanguage

/-!
# Matching by the built-in flavors

Both built-in flavors keep separators out of names and have a class of name characters that can
be written, so the text of each specification reads as an expression for its plain language.
-/

set_option autoImplicit false

namespace FileSpec

open Text

namespace PathStyle

theorem hasNameClass (style : PathStyle) : style.flavor.HasNameClass := by
  have nonempty : style.flavor.invalidNameChars ≠ [] := by cases style <;> decide
  have small : style.flavor.invalidNameChars.all (·.toNat < 256) = true := by
    cases style <;> decide
  refine ⟨nonempty, fun character member => .inr ?_⟩
  exact of_decide_eq_true (List.all_eq_true.mp small character member)

end PathStyle

/--
The text of a specification reads as an expression that matches the plain language of the tokens
of the specification. Possessive runs lose no match.
-/
theorem isMatch_compile_iff_mem_sequenceLanguage (style : PathStyle)
    (specification : List Char) :
    ∃ regex tokens,
      Regex.ofText? (compile style.flavor specification) = some regex ∧
      (∀ others, Token.Reads style.flavor specification others ↔ others = tokens) ∧
      ∀ text : List Char,
        (regex.isMatch text = true ↔ text ∈ Token.sequenceLanguage style.flavor tokens) ∧
        regex.backtracking.isMatch text = regex.isMatch text := by
  have separated : Token.Separated style.flavor (Token.scan style.flavor specification) :=
    (Token.reads_scan specification).separated
  refine ⟨_, _, Regex.ofText?_compile style.hasNameClass specification,
    Token.reads_iff specification, fun text => ?_⟩
  have found := Token.isMatch_sequence_iff style.separatesNames separated text
  refine ⟨found, ?_⟩
  rw [Bool.eq_iff_iff, Regex.backtracking_isMatch_iff, Token.language_sequence, found]

end FileSpec
