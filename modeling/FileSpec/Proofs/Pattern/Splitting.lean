import FileSpec.Proofs.Pattern.Concatenation
import FileSpec.Proofs.Pattern.Matching
import FileSpec.Proofs.Pattern.Renaming

/-!
# Matching in two parts

Where the tokens of two specifications stand one behind the other, so do the texts of their
expressions, and what both match together is in two parts, one for each:
`compile_append_isMatch_iff`. No part of the first expression keeps what the second one needs.
-/

set_option autoImplicit false

namespace FileSpec

open Text

theorem bodyText_append {flavor : Flavor} {front back : List Char}
    (between : flavor.MeetBetweenTokens front back) :
    bodyText flavor (front ++ back) = bodyText flavor front ++ bodyText flavor back := by
  rw [bodyText, Token.scan_append between, List.flatMap_append]
  rfl

namespace PathStyle

variable (style : PathStyle) {front back : List Char}

theorem isMatch_sequence_scan_iff (specification text : List Char) :
    (Regex.sequence
        ((Token.scan style.flavor specification).map (Token.regex style.flavor))).isMatch text =
        true ↔
      text ∈ Token.sequenceLanguage style.flavor (Token.scan style.flavor specification) :=
  Token.isMatch_sequence_iff style.separatesNames (Token.reads_scan specification).separated text

theorem isMatch_append_iff (between : style.flavor.MeetBetweenTokens front back)
    (text : List Char) :
    (Regex.sequence
        ((Token.scan style.flavor (front ++ back)).map (Token.regex style.flavor))).isMatch text =
        true ↔
      ∃ begin rest, begin ++ rest = text ∧
        (Regex.sequence
          ((Token.scan style.flavor front).map (Token.regex style.flavor))).isMatch begin = true ∧
        (Regex.sequence
          ((Token.scan style.flavor back).map (Token.regex style.flavor))).isMatch rest = true := by
  simp only [isMatch_sequence_scan_iff]
  rw [Token.scan_append between, Token.mem_sequenceLanguage_append]
  constructor
  · rintro ⟨begin, inFront, rest, inBack, whole⟩
    exact ⟨begin, rest, whole, inFront, inBack⟩
  · rintro ⟨begin, rest, whole, inFront, inBack⟩
    exact ⟨begin, inFront, rest, inBack, whole⟩

theorem isMatch_comparedRegex_append_iff (ignoreCase : Bool)
    (between : style.flavor.MeetBetweenTokens front back) (text : List Char) :
    (Token.comparedRegex style.flavor ignoreCase (Token.scan style.flavor (front ++ back))).isMatch
        (text.map (comparedAs ignoreCase)) = true ↔
      ∃ begin rest, begin ++ rest = text ∧
        (Token.comparedRegex style.flavor ignoreCase (Token.scan style.flavor front)).isMatch
          (begin.map (comparedAs ignoreCase)) = true ∧
        (Token.comparedRegex style.flavor ignoreCase (Token.scan style.flavor back)).isMatch
          (rest.map (comparedAs ignoreCase)) = true := by
  simp only [isMatch_comparedRegex_iff]
  rw [Token.scan_append between, List.map_append, Token.mem_sequenceLanguage_append]
  constructor
  · rintro ⟨_, inFront, _, inBack, whole⟩
    obtain ⟨begin, rest, rfl, rfl, rfl⟩ := List.map_eq_append_iff.mp whole.symm
    exact ⟨begin, rest, rfl, inFront, inBack⟩
  · rintro ⟨begin, rest, rfl, inFront, inBack⟩
    exact ⟨_, inFront, _, inBack, (List.map_append ..).symm⟩

end PathStyle

/-- Behind a specification that ends neither with an asterisk nor with a separator, any other one
only adds its text. What both match together is in two parts, one for each, and so it is where case
does not count. -/
theorem compile_append_isMatch_iff (style : PathStyle) {front : List Char}
    (ends : ∀ last ∈ front.getLast?, last ≠ '*' ∧ style.flavor.isSeparator last = false)
    (back : List Char) :
    bodyText style.flavor (front ++ back) =
        bodyText style.flavor front ++ bodyText style.flavor back ∧
      ∃ whole first second,
        Regex.ofText? (compile style.flavor (front ++ back)) = some whole ∧
        Regex.ofText? (compile style.flavor front) = some first ∧
        Regex.ofText? (compile style.flavor back) = some second ∧
        (∀ text : List Char, whole.isMatch text = true ↔
          ∃ begin rest : List Char, begin ++ rest = text ∧
            first.isMatch begin = true ∧ second.isMatch rest = true) ∧
        ∀ text : List Char, (whole.mapCharacters caseless).isMatch (text.map caseless) = true ↔
          ∃ begin rest : List Char, begin ++ rest = text ∧
            (first.mapCharacters caseless).isMatch (begin.map caseless) = true ∧
            (second.mapCharacters caseless).isMatch (rest.map caseless) = true := by
  have between : style.flavor.MeetBetweenTokens front back := .of_ends ends
  exact ⟨bodyText_append between, _, _, _, Regex.ofText?_compile style.hasNameClass _,
    Regex.ofText?_compile style.hasNameClass _, Regex.ofText?_compile style.hasNameClass _,
    style.isMatch_append_iff between, style.isMatch_comparedRegex_append_iff true between⟩

theorem compile_append_isMatch_iff_versions :
    (∀ last ∈ "lib/v?".toList.getLast?,
        last ≠ '*' ∧ PathStyle.windows.flavor.isSeparator last = false) ∧
      bodyText PathStyle.windows.flavor "lib/v?**\\*.c".toList =
        bodyText PathStyle.windows.flavor "lib/v?".toList ++
          bodyText PathStyle.windows.flavor "**\\*.c".toList ∧
      ∃ whole first second,
        Regex.ofText? (compile PathStyle.windows.flavor "lib/v?**\\*.c".toList) = some whole ∧
        Regex.ofText? (compile PathStyle.windows.flavor "lib/v?".toList) = some first ∧
        Regex.ofText? (compile PathStyle.windows.flavor "**\\*.c".toList) = some second ∧
        (whole.isMatch "lib\\v1/x\\y.c".toList = true ↔
          ∃ begin rest : List Char, begin ++ rest = "lib\\v1/x\\y.c".toList ∧
            first.isMatch begin = true ∧ second.isMatch rest = true) := by
  have ends : ∀ last ∈ "lib/v?".toList.getLast?,
      last ≠ '*' ∧ PathStyle.windows.flavor.isSeparator last = false := by
    intro last isLast
    obtain rfl : '?' = last := Option.some.inj isLast
    exact ⟨by decide, by decide⟩
  obtain ⟨texts, whole, first, second, made, madeFirst, madeSecond, splits, -⟩ :=
    compile_append_isMatch_iff .windows ends "**\\*.c".toList
  exact ⟨ends, texts, whole, first, second, made, madeFirst, madeSecond, splits _⟩

end FileSpec
