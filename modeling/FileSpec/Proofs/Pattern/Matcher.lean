import FileSpec.Pattern.Matcher
import FileSpec.Proofs.Pattern.Matching
import FileSpec.Proofs.Text.Caseless

/-!
# Matchers of the built-in flavors

Every specification has a matcher, the one that `PathStyle.matcher` writes down. So a path is
compared with each of several specifications by its own, and an asterisk accepts all names that
an entry can have, whether letters are compared by case or not.
-/

set_option autoImplicit false

namespace FileSpec

open Text

def Token.comparedRegex (flavor : Flavor) (ignoreCase : Bool) (tokens : List Token) : Regex :=
  (Regex.sequence (tokens.map (Token.regex flavor))).mapCharacters (comparedAs ignoreCase)

namespace PathStyle

variable (style : PathStyle)

def matcher (ignoreCase : Bool) (specification : List Char) : Matcher where
  flavor := style.flavor
  specification := specification
  ignoreCase := ignoreCase
  regex := Token.comparedRegex style.flavor ignoreCase (Token.scan style.flavor specification)
  belowRoot? :=
    if isRootRelative style.flavor specification then
      some (Token.comparedRegex style.flavor ignoreCase
        (Token.scan style.flavor (specification.dropWhile style.flavor.isSeparator)))
    else none

/-- The matchers of the POSIX flavor with the class of name characters written out. So what they
accept can be computed. -/
theorem matcher_posix (ignoreCase : Bool) :
    posix.matcher ignoreCase = fun specification =>
      let regex := fun tokens : List Token => (Regex.sequence (tokens.map (Token.regexOf
        Flavor.posix.separatorCharacters ⟨true, ['\x00', '/']⟩))).mapCharacters
          (comparedAs ignoreCase)
      { flavor := .posix
        specification := specification
        ignoreCase := ignoreCase
        regex := regex (Token.scan .posix specification)
        belowRoot? :=
          if isRootRelative .posix specification then
            some (regex (Token.scan .posix (specification.dropWhile Flavor.posix.isSeparator)))
          else none } := by
  have once : Flavor.posix.invalidNameChars.eraseDups = ['\x00', '/'] := by decide
  have names : Flavor.posix.nameCharacters = ⟨true, ['\x00', '/']⟩ := by
    rw [Flavor.nameCharacters, Flavor.sortedInvalidNameChars, once,
      List.mergeSort_of_pairwise (by decide)]
  rw [← names, ← Token.regex_eq_regexOf]
  rfl

theorem regex?_eq (ignoreCase : Bool) (specification : List Char) :
    Matcher.regex? style.flavor ignoreCase specification =
      some (Token.comparedRegex style.flavor ignoreCase
        (Token.scan style.flavor specification)) := by
  simp only [Matcher.regex?, Regex.ofText?_compile style.hasNameClass, Option.map_some,
    Token.comparedRegex]

theorem ofSpecification?_eq (ignoreCase : Bool) (specification : List Char) :
    Matcher.ofSpecification? style.flavor ignoreCase specification =
      some (style.matcher ignoreCase specification) := by
  simp only [Matcher.ofSpecification?, regex?_eq, Option.bind_eq_bind, Option.bind_some, matcher]
  split <;> rfl

theorem mapM_ofSpecification? (ignoreCase : Bool) (specifications : List (List Char)) :
    specifications.mapM (Matcher.ofSpecification? style.flavor ignoreCase) =
      some (specifications.map (style.matcher ignoreCase)) := by
  induction specifications with
  | nil => rfl
  | cons specification others inductionHypothesis =>
      simp [List.mapM_cons, ofSpecification?_eq, inductionHypothesis]

theorem matchesAny?_eq (ignoreCase : Bool) (path : Path) (specifications : List (List Char)) :
    matchesAny? style.flavor ignoreCase path specifications =
      some (acceptedByAny (specifications.map (style.matcher ignoreCase)) path) := by
  induction specifications with
  | nil => simp [matchesAny?, acceptedByAny]
  | cons specification others inductionHypothesis =>
      simp only [matchesAny?, ofSpecification?_eq, inductionHypothesis, Option.bind_eq_bind,
        Option.bind_some]
      by_cases blank : isBlank path = true
      · simp [acceptedByAny, blank]
      · by_cases accepted : (style.matcher ignoreCase specification).accepts path = true <;>
          simp [acceptedByAny, blank, accepted]

theorem acceptedByAny_eq (ignoreCase : Bool) (path : Path) (specifications : List (List Char)) :
    acceptedByAny (specifications.map (style.matcher ignoreCase)) path =
      specifications.any fun specification =>
        matchesAny? style.flavor ignoreCase path [specification] == some true := by
  simp only [matchesAny?_eq]
  by_cases blank : isBlank path = true
  · simp [acceptedByAny, blank]
  · simp [acceptedByAny, blank, List.any_map, Function.comp_def]

theorem caseless_eq_of_mem_invalidNameChars {character : Char}
    (invalid : character ∈ style.flavor.invalidNameChars) :
    caseless character = character ∧ isFolded character.toNat = false := by
  have checked : (style.flavor.invalidNameChars.all fun other =>
      caseless other == other && !isFolded other.toNat) = true := by
    cases style <;> decide +kernel
  simpa using List.all_eq_true.mp checked character invalid

/-- A legal character is compared with others as one that is outside the class of the others. -/
theorem comparedAs_not_mem (ignoreCase : Bool) {character : Char}
    (legal : character ∉ style.flavor.invalidNameChars) :
    comparedAs ignoreCase character ∉
      style.flavor.invalidNameChars.map (comparedAs ignoreCase) := by
  cases ignoreCase with
  | false => simpa [comparedAs] using legal
  | true =>
      intro member
      obtain ⟨mark, invalid, same⟩ := List.mem_map.mp member
      obtain ⟨fixed, notFolded⟩ := style.caseless_eq_of_mem_invalidNameChars invalid
      simp only [comparedAs, if_true, fixed] at same
      rw [eq_of_caseless_eq notFolded same.symm] at legal
      exact legal invalid

theorem everything_accepts (ignoreCase : Bool) {name : Path}
    (legal : style.flavor.IsLegalName name) :
    (style.matcher ignoreCase ['*']).accepts name = true := by
  have notRootRelative : isRootRelative style.flavor ['*'] = false := by
    cases style <;> decide
  have tokens : Token.scan style.flavor ['*'] = [.anyName] := by
    cases style <;> decide +kernel
  have fits : ∀ character ∈ name.map (comparedAs ignoreCase),
      CharClass.contains ⟨true, style.flavor.sortedInvalidNameChars.map (comparedAs ignoreCase)⟩
        character = true := by
    intro character member
    obtain ⟨original, inName, rfl⟩ := List.mem_map.mp member
    have outside := style.comparedAs_not_mem ignoreCase (legal.2 original inName)
    simpa [CharClass.contains] using outside
  have leaves := Regex.leaves_greedy _ [] fits
  rw [List.append_nil] at leaves
  have matched := (Regex.isMatch_iff _ _).mpr (Regex.Leaves.append leaves .empty)
  simpa [Matcher.accepts, matcher, notRootRelative, tokens, Token.comparedRegex, Token.regex,
    Regex.sequence, Regex.mapCharacters, Flavor.nameCharacters] using matched

end PathStyle

end FileSpec
