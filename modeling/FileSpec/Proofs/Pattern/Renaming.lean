import FileSpec.Proofs.Pattern.Matcher
import Mathlib.Order.CompletePartialOrder

/-!
# Changing the characters of a specification

A change of characters that keeps separators, `?` and `*` apart from the rest changes the literal
tokens of a specification and no others: `Token.scan_map`. Letters are compared without case by such
a change, so a matcher compares the changed text with the changed tokens, as
`PathStyle.isMatch_comparedRegex_iff` says.
-/

set_option autoImplicit false

namespace FileSpec

open Text
open scoped Computability

/-- The characters that make the tokens of a specification stay what they are. -/
structure Flavor.KeepsMarks (flavor : Flavor) (change : Char → Char) : Prop where
  isSeparator (character : Char) :
    flavor.isSeparator (change character) = flavor.isSeparator character
  question (character : Char) : change character = '?' ↔ character = '?'
  asterisk (character : Char) : change character = '*' ↔ character = '*'

namespace Flavor.KeepsMarks

variable {flavor : Flavor} {change : Char → Char} (keeps : flavor.KeepsMarks change)

include keeps

theorem beginsWithSeparator_map (text : List Char) :
    flavor.beginsWithSeparator (text.map change) = flavor.beginsWithSeparator text := by
  cases text with
  | nil => rfl
  | cons first rest => exact keeps.isSeparator first

theorem dropWhile_map (text : List Char) :
    (text.map change).dropWhile flavor.isSeparator =
      (text.dropWhile flavor.isSeparator).map change := by
  rw [List.dropWhile_map]
  congr 2
  exact funext keeps.isSeparator

end Flavor.KeepsMarks

namespace Token

def map (change : Char → Char) : Token → Token
  | literal character => literal (change character)
  | token => token

variable {flavor : Flavor} {change : Char → Char}

@[simp]
theorem map_id : Token.map id = id := by
  funext token
  cases token <;> rfl

theorem Reads.map (keeps : flavor.KeepsMarks change) {specification : List Char}
    {tokens : List Token} (reads : Reads flavor specification tokens) :
    Reads flavor (specification.map change) (tokens.map (Token.map change)) := by
  have run_map : ∀ {run : List Char},
      (∀ character ∈ run, flavor.isSeparator character = true) →
      ∀ character ∈ run.map change, flavor.isSeparator character = true := by
    intro run whole character member
    obtain ⟨original, inRun, rfl⟩ := List.mem_map.mp member
    rw [keeps.isSeparator]
    exact whole original inRun
  have question : change '?' = '?' := (keeps.question '?').mpr rfl
  have asterisk : change '*' = '*' := (keeps.asterisk '*').mpr rfl
  induction reads with
  | nil => exact .nil
  | separators nonempty whole ends _ inductionHypothesis =>
      rw [List.map_append]
      exact .separators (by simpa using nonempty) (run_map whole)
        (by rw [keeps.beginsWithSeparator_map, ends]) inductionHypothesis
  | anyCharacter plain _ inductionHypothesis =>
      rw [List.map_cons, question]
      exact .anyCharacter plain inductionHypothesis
  | anyDirectories plain nonempty whole ends _ inductionHypothesis =>
      rw [List.map_cons, List.map_cons, List.map_append, asterisk]
      exact .anyDirectories plain (by simpa using nonempty) (run_map whole)
        (by rw [keeps.beginsWithSeparator_map, ends]) inductionHypothesis
  | anyName plain single _ inductionHypothesis =>
      rw [List.map_cons, asterisk]
      refine .anyName plain (fun others shape => ?_) inductionHypothesis
      obtain ⟨first, rest, rfl, isAsterisk, rfl⟩ := List.map_eq_cons_iff.mp shape
      rw [keeps.beginsWithSeparator_map]
      exact single rest (by rw [(keeps.asterisk first).mp isAsterisk])
  | literal plain notAny notStar _ inductionHypothesis =>
      exact .literal (by rw [keeps.isSeparator, plain]) (mt (keeps.question _).mp notAny)
        (mt (keeps.asterisk _).mp notStar) inductionHypothesis

theorem scan_map (keeps : flavor.KeepsMarks change) (specification : List Char) :
    scan flavor (specification.map change) =
      (scan flavor specification).map (Token.map change) :=
  ((reads_iff _ _).mp ((reads_scan specification).map keeps)).symm

theorem map_oneCharacter_le {kind other : Char → Prop}
    (included : ∀ character, kind character → other (change character)) :
    Language.map change (oneCharacter kind) ≤ oneCharacter other := by
  rintro _ ⟨_, ⟨character, fits, rfl⟩, rfl⟩
  exact ⟨change character, included character fits, rfl⟩

/-- What a token matches is matched by the changed token when it is changed. -/
theorem map_language_le (keeps : flavor.KeepsMarks change)
    (legal : ∀ character, character ∉ flavor.invalidNameChars →
      change character ∉ flavor.invalidNameChars) (token : Token) :
    Language.map change (language flavor token) ≤ language flavor (token.map change) := by
  have names : Language.map change (oneCharacter (· ∉ flavor.invalidNameChars)) ≤
      oneCharacter (· ∉ flavor.invalidNameChars) := map_oneCharacter_le legal
  have separators : Language.map change (oneCharacter (flavor.isSeparator · = true)) ≤
      oneCharacter (flavor.isSeparator · = true) :=
    map_oneCharacter_le fun character separates => by rw [keeps.isSeparator, separates]
  cases token with
  | separators =>
      simp only [language, Token.map, map_mul, Language.map_kstar]
      exact mul_le_mul' separators (kstar_mono separators)
  | anyCharacter => exact names
  | anyDirectories =>
      simp only [language, Token.map, map_mul, Language.map_kstar]
      exact kstar_mono (mul_le_mul' (kstar_mono names)
        (mul_le_mul' separators (kstar_mono separators)))
  | anyName =>
      simp only [language, Token.map, Language.map_kstar]
      exact kstar_mono names
  | literal character =>
      rintro _ ⟨_, rfl, rfl⟩
      rfl

theorem map_mem_sequenceLanguage (keeps : flavor.KeepsMarks change)
    (legal : ∀ character, character ∉ flavor.invalidNameChars →
      change character ∉ flavor.invalidNameChars) {tokens : List Token} {text : List Char}
    (inLanguage : text ∈ sequenceLanguage flavor tokens) :
    text.map change ∈ sequenceLanguage flavor (tokens.map (Token.map change)) := by
  induction tokens generalizing text with
  | nil => simpa using inLanguage
  | cons token tokens inductionHypothesis =>
      obtain ⟨front, inFront, rest, inRest, rfl⟩ := mem_sequenceLanguage_cons.mp inLanguage
      rw [List.map_cons, mem_sequenceLanguage_cons]
      refine ⟨front.map change, ?_, rest.map change, inductionHypothesis inRest,
        List.map_append.symm⟩
      exact map_language_le keeps legal token ⟨front, inFront, rfl⟩

/-- A change that fixes the members of the classes changes literals only. -/
theorem mapCharacters_regex
    (separatorsFixed : ∀ character ∈ flavor.separators, change character = character)
    (invalidFixed : ∀ character ∈ flavor.invalidNameChars, change character = character)
    (token : Token) :
    (token.regex flavor).mapCharacters change = (token.map change).regex flavor := by
  have separators : flavor.separators.map change = flavor.separators :=
    (List.map_congr_left separatorsFixed).trans (List.map_id _)
  have names : flavor.sortedInvalidNameChars.map change = flavor.sortedInvalidNameChars := by
    refine (List.map_congr_left fun character member => ?_).trans (List.map_id _)
    exact invalidFixed character ((flavor.mem_sortedInvalidNameChars character).mp member)
  cases token <;>
    simp [regex, Token.map, Regex.mapCharacters, Regex.sequence, Regex.literal,
      Flavor.separatorCharacters, Flavor.nameCharacters, separators, names]

end Token

theorem Regex.mapCharacters_sequence (change : Char → Char) (regexes : List Regex) :
    (sequence regexes).mapCharacters change = sequence (regexes.map (mapCharacters change)) := by
  induction regexes with
  | nil => rfl
  | cons regex regexes inductionHypothesis =>
      exact congrArg (append (regex.mapCharacters change)) inductionHypothesis

theorem comparedAs_eq_iff (ignoreCase : Bool) {mark : Char} (fixed : caseless mark = mark)
    (notFolded : isFolded mark.toNat = false) (character : Char) :
    comparedAs ignoreCase character = mark ↔ character = mark := by
  cases ignoreCase with
  | false => rfl
  | true => exact caseless_eq_iff fixed notFolded character

namespace PathStyle

variable (style : PathStyle) (ignoreCase : Bool)

theorem comparedAs_of_mem {character : Char}
    (invalid : character ∈ style.flavor.invalidNameChars) :
    comparedAs ignoreCase character = character := by
  cases ignoreCase with
  | false => rfl
  | true => exact (style.caseless_eq_of_mem_invalidNameChars invalid).1

theorem comparedAs_not_mem_invalidNameChars {character : Char}
    (legal : character ∉ style.flavor.invalidNameChars) :
    comparedAs ignoreCase character ∉ style.flavor.invalidNameChars := by
  intro invalid
  apply style.comparedAs_not_mem ignoreCase legal
  rw [← style.comparedAs_of_mem ignoreCase invalid]
  exact List.mem_map_of_mem invalid

/-- A mark that no name holds is compared with itself only. -/
theorem comparedAs_eq_iff_of_mem {mark : Char} (invalid : mark ∈ style.flavor.invalidNameChars)
    (character : Char) : comparedAs ignoreCase character = mark ↔ character = mark := by
  obtain ⟨fixed, notFolded⟩ := style.caseless_eq_of_mem_invalidNameChars invalid
  exact comparedAs_eq_iff ignoreCase fixed notFolded character

theorem keepsMarks_comparedAs : style.flavor.KeepsMarks (comparedAs ignoreCase) where
  isSeparator character := by
    rw [Bool.eq_iff_iff]
    constructor
    · intro separates
      have invalid := style.separatesNames _ separates
      rw [(style.comparedAs_eq_iff_of_mem ignoreCase invalid character).mp rfl]
      exact separates
    · intro separates
      rwa [style.comparedAs_of_mem ignoreCase (style.separatesNames _ separates)]
  question := comparedAs_eq_iff ignoreCase (by decide +kernel) (by decide)
  asterisk := comparedAs_eq_iff ignoreCase (by decide +kernel) (by decide)

theorem comparedRegex_eq (tokens : List Token) :
    Token.comparedRegex style.flavor ignoreCase tokens =
      Regex.sequence
        ((tokens.map (Token.map (comparedAs ignoreCase))).map (Token.regex style.flavor)) := by
  have regex_map (token : Token) :
      (token.regex style.flavor).mapCharacters (comparedAs ignoreCase) =
        (token.map (comparedAs ignoreCase)).regex style.flavor := by
    apply Token.mapCharacters_regex
    · intro character member
      rw [← Flavor.isSeparator_iff_mem] at member
      exact style.comparedAs_of_mem ignoreCase (style.separatesNames _ member)
    · exact fun character member => style.comparedAs_of_mem ignoreCase member
  rw [Token.comparedRegex, Regex.mapCharacters_sequence, List.map_map, List.map_map]
  exact congrArg Regex.sequence (List.map_congr_left fun token _ => regex_map token)

@[simp]
theorem comparedAs_false : comparedAs false = id := rfl

/-- The expression of a specification matches the language of its tokens, both with the characters
as they are compared. -/
theorem isMatch_comparedRegex_iff (specification text : List Char) :
    (Token.comparedRegex style.flavor ignoreCase
        (Token.scan style.flavor specification)).isMatch text = true ↔
      text ∈ Token.sequenceLanguage style.flavor
        ((Token.scan style.flavor specification).map (Token.map (comparedAs ignoreCase))) := by
  have reads : Token.Reads style.flavor (specification.map (comparedAs ignoreCase)) _ :=
    Token.reads_scan _
  have separated := reads.separated
  rw [Token.scan_map (style.keepsMarks_comparedAs ignoreCase)] at separated
  rw [comparedRegex_eq, Token.isMatch_sequence_iff style.separatesNames separated]

theorem isMatch_comparedRegex_of_mem {specification text : List Char}
    (inLanguage : text ∈ Token.sequenceLanguage style.flavor
      (Token.scan style.flavor specification)) :
    (Token.comparedRegex style.flavor ignoreCase (Token.scan style.flavor specification)).isMatch
      (text.map (comparedAs ignoreCase)) = true := by
  rw [isMatch_comparedRegex_iff]
  exact Token.map_mem_sequenceLanguage (style.keepsMarks_comparedAs ignoreCase)
    (fun _ => style.comparedAs_not_mem_invalidNameChars ignoreCase) inLanguage

end PathStyle

end FileSpec
