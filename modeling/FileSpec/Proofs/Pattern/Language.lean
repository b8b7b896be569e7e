import FileSpec.Pattern.Reader
import Mathlib.Computability.Language

/-!
# The language of an expression

What a match takes is always in the plain language of an expression, whatever its runs keep. An
expression whose runs all give back what they took finds the whole language,
`backtracking_isMatch_iff`; possessive runs can only lose matches.
-/

set_option autoImplicit false

namespace FileSpec

open scoped Computability

def oneCharacter (kind : Char → Prop) : Language Char :=
  {text | ∃ character, kind character ∧ text = [character]}

theorem mem_kstar_oneCharacter {kind : Char → Prop} {text : List Char} :
    text ∈ (oneCharacter kind)∗ ↔ ∀ character ∈ text, kind character := by
  constructor
  · intro repeated
    obtain ⟨pieces, rfl, single⟩ := Language.mem_kstar.mp repeated
    intro character member
    obtain ⟨piece, isPiece, inside⟩ := List.mem_flatten.mp member
    obtain ⟨only, fits, rfl⟩ := single piece isPiece
    rw [List.mem_singleton.mp inside]
    exact fits
  · intro fits
    refine Language.mem_kstar.mpr ⟨text.map fun character => [character], ?_, ?_⟩
    · simp [← List.flatMap_def]
    · intro piece isPiece
      obtain ⟨character, member, rfl⟩ := List.mem_map.mp isPiece
      exact ⟨character, fits character member, rfl⟩

namespace Regex

/-- The plain language of an expression, whatever its runs keep. -/
def language : Regex → Language Char
  | empty => 1
  | one characterClass => oneCharacter (characterClass.contains · = true)
  | run _ characterClass => (oneCharacter (characterClass.contains · = true))∗
  | append first second => first.language * second.language
  | many body => body.language∗

/-- The expression whose runs all give back what they took. -/
def backtracking : Regex → Regex
  | empty => empty
  | one characterClass => one characterClass
  | run _ characterClass => run .greedy characterClass
  | append first second => append first.backtracking second.backtracking
  | many body => many body.backtracking

@[simp]
theorem mem_language_run {keeping : Keeping} {characterClass : CharClass} {text : List Char} :
    text ∈ (run keeping characterClass).language ↔
      ∀ character ∈ text, characterClass.contains character = true :=
  mem_kstar_oneCharacter

@[simp]
theorem language_backtracking (regex : Regex) :
    regex.backtracking.language = regex.language := by
  induction regex with
  | empty => rfl
  | one characterClass => rfl
  | run keeping characterClass => rfl
  | append first second firstHypothesis secondHypothesis =>
      simp only [backtracking, language, firstHypothesis, secondHypothesis]
  | many body bodyHypothesis => simp only [backtracking, language, bodyHypothesis]

/-- What a match takes is in the language. -/
theorem Leaves.exists_front {regex : Regex} {text rest : List Char}
    (leaves : regex.Leaves text rest) : ∃ front ∈ regex.language, front ++ rest = text := by
  induction leaves with
  | empty => exact ⟨[], rfl, rfl⟩
  | @one characterClass character rest fits => exact ⟨[character], ⟨character, fits, rfl⟩, rfl⟩
  | @runMore keeping characterClass character text rest fits leaves inductionHypothesis =>
      obtain ⟨front, inLanguage, rfl⟩ := inductionHypothesis
      refine ⟨character :: front, mem_language_run.mpr ?_, rfl⟩
      exact List.forall_mem_cons.mpr ⟨fits, mem_language_run.mp inLanguage⟩
  | greedyEnd => exact ⟨[], Language.nil_mem_kstar _, rfl⟩
  | possessiveEnd => exact ⟨[], Language.nil_mem_kstar _, rfl⟩
  | append _ _ firstHypothesis secondHypothesis =>
      obtain ⟨front, inFirst, rfl⟩ := firstHypothesis
      obtain ⟨middle, inSecond, rfl⟩ := secondHypothesis
      exact ⟨front ++ middle, Language.append_mem_mul inFirst inSecond, List.append_assoc ..⟩
  | manyEnd => exact ⟨[], Language.nil_mem_kstar _, rfl⟩
  | manyMore _ _ _ roundHypothesis othersHypothesis =>
      obtain ⟨round, inBody, rfl⟩ := roundHypothesis
      obtain ⟨others, inMany, rfl⟩ := othersHypothesis
      refine ⟨round ++ others, ?_, List.append_assoc ..⟩
      obtain ⟨rounds, rfl, inRounds⟩ := Language.mem_kstar.mp inMany
      refine Language.mem_kstar.mpr ⟨round :: rounds, rfl, ?_⟩
      exact List.forall_mem_cons.mpr ⟨inBody, inRounds⟩

theorem leaves_greedy (characterClass : CharClass) {front : List Char} (rest : List Char)
    (fits : ∀ character ∈ front, characterClass.contains character = true) :
    (run .greedy characterClass).Leaves (front ++ rest) rest := by
  induction front with
  | nil => exact .greedyEnd
  | cons character front inductionHypothesis =>
      obtain ⟨first, others⟩ := List.forall_mem_cons.mp fits
      exact .runMore first (inductionHypothesis others)

theorem leaves_possessive (characterClass : CharClass) {front rest : List Char}
    (fits : ∀ character ∈ front, characterClass.contains character = true)
    (ends : rest.head?.any characterClass.contains = false) :
    (run .possessive characterClass).Leaves (front ++ rest) rest := by
  induction front with
  | nil => exact .possessiveEnd ends
  | cons character front inductionHypothesis =>
      obtain ⟨first, others⟩ := List.forall_mem_cons.mp fits
      exact .runMore first (inductionHypothesis others)

/-- Backtracking finds all of the language. -/
theorem backtracking_leaves (regex : Regex) {front : List Char}
    (inLanguage : front ∈ regex.language) (rest : List Char) :
    regex.backtracking.Leaves (front ++ rest) rest := by
  induction regex generalizing front rest with
  | empty =>
      rw [(Language.mem_one front).mp inLanguage]
      exact .empty
  | one characterClass =>
      obtain ⟨character, fits, rfl⟩ := inLanguage
      exact .one fits
  | run keeping characterClass =>
      exact leaves_greedy characterClass rest (mem_language_run.mp inLanguage)
  | append first second firstHypothesis secondHypothesis =>
      obtain ⟨begin, inFirst, finish, inSecond, rfl⟩ := Language.mem_mul.mp inLanguage
      rw [List.append_assoc]
      exact .append (firstHypothesis inFirst _) (secondHypothesis inSecond rest)
  | many body bodyHypothesis =>
      obtain ⟨rounds, rfl, inRounds⟩ := Language.mem_kstar_iff_exists_nonempty.mp inLanguage
      clear inLanguage
      induction rounds with
      | nil => exact .manyEnd
      | cons round rounds roundsHypothesis =>
          obtain ⟨⟨inBody, nonempty⟩, inOthers⟩ := List.forall_mem_cons.mp inRounds
          have shorter : (rounds.flatten ++ rest).length <
              ((round :: rounds).flatten ++ rest).length := by
            have positive := List.length_pos_iff.mpr nonempty
            simp only [List.flatten_cons, List.length_append]
            omega
          rw [List.flatten_cons, List.append_assoc] at shorter ⊢
          exact .manyMore (bodyHypothesis inBody _) shorter (roundsHypothesis inOthers)

theorem backtracking_isMatch_iff (regex : Regex) (text : List Char) :
    regex.backtracking.isMatch text = true ↔ text ∈ regex.language := by
  rw [isMatch_iff]
  constructor
  · intro leaves
    obtain ⟨front, inLanguage, rfl⟩ := leaves.exists_front
    rw [language_backtracking] at inLanguage
    simpa using inLanguage
  · intro inLanguage
    simpa using regex.backtracking_leaves inLanguage []

end Regex

end FileSpec
