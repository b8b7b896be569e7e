import FileSpec.Proofs.Path.Flavor
import FileSpec.Proofs.Pattern.Language
import FileSpec.Proofs.Pattern.RegexText
import FileSpec.Proofs.Pattern.Tokens

/-!
# The language of a specification

The expression of a specification finds all of the plain language of its tokens, although rounds
of directories give nothing back. Where a round would have to end within a run of separators, the
tokens behind it match as well from the beginning of that round on: `mem_language_round`.
-/

set_option autoImplicit false

namespace FileSpec

open scoped Computability

namespace Token

def language (flavor : Flavor) : Token → Language Char
  | separators =>
      oneCharacter (flavor.isSeparator · = true) * (oneCharacter (flavor.isSeparator · = true))∗
  | anyCharacter => oneCharacter (· ∉ flavor.invalidNameChars)
  | anyDirectories =>
      ((oneCharacter (· ∉ flavor.invalidNameChars))∗ *
        (oneCharacter (flavor.isSeparator · = true) *
          (oneCharacter (flavor.isSeparator · = true))∗))∗
  | anyName => (oneCharacter (· ∉ flavor.invalidNameChars))∗
  | literal character => {[character]}

/-- The plain language of tokens one after the other. -/
def sequenceLanguage (flavor : Flavor) (tokens : List Token) : Language Char :=
  (tokens.map (language flavor)).prod

variable {flavor : Flavor}

@[simp]
theorem mem_sequenceLanguage_nil {text : List Char} :
    text ∈ sequenceLanguage flavor [] ↔ text = [] := Language.mem_one text

@[simp]
theorem mem_sequenceLanguage_cons {token : Token} {tokens : List Token} {text : List Char} :
    text ∈ sequenceLanguage flavor (token :: tokens) ↔
      ∃ front ∈ language flavor token, ∃ rest ∈ sequenceLanguage flavor tokens,
        front ++ rest = text := by
  rw [sequenceLanguage, List.map_cons, List.prod_cons]
  exact Language.mem_mul

@[simp]
theorem separatorCharacters_contains (character : Char) :
    flavor.separatorCharacters.contains character = flavor.isSeparator character := by
  rw [Bool.eq_iff_iff, flavor.isSeparator_iff_mem]
  simp [Flavor.separatorCharacters, CharClass.contains]

@[simp]
theorem nameCharacters_contains_iff (character : Char) :
    flavor.nameCharacters.contains character = true ↔ character ∉ flavor.invalidNameChars := by
  rw [← flavor.mem_sortedInvalidNameChars]
  simp [Flavor.nameCharacters, CharClass.contains]

theorem language_regex (token : Token) : (token.regex flavor).language = language flavor token := by
  cases token with
  | literal character =>
      ext text
      constructor
      · rintro ⟨other, fits, rfl⟩
        have same : other = character := by simpa [CharClass.contains] using fits
        rw [same]
        rfl
      · exact fun isText => ⟨character, by simp [CharClass.contains], isText⟩
  | _ =>
      simp [regex, Regex.sequence, Regex.language, language]

theorem language_sequence (tokens : List Token) :
    (Regex.sequence (tokens.map (regex flavor))).language = sequenceLanguage flavor tokens := by
  induction tokens with
  | nil => rfl
  | cons token tokens inductionHypothesis =>
      calc (Regex.sequence ((token :: tokens).map (regex flavor))).language
          = (token.regex flavor).language *
              (Regex.sequence (tokens.map (regex flavor))).language := rfl
        _ = language flavor token * sequenceLanguage flavor tokens := by
            rw [language_regex, inductionHypothesis]
        _ = sequenceLanguage flavor (token :: tokens) := by
            rw [sequenceLanguage, sequenceLanguage, List.map_cons, List.prod_cons]

@[simp]
theorem mem_language_separators {text : List Char} :
    text ∈ language flavor separators ↔
      text ≠ [] ∧ ∀ character ∈ text, flavor.isSeparator character = true := by
  rw [language, Language.mem_mul]
  constructor
  · rintro ⟨_, ⟨first, isSeparator, rfl⟩, others, inOthers, rfl⟩
    refine ⟨by simp, List.forall_mem_cons.mpr ⟨isSeparator, mem_kstar_oneCharacter.mp inOthers⟩⟩
  · rintro ⟨nonempty, all⟩
    obtain ⟨first, others, rfl⟩ := List.exists_cons_of_ne_nil nonempty
    obtain ⟨isSeparator, inOthers⟩ := List.forall_mem_cons.mp all
    exact ⟨[first], ⟨first, isSeparator, rfl⟩, others, mem_kstar_oneCharacter.mpr inOthers, rfl⟩

@[simp]
theorem mem_language_anyName {text : List Char} :
    text ∈ language flavor anyName ↔ ∀ character ∈ text, character ∉ flavor.invalidNameChars :=
  mem_kstar_oneCharacter

theorem eq_nil_of_beginsWithSeparator {name rest : List Char} (separates : flavor.SeparatesNames)
    (inName : ∀ character ∈ name, character ∉ flavor.invalidNameChars)
    (begins : flavor.beginsWithSeparator (name ++ rest) = true) : name = [] := by
  cases name with
  | nil => rfl
  | cons first name => exact absurd (separates first begins) (inName first (by simp))

/-- A round of directories: a name and its separators, and then the other rounds. -/
theorem append_mem_language_anyDirectories {name run rest : List Char}
    (inName : ∀ character ∈ name, character ∉ flavor.invalidNameChars) (nonempty : run ≠ [])
    (inRun : ∀ character ∈ run, flavor.isSeparator character = true)
    (others : rest ∈ language flavor anyDirectories) :
    name ++ (run ++ rest) ∈ language flavor anyDirectories := by
  obtain ⟨rounds, rfl, inRounds⟩ := Language.mem_kstar.mp others
  refine Language.mem_kstar.mpr ⟨(name ++ run) :: rounds, by simp, ?_⟩
  refine List.forall_mem_cons.mpr ⟨?_, inRounds⟩
  exact Language.append_mem_mul (mem_kstar_oneCharacter.mpr inName)
    (mem_language_separators.mpr ⟨nonempty, inRun⟩)

/-- The first round can take all separators behind its name. -/
theorem exists_round {text : List Char} (separates : flavor.SeparatesNames)
    (inLanguage : text ∈ language flavor anyDirectories) (nonempty : text ≠ []) :
    ∃ name run rest, text = name ++ (run ++ rest) ∧
      (∀ character ∈ name, character ∉ flavor.invalidNameChars) ∧ run ≠ [] ∧
      (∀ character ∈ run, flavor.isSeparator character = true) ∧
      rest ∈ language flavor anyDirectories ∧ flavor.beginsWithSeparator rest = false := by
  obtain ⟨rounds, rfl, inRounds⟩ := Language.mem_kstar_iff_exists_nonempty.mp inLanguage
  clear inLanguage
  induction rounds with
  | nil => exact absurd rfl nonempty
  | cons round rounds inductionHypothesis =>
      obtain ⟨⟨inRound, _⟩, inOthers⟩ := List.forall_mem_cons.mp inRounds
      obtain ⟨name, inName, run, inRun, rfl⟩ := Language.mem_mul.mp inRound
      have legal := mem_kstar_oneCharacter.mp inName
      obtain ⟨someRun, allRun⟩ := mem_language_separators.mp inRun
      have others : rounds.flatten ∈ language flavor anyDirectories :=
        Language.join_mem_kstar fun piece isPiece => (inOthers piece isPiece).1
      by_cases begins : flavor.beginsWithSeparator rounds.flatten = true
      -- The next round has no name, and its separators go to this round.
      · have someOthers : rounds.flatten ≠ [] := by
          intro nothing
          simp [nothing] at begins
        obtain ⟨later, laterRun, rest, shape, inLater, _, allLater, inRest, ends⟩ :=
          inductionHypothesis inOthers someOthers
        rw [shape] at begins
        have noName := eq_nil_of_beginsWithSeparator separates inLater begins
        refine ⟨name, run ++ laterRun, rest, ?_, legal, by simp [someRun], ?_, inRest, ends⟩
        · simp [shape, noName]
        · exact List.forall_mem_append.mpr ⟨allRun, allLater⟩
      · refine ⟨name, run, rounds.flatten, by simp, legal, someRun, allRun, others, ?_⟩
        simpa using begins

/-- No literal is a separator, and no separators are left behind directories. -/
def Separated (flavor : Flavor) : List Token → Prop
  | [] => True
  | token :: others =>
      (∀ character, token = literal character → flavor.isSeparator character = false) ∧
        (token = anyDirectories → others.head? ≠ some separators) ∧ Separated flavor others

theorem Reads.head?_ne_separators {specification : List Char} {tokens : List Token}
    (reads : Reads flavor specification tokens)
    (begins : flavor.beginsWithSeparator specification = false) :
    tokens.head? ≠ some Token.separators := by
  cases reads with
  | @separators run rest tokens nonempty whole _ _ =>
      obtain ⟨first, others, rfl⟩ := List.exists_cons_of_ne_nil nonempty
      simp [whole first (by simp)] at begins
  | _ => simp

theorem Reads.separated {specification : List Char} {tokens : List Token}
    (reads : Reads flavor specification tokens) : Separated flavor tokens := by
  induction reads with
  | nil => trivial
  | anyDirectories _ _ _ ends others inductionHypothesis =>
      exact ⟨by simp, fun _ => others.head?_ne_separators ends, inductionHypothesis⟩
  | literal plain _ _ _ inductionHypothesis =>
      refine ⟨?_, by simp, inductionHypothesis⟩
      rintro character same
      cases same
      exact plain
  | _ => exact ⟨by simp, by simp, by assumption⟩

/-- Separators can be put in front of separators that tokens match. -/
theorem append_separators_mem {tokens : List Token} {run text : List Char}
    (separates : flavor.SeparatesNames) (separated : Separated flavor tokens)
    (inRun : ∀ character ∈ run, flavor.isSeparator character = true)
    (inLanguage : text ∈ sequenceLanguage flavor tokens)
    (begins : flavor.beginsWithSeparator text = true) :
    run ++ text ∈ sequenceLanguage flavor tokens := by
  induction tokens generalizing text with
  | nil =>
      rw [mem_sequenceLanguage_nil] at inLanguage
      simp [inLanguage] at begins
  | cons token tokens inductionHypothesis =>
      obtain ⟨front, inFront, rest, inRest, rfl⟩ := mem_sequenceLanguage_cons.mp inLanguage
      apply mem_sequenceLanguage_cons.mpr
      -- Only separators, directories and an empty name match at a separator.
      cases token with
      | separators =>
          obtain ⟨someFront, allFront⟩ := mem_language_separators.mp inFront
          refine ⟨run ++ front, mem_language_separators.mpr ⟨by simp [someFront], ?_⟩, rest, inRest,
            List.append_assoc ..⟩
          exact List.forall_mem_append.mpr ⟨inRun, allFront⟩
      | anyCharacter =>
          obtain ⟨character, legal, rfl⟩ := inFront
          exact absurd (separates character begins) legal
      | anyDirectories =>
          by_cases someRun : run = []
          · exact ⟨front, inFront, rest, inRest, by simp [someRun]⟩
          · refine ⟨run ++ front, ?_, rest, inRest, List.append_assoc ..⟩
            exact append_mem_language_anyDirectories (List.forall_mem_nil _) someRun inRun inFront
      | anyName =>
          have legal := mem_language_anyName.mp inFront
          obtain rfl := eq_nil_of_beginsWithSeparator separates legal begins
          exact ⟨[], inFront, run ++ rest, inductionHypothesis separated.2.2 inRest begins, rfl⟩
      | literal character =>
          have plain := separated.1 character rfl
          have only : front = [character] := inFront
          subst only
          exact absurd begins (by simp [plain])

/-- Tokens behind directories match from the beginning of a round if they match from within the
separators of the round. -/
theorem mem_language_round {tokens : List Token} {name run text : List Char}
    (separates : flavor.SeparatesNames) (separated : Separated flavor (anyDirectories :: tokens))
    (inName : ∀ character ∈ name, character ∉ flavor.invalidNameChars) (nonempty : run ≠ [])
    (inRun : ∀ character ∈ run, flavor.isSeparator character = true)
    (inLanguage : text ∈ sequenceLanguage flavor tokens)
    (begins : flavor.beginsWithSeparator text = true) :
    name ++ (run ++ text) ∈ sequenceLanguage flavor tokens := by
  obtain ⟨_, notSeparators, separated⟩ := separated
  cases tokens with
  | nil =>
      rw [mem_sequenceLanguage_nil] at inLanguage
      simp [inLanguage] at begins
  | cons token tokens =>
      obtain ⟨front, inFront, rest, inRest, rfl⟩ := mem_sequenceLanguage_cons.mp inLanguage
      apply mem_sequenceLanguage_cons.mpr
      cases token with
      | separators => exact absurd rfl (notSeparators rfl)
      | anyCharacter =>
          obtain ⟨character, legal, rfl⟩ := inFront
          exact absurd (separates character begins) legal
      | anyDirectories =>
          refine ⟨name ++ (run ++ front), ?_, rest, inRest, by simp⟩
          exact append_mem_language_anyDirectories inName nonempty inRun inFront
      | anyName =>
          have legal := mem_language_anyName.mp inFront
          obtain rfl := eq_nil_of_beginsWithSeparator separates legal begins
          refine ⟨name, mem_language_anyName.mpr inName, run ++ rest, ?_, rfl⟩
          exact append_separators_mem separates separated.2.2 inRun inRest begins
      | literal character =>
          have plain := separated.1 character rfl
          have only : front = [character] := inFront
          subst only
          exact absurd begins (by simp [plain])

/-- A name and all separators behind it are one possessive round. -/
theorem leaves_round {name run rest : List Char} (separates : flavor.SeparatesNames)
    (inName : ∀ character ∈ name, character ∉ flavor.invalidNameChars) (nonempty : run ≠ [])
    (inRun : ∀ character ∈ run, flavor.isSeparator character = true)
    (ends : flavor.beginsWithSeparator rest = false) :
    (Regex.sequence
      [.run .possessive flavor.nameCharacters,
        .append (.one flavor.separatorCharacters)
          (.run .possessive flavor.separatorCharacters)]).Leaves (name ++ (run ++ rest)) rest := by
  obtain ⟨first, others, rfl⟩ := List.exists_cons_of_ne_nil nonempty
  obtain ⟨isSeparator, inOthers⟩ := List.forall_mem_cons.mp inRun
  have nameTaken : (Regex.run .possessive flavor.nameCharacters).Leaves
      (name ++ (first :: others ++ rest)) (first :: others ++ rest) := by
    apply Regex.leaves_possessive
    · intro character member
      exact (nameCharacters_contains_iff character).mpr (inName character member)
    · have notName := separates first isSeparator
      simpa [← Bool.not_eq_true] using notName
  have othersTaken : (Regex.run .possessive flavor.separatorCharacters).Leaves
      (others ++ rest) rest := by
    apply Regex.leaves_possessive
    · intro character member
      rw [separatorCharacters_contains]
      exact inOthers character member
    · have same : flavor.separatorCharacters.contains = flavor.isSeparator :=
        funext separatorCharacters_contains
      rw [same]
      exact ends
  have firstTaken : (Regex.one flavor.separatorCharacters).Leaves
      (first :: others ++ rest) (others ++ rest) :=
    .one (by rw [separatorCharacters_contains]; exact isSeparator)
  exact .append nameTaken (.append (.append firstTaken othersTaken) .empty)

/-- Possessive rounds can end where the tokens behind them match. -/
theorem exists_leaves_anyDirectories {tokens : List Token} {front rest : List Char}
    (separates : flavor.SeparatesNames) (separated : Separated flavor (anyDirectories :: tokens))
    (inFront : front ∈ language flavor anyDirectories)
    (inRest : rest ∈ sequenceLanguage flavor tokens) :
    ∃ middle ∈ sequenceLanguage flavor tokens,
      (anyDirectories.regex flavor).Leaves (front ++ rest) middle := by
  induction bound : front.length using Nat.strongRecOn generalizing front with
  | ind length inductionHypothesis =>
      subst bound
      by_cases nothing : front = []
      · subst nothing
        exact ⟨rest, inRest, .manyEnd⟩
      obtain ⟨name, run, others, rfl, inName, someRun, inRun, inOthers, ends⟩ :=
        exists_round separates inFront nothing
      have positive := List.length_pos_iff.mpr someRun
      have shorter : others.length < (name ++ (run ++ others)).length := by
        simp only [List.length_append]
        omega
      by_cases begins : flavor.beginsWithSeparator (others ++ rest) = true
      · -- Then no round is left, and this one is given to the tokens behind.
        have noOthers : others = [] := by
          cases others with
          | nil => rfl
          | cons first others => exact absurd begins (by simpa using ends)
        subst noOthers
        rw [List.append_nil, List.append_assoc]
        refine ⟨name ++ (run ++ rest), ?_, .manyEnd⟩
        exact mem_language_round separates separated inName someRun inRun inRest begins
      · obtain ⟨middle, inMiddle, leaves⟩ := inductionHypothesis _ shorter inOthers rfl
        have round := leaves_round separates inName someRun inRun
          (by simpa using begins : flavor.beginsWithSeparator (others ++ rest) = false)
        have taken : (others ++ rest).length < (name ++ (run ++ (others ++ rest))).length := by
          simp only [List.length_append]
          omega
        refine ⟨middle, inMiddle, ?_⟩
        rw [List.append_assoc, List.append_assoc]
        exact .manyMore round taken leaves

theorem leaves_sequence {tokens : List Token} {text : List Char}
    (separates : flavor.SeparatesNames) (separated : Separated flavor tokens)
    (inLanguage : text ∈ sequenceLanguage flavor tokens) :
    (Regex.sequence (tokens.map (regex flavor))).Leaves text [] := by
  induction tokens generalizing text with
  | nil =>
      rw [mem_sequenceLanguage_nil] at inLanguage
      subst inLanguage
      exact .empty
  | cons token tokens inductionHypothesis =>
      obtain ⟨front, inFront, rest, inRest, rfl⟩ := mem_sequenceLanguage_cons.mp inLanguage
      cases token with
      | anyDirectories =>
          obtain ⟨middle, inMiddle, leaves⟩ :=
            exists_leaves_anyDirectories separates separated inFront inRest
          exact .append leaves (inductionHypothesis separated.2.2 inMiddle)
      | separators | anyCharacter | anyName | literal character =>
          rw [← language_regex] at inFront
          exact .append (Regex.backtracking_leaves _ inFront rest)
            (inductionHypothesis separated.2.2 inRest)

theorem isMatch_sequence_iff {tokens : List Token} (separates : flavor.SeparatesNames)
    (separated : Separated flavor tokens) (text : List Char) :
    (Regex.sequence (tokens.map (regex flavor))).isMatch text = true ↔
      text ∈ sequenceLanguage flavor tokens := by
  rw [Regex.isMatch_iff]
  constructor
  · intro leaves
    obtain ⟨front, inLanguage, rfl⟩ := leaves.exists_front
    rw [language_sequence] at inLanguage
    simpa using inLanguage
  · exact leaves_sequence separates separated

end Token

end FileSpec
