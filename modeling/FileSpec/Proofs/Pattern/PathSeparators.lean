import FileSpec.Proofs.Pattern.AnyDirectories
import FileSpec.Proofs.Pattern.SeparatorKinds

/-!
# Separators in a path

A specification does not tell the kinds of separators apart in a path, not even in its root, and so
paths that differ in kinds only get the same answer. Where there are no drives, a path that is
accepted is accepted with longer runs of separators as well: what took one separator of a run, a run
or a round of directories, takes one more.
-/

set_option autoImplicit false

namespace FileSpec

open Text

namespace Flavor

variable {flavor : Flavor}

@[simp]
theorem isSeparator_unified (character : Char) :
    flavor.isSeparator (flavor.unified character) = flavor.isSeparator character := by
  by_cases separates : flavor.isSeparator character = true
  · simp [unified, separates]
  · simp [unified, separates]

@[simp]
theorem unified_of_plain {character : Char} (plain : flavor.isSeparator character = false) :
    flavor.unified character = character := by
  simp [unified, plain]

theorem map_unified_of_plain {text : List Char}
    (plain : ∀ character ∈ text, flavor.isSeparator character = false) :
    text.map flavor.unified = text :=
  (List.map_congr_left fun character member => unified_of_plain (plain character member)).trans
    (List.map_id text)

theorem unified_mem_invalidNameChars_iff (separates : flavor.SeparatesNames) (character : Char) :
    flavor.unified character ∈ flavor.invalidNameChars ↔ character ∈ flavor.invalidNameChars := by
  cases isSeparator : flavor.isSeparator character with
  | false => rw [unified_of_plain isSeparator]
  | true =>
      have invalid := separates (flavor.unified character) (by simpa using isSeparator)
      exact iff_of_true invalid (separates character isSeparator)

/-- Separator runs of a path made longer: beside a separator there can be one more. -/
inductive LengthensRuns (flavor : Flavor) : Path → Path → Prop where
  | nil : LengthensRuns flavor [] []
  | keep {character path longer} :
      LengthensRuns flavor path longer →
      LengthensRuns flavor (character :: path) (character :: longer)
  | more {separator added path longer} :
      flavor.isSeparator separator = true → flavor.isSeparator added = true →
      LengthensRuns flavor (separator :: path) longer →
      LengthensRuns flavor (separator :: path) (added :: longer)

namespace LengthensRuns

variable {path longer : Path}

/-- Any number of separators can be put in front of a run. -/
theorem run (added run : List Char) (nonempty : run ≠ [])
    (separators : ∀ character ∈ run, flavor.isSeparator character = true)
    (addedSeparators : ∀ character ∈ added, flavor.isSeparator character = true)
    (lengthens : flavor.LengthensRuns path longer) :
    flavor.LengthensRuns (run ++ path) (added ++ (run ++ longer)) := by
  induction added with
  | nil =>
      clear nonempty separators
      induction run with
      | nil => exact lengthens
      | cons separator run inductionHypothesis => exact .keep inductionHypothesis
  | cons first added inductionHypothesis =>
      obtain ⟨isFirst, others⟩ := List.forall_mem_cons.mp addedSeparators
      obtain ⟨separator, run, rfl⟩ := List.exists_cons_of_ne_nil nonempty
      exact .more (separators separator List.mem_cons_self) isFirst (inductionHypothesis others)

theorem beginsWithSeparator_eq (lengthens : flavor.LengthensRuns path longer) :
    flavor.beginsWithSeparator longer = flavor.beginsWithSeparator path := by
  cases lengthens with
  | nil => rfl
  | keep => rfl
  | more separates added => simp [separates, added]

theorem dropWhile (lengthens : flavor.LengthensRuns path longer) :
    flavor.LengthensRuns (path.dropWhile flavor.isSeparator)
      (longer.dropWhile flavor.isSeparator) := by
  induction lengthens with
  | nil => exact .nil
  | @keep character path longer lengthens inductionHypothesis =>
      by_cases separates : flavor.isSeparator character = true
      · rwa [List.dropWhile_cons_of_pos separates, List.dropWhile_cons_of_pos separates]
      · rw [List.dropWhile_cons_of_neg separates, List.dropWhile_cons_of_neg separates]
        exact .keep lengthens
  | more _ added _ inductionHypothesis =>
      rwa [List.dropWhile_cons_of_pos added]

theorem map {change : Char → Char} (keeps : flavor.KeepsMarks change)
    (lengthens : flavor.LengthensRuns path longer) :
    flavor.LengthensRuns (path.map change) (longer.map change) := by
  induction lengthens with
  | nil => exact .nil
  | keep _ inductionHypothesis => exact .keep inductionHypothesis
  | more separates added _ inductionHypothesis =>
      exact .more (by rwa [keeps.isSeparator]) (by rwa [keeps.isSeparator]) inductionHypothesis

end LengthensRuns

end Flavor

namespace Token

variable {flavor : Flavor}

/-- What a token matches is the same for all kinds of separators. -/
theorem map_unified_mem_language_iff (separates : flavor.SeparatesNames) {token : Token}
    (plain : ∀ character, token = literal character → flavor.isSeparator character = false)
    {text : List Char} :
    text.map flavor.unified ∈ language flavor token ↔ text ∈ language flavor token := by
  have legal_iff := Flavor.unified_mem_invalidNameChars_iff separates
  cases token with
  | separators => simp
  | anyCharacter =>
      constructor
      · rintro ⟨character, legal, shape⟩
        obtain ⟨original, rfl, rfl⟩ := List.map_eq_singleton_iff.mp shape
        exact ⟨original, mt (legal_iff original).mpr legal, rfl⟩
      · rintro ⟨character, legal, rfl⟩
        exact ⟨flavor.unified character, mt (legal_iff character).mp legal, rfl⟩
  | anyDirectories =>
      simp [mem_language_anyDirectories_iff, Flavor.HasLegalCharacters, legal_iff]
  | anyName => simp [legal_iff]
  | literal character =>
      have isPlain := plain character rfl
      constructor
      · intro shape
        obtain ⟨original, rfl, same⟩ := List.map_eq_singleton_iff.mp shape
        rw [(Flavor.unified_eq_iff isPlain original).mp same]
        rfl
      · rintro rfl
        exact congrArg (fun same => [same]) (Flavor.unified_of_plain isPlain)

theorem map_unified_mem_sequenceLanguage_iff (separates : flavor.SeparatesNames)
    {tokens : List Token} (separated : Separated flavor tokens) {text : List Char} :
    text.map flavor.unified ∈ sequenceLanguage flavor tokens ↔
      text ∈ sequenceLanguage flavor tokens := by
  induction tokens generalizing text with
  | nil => simp
  | cons token tokens inductionHypothesis =>
      obtain ⟨plain, -, separated⟩ := separated
      have sameToken {text : List Char} :
          text.map flavor.unified ∈ language flavor token ↔ text ∈ language flavor token :=
        map_unified_mem_language_iff separates plain
      rw [mem_sequenceLanguage_cons, mem_sequenceLanguage_cons]
      constructor
      · rintro ⟨_, inFront, _, inRest, shape⟩
        obtain ⟨front, rest, rfl, rfl, rfl⟩ := List.map_eq_append_iff.mp shape.symm
        exact ⟨front, sameToken.mp inFront, rest, (inductionHypothesis separated).mp inRest, rfl⟩
      · rintro ⟨front, inFront, rest, inRest, rfl⟩
        exact ⟨_, sameToken.mpr inFront, _, (inductionHypothesis separated).mpr inRest,
          List.map_append.symm⟩

/-- A token that matches a separator matches one more beside it. -/
theorem add_separator_mem_language (separates : flavor.SeparatesNames) {token : Token}
    (plain : ∀ character, token = literal character → flavor.isSeparator character = false)
    {front rest : List Char} {separator added : Char}
    (isSeparator : flavor.isSeparator separator = true) (isAdded : flavor.isSeparator added = true)
    (inLanguage : front ++ separator :: rest ∈ language flavor token) :
    front ++ added :: separator :: rest ∈ language flavor token := by
  have invalid := separates separator isSeparator
  cases token with
  | separators =>
      simp only [mem_language_separators, List.forall_mem_append, List.forall_mem_cons]
        at inLanguage ⊢
      exact ⟨by simp, inLanguage.2.1, isAdded, inLanguage.2.2⟩
  | anyDirectories =>
      rw [mem_language_anyDirectories_iff, Flavor.HasLegalCharacters] at inLanguage ⊢
      simp only [List.forall_mem_append, List.forall_mem_cons] at inLanguage ⊢
      obtain ⟨⟨legalFront, legalRest⟩, ends⟩ := inLanguage
      exact ⟨⟨legalFront, .inl isAdded, legalRest⟩, by simpa using ends⟩
  | anyCharacter =>
      obtain ⟨character, legal, shape⟩ := inLanguage
      have member : separator ∈ [character] := by simp [← shape]
      exact absurd (List.mem_singleton.mp member ▸ invalid) legal
  | anyName => exact absurd invalid (mem_language_anyName.mp inLanguage separator (by simp))
  | literal character =>
      have shape : front ++ separator :: rest = [character] := inLanguage
      have member : separator ∈ [character] := by simp [← shape]
      rw [List.mem_singleton.mp member, plain character rfl] at isSeparator
      cases isSeparator

theorem add_separator_mem_sequenceLanguage (separates : flavor.SeparatesNames)
    {tokens : List Token} (separated : Separated flavor tokens) {front rest : List Char}
    {separator added : Char} (isSeparator : flavor.isSeparator separator = true)
    (isAdded : flavor.isSeparator added = true)
    (inLanguage : front ++ separator :: rest ∈ sequenceLanguage flavor tokens) :
    front ++ added :: separator :: rest ∈ sequenceLanguage flavor tokens := by
  induction tokens generalizing front with
  | nil => simp at inLanguage
  | cons token tokens inductionHypothesis =>
      obtain ⟨plain, -, separated⟩ := separated
      rw [mem_sequenceLanguage_cons] at inLanguage ⊢
      obtain ⟨here, inHere, later, inLater, shape⟩ := inLanguage
      rcases List.append_eq_append_iff.mp shape with
        ⟨between, rfl, rfl⟩ | ⟨between, rfl, inside⟩
      · -- The separator is one of the later tokens.
        exact ⟨here, inHere, between ++ added :: separator :: rest,
          inductionHypothesis separated inLater, by simp⟩
      · cases between with
        | nil =>
            obtain rfl : separator :: rest = later := inside
            have lengthened : [] ++ added :: separator :: rest ∈ sequenceLanguage flavor tokens :=
              inductionHypothesis separated inLater
            exact ⟨front, by simpa using inHere, added :: separator :: rest, lengthened, rfl⟩
        | cons first between =>
            obtain ⟨rfl, rfl⟩ := List.cons.inj inside
            exact ⟨_, add_separator_mem_language separates plain isSeparator isAdded inHere, later,
              inLater, by simp⟩

/-- Tokens that match a text match it with longer runs, whatever stands in front. -/
theorem lengthened_mem_sequenceLanguage (separates : flavor.SeparatesNames) {tokens : List Token}
    (separated : Separated flavor tokens) {text longer : List Char}
    (lengthens : flavor.LengthensRuns text longer) (front : List Char)
    (inLanguage : front ++ text ∈ sequenceLanguage flavor tokens) :
    front ++ longer ∈ sequenceLanguage flavor tokens := by
  induction lengthens generalizing front with
  | nil => exact inLanguage
  | @keep character text longer _ inductionHypothesis =>
      rw [List.append_cons] at inLanguage ⊢
      exact inductionHypothesis (front ++ [character]) inLanguage
  | @more separator added text longer isSeparator isAdded _ inductionHypothesis =>
      have oneMore := add_separator_mem_sequenceLanguage separates separated isSeparator isAdded
        inLanguage
      rw [List.append_cons] at oneMore ⊢
      exact inductionHypothesis (front ++ [added]) oneMore

end Token

namespace Flavor

/-- Letters, colons and the names of shares are no separators, so a root keeps its place. -/
theorem Roots.map_unified {flavor : Flavor}
    (plainMarks : ∀ mark, isDriveLetter mark = true ∨ mark = ':' → flavor.isSeparator mark = false)
    {root rest : Path} (roots : flavor.Roots root rest) :
    flavor.Roots (root.map flavor.unified) (rest.map flavor.unified) := by
  have begins (text : Path) : flavor.beginsWithSeparator (text.map flavor.unified) =
      flavor.beginsWithSeparator text := by
    cases text <;> simp
  have beginsName (text : Path) : flavor.beginsWithName (text.map flavor.unified) =
      flavor.beginsWithName text := by
    cases text <;> simp
  have letter_fixed {letter : Char} (isLetter : isDriveLetter letter = true) :
      flavor.unified letter = letter := unified_of_plain (plainMarks letter (.inl isLetter))
  have colon : flavor.unified ':' = ':' := unified_of_plain (plainMarks ':' (.inr rfl))
  cases roots with
  | relative plain noDrive =>
      refine .relative (by rwa [begins]) fun drives letter others shape => ?_
      obtain ⟨original, middle, rfl, rfl, behind⟩ := List.map_eq_cons_iff.mp shape
      obtain ⟨mark, others, rfl, isColon, rfl⟩ := List.map_eq_cons_iff.mp behind
      have plainOriginal : flavor.isSeparator original = false := plain
      rw [unified_of_plain plainOriginal]
      rw [(unified_eq_iff (plainMarks ':' (.inr rfl)) mark).mp isColon] at noDrive
      exact noDrive drives original others rfl
  | separator separates noShare =>
      refine .separator (by simpa using separates) fun drives again => ?_
      rw [← List.map_tail, beginsName]
      exact noShare drives (by rwa [begins] at again)
  | drive drives isLetter plain =>
      simp only [List.map_cons, List.map_nil, letter_fixed isLetter, colon]
      exact .drive drives isLetter (by rwa [begins])
  | driveDirectory drives isLetter separates =>
      simp only [List.map_cons, List.map_nil, letter_fixed isLetter, colon]
      exact .driveDirectory drives isLetter (by simpa using separates)
  | server drives first second isServer ends noShare =>
      rw [List.map_cons, List.map_cons, map_unified_of_plain isServer.2]
      exact .server drives (by simpa using first) (by simpa using second) isServer
        (by rwa [beginsName]) (by rwa [← List.map_tail, beginsName])
  | share drives first second isServer separates isShare ends =>
      rw [List.map_cons, List.map_cons, List.map_append, List.map_cons,
        map_unified_of_plain isServer.2, map_unified_of_plain isShare.2]
      exact .share drives (by simpa using first) (by simpa using second) isServer
        (by simpa using separates) isShare (by rwa [beginsName])

end Flavor

namespace PathStyle

variable (style : PathStyle) (ignoreCase : Bool)

theorem root_map_unified (path : Path) :
    style.flavor.isRooted (path.map style.flavor.unified) = style.flavor.isRooted path ∧
      Matcher.pathBelowRoot style.flavor (path.map style.flavor.unified) =
        (Matcher.pathBelowRoot style.flavor path).map style.flavor.unified := by
  have plainMarks : ∀ mark, Flavor.isDriveLetter mark = true ∨ mark = ':' →
      style.flavor.isSeparator mark = false := by
    rintro mark (isLetter | rfl)
    · exact style.isSeparator_of_isDriveLetter mark isLetter
    · exact style.not_isSeparator_colon
  obtain ⟨root, rest, rfl, roots⟩ := style.flavor.exists_roots path
  have unified := roots.map_unified plainMarks
  rw [List.map_append, style.isRooted_append unified, style.isRooted_append roots,
    Matcher.pathBelowRoot, Matcher.pathBelowRoot, style.dropRoot_append unified,
    style.dropRoot_append roots, style.keepsMarks_unified.dropWhile_map]
  exact ⟨by simp, rfl⟩

theorem separated_compared (specification : List Char) :
    Token.Separated style.flavor
      ((Token.scan style.flavor specification).map (Token.map (comparedAs ignoreCase))) :=
  ((Token.reads_scan specification).map (style.keepsMarks_comparedAs ignoreCase)).separated

theorem comparedAs_unified (character : Char) :
    comparedAs ignoreCase (style.flavor.unified character) =
      style.flavor.unified (comparedAs ignoreCase character) := by
  have fixed {separator : Char} (separates : style.flavor.isSeparator separator = true) :
      comparedAs ignoreCase separator = separator :=
    style.comparedAs_of_mem ignoreCase (style.separatesNames separator separates)
  cases separates : style.flavor.isSeparator character with
  | true => rw [fixed separates, fixed (by simpa using separates)]
  | false =>
      have plain : style.flavor.isSeparator (comparedAs ignoreCase character) = false := by
        rwa [(style.keepsMarks_comparedAs ignoreCase).isSeparator]
      rw [Flavor.unified_of_plain separates, Flavor.unified_of_plain plain]

theorem isMatch_map_unified (specification text : List Char) :
    (Token.comparedRegex style.flavor ignoreCase (Token.scan style.flavor specification)).isMatch
        ((text.map style.flavor.unified).map (comparedAs ignoreCase)) =
      (Token.comparedRegex style.flavor ignoreCase (Token.scan style.flavor specification)).isMatch
        (text.map (comparedAs ignoreCase)) := by
  have swapped : (text.map style.flavor.unified).map (comparedAs ignoreCase) =
      (text.map (comparedAs ignoreCase)).map style.flavor.unified := by
    rw [List.map_map, List.map_map]
    exact List.map_congr_left fun character _ => style.comparedAs_unified ignoreCase character
  rw [swapped, Bool.eq_iff_iff, isMatch_comparedRegex_iff, isMatch_comparedRegex_iff]
  exact Token.map_unified_mem_sequenceLanguage_iff style.separatesNames
    (style.separated_compared ignoreCase specification)

theorem accepts_map_unified (specification : List Char) (path : Path) :
    (style.matcher ignoreCase specification).accepts (path.map style.flavor.unified) =
      (style.matcher ignoreCase specification).accepts path := by
  obtain ⟨rooted, below⟩ := style.root_map_unified path
  rw [accepts_matcher, accepts_matcher, rooted, below, isMatch_map_unified, isMatch_map_unified]

theorem isMatch_of_lengthensRuns {specification : List Char} {path longer : Path}
    (lengthens : style.flavor.LengthensRuns path longer)
    (matched : (Token.comparedRegex style.flavor ignoreCase
      (Token.scan style.flavor specification)).isMatch (path.map (comparedAs ignoreCase)) = true) :
    (Token.comparedRegex style.flavor ignoreCase (Token.scan style.flavor specification)).isMatch
      (longer.map (comparedAs ignoreCase)) = true := by
  rw [isMatch_comparedRegex_iff] at matched ⊢
  exact Token.lengthened_mem_sequenceLanguage style.separatesNames
    (style.separated_compared ignoreCase specification)
    (lengthens.map (style.keepsMarks_comparedAs ignoreCase)) [] matched

variable {style} in
theorem accepts_of_lengthensRuns (noDrives : style.flavor.hasDriveRoots = false)
    {specification : List Char} {path longer : Path}
    (lengthens : style.flavor.LengthensRuns path longer)
    (accepted : (style.matcher ignoreCase specification).accepts path = true) :
    (style.matcher ignoreCase specification).accepts longer = true := by
  rw [accepts_of_noDrives ignoreCase noDrives] at accepted ⊢
  rw [lengthens.beginsWithSeparator_eq]
  split at accepted
  · next relative =>
      rw [if_pos relative]
      exact style.isMatch_of_lengthensRuns ignoreCase lengthens.dropWhile accepted
  · next whole =>
      rw [if_neg whole]
      exact style.isMatch_of_lengthensRuns ignoreCase lengthens accepted

end PathStyle

/-- The kinds of the separators of a path do not show in the answer of a matcher, and, where there
are no drives, runs of separators in a path that is accepted can be made longer. -/
theorem accepts_other_separators (ignoreCase : Bool) (specification : List Char) :
    (∃ matcher,
      Matcher.ofSpecification? PathStyle.windows.flavor ignoreCase specification = some matcher ∧
      ∀ path other, PathStyle.windows.flavor.SameButSeparators path other →
        matcher.accepts path = matcher.accepts other) ∧
    ∃ matcher,
      Matcher.ofSpecification? PathStyle.posix.flavor ignoreCase specification = some matcher ∧
      ∀ path longer, PathStyle.posix.flavor.LengthensRuns path longer →
        matcher.accepts path = true → matcher.accepts longer = true := by
  constructor
  · refine ⟨_, PathStyle.windows.ofSpecification?_eq ignoreCase specification,
      fun path other same => ?_⟩
    rw [← PathStyle.windows.accepts_map_unified, Flavor.map_unified_eq same,
      PathStyle.windows.accepts_map_unified]
  · refine ⟨_, PathStyle.posix.ofSpecification?_eq ignoreCase specification,
      fun path longer lengthens => ?_⟩
    exact PathStyle.accepts_of_lengthensRuns ignoreCase rfl lengthens

theorem accepts_other_separators_share :
    PathStyle.windows.flavor.SameButSeparators "\\\\srv\\pub/b\\".toList "/\\srv/pub\\b/".toList ∧
      PathStyle.posix.flavor.LengthensRuns "/a/b/".toList "///a//b//".toList ∧
      (∃ matcher,
        Matcher.ofSpecification? PathStyle.windows.flavor false "/a/b/".toList = some matcher ∧
        matcher.accepts "\\\\srv\\pub/b\\".toList = matcher.accepts "/\\srv/pub\\b/".toList) ∧
      ∃ matcher,
        Matcher.ofSpecification? PathStyle.posix.flavor false "/a/b/".toList = some matcher ∧
        matcher.accepts "/a/b/".toList = true ∧ matcher.accepts "///a//b//".toList = true := by
  have same : PathStyle.windows.flavor.SameButSeparators "\\\\srv\\pub/b\\".toList
      "/\\srv/pub\\b/".toList :=
    .cons (.inr (by decide)) <| .cons (.inl rfl) <| .cons (.inl rfl) <| .cons (.inl rfl) <|
      .cons (.inl rfl) <| .cons (.inr (by decide)) <| .cons (.inl rfl) <| .cons (.inl rfl) <|
        .cons (.inl rfl) <| .cons (.inr (by decide)) <| .cons (.inl rfl) <|
          .cons (.inr (by decide)) .nil
  have slash : ∀ character ∈ ['/'], PathStyle.posix.flavor.isSeparator character = true :=
    List.forall_mem_singleton.mpr rfl
  have slashes : ∀ character ∈ ['/', '/'], PathStyle.posix.flavor.isSeparator character = true :=
    List.forall_mem_cons.mpr ⟨rfl, slash⟩
  have nonempty : ['/'] ≠ [] := List.cons_ne_nil '/' []
  have lengthens : PathStyle.posix.flavor.LengthensRuns "/a/b/".toList "///a//b//".toList :=
    .run ['/', '/'] ['/'] nonempty slash slashes <| .keep <|
      .run ['/'] ['/'] nonempty slash slash <| .keep <|
        .run ['/'] ['/'] nonempty slash slash .nil
  obtain ⟨⟨matcher, made, agree⟩, posixMatcher, posixMade, longer⟩ :=
    accepts_other_separators false "/a/b/".toList
  have accepted : (Matcher.ofSpecification? PathStyle.posix.flavor false "/a/b/".toList).map
      (·.accepts "/a/b/".toList) = some true := by decide +kernel
  rw [posixMade, Option.map_some, Option.some.injEq] at accepted
  exact ⟨same, lengthens, ⟨matcher, made, agree _ _ same⟩, posixMatcher, posixMade, accepted,
    longer _ _ lengthens accepted⟩

end FileSpec
