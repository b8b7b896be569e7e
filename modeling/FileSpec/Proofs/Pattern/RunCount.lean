import FileSpec.Proofs.Pattern.LiteralSpecifications

/-!
# Runs of separators in what matches

Of the tokens other than any directories, only separators match separators, and each of them matches
one run. A run can be split between two tokens, so a text has at most as many runs as there are
tokens for them. Where there are no drives, an accepted path has at most as many runs as the
specification: `runCount_le_of_accepts`.
-/

set_option autoImplicit false

namespace FileSpec

open Text

namespace Flavor

variable {flavor : Flavor}

/-- The number of maximal runs of separators. -/
def runCount (flavor : Flavor) (text : List Char) : Nat :=
  (flavor.squeezed text).countP flavor.isSeparator

@[simp]
theorem runCount_nil : flavor.runCount [] = 0 := rfl

theorem runCount_plain {character : Char} (plain : flavor.isSeparator character = false)
    (rest : List Char) : flavor.runCount (character :: rest) = flavor.runCount rest := by
  rw [runCount, squeezed_plain plain, List.countP_cons_of_neg (by simp [plain]), runCount]

/-- The last separator of a run counts for the run. -/
theorem runCount_separator {separator : Char} (separates : flavor.isSeparator separator = true)
    (rest : List Char) :
    flavor.runCount (separator :: rest) =
      flavor.runCount rest + if flavor.beginsWithSeparator rest then 0 else 1 := by
  rw [runCount, squeezed, if_pos separates]
  split
  · rfl
  · exact List.countP_cons_of_pos isSeparator_separator

theorem runCount_of_begins {text : List Char} (begins : flavor.beginsWithSeparator text = true) :
    flavor.runCount text = flavor.runCount (text.dropWhile flavor.isSeparator) + 1 := by
  rw [runCount, squeezed_of_begins begins, List.countP_cons_of_pos isSeparator_separator, runCount]

theorem runCount_run {run rest : List Char} (nonempty : run ≠ [])
    (whole : ∀ character ∈ run, flavor.isSeparator character = true)
    (ends : flavor.beginsWithSeparator rest = false) :
    flavor.runCount (run ++ rest) = flavor.runCount rest + 1 := by
  rw [runCount, squeezed_run nonempty whole ends, List.countP_cons_of_pos isSeparator_separator,
    runCount]

theorem runCount_of_plain {text : List Char}
    (plain : ∀ character ∈ text, flavor.isSeparator character = false) :
    flavor.runCount text = 0 := by
  induction text with
  | nil => rfl
  | cons first rest inductionHypothesis =>
      obtain ⟨firstPlain, plain⟩ := List.forall_mem_cons.mp plain
      rw [runCount_plain firstPlain, inductionHypothesis plain]

/-- Two texts together have no more runs than both; a run of the one can go on in the other. -/
theorem runCount_append_le (front rest : List Char) :
    flavor.runCount (front ++ rest) ≤ flavor.runCount front + flavor.runCount rest := by
  induction front with
  | nil => simp
  | cons first front inductionHypothesis =>
      cases separates : flavor.isSeparator first with
      | false => rwa [List.cons_append, runCount_plain separates, runCount_plain separates]
      | true =>
          -- A front that ends in a separator can lose its last run to the rest, and no other.
          have once : (if flavor.beginsWithSeparator (front ++ rest) then 0 else 1) ≤
              if flavor.beginsWithSeparator front then 0 else 1 := by
            cases front with
            | nil =>
                rw [List.nil_append, beginsWithSeparator_nil]
                split <;> decide
            | cons second front => exact le_rfl
          rw [List.cons_append, runCount_separator separates, runCount_separator separates,
            Nat.add_right_comm]
          exact Nat.add_le_add inductionHypothesis once

theorem runCount_map {change : Char → Char} (keeps : flavor.KeepsMarks change)
    (text : List Char) : flavor.runCount (text.map change) = flavor.runCount text := by
  induction text with
  | nil => rfl
  | cons first rest inductionHypothesis =>
      have sameKind := keeps.isSeparator first
      rw [List.map_cons]
      cases separates : flavor.isSeparator first with
      | false =>
          rw [runCount_plain (sameKind.trans separates), runCount_plain separates,
            inductionHypothesis]
      | true =>
          rw [runCount_separator (sameKind.trans separates), runCount_separator separates,
            keeps.beginsWithSeparator_map, inductionHypothesis]

end Flavor

namespace Token

variable {flavor : Flavor}

/-- Except for any directories, a token matches one run of separators or no separator. -/
theorem runCount_of_mem_language (separates : flavor.SeparatesNames) {token : Token}
    (plain : ∀ character, token = literal character → flavor.isSeparator character = false)
    (notDirectories : token ≠ anyDirectories) {text : List Char}
    (inLanguage : text ∈ language flavor token) :
    flavor.runCount text = if token == separators then 1 else 0 := by
  cases token with
  | separators =>
      obtain ⟨nonempty, whole⟩ := mem_language_separators.mp inLanguage
      simpa using Flavor.runCount_run nonempty whole Flavor.beginsWithSeparator_nil
  | anyCharacter =>
      obtain ⟨character, legal, rfl⟩ := inLanguage
      exact Flavor.runCount_plain (separates.not_isSeparator legal) []
  | anyDirectories => exact absurd rfl notDirectories
  | anyName =>
      have legal := mem_language_anyName.mp inLanguage
      exact Flavor.runCount_of_plain fun character member =>
        separates.not_isSeparator (legal character member)
  | literal character =>
      obtain rfl := mem_language_literal.mp inLanguage
      exact Flavor.runCount_plain (plain character rfl) []

theorem runCount_le_of_mem_sequenceLanguage (separates : flavor.SeparatesNames)
    {tokens : List Token} (separated : Separated flavor tokens)
    (noDirectories : anyDirectories ∉ tokens) {text : List Char}
    (inLanguage : text ∈ sequenceLanguage flavor tokens) :
    flavor.runCount text ≤ tokens.count separators := by
  induction tokens generalizing text with
  | nil =>
      rw [mem_sequenceLanguage_nil] at inLanguage
      simp [inLanguage]
  | cons token tokens inductionHypothesis =>
      obtain ⟨plain, -, separated⟩ := separated
      obtain ⟨front, inFront, rest, inRest, rfl⟩ := mem_sequenceLanguage_cons.mp inLanguage
      have inFrontOnce := runCount_of_mem_language separates plain
        (List.ne_of_not_mem_cons noDirectories).symm inFront
      calc flavor.runCount (front ++ rest)
          ≤ flavor.runCount front + flavor.runCount rest := Flavor.runCount_append_le front rest
        _ ≤ (if token == separators then 1 else 0) + tokens.count separators :=
            Nat.add_le_add inFrontOnce.le (inductionHypothesis separated
              (List.not_mem_of_not_mem_cons noDirectories) inRest)
        _ = (token :: tokens).count separators := by rw [List.count_cons, Nat.add_comm]

theorem Reads.runCount_eq {specification : List Char} {tokens : List Token}
    (reads : Reads flavor specification tokens) (noDirectories : Token.anyDirectories ∉ tokens) :
    flavor.runCount specification = tokens.count Token.separators := by
  induction reads with
  | nil => rfl
  | separators nonempty whole ends _ inductionHypothesis =>
      rw [Flavor.runCount_run nonempty whole ends, List.count_cons_self,
        inductionHypothesis (List.not_mem_of_not_mem_cons noDirectories)]
  | anyDirectories => exact absurd List.mem_cons_self noDirectories
  | anyCharacter plain _ inductionHypothesis
  | anyName plain _ _ inductionHypothesis
  | literal plain _ _ _ inductionHypothesis =>
      rw [Flavor.runCount_plain plain, List.count_cons_of_ne (by simp),
        inductionHypothesis (List.not_mem_of_not_mem_cons noDirectories)]

/-- Any directories are two asterisks and a separator. -/
theorem Reads.exists_isInfix {specification : List Char} {tokens : List Token}
    (reads : Reads flavor specification tokens) (directories : Token.anyDirectories ∈ tokens) :
    ∃ separator, flavor.isSeparator separator = true ∧
      ['*', '*', separator] <:+: specification := by
  induction reads with
  | nil => cases directories
  | @separators run rest tokens _ _ _ _ inductionHypothesis =>
      obtain ⟨separator, separates, inRest⟩ := inductionHypothesis (by simpa using directories)
      exact ⟨separator, separates, inRest.trans (List.suffix_append run rest).isInfix⟩
  | @anyDirectories run rest tokens _ nonempty whole _ _ _ =>
      obtain ⟨separator, run, rfl⟩ := List.exists_cons_of_ne_nil nonempty
      exact ⟨separator, whole separator List.mem_cons_self, [], run ++ rest, rfl⟩
  | anyCharacter _ _ inductionHypothesis
  | anyName _ _ _ inductionHypothesis
  | literal _ _ _ _ inductionHypothesis =>
      obtain ⟨separator, separates, inRest⟩ := inductionHypothesis (by simpa using directories)
      exact ⟨separator, separates, inRest.trans (List.suffix_cons _ _).isInfix⟩

/-- Where names can hold wildcards, tokens match the specification that they are read from. -/
theorem Reads.mem_sequenceLanguage_self (question : '?' ∉ flavor.invalidNameChars)
    (asterisk : '*' ∉ flavor.invalidNameChars) {specification : List Char} {tokens : List Token}
    (reads : Reads flavor specification tokens) :
    specification ∈ sequenceLanguage flavor tokens := by
  induction reads with
  | nil => exact mem_sequenceLanguage_nil.mpr rfl
  | @separators run rest tokens nonempty whole _ _ inductionHypothesis =>
      have inRun : run ∈ language flavor Token.separators :=
        mem_language_separators.mpr ⟨nonempty, whole⟩
      exact mem_sequenceLanguage_cons.mpr ⟨run, inRun, rest, inductionHypothesis, rfl⟩
  | @anyCharacter rest tokens _ _ inductionHypothesis =>
      have inLanguage : ['?'] ∈ language flavor Token.anyCharacter := ⟨'?', question, rfl⟩
      exact mem_sequenceLanguage_cons.mpr ⟨['?'], inLanguage, rest, inductionHypothesis, rfl⟩
  | @anyDirectories run rest tokens _ nonempty whole _ _ inductionHypothesis =>
      have isName : ∀ character ∈ ['*', '*'], character ∉ flavor.invalidNameChars := by
        simpa using asterisk
      have inLanguage : ['*', '*'] ++ (run ++ []) ∈ language flavor Token.anyDirectories :=
        append_mem_language_anyDirectories isName nonempty whole (Language.nil_mem_kstar _)
      exact mem_sequenceLanguage_cons.mpr ⟨_, inLanguage, rest, inductionHypothesis, by simp⟩
  | @anyName rest tokens _ _ _ inductionHypothesis =>
      have inLanguage : ['*'] ∈ language flavor Token.anyName :=
        mem_language_anyName.mpr (by simpa using asterisk)
      exact mem_sequenceLanguage_cons.mpr ⟨['*'], inLanguage, rest, inductionHypothesis, rfl⟩
  | @literal character rest tokens _ _ _ _ inductionHypothesis =>
      exact mem_sequenceLanguage_cons.mpr
        ⟨[character], mem_language_literal.mpr rfl, rest, inductionHypothesis, rfl⟩

theorem anyDirectories_not_mem_map (change : Char → Char) {tokens : List Token}
    (noDirectories : anyDirectories ∉ tokens) :
    anyDirectories ∉ tokens.map (Token.map change) := by
  intro member
  obtain ⟨token, inTokens, changed⟩ := List.mem_map.mp member
  cases token with
  | anyDirectories => exact noDirectories inTokens
  | _ => cases changed

end Token

/-- Two asterisks stand before no separator. -/
def Flavor.WithoutDirectories (flavor : Flavor) (specification : List Char) : Prop :=
  ∀ separator, flavor.isSeparator separator = true → ¬ ['*', '*', separator] <:+: specification

namespace Flavor.WithoutDirectories

variable {flavor : Flavor} {specification : List Char}

theorem of_isInfix (without : flavor.WithoutDirectories specification) {piece : List Char}
    (within : piece <:+: specification) : flavor.WithoutDirectories piece :=
  fun separator separates inPiece => without separator separates (inPiece.trans within)

theorem anyDirectories_not_mem_scan (without : flavor.WithoutDirectories specification) :
    Token.anyDirectories ∉ Token.scan flavor specification := by
  intro directories
  obtain ⟨separator, separates, within⟩ :=
    (Token.reads_scan specification).exists_isInfix directories
  exact without separator separates within

theorem not_beginsWithAnyDirectories (without : flavor.WithoutDirectories specification) :
    ¬ beginsWithAnyDirectories flavor specification = true := by
  rw [beginsWithAnyDirectories_iff]
  rintro ⟨separator, rest, rfl, separates⟩
  exact without separator separates ⟨[], rest, rfl⟩

end Flavor.WithoutDirectories

namespace PathStyle

variable {style : PathStyle} (ignoreCase : Bool) {specification : List Char}

theorem runCount_le_of_isMatch (without : style.flavor.WithoutDirectories specification)
    {text : List Char}
    (matched : (Token.comparedRegex style.flavor ignoreCase
      (Token.scan style.flavor specification)).isMatch (text.map (comparedAs ignoreCase)) = true) :
    style.flavor.runCount text ≤ style.flavor.runCount specification := by
  have keeps := style.keepsMarks_comparedAs ignoreCase
  have reads := (Token.reads_scan specification).map keeps
  have noDirectories := Token.anyDirectories_not_mem_map (comparedAs ignoreCase)
    without.anyDirectories_not_mem_scan
  rw [isMatch_comparedRegex_iff] at matched
  rw [← Flavor.runCount_map keeps text, ← Flavor.runCount_map keeps specification,
    reads.runCount_eq noDirectories]
  exact Token.runCount_le_of_mem_sequenceLanguage style.separatesNames reads.separated
    noDirectories matched

/-- A root is one run, of the path as of the specification. -/
theorem runCount_le (noDrives : style.flavor.hasDriveRoots = false)
    (without : style.flavor.WithoutDirectories specification) {path : Path}
    (accepted : (style.matcher ignoreCase specification).accepts path = true) :
    style.flavor.runCount path ≤ style.flavor.runCount specification := by
  rw [accepts_of_noDrives ignoreCase noDrives] at accepted
  split at accepted
  · next bothRooted =>
      obtain ⟨relative, begins⟩ := bothRooted
      have below := without.of_isInfix (List.dropWhile_suffix style.flavor.isSeparator).isInfix
      have beginsToo :=
        beginsWithSeparator_of_isRootRelative relative without.not_beginsWithAnyDirectories
      rw [Flavor.runCount_of_begins begins, Flavor.runCount_of_begins beginsToo]
      exact Nat.succ_le_succ (runCount_le_of_isMatch ignoreCase below accepted)
  · exact runCount_le_of_isMatch ignoreCase without accepted

/-- Where names can hold wildcards, a specification is a path that it accepts. -/
theorem accepts_specification (noDrives : style.flavor.hasDriveRoots = false)
    (question : '?' ∉ style.flavor.invalidNameChars)
    (asterisk : '*' ∉ style.flavor.invalidNameChars) (specification : List Char) :
    (style.matcher ignoreCase specification).accepts specification = true := by
  have matches_self (text : List Char) :
      (Token.comparedRegex style.flavor ignoreCase (Token.scan style.flavor text)).isMatch
        (text.map (comparedAs ignoreCase)) = true :=
    style.isMatch_comparedRegex_of_mem ignoreCase
      ((Token.reads_scan text).mem_sequenceLanguage_self question asterisk)
  rw [accepts_of_noDrives ignoreCase noDrives]
  split <;> exact matches_self _

end PathStyle

/-- Without any directories, wildcards cross no directory boundary: no accepted path has more runs
of separators than the specification, and the specification itself is one with as many. -/
theorem runCount_le_of_accepts (ignoreCase : Bool) {specification : List Char}
    (noDirectories : ¬ "**/".toList <:+: specification) :
    ∃ matcher,
      Matcher.ofSpecification? PathStyle.posix.flavor ignoreCase specification = some matcher ∧
      matcher.accepts specification = true ∧
      ∀ path, matcher.accepts path = true →
        PathStyle.posix.flavor.runCount path ≤ PathStyle.posix.flavor.runCount specification := by
  have without : PathStyle.posix.flavor.WithoutDirectories specification := by
    intro separator separates
    rw [(PathStyle.isSeparator_posix_iff separator).mp separates]
    exact noDirectories
  exact ⟨_, PathStyle.posix.ofSpecification?_eq ignoreCase specification,
    PathStyle.accepts_specification ignoreCase rfl (by decide) (by decide) specification,
    fun path => PathStyle.runCount_le ignoreCase rfl without⟩

theorem runCount_le_of_accepts_deeper :
    ¬ "**/".toList <:+: "/a*//?b".toList ∧
      ∃ matcher,
        Matcher.ofSpecification? PathStyle.posix.flavor true "/a*//?b".toList = some matcher ∧
        matcher.accepts "/a*//?b".toList = true ∧
        matcher.accepts "/ax/y/zb".toList = false := by
  have noDirectories : ¬ "**/".toList <:+: "/a*//?b".toList := by decide
  obtain ⟨matcher, made, itself, bound⟩ := runCount_le_of_accepts true noDirectories
  refine ⟨noDirectories, matcher, made, itself, ?_⟩
  exact Bool.eq_false_iff.mpr (mt (bound _) (by decide))

end FileSpec
