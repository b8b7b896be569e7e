import FileSpec.Proofs.Path.Absolute
import FileSpec.Proofs.Path.Components
import FileSpec.Proofs.Pattern.RootRelative

/-!
# Any directories in front of a name

A specification without separators accepts no text that has one. So behind any directories it is
compared with what follows the last separator of a path, which is the name of a file:
`PathStyle.accepts_inAnyDirectory`.
-/

set_option autoImplicit false

namespace FileSpec

open Text

theorem Text.afterLast_congr {delimits other : Char → Bool} {text : List Char}
    (same : ∀ character ∈ text, delimits character = other character) :
    afterLast delimits text = afterLast other text := by
  have sameFront : ∀ reversed : List Char, reversed ⊆ text →
      reversed.takeWhile (fun character => !delimits character) =
        reversed.takeWhile fun character => !other character := by
    intro reversed included
    induction reversed with
    | nil => rfl
    | cons first rest inductionHypothesis =>
        obtain ⟨inText, restInText⟩ := List.cons_subset.mp included
        rw [List.takeWhile_cons, List.takeWhile_cons, same first inText,
          inductionHypothesis restInText]
  rw [afterLast, afterLast, sameFront text.reverse (List.reverse_subset.mpr (List.Subset.refl _))]

/-- What is cut off at the front is in front of the last delimiter. -/
theorem Text.afterLast_dropWhile (delimits : Char → Bool) (text : List Char) :
    afterLast delimits (text.dropWhile delimits) = afterLast delimits text := by
  have ends : ∀ last ∈ (text.takeWhile delimits).getLast?, delimits last = true :=
    fun last isLast => List.all_eq_true.mp List.all_takeWhile last (List.mem_of_getLast? isLast)
  rw [← afterLast_append_of_ends ends, List.takeWhile_append_dropWhile]

theorem Flavor.KeepsMarks.afterLast_map {flavor : Flavor} {change : Char → Char}
    (keeps : flavor.KeepsMarks change) (text : List Char) :
    afterLast flavor.isSeparator (text.map change) =
      (afterLast flavor.isSeparator text).map change := by
  have same : (fun character => !flavor.isSeparator character) ∘ change =
      fun character => !flavor.isSeparator character := by
    funext character
    rw [Function.comp_apply, keeps.isSeparator]
  rw [afterLast, afterLast, ← List.map_reverse, List.takeWhile_map, same, List.map_reverse]

/-- A path is made of separators and of characters that a name can have. -/
def Flavor.HasLegalCharacters (flavor : Flavor) (path : Path) : Prop :=
  ∀ character ∈ path, flavor.isSeparator character = true ∨ character ∉ flavor.invalidNameChars

namespace Token

variable {flavor : Flavor}

/-- Without a separator in the specification there is none in what it stands for. -/
theorem Reads.not_isSeparator (separates : flavor.SeparatesNames) {specification : List Char}
    {tokens : List Token} (reads : Reads flavor specification tokens)
    (plain : ∀ character ∈ specification, flavor.isSeparator character = false)
    {text : List Char} (inLanguage : text ∈ sequenceLanguage flavor tokens) :
    ∀ character ∈ text, flavor.isSeparator character = false := by
  induction reads generalizing text with
  | nil => simp [mem_sequenceLanguage_nil.mp inLanguage]
  | separators nonempty whole _ _ _ =>
      obtain ⟨first, run, rfl⟩ := List.exists_cons_of_ne_nil nonempty
      have notPlain := whole first List.mem_cons_self
      rw [plain first (List.mem_append_left _ List.mem_cons_self)] at notPlain
      cases notPlain
  | anyDirectories _ nonempty whole _ _ _ =>
      obtain ⟨first, run, rfl⟩ := List.exists_cons_of_ne_nil nonempty
      have notPlain := whole first List.mem_cons_self
      rw [plain first (by simp)] at notPlain
      cases notPlain
  | anyCharacter _ _ inductionHypothesis =>
      obtain ⟨_, ⟨character, legal, rfl⟩, rest, inRest, rfl⟩ :=
        mem_sequenceLanguage_cons.mp inLanguage
      exact List.forall_mem_cons.mpr ⟨separates.not_isSeparator legal,
        inductionHypothesis (List.forall_mem_cons.mp plain).2 inRest⟩
  | anyName _ _ _ inductionHypothesis =>
      obtain ⟨name, inName, rest, inRest, rfl⟩ := mem_sequenceLanguage_cons.mp inLanguage
      exact List.forall_mem_append.mpr
        ⟨fun _ member => separates.not_isSeparator (mem_language_anyName.mp inName _ member),
          inductionHypothesis (List.forall_mem_cons.mp plain).2 inRest⟩
  | literal notSeparator _ _ _ inductionHypothesis =>
      obtain ⟨_, rfl, rest, inRest, rfl⟩ := mem_sequenceLanguage_cons.mp inLanguage
      exact List.forall_mem_cons.mpr
        ⟨notSeparator, inductionHypothesis (List.forall_mem_cons.mp plain).2 inRest⟩

/-- Every round of directories ends with a separator. -/
theorem isSeparator_of_getLast? {front : List Char}
    (inLanguage : front ∈ language flavor anyDirectories) :
    ∀ last ∈ front.getLast?, flavor.isSeparator last = true := by
  obtain ⟨rounds, rfl, inRounds⟩ := Language.mem_kstar.mp inLanguage
  clear inLanguage
  induction rounds with
  | nil => simp
  | cons round rounds inductionHypothesis =>
      obtain ⟨inRound, inOthers⟩ := List.forall_mem_cons.mp inRounds
      obtain ⟨name, -, run, inRun, rfl⟩ := Language.mem_mul.mp inRound
      obtain ⟨someRun, allRun⟩ := mem_language_separators.mp inRun
      intro last isLast
      rw [List.flatten_cons, List.getLast?_append] at isLast
      cases later : rounds.flatten.getLast? with
      | some other =>
          rw [later, Option.some_or] at isLast
          exact inductionHypothesis inOthers last (later.trans isLast)
      | none =>
          rw [later, Option.none_or, List.getLast?_append_of_ne_nil _ someRun] at isLast
          exact allRun last (List.mem_of_getLast? isLast)

theorem cons_mem_language_anyDirectories {character : Char} {text : List Char}
    (legal : character ∉ flavor.invalidNameChars) (nonempty : text ≠ [])
    (inLanguage : text ∈ language flavor anyDirectories) :
    character :: text ∈ language flavor anyDirectories := by
  obtain ⟨rounds, rfl, inRounds⟩ := Language.mem_kstar_iff_exists_nonempty.mp inLanguage
  obtain ⟨round, rounds, rfl⟩ := List.exists_cons_of_ne_nil
    (by rintro rfl; exact nonempty rfl : rounds ≠ [])
  obtain ⟨⟨inRound, -⟩, inOthers⟩ := List.forall_mem_cons.mp inRounds
  obtain ⟨name, inName, run, inRun, rfl⟩ := Language.mem_mul.mp inRound
  obtain ⟨someRun, allRun⟩ := mem_language_separators.mp inRun
  have longerName : ∀ other ∈ character :: name, other ∉ flavor.invalidNameChars :=
    List.forall_mem_cons.mpr ⟨legal, mem_kstar_oneCharacter.mp inName⟩
  have others : rounds.flatten ∈ language flavor anyDirectories :=
    Language.join_mem_kstar fun piece isPiece => (inOthers piece isPiece).1
  have longer := append_mem_language_anyDirectories longerName someRun allRun others
  simpa using longer

/-- Directories are a text of names and separators that does not end within a name. -/
theorem mem_language_anyDirectories_iff {text : List Char} :
    text ∈ language flavor anyDirectories ↔
      flavor.HasLegalCharacters text ∧ ∀ last ∈ text.getLast?, flavor.isSeparator last = true := by
  constructor
  · intro inLanguage
    refine ⟨fun character member => ?_, isSeparator_of_getLast? inLanguage⟩
    obtain ⟨rounds, rfl, inRounds⟩ := Language.mem_kstar.mp inLanguage
    obtain ⟨round, isRound, inside⟩ := List.mem_flatten.mp member
    obtain ⟨name, inName, run, inRun, rfl⟩ := Language.mem_mul.mp (inRounds round isRound)
    rcases List.mem_append.mp inside with named | separates
    · exact .inr (mem_kstar_oneCharacter.mp inName character named)
    · exact .inl ((mem_language_separators.mp inRun).2 character separates)
  · rintro ⟨characters, ends⟩
    induction text with
    | nil => exact Language.nil_mem_kstar _
    | cons first rest inductionHypothesis =>
        obtain ⟨isFirst, isRest⟩ := List.forall_mem_cons.mp characters
        by_cases nothing : rest = []
        · have separates : flavor.isSeparator first = true := ends first (by simp [nothing])
          rw [nothing]
          exact append_mem_language_anyDirectories (List.forall_mem_nil _)
            (List.cons_ne_nil first []) (by simpa using separates) (Language.nil_mem_kstar _)
        · have endsLater : ∀ last ∈ rest.getLast?, flavor.isSeparator last = true := by
            intro last isLast
            exact ends last (List.mem_getLast?_cons isLast)
          have inLanguage := inductionHypothesis isRest endsLater
          rcases isFirst with separates | legal
          · exact append_mem_language_anyDirectories (List.forall_mem_nil _)
              (List.cons_ne_nil first []) (by simpa using separates) inLanguage
          · exact cons_mem_language_anyDirectories legal nothing inLanguage

/-- Tokens without separators are left with what follows the last separator. -/
theorem mem_anyDirectories_iff {tokens : List Token}
    (plainTokens : ∀ text ∈ sequenceLanguage flavor tokens, ∀ character ∈ text,
      flavor.isSeparator character = false)
    {text : List Char} (legal : flavor.HasLegalCharacters text) :
    text ∈ sequenceLanguage flavor (anyDirectories :: tokens) ↔
      afterLast flavor.isSeparator text ∈ sequenceLanguage flavor tokens := by
  rw [mem_sequenceLanguage_cons]
  constructor
  · rintro ⟨front, inFront, rest, inRest, rfl⟩
    rwa [afterLast_append (isSeparator_of_getLast? inFront) (plainTokens rest inRest)]
  · intro inLanguage
    have whole := throughLast_append_afterLast flavor.isSeparator text
    refine ⟨_, mem_language_anyDirectories_iff.mpr ⟨fun character member => ?_,
      delimits_of_getLast?_throughLast text⟩, _, inLanguage, whole⟩
    apply legal
    rw [← whole]
    exact List.mem_append_left _ member

end Token

/-- Any directories in front of a specification. -/
def inAnyDirectory (flavor : Flavor) (specification : List Char) : List Char :=
  '*' :: '*' :: flavor.separator :: specification

namespace PathStyle

variable (style : PathStyle) (ignoreCase : Bool)

theorem scan_inAnyDirectory {specification : List Char}
    (plain : ∀ character ∈ specification, style.flavor.isSeparator character = false) :
    Token.scan style.flavor (inAnyDirectory style.flavor specification) =
      .anyDirectories :: Token.scan style.flavor specification := by
  have asterisk : style.flavor.isSeparator '*' = false := by cases style <;> decide
  have ends : style.flavor.beginsWithSeparator specification = false := by
    cases specification with
    | nil => rfl
    | cons first rest => exact plain first List.mem_cons_self
  exact Token.scan_anyDirectories asterisk (List.cons_ne_nil style.flavor.separator [])
    (by simp) ends

theorem isRootRelative_of_plain {specification : List Char}
    (plain : ∀ character ∈ specification, style.flavor.isSeparator character = false) :
    isRootRelative style.flavor specification = false := by
  rw [← Bool.not_eq_true, isRootRelative_iff]
  rintro (atRoot | mixed)
  · cases atRoot with
    | @anyDirectories separator rest separates => simp [plain separator] at separates
    | @separator separator rest separates => simp [plain separator] at separates
  · cases mixed with
    | @separators first second rest separates => simp [plain first] at separates

section Characters

variable {style} {path : Path} (legal : style.flavor.HasLegalCharacters path)

include legal

theorem not_mem_colon_of_legal (drives : style.flavor.hasDriveRoots = true) : ':' ∉ path := by
  intro member
  rcases legal ':' member with separates | allowed
  · simp at separates
  · exact allowed (style.colon_mem_invalidNameChars drives)

theorem isRooted_of_legal :
    style.flavor.isRooted path = style.flavor.beginsWithSeparator path := by
  rw [Bool.eq_iff_iff, isRooted_iff, or_iff_left_iff_imp]
  rintro ⟨drives, letter, others, rfl, -⟩
  exact absurd (by simp) (not_mem_colon_of_legal legal drives)

theorem fileName_of_legal :
    style.flavor.fileName path = afterLast style.flavor.isSeparator path := by
  refine afterLast_congr fun character member => ?_
  have volume : style.flavor.hasDriveRoots = true → character ≠ style.flavor.volumeSeparator := by
    rintro drives rfl
    have isColon : style.flavor.volumeSeparator = ':' := by
      cases style with
      | host | posix => cases drives
      | windows => rfl
    exact not_mem_colon_of_legal legal drives (isColon ▸ member)
  have noVolume : (style.flavor.hasDriveRoots && character == style.flavor.volumeSeparator) =
      false := by
    simpa using volume
  rw [Flavor.isNameDelimiter, noVolume, Bool.or_false]

/-- Behind any directories, a specification without separators is left with the last name. -/
theorem isMatch_inAnyDirectory {specification : List Char}
    (plain : ∀ character ∈ specification, style.flavor.isSeparator character = false) :
    (Token.comparedRegex style.flavor ignoreCase
        (Token.scan style.flavor (inAnyDirectory style.flavor specification))).isMatch
          (path.map (comparedAs ignoreCase)) =
      (Token.comparedRegex style.flavor ignoreCase
        (Token.scan style.flavor specification)).isMatch
          ((afterLast style.flavor.isSeparator path).map (comparedAs ignoreCase)) := by
  have keeps := style.keepsMarks_comparedAs ignoreCase
  have plainTokens : ∀ text ∈ Token.sequenceLanguage style.flavor
      ((Token.scan style.flavor specification).map (Token.map (comparedAs ignoreCase))),
      ∀ character ∈ text, style.flavor.isSeparator character = false := by
    intro text inLanguage
    apply ((Token.reads_scan specification).map keeps).not_isSeparator style.separatesNames
    · intro character member
      obtain ⟨original, inSpecification, rfl⟩ := List.mem_map.mp member
      rw [keeps.isSeparator, plain original inSpecification]
    · exact inLanguage
  have legalMapped : style.flavor.HasLegalCharacters (path.map (comparedAs ignoreCase)) := by
    intro character member
    obtain ⟨original, inPath, rfl⟩ := List.mem_map.mp member
    rw [keeps.isSeparator]
    exact (legal original inPath).imp_right (style.comparedAs_not_mem_invalidNameChars ignoreCase)
  rw [Bool.eq_iff_iff, isMatch_comparedRegex_iff, isMatch_comparedRegex_iff,
    style.scan_inAnyDirectory plain, ← keeps.afterLast_map]
  exact Token.mem_anyDirectories_iff plainTokens legalMapped

/-- Behind any directories, a specification without separators accepts a path by its last name,
also a rooted one where there are no drives. -/
theorem accepts_inAnyDirectory {specification : List Char}
    (plain : ∀ character ∈ specification, style.flavor.isSeparator character = false)
    (relative : style.flavor.isRooted path = true → style.flavor.hasDriveRoots = false) :
    (style.matcher ignoreCase (inAnyDirectory style.flavor specification)).accepts path =
      (style.matcher ignoreCase specification).accepts (style.flavor.fileName path) := by
  have whole := isMatch_inAnyDirectory ignoreCase legal plain
  have name : (style.matcher ignoreCase specification).accepts (style.flavor.fileName path) =
      (Token.comparedRegex style.flavor ignoreCase (Token.scan style.flavor specification)).isMatch
        ((afterLast style.flavor.isSeparator path).map (comparedAs ignoreCase)) := by
    rw [accepts_matcher, if_neg (by simp [style.isRootRelative_of_plain plain]),
      fileName_of_legal legal]
  rw [name]
  cases rooted : style.flavor.isRooted path with
  | false => rw [accepts_matcher, if_neg (by simp [rooted]), whole]
  | true =>
      rw [accepts_of_noDrives ignoreCase (relative rooted)]
      split
      · -- The separators at the front are cut off, and the last name stays what it is.
        have kept : (inAnyDirectory style.flavor specification).dropWhile
            style.flavor.isSeparator = inAnyDirectory style.flavor specification := by
          have asterisk : style.flavor.isSeparator '*' = false := by cases style <;> decide
          exact List.dropWhile_cons_of_neg (by simp [asterisk])
        have legalBelow : style.flavor.HasLegalCharacters
            (path.dropWhile style.flavor.isSeparator) := fun character member =>
          legal character ((List.dropWhile_sublist _).subset member)
        rw [kept, isMatch_inAnyDirectory ignoreCase legalBelow plain, afterLast_dropWhile]
      · exact whole

end Characters

section Names

variable {names : List Path} (legal : ∀ name ∈ names, style.flavor.IsLegalName name) {name : Path}
  (legalName : style.flavor.IsLegalName name)

include legal legalName

theorem hasLegalCharacters_separated_append :
    style.flavor.HasLegalCharacters (style.flavor.separated names ++ name) := by
  intro character member
  rcases List.mem_append.mp member with inNames | inName
  · obtain ⟨above, inAbove, inside⟩ := List.mem_flatMap.mp inNames
    rcases List.mem_append.mp inside with inName | isSeparator
    · exact .inr ((legal above inAbove).2 character inName)
    · rw [List.mem_singleton.mp isSeparator]
      exact .inl Flavor.isSeparator_separator
  · exact .inr (legalName.2 character inName)

/-- Names with separators between them are a relative path. -/
theorem isRooted_separated_append :
    style.flavor.isRooted (style.flavor.separated names ++ name) = false := by
  have beginsPlain {first : Path} (legalFirst : style.flavor.IsLegalName first) (rest : Path) :
      style.flavor.beginsWithSeparator (first ++ rest) = false := by
    obtain ⟨initial, others, rfl⟩ := List.exists_cons_of_ne_nil legalFirst.1
    exact legalFirst.not_isSeparator style.separatesNames initial List.mem_cons_self
  rw [isRooted_of_legal (style.hasLegalCharacters_separated_append legal legalName)]
  cases names with
  | nil => simpa using beginsPlain legalName []
  | cons first names =>
      rw [Flavor.separated_cons, List.append_assoc]
      exact beginsPlain (legal first List.mem_cons_self) _

theorem accepts_inAnyDirectory_separated {specification : List Char}
    (plain : ∀ character ∈ specification, style.flavor.isSeparator character = false) :
    (style.matcher ignoreCase (inAnyDirectory style.flavor specification)).accepts
        (style.flavor.separated names ++ name) =
      (style.matcher ignoreCase specification).accepts name := by
  have relative := style.isRooted_separated_append legal legalName
  rw [accepts_inAnyDirectory ignoreCase
      (style.hasLegalCharacters_separated_append legal legalName) plain (by simp [relative]),
    style.fileName_separated_append names legalName]

end Names

end PathStyle

/-- Behind any directories, a specification without separators gives the answer for the file name
of a path, whether the path is rooted or not. -/
theorem accepts_by_file_name (ignoreCase : Bool) {specification : List Char}
    (plain : '/' ∉ specification) :
    ∃ inDirectories alone,
      Matcher.ofSpecification? PathStyle.posix.flavor ignoreCase
        ("**/".toList ++ specification) = some inDirectories ∧
      Matcher.ofSpecification? PathStyle.posix.flavor ignoreCase specification = some alone ∧
      ∀ path, '\x00' ∉ path →
        inDirectories.accepts path = alone.accepts (PathStyle.posix.flavor.fileName path) := by
  refine ⟨_, _, PathStyle.posix.ofSpecification?_eq ignoreCase _,
    PathStyle.posix.ofSpecification?_eq ignoreCase specification, fun path noNul => ?_⟩
  have plainCharacters : ∀ character ∈ specification,
      PathStyle.posix.flavor.isSeparator character = false := by
    intro character member
    have notSlash : character ≠ '/' := ne_of_mem_of_not_mem member plain
    simpa [PathStyle.flavor, Flavor.posix, Flavor.isSeparator] using notSlash
  have legal : PathStyle.posix.flavor.HasLegalCharacters path := by
    intro character member
    have notNul : character ≠ '\x00' := ne_of_mem_of_not_mem member noNul
    by_cases isSlash : character = '/'
    · exact .inl (by rw [isSlash]; decide)
    · exact .inr (by simp [PathStyle.flavor, Flavor.posix, notNul, isSlash])
  exact PathStyle.accepts_inAnyDirectory ignoreCase legal plainCharacters fun _ => rfl

theorem accepts_by_file_name_rooted :
    '/' ∉ "?*.LOG".toList ∧ '\x00' ∉ "//var//log/a.log".toList ∧
      ∃ inDirectories alone,
        Matcher.ofSpecification? PathStyle.posix.flavor true "**/?*.LOG".toList =
          some inDirectories ∧
        Matcher.ofSpecification? PathStyle.posix.flavor true "?*.LOG".toList = some alone ∧
        inDirectories.accepts "//var//log/a.log".toList = alone.accepts "a.log".toList := by
  have noNul : '\x00' ∉ "//var//log/a.log".toList := by decide
  obtain ⟨inDirectories, alone, made, madeAlone, same⟩ :=
    accepts_by_file_name true (by decide : '/' ∉ "?*.LOG".toList)
  exact ⟨by decide, noNul, inDirectories, alone, made, madeAlone, same _ noNul⟩

end FileSpec
