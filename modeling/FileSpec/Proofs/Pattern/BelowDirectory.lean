import FileSpec.Proofs.Path.Trim
import FileSpec.Proofs.Pattern.AnyDirectories
import FileSpec.Proofs.Pattern.Concatenation
import FileSpec.Proofs.Pattern.LiteralSpecifications

/-!
# What lies below a directory

Any directories and a name behind them are any text of separators and legal characters. So behind a
directory that is written without wildcards they select the paths that go on with a separator where
the directory ends, at any depth: `accepts_below_directory_iff`.
-/

set_option autoImplicit false

namespace FileSpec

open Text

/-- A path begins with the directory, written with runs of any lengths, and goes on with a
separator. -/
def Flavor.LiesBelow (flavor : Flavor) (directory path : Path) : Prop :=
  ∃ front run rest, path = front ++ (run ++ rest) ∧
    flavor.squeezed front = flavor.squeezed directory ∧
    run ≠ [] ∧ ∀ character ∈ run, flavor.isSeparator character = true

theorem isRootRelative_of_name {flavor : Flavor} {first : Char}
    (plain : flavor.isSeparator first = false) (notStar : first ≠ '*') (rest : List Char) :
    isRootRelative flavor (first :: rest) = false := by
  have notDirectories : ¬ beginsWithAnyDirectories flavor (first :: rest) = true := by
    rw [beginsWithAnyDirectories_iff]
    rintro ⟨separator, others, shape, _⟩
    exact notStar (List.cons.inj shape).1
  rw [← Bool.not_eq_true]
  intro relative
  have begins := beginsWithSeparator_of_isRootRelative relative notDirectories
  rw [Flavor.beginsWithSeparator_cons, plain] at begins
  cases begins

namespace Token

variable {flavor : Flavor}

theorem mem_sequenceLanguage_singleton {token : Token} {text : List Char} :
    text ∈ sequenceLanguage flavor [token] ↔ text ∈ language flavor token := by
  simp

/-- Directories and a name are no more than legal characters: what is behind the last separator is
the name. -/
theorem mem_anyDirectories_anyName_iff (separates : flavor.SeparatesNames) {text : List Char} :
    text ∈ sequenceLanguage flavor [anyDirectories, anyName] ↔ flavor.HasLegalCharacters text := by
  have mem_name_iff {name : List Char} : name ∈ sequenceLanguage flavor [anyName] ↔
      ∀ character ∈ name, character ∉ flavor.invalidNameChars :=
    mem_sequenceLanguage_singleton.trans mem_language_anyName
  constructor
  · intro inLanguage
    obtain ⟨front, inFront, name, inName, rfl⟩ := mem_sequenceLanguage_cons.mp inLanguage
    have legalFront := (mem_language_anyDirectories_iff.mp inFront).1
    exact List.forall_mem_append.mpr
      ⟨legalFront, fun character member => .inr (mem_name_iff.mp inName character member)⟩
  · intro legal
    have plainNames : ∀ name ∈ sequenceLanguage flavor [anyName], ∀ character ∈ name,
        flavor.isSeparator character = false :=
      fun name inName character member =>
        separates.not_isSeparator (mem_name_iff.mp inName character member)
    rw [mem_anyDirectories_iff plainNames legal, mem_name_iff]
    intro character member
    have inText : character ∈ text := by
      rw [← throughLast_append_afterLast flavor.isSeparator text]
      exact List.mem_append_right _ member
    have plain := not_delimits_of_mem_afterLast member
    exact (legal character inText).resolve_left (by simp [plain])

theorem mem_below_iff (separates : flavor.SeparatesNames) {directory : List Char}
    (noStar : '*' ∉ directory) (noAny : '?' ∉ directory) {text : List Char}
    (legal : flavor.HasLegalCharacters text) :
    text ∈ sequenceLanguage flavor
        (scan flavor directory ++ [separators, anyDirectories, anyName]) ↔
      flavor.LiesBelow directory text := by
  have mem_directory_iff {front : List Char} :
      front ∈ sequenceLanguage flavor (scan flavor directory) ↔
        flavor.squeezed front = flavor.squeezed directory :=
    (reads_scan directory).mem_sequenceLanguage_iff noStar noAny
  rw [mem_sequenceLanguage_append]
  constructor
  · rintro ⟨front, inFront, behind, inBehind, rfl⟩
    obtain ⟨run, inRun, rest, _, rfl⟩ := mem_sequenceLanguage_cons.mp inBehind
    obtain ⟨someRun, allRun⟩ := mem_language_separators.mp inRun
    exact ⟨front, run, rest, rfl, mem_directory_iff.mp inFront, someRun, allRun⟩
  · rintro ⟨front, run, rest, rfl, same, someRun, allRun⟩
    have legalRest : flavor.HasLegalCharacters rest := fun character member =>
      legal character (List.mem_append_right _ (List.mem_append_right _ member))
    refine ⟨front, mem_directory_iff.mpr same, run ++ rest, ?_, rfl⟩
    exact mem_sequenceLanguage_cons.mpr
      ⟨run, mem_language_separators.mpr ⟨someRun, allRun⟩, rest,
        (mem_anyDirectories_anyName_iff separates).mpr legalRest, rfl⟩

end Token

namespace PathStyle

variable {style : PathStyle} {directory : List Char}

theorem scan_below (noStar : '*' ∉ directory)
    (ends : ∀ last ∈ directory.getLast?, style.flavor.isSeparator last = false) :
    Token.scan style.flavor
        (directory ++ style.flavor.separator :: inAnyDirectory style.flavor ['*']) =
      Token.scan style.flavor directory ++ [.separators, .anyDirectories, .anyName] := by
  have asterisk := style.not_isSeparator_asterisk
  have between : style.flavor.MeetBetweenTokens directory
      (style.flavor.separator :: inAnyDirectory style.flavor ['*']) :=
    .of_ends fun last isLast =>
      ⟨ne_of_mem_of_not_mem (List.mem_of_getLast? isLast) noStar, ends last isLast⟩
  have oneSeparator : Token.scan style.flavor
      ([style.flavor.separator] ++ inAnyDirectory style.flavor ['*']) =
        .separators :: Token.scan style.flavor (inAnyDirectory style.flavor ['*']) :=
    Token.scan_separators (List.cons_ne_nil _ _) (by simp) asterisk
  have name : Token.scan style.flavor ['*'] = [.anyName] := by
    rw [Token.scan_anyName asterisk (by simp), Token.scan_nil]
  rw [Token.scan_append between, ← List.singleton_append, oneSeparator,
    style.scan_inAnyDirectory (by simp), name]

theorem accepts_below_iff (noStar : '*' ∉ directory) (noAny : '?' ∉ directory)
    (nonempty : directory ≠ []) (begins : style.flavor.beginsWithSeparator directory = false)
    (ends : ∀ last ∈ directory.getLast?, style.flavor.isSeparator last = false) {path : Path}
    (legal : style.flavor.HasLegalCharacters path) :
    (style.matcher false
        (directory ++ style.flavor.separator :: inAnyDirectory style.flavor ['*'])).accepts path =
        true ↔
      style.flavor.LiesBelow directory path := by
  have notRelative : isRootRelative style.flavor
      (directory ++ style.flavor.separator :: inAnyDirectory style.flavor ['*']) = false := by
    obtain ⟨first, rest, rfl⟩ := List.exists_cons_of_ne_nil nonempty
    exact isRootRelative_of_name begins (ne_of_mem_of_not_mem List.mem_cons_self noStar) _
  rw [accepts_matcher, if_neg (by simp [notRelative]), isMatch_comparedRegex_iff, comparedAs_false,
    Token.map_id, List.map_id, List.map_id, scan_below noStar ends]
  exact Token.mem_below_iff style.separatesNames noStar noAny legal

end PathStyle

theorem PathStyle.hasLegalCharacters_posix {path : Path} (noNul : '\x00' ∉ path) :
    PathStyle.posix.flavor.HasLegalCharacters path := by
  intro character member
  have notNul : character ≠ '\x00' := ne_of_mem_of_not_mem member noNul
  by_cases isSlash : character = '/'
  · exact .inl ((isSeparator_posix_iff character).mpr isSlash)
  · exact .inr (by simp [PathStyle.flavor, Flavor.posix, notNul, isSlash])

/-- Behind a directory without wildcards, any directories and any name accept what lies below it, at
any depth, and not what only begins like it. -/
theorem accepts_below_directory_iff {directory : List Char} (noStar : '*' ∉ directory)
    (noAny : '?' ∉ directory) (nonempty : directory ≠ []) (begins : directory.head? ≠ some '/')
    (ends : directory.getLast? ≠ some '/') :
    ∃ matcher,
      Matcher.ofSpecification? PathStyle.posix.flavor false (directory ++ "/**/*".toList) =
        some matcher ∧
      ∀ path, '\x00' ∉ path →
        (matcher.accepts path = true ↔
          ∃ front run rest, path = front ++ (run ++ rest) ∧
            PathStyle.posix.flavor.squeezed front = PathStyle.posix.flavor.squeezed directory ∧
            run ≠ [] ∧ ∀ character ∈ run, character = '/') := by
  refine ⟨_, PathStyle.posix.ofSpecification?_eq false _, fun path noNul => ?_⟩
  have beginsPlain : PathStyle.posix.flavor.beginsWithSeparator directory = false := by
    obtain ⟨first, rest, rfl⟩ := List.exists_cons_of_ne_nil nonempty
    rw [← Bool.not_eq_true, Flavor.beginsWithSeparator_cons, PathStyle.isSeparator_posix_iff]
    simpa using begins
  have endsPlain : ∀ last ∈ directory.getLast?,
      PathStyle.posix.flavor.isSeparator last = false := by
    intro last isLast
    rw [← Bool.not_eq_true, PathStyle.isSeparator_posix_iff]
    rintro rfl
    exact ends isLast
  have below := PathStyle.accepts_below_iff noStar noAny nonempty beginsPlain endsPlain
    (PathStyle.hasLegalCharacters_posix noNul)
  simp only [Flavor.LiesBelow, PathStyle.isSeparator_posix_iff] at below
  exact below

theorem accepts_below_directory_bin :
    '*' ∉ "usr//local.d".toList ∧ '?' ∉ "usr//local.d".toList ∧ "usr//local.d".toList ≠ [] ∧
      "usr//local.d".toList.head? ≠ some '/' ∧ "usr//local.d".toList.getLast? ≠ some '/' ∧
      '\x00' ∉ "usr/local.d///bin/x".toList ∧ '\x00' ∉ "usr/local.d2/x".toList ∧
      ∃ matcher,
        Matcher.ofSpecification? PathStyle.posix.flavor false "usr//local.d/**/*".toList =
          some matcher ∧
        matcher.accepts "usr/local.d///bin/x".toList = true ∧
        matcher.accepts "usr/local.d2/x".toList = false := by
  have noStar : '*' ∉ "usr//local.d".toList := by decide
  have noAny : '?' ∉ "usr//local.d".toList := by decide
  have nonempty : "usr//local.d".toList ≠ [] := by decide
  have begins : "usr//local.d".toList.head? ≠ some '/' := by decide
  have ends : "usr//local.d".toList.getLast? ≠ some '/' := by decide
  have noNul : '\x00' ∉ "usr/local.d///bin/x".toList := by decide
  have noNulSibling : '\x00' ∉ "usr/local.d2/x".toList := by decide
  obtain ⟨matcher, made, accepts_iff⟩ :=
    accepts_below_directory_iff noStar noAny nonempty begins ends
  refine ⟨noStar, noAny, nonempty, begins, ends, noNul, noNulSibling, matcher, made,
    (accepts_iff _ noNul).mpr ?_, Bool.eq_false_iff.mpr (mt (accepts_iff _ noNulSibling).mp ?_)⟩
  · exact ⟨"usr/local.d".toList, "///".toList, "bin/x".toList, rfl, by decide, by decide,
      by simp⟩
  · rintro ⟨front, run, rest, shape, same, someRun, slashes⟩
    have checked : ∀ length < 15,
        PathStyle.posix.flavor.squeezed ("usr/local.d2/x".toList.take length) =
          PathStyle.posix.flavor.squeezed "usr//local.d".toList →
        ("usr/local.d2/x".toList.drop length).head? ≠ some '/' := by decide
    have short : front.length < 15 := by
      have counted := congrArg List.length shape
      simp only [List.length_append] at counted
      have total : "usr/local.d2/x".toList.length = 14 := rfl
      omega
    obtain ⟨slash, others, rfl⟩ := List.exists_cons_of_ne_nil someRun
    apply checked front.length short
    · rw [shape, List.take_left, same]
    · rw [shape, List.drop_left, slashes slash List.mem_cons_self]
      rfl

end FileSpec
