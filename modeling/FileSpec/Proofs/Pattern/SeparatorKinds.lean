import FileSpec.Proofs.Pattern.RootRelative
import Mathlib.Data.List.Forall2

/-!
# The kinds of separators in a specification

The tokens of a specification do not show which kind a separator is. So specifications that differ
in kinds only have matchers that agree on all paths, unless one of them begins with two separators
of different kinds and the other does not: `accepts_agree_iff`.
-/

set_option autoImplicit false

namespace FileSpec

open Text

namespace Flavor

/-- Two texts have separators, of any kind, in the same places, and agree in the rest. -/
def SameButSeparators (flavor : Flavor) : List Char → List Char → Prop :=
  List.Forall₂ fun character other =>
    character = other ∨ flavor.isSeparator character = true ∧ flavor.isSeparator other = true

/-- Every separator becomes the primary one. -/
def unified (flavor : Flavor) (character : Char) : Char :=
  if flavor.isSeparator character then flavor.separator else character

variable {flavor : Flavor}

theorem SameButSeparators.symm {text other : List Char}
    (same : flavor.SameButSeparators text other) : flavor.SameButSeparators other text := by
  refine List.Forall₂.imp (fun character otherCharacter alike => ?_) same.flip
  exact alike.imp Eq.symm And.symm

theorem unified_eq_iff {mark : Char} (plain : flavor.isSeparator mark = false)
    (character : Char) : flavor.unified character = mark ↔ character = mark := by
  by_cases separates : flavor.isSeparator character = true
  · have different : flavor.separator ≠ mark := by
      rintro rfl
      simp at plain
    simp only [unified, separates, if_true, different, false_iff]
    rintro rfl
    simp [plain] at separates
  · simp [unified, separates]

theorem map_unified_eq {text other : List Char} (same : flavor.SameButSeparators text other) :
    text.map flavor.unified = other.map flavor.unified := by
  induction same with
  | nil => rfl
  | cons alike _ inductionHypothesis =>
      rw [List.map_cons, List.map_cons, inductionHypothesis]
      rcases alike with rfl | ⟨separates, otherSeparates⟩
      · rfl
      · simp [unified, separates, otherSeparates]

end Flavor

namespace Token

variable {flavor : Flavor}

theorem map_unified_of_separated {tokens : List Token} (separated : Separated flavor tokens) :
    tokens.map (Token.map flavor.unified) = tokens := by
  induction tokens with
  | nil => rfl
  | cons token tokens inductionHypothesis =>
      obtain ⟨plain, _, separated⟩ := separated
      rw [List.map_cons, inductionHypothesis separated]
      cases token with
      | literal character => simp [Token.map, Flavor.unified, plain character rfl]
      | _ => rfl

theorem scan_eq_of_map_unified_eq (keeps : flavor.KeepsMarks flavor.unified)
    {specification other : List Char}
    (same : specification.map flavor.unified = other.map flavor.unified) :
    scan flavor specification = scan flavor other := by
  rw [← map_unified_of_separated (reads_scan specification).separated, ← scan_map keeps, same,
    scan_map keeps, map_unified_of_separated (reads_scan other).separated]

theorem exists_scan_eq_separators {specification : List Char}
    (begins : flavor.beginsWithSeparator specification = true) :
    ∃ others, scan flavor specification = separators :: others := by
  cases specification with
  | nil => simp at begins
  | cons first rest =>
      have separates : flavor.isSeparator first = true := begins
      refine ⟨scan flavor (rest.dropWhile flavor.isSeparator), ?_⟩
      rw [scan_cons]
      simp [next, separates]

/-- A short text that a token matches, and that begins with a separator only where it must. -/
def sample (flavor : Flavor) : Token → List Char
  | separators => [flavor.separator]
  | anyCharacter => ['a']
  | anyDirectories => ['a', flavor.separator]
  | anyName => ['a']
  | literal character => [character]

theorem sample_mem_sequenceLanguage (legal : 'a' ∉ flavor.invalidNameChars)
    (tokens : List Token) :
    tokens.flatMap (sample flavor) ∈ sequenceLanguage flavor tokens := by
  have isName : ∀ character ∈ ['a'], character ∉ flavor.invalidNameChars := by simpa using legal
  have isRun : ∀ character ∈ [flavor.separator], flavor.isSeparator character = true := by
    simp
  induction tokens with
  | nil => simp
  | cons token tokens inductionHypothesis =>
      rw [List.flatMap_cons, mem_sequenceLanguage_cons]
      refine ⟨token.sample flavor, ?_, _, inductionHypothesis, rfl⟩
      cases token with
      | separators => exact mem_language_separators.mpr ⟨by simp [sample], isRun⟩
      | anyCharacter => exact ⟨'a', legal, rfl⟩
      | anyDirectories =>
          have noRound : [] ∈ language flavor anyDirectories := Language.nil_mem_kstar _
          exact append_mem_language_anyDirectories isName (by simp) isRun noRound
      | anyName => exact mem_language_anyName.mpr isName
      | literal character => rfl

/-- Tokens match some text, and one that begins with a separator only if they do. -/
theorem exists_mem_sequenceLanguage (legal : 'a' ∉ flavor.invalidNameChars)
    (plain : flavor.isSeparator 'a' = false) {tokens : List Token}
    (separated : Separated flavor tokens) (noSeparators : tokens.head? ≠ some separators) :
    ∃ text ∈ sequenceLanguage flavor tokens, flavor.beginsWithSeparator text = false := by
  refine ⟨_, sample_mem_sequenceLanguage legal tokens, ?_⟩
  cases tokens with
  | nil => rfl
  | cons token tokens =>
      cases token with
      | separators => exact absurd rfl noSeparators
      | literal character => exact separated.1 character rfl
      | anyCharacter | anyDirectories | anyName => exact plain

end Token

theorem BeginsAtRoot.not_mixed {flavor : Flavor} (plain : flavor.isSeparator '*' = false)
    {specification : List Char} (atRoot : BeginsAtRoot flavor specification) :
    ¬ BeginsMixed flavor specification := by
  intro mixed
  cases mixed with
  | separators first second _ =>
      cases atRoot with
      | anyDirectories => simp [plain] at first
      | separator _ ends => simp [second] at ends

namespace PathStyle

variable (style : PathStyle) (ignoreCase : Bool)

theorem keepsMarks_unified : style.flavor.KeepsMarks style.flavor.unified where
  isSeparator character := by
    by_cases separates : style.flavor.isSeparator character = true
    · simp [Flavor.unified, separates]
    · simp [Flavor.unified, separates]
  question := Flavor.unified_eq_iff (by cases style <;> decide)
  asterisk := Flavor.unified_eq_iff (by cases style <;> decide)

theorem beginsAtRoot_iff_of_same {specification other : List Char}
    (same : style.flavor.SameButSeparators specification other) :
    BeginsAtRoot style.flavor specification ↔ BeginsAtRoot style.flavor other := by
  rw [← beginsAtRoot_map_iff style.keepsMarks_unified, Flavor.map_unified_eq same,
    beginsAtRoot_map_iff style.keepsMarks_unified]

theorem accepts_eq_of_same {specification other : List Char}
    (same : style.flavor.SameButSeparators specification other) {path : Path}
    (sameRoot : isRootRelative style.flavor specification = isRootRelative style.flavor other ∨
      style.flavor.isRooted path = false) :
    (style.matcher ignoreCase specification).accepts path =
      (style.matcher ignoreCase other).accepts path := by
  have keeps := style.keepsMarks_unified
  have unified := Flavor.map_unified_eq same
  have sameTokens := Token.scan_eq_of_map_unified_eq keeps unified
  have sameBelow : Token.scan style.flavor
        (specification.dropWhile style.flavor.isSeparator) =
      Token.scan style.flavor (other.dropWhile style.flavor.isSeparator) := by
    apply Token.scan_eq_of_map_unified_eq keeps
    rw [← keeps.dropWhile_map, ← keeps.dropWhile_map, unified]
  rw [accepts_matcher, accepts_matcher, sameTokens, sameBelow]
  rcases sameRoot with sameRoot | notRooted
  · rw [sameRoot]
  · simp [notRooted]

end PathStyle

/-- Below a drive, a specification that is relative to the root accepts a path that one with a
separator at its front, which is not, does not accept. -/
theorem exists_accepts_ne (ignoreCase : Bool) {specification other : List Char}
    (relative : isRootRelative PathStyle.windows.flavor specification = true)
    (notRelative : isRootRelative PathStyle.windows.flavor other = false)
    (begins : PathStyle.windows.flavor.beginsWithSeparator other = true) :
    ∃ path, (PathStyle.windows.matcher ignoreCase specification).accepts path = true ∧
      (PathStyle.windows.matcher ignoreCase other).accepts path = false := by
  have reads : Token.Reads PathStyle.windows.flavor
      (specification.dropWhile PathStyle.windows.flavor.isSeparator) _ := Token.reads_scan _
  obtain ⟨tail, inLanguage, below⟩ := Token.exists_mem_sequenceLanguage (by decide) (by decide)
    reads.separated (reads.head?_ne_separators (Flavor.beginsWithSeparator_dropWhile _))
  have isDrive : PathStyle.windows.flavor.RootText ['C', ':'] := .drive (by decide)
  obtain ⟨rooted, onlyTail⟩ := isRooted_pathBelowRoot isDrive below
  refine ⟨['C', ':'] ++ tail, ?_, ?_⟩
  · rw [PathStyle.accepts_matcher, if_pos ⟨relative, rooted⟩, onlyTail]
    exact PathStyle.isMatch_comparedRegex_of_mem _ _ inLanguage
  · obtain ⟨tokens, scanned⟩ := Token.exists_scan_eq_separators begins
    have plain : PathStyle.windows.flavor.isSeparator (comparedAs ignoreCase 'C') = false := by
      rw [(PathStyle.windows.keepsMarks_comparedAs ignoreCase).isSeparator]
      decide
    rw [PathStyle.accepts_matcher, if_neg (by simp [notRelative]), ← Bool.not_eq_true,
      PathStyle.isMatch_comparedRegex_iff, scanned, List.map_cons, Token.mem_sequenceLanguage_cons]
    rintro ⟨front, inFront, rest, _, whole⟩
    obtain ⟨someFront, separators⟩ := Token.mem_language_separators.mp inFront
    obtain ⟨first, others, rfl⟩ := List.exists_cons_of_ne_nil someFront
    have isFirst : first = comparedAs ignoreCase 'C' := (List.cons.inj whole).1
    rw [isFirst] at separators
    simp [plain] at separators

theorem beginsMixed_of_agree (ignoreCase : Bool) {specification other : List Char}
    (same : PathStyle.windows.flavor.SameButSeparators specification other)
    (agree : ∀ path, (PathStyle.windows.matcher ignoreCase specification).accepts path =
      (PathStyle.windows.matcher ignoreCase other).accepts path)
    (mixed : BeginsMixed PathStyle.windows.flavor specification) :
    BeginsMixed PathStyle.windows.flavor other := by
  by_contra notMixed
  have notAtRoot : ¬ BeginsAtRoot PathStyle.windows.flavor other := by
    rw [← PathStyle.beginsAtRoot_iff_of_same _ same]
    exact fun atRoot => atRoot.not_mixed (by decide) mixed
  have notRelative : isRootRelative PathStyle.windows.flavor other = false := by
    rw [← Bool.not_eq_true, isRootRelative_iff]
    exact not_or.mpr ⟨notAtRoot, notMixed⟩
  have begins : PathStyle.windows.flavor.beginsWithSeparator other = true := by
    have keeps := PathStyle.windows.keepsMarks_unified
    rw [← keeps.beginsWithSeparator_map, ← Flavor.map_unified_eq same,
      keeps.beginsWithSeparator_map]
    cases mixed with
    | separators first => exact first
  obtain ⟨path, accepted, refused⟩ := exists_accepts_ne ignoreCase
    (isRootRelative_iff.mpr (.inr mixed)) notRelative begins
  rw [agree path, refused] at accepted
  cases accepted

/-- Which kinds the separators of a specification are shows in an answer only if there are two of
them at the front, alike in one specification and different in the other. -/
theorem accepts_agree_iff (ignoreCase : Bool) {specification other : List Char}
    (same : PathStyle.windows.flavor.SameButSeparators specification other) :
    ∃ matcher otherMatcher,
      Matcher.ofSpecification? PathStyle.windows.flavor ignoreCase specification =
        some matcher ∧
      Matcher.ofSpecification? PathStyle.windows.flavor ignoreCase other = some otherMatcher ∧
      (BeginsAtRoot PathStyle.windows.flavor specification ↔
        BeginsAtRoot PathStyle.windows.flavor other) ∧
      (matcher.belowRoot?.isSome = true ↔
        BeginsAtRoot PathStyle.windows.flavor specification ∨
          BeginsMixed PathStyle.windows.flavor specification) ∧
      (∀ path, PathStyle.windows.flavor.isRooted path = false →
        matcher.accepts path = otherMatcher.accepts path) ∧
      ((∀ path, matcher.accepts path = otherMatcher.accepts path) ↔
        (BeginsMixed PathStyle.windows.flavor specification ↔
          BeginsMixed PathStyle.windows.flavor other)) := by
  have sameAtRoot := PathStyle.windows.beginsAtRoot_iff_of_same same
  refine ⟨_, _, PathStyle.windows.ofSpecification?_eq ignoreCase specification,
    PathStyle.windows.ofSpecification?_eq ignoreCase other, sameAtRoot, ?_, ?_, ?_⟩
  · rw [← isRootRelative_iff, PathStyle.matcher]
    split <;> simp_all
  · intro path notRooted
    exact PathStyle.windows.accepts_eq_of_same ignoreCase same (.inr notRooted)
  · constructor
    · intro agree
      constructor
      · exact beginsMixed_of_agree ignoreCase same agree
      · exact beginsMixed_of_agree ignoreCase same.symm fun path => (agree path).symm
    · intro sameMixed path
      apply PathStyle.windows.accepts_eq_of_same ignoreCase same
      left
      rw [Bool.eq_iff_iff, isRootRelative_iff, isRootRelative_iff, sameAtRoot, sameMixed]

theorem accepts_agree_both_mixed :
    PathStyle.windows.flavor.SameButSeparators "\\/a\\b".toList "/\\a/b".toList ∧
      ∃ matcher otherMatcher,
        Matcher.ofSpecification? PathStyle.windows.flavor true "\\/a\\b".toList =
          some matcher ∧
        Matcher.ofSpecification? PathStyle.windows.flavor true "/\\a/b".toList =
          some otherMatcher ∧
        PathStyle.windows.flavor.isRooted "a/b".toList = false ∧
        ∀ path, matcher.accepts path = otherMatcher.accepts path := by
  have same : PathStyle.windows.flavor.SameButSeparators "\\/a\\b".toList "/\\a/b".toList :=
    .cons (.inr (by decide)) (.cons (.inr (by decide)) (.cons (.inl rfl)
      (.cons (.inr (by decide)) (.cons (.inl rfl) .nil))))
  have mixed : BeginsMixed PathStyle.windows.flavor "\\/a\\b".toList :=
    .separators (by decide) (by decide) (by decide)
  have otherMixed : BeginsMixed PathStyle.windows.flavor "/\\a/b".toList :=
    .separators (by decide) (by decide) (by decide)
  obtain ⟨matcher, otherMatcher, found, otherFound, _, _, _, agree⟩ :=
    accepts_agree_iff true same
  exact ⟨same, matcher, otherMatcher, found, otherFound, by decide +kernel,
    agree.mpr (iff_of_true mixed otherMixed)⟩

/-- Different separators at the front are taken for a beginning at the root, like ones are not. -/
theorem accepts_mixed_separators :
    PathStyle.windows.flavor.SameButSeparators "\\/a".toList "\\\\a".toList ∧
      (Matcher.ofSpecification? PathStyle.windows.flavor false "\\/a".toList).map
        (·.accepts "C:\\a".toList) = some true ∧
      (Matcher.ofSpecification? PathStyle.windows.flavor false "\\\\a".toList).map
        (·.accepts "C:\\a".toList) = some false := by
  refine ⟨?_, by decide +kernel, by decide +kernel⟩
  exact .cons (.inl rfl) (.cons (.inr (by decide)) (.cons (.inl rfl) .nil))

end FileSpec
