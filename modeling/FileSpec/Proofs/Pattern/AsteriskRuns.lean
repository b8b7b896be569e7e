import FileSpec.Proofs.Pattern.Concatenation
import FileSpec.Proofs.Pattern.RootRelative

/-!
# Runs of asterisks

Asterisks that no separator follows are names one behind the other, and these match what one of them
matches. So of a run only its end counts: one asterisk, or three where the last two stand for
directories. What is relative to the root shows in the first token and the first two characters, and
a shorter run does not change these: `accepts_fewer_asterisks`.
-/

set_option autoImplicit false

namespace FileSpec

open scoped Computability

/-- A run of asterisks, all of them that stand there, is made shorter. -/
inductive Flavor.FewerAsterisks (flavor : Flavor) : List Char → List Char → Prop where
  /-- Where no separator follows, one is left of two or more. -/
  | one {front back count} :
      front.getLast? ≠ some '*' → back.head? ≠ some '*' → 2 ≤ count →
      flavor.beginsWithSeparator back = false →
      FewerAsterisks flavor (front ++ (List.replicate count '*' ++ back)) (front ++ '*' :: back)
  /-- Where a separator follows, three are left of four or more. -/
  | three {front back count} :
      front.getLast? ≠ some '*' → 4 ≤ count → flavor.beginsWithSeparator back = true →
      FewerAsterisks flavor (front ++ (List.replicate count '*' ++ back))
        (front ++ '*' :: '*' :: '*' :: back)

/-- Asterisks in front of such a text stand for names. -/
structure Flavor.LeavesNames (flavor : Flavor) (text : List Char) : Prop where
  plain : flavor.beginsWithSeparator text = false
  single : ∀ others, text = '*' :: others → flavor.beginsWithSeparator others = false

/-- The asterisks that are taken away, and the first one that is left, stand for names. -/
theorem Flavor.FewerAsterisks.exists_names {flavor : Flavor}
    (plain : flavor.isSeparator '*' = false) {specification shorter : List Char}
    (fewer : flavor.FewerAsterisks specification shorter) :
    ∃ front text count, front.getLast? ≠ some '*' ∧ flavor.LeavesNames text ∧
      specification = front ++ (List.replicate (count + 1) '*' ++ text) ∧
      shorter = front ++ '*' :: text := by
  cases fewer with
  | @one front back count frontEnds backBegins several noSeparator =>
      obtain ⟨more, rfl⟩ : ∃ more, count = more + 1 := ⟨count - 1, by omega⟩
      have leaves : flavor.LeavesNames back :=
        ⟨noSeparator, fun others shape => absurd (by rw [shape]; rfl) backBegins⟩
      exact ⟨front, back, more, frontEnds, leaves, rfl, rfl⟩
  | @three front back count frontEnds several separator =>
      obtain ⟨more, rfl⟩ : ∃ more, count = more + 1 + 2 := ⟨count - 3, by omega⟩
      have leaves : flavor.LeavesNames ('*' :: '*' :: back) := by
        refine ⟨plain, fun others shape => ?_⟩
        rw [← (List.cons.inj shape).2]
        exact plain
      have split : List.replicate (more + 1 + 2) '*' =
          List.replicate (more + 1) '*' ++ ['*', '*'] :=
        (List.replicate_append_replicate).symm
      refine ⟨front, '*' :: '*' :: back, more, frontEnds, leaves, ?_, rfl⟩
      rw [split, List.append_assoc]
      rfl

namespace Token

variable {flavor : Flavor}

theorem Reads.replicate_asterisk {text : List Char} {tokens : List Token}
    (plain : flavor.isSeparator '*' = false) (leaves : flavor.LeavesNames text)
    (reads : Reads flavor text tokens) (count : Nat) :
    Reads flavor (List.replicate (count + 1) '*' ++ text)
      (List.replicate (count + 1) Token.anyName ++ tokens) := by
  induction count with
  | zero => exact .anyName plain leaves.single reads
  | succ count inductionHypothesis =>
      refine .anyName plain (fun others shape => ?_) inductionHypothesis
      -- Behind the next asterisk is one more, or the text.
      obtain rfl : List.replicate count '*' ++ text = others := (List.cons.inj shape).2
      cases count with
      | zero => exact leaves.plain
      | succ count => exact plain

@[simp]
theorem language_anyName_mul_self :
    language flavor anyName * language flavor anyName = language flavor anyName :=
  kstar_mul_kstar _

/-- Names one behind the other match what one of them matches. -/
theorem sequenceLanguage_replicate_anyName (count : Nat) (tokens : List Token) :
    sequenceLanguage flavor (List.replicate (count + 1) anyName ++ tokens) =
      sequenceLanguage flavor (anyName :: tokens) := by
  induction count with
  | zero => rfl
  | succ count inductionHypothesis =>
      calc sequenceLanguage flavor (List.replicate (count + 2) anyName ++ tokens)
          = language flavor anyName *
              sequenceLanguage flavor (List.replicate (count + 1) anyName ++ tokens) :=
            sequenceLanguage_cons _ _
        _ = language flavor anyName *
              (language flavor anyName * sequenceLanguage flavor tokens) := by
            rw [inductionHypothesis, sequenceLanguage_cons]
        _ = sequenceLanguage flavor (anyName :: tokens) := by
            rw [← mul_assoc, language_anyName_mul_self, sequenceLanguage_cons]

theorem beginsWithAnyDirectories_iff_head? (plain : flavor.isSeparator '*' = false)
    {specification : List Char} :
    beginsWithAnyDirectories flavor specification = true ↔
      (scan flavor specification).head? = some anyDirectories := by
  rw [beginsWithAnyDirectories_iff]
  constructor
  · rintro ⟨separator, rest, rfl, separates⟩
    obtain ⟨whole, shape⟩ := takeWhile_isSeparator_cons separates rest
    rw [← shape, scan_anyDirectories plain (by simp) whole
      (flavor.beginsWithSeparator_dropWhile rest), List.head?_cons]
  · intro isFirst
    have reads : Reads flavor specification _ := reads_scan specification
    generalize scan flavor specification = tokens at reads isFirst
    cases reads with
    | @anyDirectories run rest tokens _ nonempty whole _ _ =>
        obtain ⟨first, others, rfl⟩ := List.exists_cons_of_ne_nil nonempty
        exact ⟨first, others ++ rest, rfl, whole first List.mem_cons_self⟩
    | nil | separators | anyCharacter | anyName | literal => simp at isFirst

end Token

/-- Whether one separator is at the front shows in front of an asterisk. -/
theorem beginsWithOneSeparator_append {flavor : Flavor} (plain : flavor.isSeparator '*' = false)
    (front rest others : List Char) :
    beginsWithOneSeparator flavor (front ++ '*' :: rest) =
      beginsWithOneSeparator flavor (front ++ '*' :: others) := by
  rcases front with _ | ⟨first, _ | ⟨second, front⟩⟩
  · simp [beginsWithOneSeparator, plain]
  · rfl
  · rfl

theorem Flavor.dropWhile_append_plain {flavor : Flavor} {rest : List Char}
    (plain : flavor.beginsWithSeparator rest = false) (front : List Char) :
    (front ++ rest).dropWhile flavor.isSeparator = front.dropWhile flavor.isSeparator ++ rest := by
  have kept : rest.dropWhile flavor.isSeparator = rest :=
    dropWhile_isSeparator (List.forall_mem_nil _) plain
  rw [List.dropWhile_append, kept]
  split
  · next nothing => rw [List.isEmpty_iff.mp nothing, List.nil_append]
  · rfl

namespace PathStyle

variable (style : PathStyle) (ignoreCase : Bool)

section Names

variable {style} {front text : List Char} (ends : front.getLast? ≠ some '*')
  (leaves : style.flavor.LeavesNames text) (count : Nat)

include ends leaves

theorem scan_replicate_asterisk :
    Token.scan style.flavor (front ++ (List.replicate (count + 1) '*' ++ text)) =
      Token.scan style.flavor front ++
        (List.replicate (count + 1) .anyName ++ Token.scan style.flavor text) := by
  have between : style.flavor.MeetBetweenTokens front
      (List.replicate (count + 1) '*' ++ text) := by
    rintro last isLast
    refine ⟨?_, fun _ => style.not_isSeparator_asterisk⟩
    rintro rfl
    exact ends isLast
  rw [Token.scan_append between, ← ((Token.reads_scan text).replicate_asterisk
    style.not_isSeparator_asterisk leaves count).eq_scan]

theorem isMatch_replicate_asterisk (path : Path) :
    (Token.comparedRegex style.flavor ignoreCase (Token.scan style.flavor
        (front ++ (List.replicate (count + 1) '*' ++ text)))).isMatch path =
      (Token.comparedRegex style.flavor ignoreCase (Token.scan style.flavor
        (front ++ '*' :: text))).isMatch path := by
  have one := scan_replicate_asterisk ends leaves 0
  simp only [List.replicate_one, List.singleton_append, Nat.zero_add] at one
  rw [Bool.eq_iff_iff, isMatch_comparedRegex_iff, isMatch_comparedRegex_iff,
    scan_replicate_asterisk ends leaves, one]
  simp only [List.map_append, List.map_cons, List.map_replicate, Token.map]
  rw [Token.sequenceLanguage_append, Token.sequenceLanguage_replicate_anyName,
    ← Token.sequenceLanguage_append]

theorem isRootRelative_replicate_asterisk :
    isRootRelative style.flavor (front ++ (List.replicate (count + 1) '*' ++ text)) =
      isRootRelative style.flavor (front ++ '*' :: text) := by
  have plain := style.not_isSeparator_asterisk
  have one := scan_replicate_asterisk ends leaves 0
  have sameFirst : beginsWithAnyDirectories style.flavor
        (front ++ (List.replicate (count + 1) '*' ++ text)) =
      beginsWithAnyDirectories style.flavor (front ++ (List.replicate (0 + 1) '*' ++ text)) := by
    rw [Bool.eq_iff_iff, Token.beginsWithAnyDirectories_iff_head? plain,
      Token.beginsWithAnyDirectories_iff_head? plain, scan_replicate_asterisk ends leaves, one]
    cases Token.scan style.flavor front <;> simp [List.replicate_succ]
  rw [isRootRelative, isRootRelative, sameFirst]
  exact congrArg (_ || ·) (beginsWithOneSeparator_append plain front _ text)

theorem accepts_replicate_asterisk (path : Path) :
    (style.matcher ignoreCase (front ++ (List.replicate (count + 1) '*' ++ text))).accepts path =
      (style.matcher ignoreCase (front ++ '*' :: text)).accepts path := by
  have plain := style.not_isSeparator_asterisk
  have below (rest : List Char) :
      (front ++ '*' :: rest).dropWhile style.flavor.isSeparator =
        front.dropWhile style.flavor.isSeparator ++ '*' :: rest := by
    have begins : style.flavor.beginsWithSeparator ('*' :: rest) = false := plain
    exact Flavor.dropWhile_append_plain begins front
  have endsBelow : (front.dropWhile style.flavor.isSeparator).getLast? ≠ some '*' := by
    intro isLast
    have inFront : '*' ∈ (front.takeWhile style.flavor.isSeparator ++
        front.dropWhile style.flavor.isSeparator).getLast? :=
      List.mem_getLast?_append_of_mem_getLast? isLast
    rw [List.takeWhile_append_dropWhile] at inFront
    exact ends inFront
  have sameBelow := isMatch_replicate_asterisk ignoreCase endsBelow leaves count
  rw [accepts_matcher, accepts_matcher, isRootRelative_replicate_asterisk ends leaves,
    isMatch_replicate_asterisk ignoreCase ends leaves, List.replicate_succ, List.cons_append,
    below, below, ← sameBelow]
  rfl

end Names

end PathStyle

/-- A run of asterisks accepts what one asterisk does or, in front of a separator, what three do. -/
theorem accepts_fewer_asterisks (style : PathStyle) (ignoreCase : Bool)
    {specification shorter : List Char}
    (fewer : style.flavor.FewerAsterisks specification shorter) :
    ∃ matcher shorterMatcher,
      Matcher.ofSpecification? style.flavor ignoreCase specification = some matcher ∧
      Matcher.ofSpecification? style.flavor ignoreCase shorter = some shorterMatcher ∧
      ∀ path, matcher.accepts path = shorterMatcher.accepts path := by
  refine ⟨_, _, style.ofSpecification?_eq ignoreCase specification,
    style.ofSpecification?_eq ignoreCase shorter, fun path => ?_⟩
  obtain ⟨front, text, count, ends, leaves, rfl, rfl⟩ :=
    fewer.exists_names style.not_isSeparator_asterisk
  exact PathStyle.accepts_replicate_asterisk ignoreCase ends leaves count path

theorem accepts_fewer_asterisks_below_root :
    PathStyle.windows.flavor.FewerAsterisks "**\\lib****/*.C".toList "**\\lib***/*.C".toList ∧
      ∃ matcher shorterMatcher,
        Matcher.ofSpecification? PathStyle.windows.flavor true "**\\lib****/*.C".toList =
          some matcher ∧
        Matcher.ofSpecification? PathStyle.windows.flavor true "**\\lib***/*.C".toList =
          some shorterMatcher ∧
        matcher.accepts "C:\\v/lib64\\a.c".toList =
          shorterMatcher.accepts "C:\\v/lib64\\a.c".toList := by
  have fewer : PathStyle.windows.flavor.FewerAsterisks
      ("**\\lib".toList ++ (List.replicate 4 '*' ++ "/*.C".toList))
      ("**\\lib".toList ++ '*' :: '*' :: '*' :: "/*.C".toList) :=
    .three (by decide) (by decide) (by decide)
  obtain ⟨matcher, shorterMatcher, made, shorterMade, same⟩ :=
    accepts_fewer_asterisks PathStyle.windows true fewer
  exact ⟨fewer, matcher, shorterMatcher, made, shorterMade, same _⟩

end FileSpec
