import FileSpec.Proofs.Pattern.RootRelative

/-!
# Specifications that stand for one path

Without wildcards, a specification matches the paths that are the specification up to the lengths
of runs of separators: both are the same text once every run is a single separator.
-/

set_option autoImplicit false

namespace FileSpec

open Text

namespace Flavor

variable {flavor : Flavor}

/-- Every run of separators is written as one separator. -/
def squeezed (flavor : Flavor) : List Char → List Char
  | [] => []
  | character :: rest =>
      if flavor.isSeparator character then
        if flavor.beginsWithSeparator rest then squeezed flavor rest
        else flavor.separator :: squeezed flavor rest
      else character :: squeezed flavor rest

@[simp]
theorem squeezed_nil : flavor.squeezed [] = [] := rfl

@[simp]
theorem squeezed_plain {character : Char} (plain : flavor.isSeparator character = false)
    (rest : List Char) :
    flavor.squeezed (character :: rest) = character :: flavor.squeezed rest := by
  simp [squeezed, plain]

theorem squeezed_run {run rest : List Char} (nonempty : run ≠ [])
    (whole : ∀ character ∈ run, flavor.isSeparator character = true)
    (ends : flavor.beginsWithSeparator rest = false) :
    flavor.squeezed (run ++ rest) = flavor.separator :: flavor.squeezed rest := by
  induction run with
  | nil => exact absurd rfl nonempty
  | cons first run inductionHypothesis =>
      obtain ⟨separates, whole⟩ := List.forall_mem_cons.mp whole
      cases run with
      | nil => simp [squeezed, separates, ends]
      | cons second run =>
          have again : flavor.isSeparator second = true := whole second List.mem_cons_self
          rw [← inductionHypothesis (by simp) whole]
          simp [squeezed, separates, again]

/-- Whatever begins with a separator begins with a whole run. -/
theorem exists_run {text : List Char} (begins : flavor.beginsWithSeparator text = true) :
    ∃ run, run ≠ [] ∧ (∀ character ∈ run, flavor.isSeparator character = true) ∧
      text = run ++ text.dropWhile flavor.isSeparator := by
  cases text with
  | nil => simp at begins
  | cons first rest =>
      have separates : flavor.isSeparator first = true := begins
      obtain ⟨whole, shape⟩ := Token.takeWhile_isSeparator_cons separates rest
      refine ⟨_, by simp, whole, ?_⟩
      rw [List.dropWhile_cons_of_pos separates, shape]

theorem squeezed_of_begins {text : List Char} (begins : flavor.beginsWithSeparator text = true) :
    flavor.squeezed text =
      flavor.separator :: flavor.squeezed (text.dropWhile flavor.isSeparator) := by
  obtain ⟨run, nonempty, whole, shape⟩ := exists_run begins
  conv_lhs => rw [shape]
  exact squeezed_run nonempty whole (flavor.beginsWithSeparator_dropWhile text)

@[simp]
theorem beginsWithSeparator_squeezed (text : List Char) :
    flavor.beginsWithSeparator (flavor.squeezed text) = flavor.beginsWithSeparator text := by
  cases text with
  | nil => rfl
  | cons first rest =>
      cases separates : flavor.isSeparator first with
      | false => rw [squeezed_plain separates, beginsWithSeparator_cons, beginsWithSeparator_cons]
      | true =>
          have begins : flavor.beginsWithSeparator (first :: rest) = true := separates
          rw [squeezed_of_begins begins, begins, beginsWithSeparator_cons, isSeparator_separator]

theorem squeezed_eq_nil_iff {text : List Char} : flavor.squeezed text = [] ↔ text = [] := by
  constructor
  · intro shape
    have begins := flavor.beginsWithSeparator_squeezed text
    rw [shape, beginsWithSeparator_nil] at begins
    cases text with
    | nil => rfl
    | cons first rest =>
        rw [squeezed_plain begins.symm] at shape
        cases shape
  · rintro rfl
    rfl

theorem squeezed_eq_cons_plain_iff {character : Char} (plain : flavor.isSeparator character = false)
    {text others : List Char} :
    flavor.squeezed text = character :: others ↔
      ∃ rest, text = character :: rest ∧ flavor.squeezed rest = others := by
  constructor
  · intro shape
    have begins := flavor.beginsWithSeparator_squeezed text
    rw [shape, beginsWithSeparator_cons, plain] at begins
    cases text with
    | nil => cases shape
    | cons first rest =>
        rw [squeezed_plain begins.symm] at shape
        obtain ⟨rfl, same⟩ := List.cons.inj shape
        exact ⟨rest, rfl, same⟩
  · rintro ⟨rest, rfl, rfl⟩
    exact squeezed_plain plain rest

theorem squeezed_eq_separator_cons_iff {text others : List Char} :
    flavor.squeezed text = flavor.separator :: others ↔
      flavor.beginsWithSeparator text = true ∧
        flavor.squeezed (text.dropWhile flavor.isSeparator) = others := by
  constructor
  · intro shape
    have begins : flavor.beginsWithSeparator text = true := by
      rw [← beginsWithSeparator_squeezed, shape, beginsWithSeparator_cons, isSeparator_separator]
    rw [squeezed_of_begins begins] at shape
    exact ⟨begins, (List.cons.inj shape).2⟩
  · rintro ⟨begins, rfl⟩
    exact squeezed_of_begins begins

end Flavor

namespace Token

variable {flavor : Flavor}

@[simp]
theorem mem_language_literal {character : Char} {text : List Char} :
    text ∈ language flavor (literal character) ↔ text = [character] := Iff.rfl

/-- Tokens without wildcards match what has the runs of separators where they have them. -/
theorem Reads.mem_sequenceLanguage_iff {specification : List Char} {tokens : List Token}
    (reads : Reads flavor specification tokens) (noStar : '*' ∉ specification)
    (noAny : '?' ∉ specification) {text : List Char} :
    text ∈ sequenceLanguage flavor tokens ↔
      flavor.squeezed text = flavor.squeezed specification := by
  induction reads generalizing text with
  | nil =>
      rw [mem_sequenceLanguage_nil, Flavor.squeezed_nil, Flavor.squeezed_eq_nil_iff]
  | @separators run rest tokens nonempty whole ends _ inductionHypothesis =>
      have sameRest {text : List Char} : text ∈ sequenceLanguage flavor tokens ↔
          flavor.squeezed text = flavor.squeezed rest :=
        inductionHypothesis (fun member => noStar (List.mem_append_right run member))
          fun member => noAny (List.mem_append_right run member)
      rw [mem_sequenceLanguage_cons, Flavor.squeezed_run nonempty whole ends,
        Flavor.squeezed_eq_separator_cons_iff]
      constructor
      · rintro ⟨front, inFront, behind, inBehind, rfl⟩
        have same := sameRest.mp inBehind
        obtain ⟨someFront, allFront⟩ := mem_language_separators.mp inFront
        have behindEnds : flavor.beginsWithSeparator behind = false := by
          rw [← Flavor.beginsWithSeparator_squeezed, same, Flavor.beginsWithSeparator_squeezed,
            ends]
        rw [Flavor.dropWhile_isSeparator allFront behindEnds]
        obtain ⟨first, others, rfl⟩ := List.exists_cons_of_ne_nil someFront
        exact ⟨allFront first List.mem_cons_self, same⟩
      · rintro ⟨begins, same⟩
        obtain ⟨front, someFront, allFront, shape⟩ := Flavor.exists_run begins
        exact ⟨front, mem_language_separators.mpr ⟨someFront, allFront⟩, _, sameRest.mpr same,
          shape.symm⟩
  | anyCharacter => simp at noAny
  | anyDirectories => simp at noStar
  | anyName => simp at noStar
  | @literal character rest tokens plain _ _ _ inductionHypothesis =>
      have sameRest {text : List Char} : text ∈ sequenceLanguage flavor tokens ↔
          flavor.squeezed text = flavor.squeezed rest :=
        inductionHypothesis (fun member => noStar (List.mem_cons_of_mem character member))
          fun member => noAny (List.mem_cons_of_mem character member)
      rw [mem_sequenceLanguage_cons, Flavor.squeezed_plain plain,
        Flavor.squeezed_eq_cons_plain_iff plain]
      simp [sameRest, eq_comm, and_comm]

end Token

namespace PathStyle

variable {style : PathStyle} {specification : List Char}

theorem isMatch_iff_squeezed_eq (noStar : '*' ∉ specification) (noAny : '?' ∉ specification)
    (text : List Char) :
    (Token.comparedRegex style.flavor false
        (Token.scan style.flavor specification)).isMatch (text.map (comparedAs false)) = true ↔
      style.flavor.squeezed text = style.flavor.squeezed specification := by
  rw [isMatch_comparedRegex_iff, comparedAs_false, Token.map_id, List.map_id, List.map_id]
  exact (Token.reads_scan specification).mem_sequenceLanguage_iff noStar noAny

/-- Below the root or as a whole, runs are compared with runs. -/
theorem accepts_iff_squeezed_eq (noDrives : style.flavor.hasDriveRoots = false)
    (noStar : '*' ∉ specification) (noAny : '?' ∉ specification) (path : Path) :
    (style.matcher false specification).accepts path = true ↔
      style.flavor.squeezed path = style.flavor.squeezed specification := by
  rw [accepts_of_noDrives false noDrives]
  split
  · next bothRooted =>
      obtain ⟨relative, begins⟩ := bothRooted
      have beginsToo : style.flavor.beginsWithSeparator specification = true := by
        apply beginsWithSeparator_of_isRootRelative relative
        rw [beginsWithAnyDirectories_iff]
        rintro ⟨separator, rest, rfl, _⟩
        exact noStar List.mem_cons_self
      have below : specification.dropWhile style.flavor.isSeparator ⊆ specification :=
        (List.dropWhile_suffix _).subset
      rw [isMatch_iff_squeezed_eq (fun member => noStar (below member))
          fun member => noAny (below member),
        Flavor.squeezed_of_begins begins, Flavor.squeezed_of_begins beginsToo, List.cons.injEq,
        and_iff_right rfl]
  · exact isMatch_iff_squeezed_eq noStar noAny path

end PathStyle

/-- Where case counts, a specification without wildcards accepts the paths that differ from it in
the lengths of runs of separators only. -/
theorem accepts_without_wildcards_iff {specification : List Char} (noStar : '*' ∉ specification)
    (noAny : '?' ∉ specification) :
    ∃ matcher,
      Matcher.ofSpecification? PathStyle.posix.flavor false specification = some matcher ∧
      ∀ path, matcher.accepts path = true ↔
        PathStyle.posix.flavor.squeezed path = PathStyle.posix.flavor.squeezed specification :=
  ⟨_, PathStyle.posix.ofSpecification?_eq false specification,
    PathStyle.accepts_iff_squeezed_eq rfl noStar noAny⟩

theorem accepts_without_wildcards_doubled :
    '*' ∉ "/var//log[0].(a|b)/".toList ∧ '?' ∉ "/var//log[0].(a|b)/".toList ∧
      ∃ matcher,
        Matcher.ofSpecification? PathStyle.posix.flavor false "/var//log[0].(a|b)/".toList =
          some matcher ∧
        matcher.accepts "//var/log[0].(a|b)///".toList = true ∧
        matcher.accepts "/var/log0.a/".toList = false := by
  have noStar : '*' ∉ "/var//log[0].(a|b)/".toList := by decide
  have noAny : '?' ∉ "/var//log[0].(a|b)/".toList := by decide
  obtain ⟨matcher, made, accepts_iff⟩ := accepts_without_wildcards_iff noStar noAny
  refine ⟨noStar, noAny, matcher, made, (accepts_iff _).mpr (by decide), ?_⟩
  exact Bool.eq_false_iff.mpr (mt (accepts_iff _).mp (by decide))

end FileSpec
