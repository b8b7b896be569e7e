import FileSpec.Path.Basic
import FileSpec.Proofs.Path.Names
import FileSpec.Proofs.Path.Root

/-!
# The components of a path

Behind its root a path is a sequence of components with runs of separators between them. The
directory above a path has the same root and all of its components but the last, which is what the
file name is read from: `PathStyle.exists_parent`.
-/

set_option autoImplicit false

namespace FileSpec

open Text

theorem Text.afterLast_append_of_ends {delimits : Char → Bool} {front back : List Char}
    (ends : ∀ last ∈ front.getLast?, delimits last = true) :
    afterLast delimits (front ++ back) = afterLast delimits back := by
  have stopped : front.reverse.takeWhile (fun character => !delimits character) = [] := by
    rcases front.eq_nil_or_concat' with rfl | ⟨others, last, rfl⟩
    · rfl
    · simp [ends last (by simp)]
  rw [afterLast, afterLast, List.reverse_append, List.takeWhile_append, stopped, List.append_nil]
  split
  · next whole => rw [(List.takeWhile_prefix _).eq_of_length whole]
  · rfl

namespace Flavor

variable (flavor : Flavor)

/-- The pieces of a text between its separators that are not empty. -/
def namesIn (text : Path) : List Path :=
  (flavor.pieces text).filter (!·.isEmpty)

def components (path : Path) : List Path :=
  flavor.namesIn (flavor.dropRoot path)

/-- A text is divided at its last run of separators. -/
structure SplitsLast (text front run last : Path) : Prop where
  whole : text = front ++ (run ++ last)
  ends : flavor.endsWithSeparator front = false
  separators : ∀ character ∈ run, flavor.isSeparator character = true
  name : ∀ character ∈ last, flavor.isSeparator character = false
  /-- Without separators there is nothing in front of the last name. -/
  parted : run = [] → front = []

variable {flavor}

@[simp]
theorem pieces_ne_nil (text : Path) : flavor.pieces text ≠ [] := by
  cases text with
  | nil => simp [pieces]
  | cons first rest =>
      simp only [pieces]
      split
      · simp
      · split <;> simp

@[simp]
theorem pieces_separator {separator : Char} (separates : flavor.isSeparator separator = true)
    (rest : Path) : flavor.pieces (separator :: rest) = [] :: flavor.pieces rest := by
  simp [pieces, separates]

theorem pieces_cons {first : Char} (plain : flavor.isSeparator first = false)
    {rest piece : Path} {others : List Path} (pieces : flavor.pieces rest = piece :: others) :
    flavor.pieces (first :: rest) = (first :: piece) :: others := by
  simp [Flavor.pieces, plain, pieces]

theorem pieces_append_separator {separator : Char}
    (separates : flavor.isSeparator separator = true) (front rest : Path) :
    flavor.pieces (front ++ separator :: rest) = flavor.pieces front ++ flavor.pieces rest := by
  induction front with
  | nil => exact pieces_separator separates rest
  | cons first front inductionHypothesis =>
      by_cases again : flavor.isSeparator first = true
      · simp [pieces_separator again, inductionHypothesis]
      · have plain : flavor.isSeparator first = false := by simpa using again
        obtain ⟨piece, others, found⟩ := List.exists_cons_of_ne_nil (pieces_ne_nil front)
        rw [found, List.cons_append] at inductionHypothesis
        rw [List.cons_append, pieces_cons plain inductionHypothesis, pieces_cons plain found,
          List.cons_append]

theorem pieces_of_plain {name : Path}
    (plain : ∀ character ∈ name, flavor.isSeparator character = false) :
    flavor.pieces name = [name] := by
  induction name with
  | nil => rfl
  | cons first name inductionHypothesis =>
      obtain ⟨plainFirst, plainOthers⟩ := List.forall_mem_cons.mp plain
      exact pieces_cons plainFirst (inductionHypothesis plainOthers)

theorem mem_of_mem_pieces {text piece : Path} (isPiece : piece ∈ flavor.pieces text) :
    ∀ character ∈ piece, character ∈ text ∧ flavor.isSeparator character = false := by
  induction text generalizing piece with
  | nil => simp_all [pieces]
  | cons first rest inductionHypothesis =>
      intro character member
      by_cases separates : flavor.isSeparator first = true
      · rw [pieces_separator separates] at isPiece
        rcases List.mem_cons.mp isPiece with rfl | isPiece
        · simp at member
        · obtain ⟨inRest, plain⟩ := inductionHypothesis isPiece character member
          exact ⟨List.mem_cons_of_mem first inRest, plain⟩
      · have plainFirst : flavor.isSeparator first = false := by simpa using separates
        obtain ⟨head, others, found⟩ := List.exists_cons_of_ne_nil (pieces_ne_nil rest)
        rw [pieces_cons plainFirst found] at isPiece
        rw [found] at inductionHypothesis
        rcases List.mem_cons.mp isPiece with rfl | isPiece
        · rcases List.mem_cons.mp member with rfl | member
          · exact ⟨List.mem_cons_self, plainFirst⟩
          · obtain ⟨inRest, plain⟩ := inductionHypothesis List.mem_cons_self character member
            exact ⟨List.mem_cons_of_mem first inRest, plain⟩
        · obtain ⟨inRest, plain⟩ :=
            inductionHypothesis (List.mem_cons_of_mem head isPiece) character member
          exact ⟨List.mem_cons_of_mem first inRest, plain⟩

theorem namesIn_of_name {name : Path} (nonempty : name ≠ [])
    (plain : ∀ character ∈ name, flavor.isSeparator character = false) :
    flavor.namesIn name = [name] := by
  simp [namesIn, pieces_of_plain plain, nonempty]

theorem namesIn_append_run {run : Path} (someRun : run ≠ [])
    (separators : ∀ character ∈ run, flavor.isSeparator character = true) (front rest : Path) :
    flavor.namesIn (front ++ (run ++ rest)) = flavor.namesIn front ++ flavor.namesIn rest := by
  induction run generalizing front with
  | nil => exact absurd rfl someRun
  | cons first run inductionHypothesis =>
      obtain ⟨separates, others⟩ := List.forall_mem_cons.mp separators
      rw [List.cons_append, namesIn, pieces_append_separator separates, List.filter_append]
      by_cases single : run = []
      · rw [single]
        rfl
      · have left := inductionHypothesis single others []
        exact congrArg (flavor.namesIn front ++ ·) left

theorem mem_of_mem_components {path component : Path}
    (isComponent : component ∈ flavor.components path) :
    component ≠ [] ∧
      ∀ character ∈ component, character ∈ path ∧ flavor.isSeparator character = false := by
  obtain ⟨isPiece, nonempty⟩ := List.mem_filter.mp isComponent
  refine ⟨by simpa using nonempty, fun character member => ?_⟩
  obtain ⟨inRest, plain⟩ := mem_of_mem_pieces isPiece character member
  exact ⟨List.mem_of_mem_drop inRest, plain⟩

theorem exists_splitsLast (text : Path) :
    ∃ run last, flavor.SplitsLast text
      (dropTrailing flavor.isSeparator (throughLast flavor.isSeparator text)) run last := by
  have front_append_run : dropTrailing flavor.isSeparator (throughLast flavor.isSeparator text) ++
      ((throughLast flavor.isSeparator text).reverse.takeWhile flavor.isSeparator).reverse =
        throughLast flavor.isSeparator text := by
    rw [dropTrailing, ← List.reverse_append, List.takeWhile_append_dropWhile, List.reverse_reverse]
  refine ⟨((throughLast flavor.isSeparator text).reverse.takeWhile flavor.isSeparator).reverse,
    afterLast flavor.isSeparator text, ⟨?_, ?_, ?_, ?_, ?_⟩⟩
  · rw [← List.append_assoc, front_append_run, throughLast_append_afterLast]
  · have stopped := flavor.beginsWithSeparator_dropWhile
      (throughLast flavor.isSeparator text).reverse
    simpa [beginsWithSeparator, endsWithSeparator, dropTrailing] using stopped
  · intro character member
    exact List.all_eq_true.mp List.all_takeWhile character (List.mem_reverse.mp member)
  · intro character member
    simpa using List.all_eq_true.mp List.all_takeWhile character (List.mem_reverse.mp member)
  · intro noRun
    have stopped := List.head?_dropWhile_not
      (fun character => !flavor.isSeparator character) text.reverse
    cases kept : text.reverse.dropWhile fun character => !flavor.isSeparator character with
    | nil => simp [throughLast, kept, dropTrailing]
    | cons last front =>
        have separates : flavor.isSeparator last = true := by simpa [kept] using stopped
        simp [throughLast, kept, separates] at noRun

namespace SplitsLast

variable {text front run last : Path}

theorem namesIn_eq (splits : flavor.SplitsLast text front run last) (named : last ≠ []) :
    flavor.namesIn text = flavor.namesIn front ++ [last] := by
  rw [splits.whole]
  by_cases someRun : run = []
  · subst someRun
    rw [splits.parted rfl, List.nil_append, List.nil_append, namesIn_of_name named splits.name]
    rfl
  · rw [namesIn_append_run someRun splits.separators, namesIn_of_name named splits.name]

/-- A text without a separator at its end ends with a name. -/
theorem last_ne_nil (splits : flavor.SplitsLast text front run last) (nonempty : text ≠ [])
    (ends : flavor.endsWithSeparator text = false) : last ≠ [] := by
  rintro rfl
  have whole := splits.whole
  rw [List.append_nil] at whole
  by_cases someRun : run = []
  · rw [someRun, splits.parted someRun] at whole
    exact nonempty whole
  · rw [whole, endsWithSeparator_append someRun, endsWithSeparator,
      List.getLast?_eq_some_getLast someRun] at ends
    simp [splits.separators _ (List.getLast_mem someRun)] at ends

end SplitsLast

theorem exists_parent?_eq {path : Path} (inside : flavor.dropRoot path ≠ []) :
    ∃ front run last, flavor.SplitsLast (flavor.dropRoot path) front run last ∧
      flavor.parent? path = some (flavor.root path ++ front) := by
  obtain ⟨run, last, splits⟩ := flavor.exists_splitsLast (flavor.dropRoot path)
  exact ⟨_, run, last, splits, by simp [parent?, inside]⟩

end Flavor

namespace PathStyle

variable (style : PathStyle)

/-- No name goes on from the root of a path into what follows. -/
theorem ends_or_not_beginsWithName {root rest : Path} (roots : style.flavor.Roots root rest) :
    (∀ last ∈ root.getLast?, style.flavor.isNameDelimiter last = true) ∨
      style.flavor.beginsWithName rest = false := by
  have volume : style.flavor.hasDriveRoots = true →
      style.flavor.isNameDelimiter ':' = true := by
    cases style <;> decide
  cases roots with
  | relative => exact .inl (by simp)
  | separator separates => exact .inl (by simp [Flavor.isNameDelimiter, separates])
  | drive drives => exact .inl (by simpa using volume drives)
  | driveDirectory _ _ separates => exact .inl (by simp [Flavor.isNameDelimiter, separates])
  | server _ _ _ _ ends => exact .inr ends
  | share _ _ _ _ _ _ ends => exact .inr ends

theorem fileName_eq_of_splitsLast {path front run last : Path}
    (inside : style.flavor.dropRoot path ≠ [])
    (splits : style.flavor.SplitsLast (style.flavor.dropRoot path) front run last) :
    style.flavor.fileName path = style.flavor.fileName last := by
  have whole : path = (style.flavor.root path ++ (front ++ run)) ++ last := by
    have parts := style.root_append_dropRoot path
    rw [splits.whole] at parts
    simpa using parts.symm
  have ends : ∀ before ∈ (style.flavor.root path ++ (front ++ run)).getLast?,
      style.flavor.isNameDelimiter before = true := by
    by_cases someRun : run = []
    · have onlyLast : style.flavor.dropRoot path = last := by
        rw [splits.whole, someRun, splits.parted someRun]
        rfl
      have named : style.flavor.beginsWithName (style.flavor.dropRoot path) = true := by
        obtain ⟨first, others, shape⟩ := List.exists_cons_of_ne_nil inside
        have plain := splits.name first (by rw [← onlyLast, shape]; exact List.mem_cons_self)
        simp [shape, plain]
      rw [someRun, splits.parted someRun, List.append_nil, List.append_nil]
      apply (style.ends_or_not_beginsWithName (style.roots_root path)).resolve_right
      simp [named]
    · intro before isBefore
      rw [← List.append_assoc, List.getLast?_append, List.getLast?_eq_some_getLast someRun,
        Option.some_or, Option.mem_some_iff] at isBefore
      have separates := splits.separators _ (List.getLast_mem someRun)
      rw [isBefore] at separates
      simp [Flavor.isNameDelimiter, separates]
  rw [Flavor.fileName, whole, Text.afterLast_append_of_ends ends]
  rfl

/-- A file name is read from the last component of its path. -/
theorem fileName_eq_of_getLast? {path last : Path}
    (ends : style.flavor.endsWithSeparator (style.flavor.dropRoot path) = false)
    (isLast : (style.flavor.components path).getLast? = some last) :
    style.flavor.fileName path = style.flavor.fileName last := by
  have inside : style.flavor.dropRoot path ≠ [] := by
    intro nothing
    simp [Flavor.components, nothing, Flavor.namesIn, Flavor.pieces] at isLast
  obtain ⟨run, name, splits⟩ := style.flavor.exists_splitsLast (style.flavor.dropRoot path)
  rw [Flavor.components, splits.namesIn_eq (splits.last_ne_nil inside ends),
    List.getLast?_concat, Option.some.injEq] at isLast
  rw [style.fileName_eq_of_splitsLast inside splits, isLast]

/-- What is divided off at the end of a path does not belong to its root. -/
theorem roots_of_splitsLast {path front run last : Path}
    (splits : style.flavor.SplitsLast (style.flavor.dropRoot path) front run last) :
    style.flavor.Roots (style.flavor.root path) front := by
  apply (style.roots_root path).of_isPrefix
  rw [splits.whole]
  exact List.prefix_append _ _

/-- The directory of a path, the run of separators behind it and the piece with the file name. -/
theorem exists_directory {path : Path} (inside : style.flavor.dropRoot path ≠ []) :
    ∃ front run last, style.flavor.SplitsLast (style.flavor.dropRoot path) front run last ∧
      style.flavor.parent? path = some (style.flavor.root path ++ front) ∧
      path = style.flavor.root path ++ front ++ (run ++ last) ∧
      style.flavor.fileName path = style.flavor.fileName last := by
  obtain ⟨front, run, last, splits, above⟩ := Flavor.exists_parent?_eq inside
  refine ⟨front, run, last, splits, above, ?_, style.fileName_eq_of_splitsLast inside splits⟩
  have parts := style.root_append_dropRoot path
  rw [splits.whole, ← List.append_assoc] at parts
  exact parts.symm

/-- The directory above a path has all of its components but the one with the file name. -/
theorem exists_parent {path : Path} (inside : style.flavor.dropRoot path ≠ [])
    (named : style.flavor.fileName path ≠ []) :
    ∃ directory last, style.flavor.parent? path = some directory ∧
      style.flavor.components path = style.flavor.components directory ++ [last] ∧
      style.flavor.fileName path = style.flavor.fileName last ∧
      style.flavor.endsWithSeparator (style.flavor.dropRoot directory) = false := by
  obtain ⟨front, run, last, splits, above, -, sameName⟩ := style.exists_directory inside
  have someLast : last ≠ [] := by
    rintro rfl
    exact named sameName
  have roots := style.roots_of_splitsLast splits
  refine ⟨_, last, above, ?_, sameName, ?_⟩
  · rw [Flavor.components, Flavor.components, style.dropRoot_append roots,
      splits.namesIn_eq someLast]
  · rw [style.dropRoot_append roots]
    exact splits.ends

theorem parent?_isPrefix {path directory : Path}
    (above : style.flavor.parent? path = some directory) : directory <+: path := by
  by_cases inside : style.flavor.dropRoot path = []
  · simp [Flavor.parent?, inside] at above
  · obtain ⟨front, run, last, -, found, whole, -⟩ := style.exists_directory inside
    rw [found, Option.some.injEq] at above
    rw [← above]
    exact ⟨run ++ last, whole.symm⟩

theorem isSeparator_of_mem_root_posix {path : Path} :
    ∀ character ∈ posix.flavor.root path, posix.flavor.isSeparator character = true := by
  have roots := posix.roots_root path
  have noDrives : posix.flavor.hasDriveRoots = false := rfl
  generalize posix.flavor.root path = root at roots
  cases roots with
  | relative => simp
  | separator separates => simpa using separates
  | drive drives | driveDirectory drives | server drives | share drives =>
      simp [noDrives] at drives

@[simp]
theorem isNameDelimiter_posix (character : Char) :
    posix.flavor.isNameDelimiter character = posix.flavor.isSeparator character :=
  Bool.or_false _

theorem isSeparator_of_mem_fileName_posix {path : Path} :
    ∀ character ∈ posix.flavor.fileName path, posix.flavor.isSeparator character = false := by
  intro character member
  rw [← isNameDelimiter_posix]
  exact not_delimits_of_mem_afterLast member

theorem inside_of_named_posix {path : Path} (named : posix.flavor.fileName path ≠ []) :
    posix.flavor.dropRoot path ≠ [] := by
  intro nothing
  obtain ⟨character, others, shape⟩ := List.exists_cons_of_ne_nil named
  have inName : character ∈ posix.flavor.fileName path := by
    rw [shape]
    exact List.mem_cons_self
  have inRoot : character ∈ posix.flavor.root path := by
    have parts := posix.root_append_dropRoot path
    rw [nothing, List.append_nil] at parts
    rw [parts]
    exact (afterLast_isSuffix _ path).subset inName
  have separates := isSeparator_of_mem_root_posix character inRoot
  rw [isSeparator_of_mem_fileName_posix character inName] at separates
  exact Bool.false_ne_true separates

/-- Without drives the last piece of a path is its file name. -/
theorem exists_directory_posix {path : Path} (inside : posix.flavor.dropRoot path ≠ []) :
    ∃ front run,
      posix.flavor.SplitsLast (posix.flavor.dropRoot path) front run (posix.flavor.fileName path) ∧
      posix.flavor.parent? path = some (posix.flavor.root path ++ front) ∧
      path = posix.flavor.root path ++ front ++ (run ++ posix.flavor.fileName path) := by
  obtain ⟨front, run, last, splits, above, whole, sameName⟩ := posix.exists_directory inside
  have lastIsName : posix.flavor.fileName last = last := by
    apply afterLast_of_plain
    intro character member
    rw [isNameDelimiter_posix, splits.name character member]
  rw [lastIsName] at sameName
  subst sameName
  exact ⟨front, run, splits, above, whole⟩

end PathStyle

end FileSpec
