import FileSpec.Proofs.Directory.LazyWalk
import FileSpec.Proofs.Path.DisplayedDirectory

/-!
# Requests by paths

A path asks for the files of its directory whose names its own file name accepts. The directory is
taken as it is written, with one separator behind it. Only a last directory `*` is taken off, and
then what is below the directory in front of it is searched as well:
`ListingRequest.answer?_ofPath_posix`.
-/

set_option autoImplicit false

namespace FileSpec

open Text

namespace PathStyle

variable {front name : Path}

theorem not_isNameDelimiter_posix (plain : '/' ∉ name) :
    ∀ character ∈ name, posix.flavor.isNameDelimiter character = false := by
  intro character member
  rw [isNameDelimiter_posix, ← Bool.not_eq_true, isSeparator_posix_iff]
  rintro rfl
  exact plain member

theorem fileName_append_posix (front : Path) (plain : '/' ∉ name) :
    posix.flavor.fileName (front ++ '/' :: name) = name := by
  have behind : posix.flavor.fileName ((front ++ ['/']) ++ name) = name :=
    afterLast_append (by simp; rfl) (not_isNameDelimiter_posix plain)
  simpa using behind

variable (ends : posix.flavor.endsWithSeparator front = false)

include ends

/-- A directory without a separator at its end is taken as it is written. -/
theorem directoryName_append_posix (plain : '/' ∉ name) :
    posix.flavor.directoryName .none (front ++ '/' :: name) = front ++ ['/'] := by
  have named := fileName_append_posix front plain
  have below : (posix.flavor.fileName (front ++ '/' :: name)).length <
      (front ++ '/' :: name).length := by
    rw [named, List.length_append, List.length_cons]
    omega
  obtain ⟨extra, separators, whole⟩ := exists_directoryName_append_posix below
  rw [named, ← List.append_assoc] at whole
  have parts : front ++ ['/'] =
      posix.flavor.directoryName .none (front ++ '/' :: name) ++ extra := by
    apply @List.append_cancel_right _ _ name
    simpa using whole
  rcases extra.eq_nil_or_concat' with rfl | ⟨others, last, rfl⟩
  · simpa using parts.symm
  · -- Only one separator is left of it, so the directory would end with one itself.
    rw [← List.append_assoc] at parts
    have sameFront := (List.append_inj' parts rfl).1
    have endsToo := posix.flavor.endsWithSeparator_append_separators
      (posix.flavor.endsWithSeparator_directoryName .none (front ++ '/' :: name))
      (List.forall_mem_append.mp separators).1
    rw [← sameFront, ends] at endsToo
    exact absurd endsToo Bool.false_ne_true

theorem lastDirectoryName_posix :
    posix.flavor.lastDirectoryName .none (front ++ ['/']) = .ok (posix.flavor.fileName front) := by
  have cut : posix.flavor.removeSuffix (front ++ ['/']) = front := by
    have suffixed : posix.flavor.addSuffix front = front ++ ['/'] :=
      Flavor.addSuffix_of_not_endsWithSeparator ends
    rw [← suffixed, Flavor.removeSuffix_addSuffix]
    exact Flavor.removeSuffix_of_not_endsWithSeparator ends
  have named : posix.flavor.endsWithSeparator (front ++ ['/']) = true :=
    Flavor.endsWithSeparator_append (List.cons_ne_nil _ _)
  rw [posix.lastDirectoryName_eq .none (by simp), posix.removeSuffix_directoryName (.inl named),
    cut]

end PathStyle

namespace ListingRequest

open PathStyle

/-- The specification that a file name stands for: without one, that of all files. -/
def specificationOf (name : Path) : List Char :=
  if name = [] then ['*'] else name

/-- The directory part of a path, the current directory for a file name alone. -/
def directoryPart (flavor : Flavor) (path : Path) : Path :=
  if flavor.fileName path == path then ['.', flavor.separator] else flavor.directoryName .none path

variable {front name : Path} (ends : posix.flavor.endsWithSeparator front = false)

include ends in
theorem directoryPart_append_posix (plain : '/' ∉ name) :
    directoryPart posix.flavor (front ++ '/' :: name) = front ++ ['/'] := by
  have notWhole : ¬ (name == front ++ '/' :: name) = true := by
    rw [beq_iff_eq]
    intro same
    have lengths := congrArg List.length same
    rw [List.length_append, List.length_cons] at lengths
    omega
  rw [directoryPart, fileName_append_posix front plain, if_neg notWhole,
    directoryName_append_posix ends plain]

section Directory

variable {path : Path} (directory : directoryPart posix.flavor path = front ++ ['/'])

include ends directory

theorem ofPath_of_unmarked (unmarked : posix.flavor.fileName front ≠ ['*']) :
    ofPath posix.flavor path =
      ⟨front ++ ['/'], specificationOf (posix.flavor.fileName path), false⟩ := by
  simp only [directoryPart] at directory
  simp only [ofPath, directory, lastDirectoryName_posix ends, specificationOf, List.isEmpty_iff]
  split
  · next marked => exact absurd (Except.ok.inj marked) unmarked
  · rfl

theorem ofPath_of_marked {above : Path} (marked : front = above ++ ['*'])
    (isLast : posix.flavor.fileName front = ['*']) :
    ofPath posix.flavor path =
      ⟨if above = [] then ['.', '/'] else above,
        specificationOf (posix.flavor.fileName path), true⟩ := by
  have cut : (throughLast (· == '*') (front ++ ['/'])).dropLast = above := by
    rw [marked, List.append_assoc, List.singleton_append, throughLast_append_mark (by simp) above]
    · exact List.dropLast_concat
    · simp
  simp only [directoryPart] at directory
  simp only [ofPath, directory, lastDirectoryName_posix ends, specificationOf, isLast, cut,
    List.isEmpty_iff]
  rfl

end Directory

include ends in
theorem ofPath_append_posix (unmarked : posix.flavor.fileName front ≠ ['*']) (plain : '/' ∉ name) :
    ofPath posix.flavor (front ++ '/' :: name) =
      ⟨front ++ ['/'], specificationOf name, false⟩ := by
  have decoded := ofPath_of_unmarked ends (directoryPart_append_posix ends plain) unmarked
  rwa [fileName_append_posix front plain] at decoded

theorem ofPath_append_marked_posix (directory : Path) (plain : '/' ∉ name) :
    ofPath posix.flavor (directory ++ ['/', '*', '/'] ++ name) =
      ⟨directory ++ ['/'], specificationOf name, true⟩ := by
  have shape : directory ++ ['/', '*', '/'] ++ name = (directory ++ ['/', '*']) ++ '/' :: name := by
    simp
  have marker : posix.flavor.fileName (directory ++ ['/', '*']) = ['*'] :=
    fileName_append_posix directory (by simp)
  have noSeparator : posix.flavor.endsWithSeparator (directory ++ ['/', '*']) = false := by
    rw [Flavor.endsWithSeparator_append (by simp)]
    rfl
  have decoded := ofPath_of_marked noSeparator (directoryPart_append_posix noSeparator plain)
    (by simp : directory ++ ['/', '*'] = (directory ++ ['/']) ++ ['*']) marker
  rw [fileName_append_posix _ plain, if_neg (by simp)] at decoded
  rw [shape, decoded]

theorem ofPath_marked_posix (plain : '/' ∉ name) :
    ofPath posix.flavor (['*', '/'] ++ name) = ⟨['.', '/'], specificationOf name, true⟩ := by
  have noSeparator : posix.flavor.endsWithSeparator ['*'] = false := rfl
  have decoded := ofPath_of_marked noSeparator (directoryPart_append_posix noSeparator plain)
    (List.nil_append ['*']).symm rfl
  rwa [fileName_append_posix _ plain] at decoded

/-- A file name alone is looked for in the current directory. -/
theorem ofPath_name_posix (plain : '/' ∉ name) :
    ofPath posix.flavor name = ⟨['.', '/'], specificationOf name, false⟩ := by
  have named : posix.flavor.fileName name = name :=
    afterLast_of_plain (not_isNameDelimiter_posix plain)
  have current : directoryPart posix.flavor name = ['.'] ++ ['/'] := by
    rw [directoryPart, named, if_pos (beq_self_eq_true name)]
    rfl
  have decoded := ofPath_of_unmarked rfl current (by decide)
  rwa [named] at decoded

theorem answer?_eq {style : PathStyle} {lister : Lister}
    (conventions : lister.flavor = style.flavor) (kind : EntryKind) (policy : FailurePolicy)
    (limit? : Option Nat) (request : ListingRequest) :
    request.answer? lister kind policy limit? =
      some ((style.walk lister kind request.specification request.recursive).run policy limit?
        request.directory) := by
  rw [answer?, Walk.ofSpecification?_eq conventions]
  rfl

/--
A path with a file name asks for the files whose names this one accepts, and a path without one for
all files. They are looked for in the directory in front of the name, or in and below the one in
front of a last directory `*`. If there is no directory, it is the current one.
-/
theorem answer?_ofPath_posix (lister : Lister) (policy : FailurePolicy) {name : Path}
    (plain : '/' ∉ name) :
    (∀ directory : Path, Flavor.posix.endsWithSeparator directory = false →
      Flavor.posix.fileName directory ≠ ['*'] →
      (ofPath .posix (directory ++ ['/'] ++ name)).answer? lister .file policy none =
        answer? ⟨directory ++ ['/'], specificationOf name, false⟩ lister .file policy none) ∧
    (∀ directory : Path,
      (ofPath .posix (directory ++ ['/', '*', '/'] ++ name)).answer? lister .file policy none =
        answer? ⟨directory ++ ['/'], specificationOf name, true⟩ lister .file policy none) ∧
    (ofPath .posix name).answer? lister .file policy none =
      answer? ⟨['.', '/'], specificationOf name, false⟩ lister .file policy none ∧
    (ofPath .posix (['*', '/'] ++ name)).answer? lister .file policy none =
      answer? ⟨['.', '/'], specificationOf name, true⟩ lister .file policy none ∧
    ∀ style : PathStyle, lister.flavor = style.flavor → policy ≠ .stop →
      ∀ request : ListingRequest, ∃ outcome found,
        request.answer? lister .file policy none = some outcome ∧ outcome.result = .ok found := by
  refine ⟨fun directory ends unmarked => ?_, fun directory => ?_, ?_, ?_, ?_⟩
  · have decoded := ofPath_append_posix ends unmarked plain
    rw [List.append_assoc]
    exact congrArg (answer? · lister .file policy none) decoded
  · have decoded := ofPath_append_marked_posix directory plain
    exact congrArg (answer? · lister .file policy none) decoded
  · exact congrArg (answer? · lister .file policy none) (ofPath_name_posix plain)
  · exact congrArg (answer? · lister .file policy none) (ofPath_marked_posix plain)
  · intro style conventions goesOn request
    exact ⟨_, _, answer?_eq conventions .file policy none request,
      (Walk.run_of_goesOn goesOn none request.directory).1⟩

theorem answer?_ofPath_posix_archive :
    '/' ∉ "*.txt".toList ∧
    ∃ outcome,
      (ofPath .posix "/data/*/*.txt".toList).answer? (archive [oldLocked]).lister .file .report
        none = some outcome ∧
      outcome.result = .ok ["/data/a.txt".toList, "/data/new/d.txt".toList] := by
  have plain : '/' ∉ "*.txt".toList := by decide
  have same := (answer?_ofPath_posix (archive [oldLocked]).lister .report plain).2.1 "/data".toList
  have conventions : (archive [oldLocked]).lister.flavor = PathStyle.posix.flavor := rfl
  refine ⟨plain, _, same.trans (answer?_eq conventions .file .report none _), ?_⟩
  simp only [PathStyle.walk, PathStyle.matcher_posix]
  decide +kernel

end ListingRequest

end FileSpec
