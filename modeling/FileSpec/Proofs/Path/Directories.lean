import FileSpec.Proofs.Path.Absolute
import FileSpec.Proofs.Path.Components

/-!
# The directory of a path

A path that is not found as a directory is divided at its last run of separators, or behind its
root. What stands in front is its directory, which is written with one separator at its end:
`directoryName_before_fileName`. Written in this way a directory is its own directory, since the
separator belongs to its root or else leaves the root as it is: `directoryName_directoryName`. The
last directory has the name with which the path ends, once the name of a file is taken off:
`lastDirectoryName_eq_fileName`.
-/

set_option autoImplicit false

namespace FileSpec

open Text

namespace Flavor

section Separators

variable (flavor : Flavor)

@[simp]
theorem endsWithSeparator_directoryName (queries : FileQueries) (path : Path) :
    flavor.endsWithSeparator (flavor.directoryName queries path) = true := by
  unfold directoryName
  split
  · exact flavor.endsWithSeparator_addSuffix path
  · exact flavor.endsWithSeparator_addSuffix _

theorem endsWithSeparator_of_separatorsOnly {text : Path} (nonempty : text ≠ [])
    (only : flavor.IsSeparatorsOnly text) : flavor.endsWithSeparator text = true := by
  rw [endsWithSeparator, List.getLast?_eq_some_getLast nonempty]
  exact only _ (List.getLast_mem nonempty)

theorem endsWithSeparator_append_separators {front run : Path}
    (ends : flavor.endsWithSeparator front = true) (separators : flavor.IsSeparatorsOnly run) :
    flavor.endsWithSeparator (front ++ run) = true := by
  by_cases someRun : run = []
  · rw [someRun, List.append_nil]
    exact ends
  · rw [endsWithSeparator_append someRun]
    exact flavor.endsWithSeparator_of_separatorsOnly someRun separators

end Separators

section Queries

variable (flavor : Flavor) {queries : FileQueries} {path : Path}

theorem directoryName_of_found
    (found : queries.directoryExists (flavor.addSuffix path) = true) :
    flavor.directoryName queries path = flavor.addSuffix path :=
  if_pos found

theorem directoryName_of_missing
    (missing : queries.directoryExists (flavor.addSuffix path) = false) :
    flavor.directoryName queries path = flavor.addSuffix ((flavor.parent? path).getD path) :=
  if_neg (by rw [missing]; exact Bool.false_ne_true)

theorem directoryName_none (path : Path) :
    flavor.directoryName .none path = flavor.addSuffix ((flavor.parent? path).getD path) :=
  flavor.directoryName_of_missing rfl

end Queries

section Roots

variable {flavor : Flavor} {root rest : Path} {separator : Char}

theorem beginsWithName_append_separator {text : Path}
    (separates : flavor.isSeparator separator = true)
    (plain : flavor.beginsWithName text = false) :
    flavor.beginsWithName (text ++ [separator]) = false := by
  cases text with
  | nil => simpa using separates
  | cons first text => exact plain

/-- A root stays when a separator is put behind what follows it. -/
theorem Roots.append_separator (roots : flavor.Roots root rest) (goesOn : rest ≠ [])
    (separates : flavor.isSeparator separator = true)
    (colonPlain : flavor.isSeparator ':' = false) :
    flavor.Roots root (rest ++ [separator]) := by
  obtain ⟨first, others, rfl⟩ := List.exists_cons_of_ne_nil goesOn
  cases roots with
  | relative plain noDrive =>
      refine .relative plain fun drives letter left shape => ?_
      cases others with
      | nil =>
          -- The separator is no colon behind a letter.
          simp only [List.cons_append, List.nil_append, List.cons.injEq] at shape
          rw [shape.2.1, colonPlain] at separates
          exact absurd separates Bool.false_ne_true
      | cons second others =>
          simp only [List.cons_append, List.cons.injEq] at shape
          exact noDrive drives letter others (by rw [shape.1, shape.2.1])
  | separator begins noShare =>
      refine .separator begins fun drives again => ?_
      exact beginsWithName_append_separator separates (noShare drives again)
  | drive drives isLetter plain => exact .drive drives isLetter plain
  | driveDirectory drives isLetter behind => exact .driveDirectory drives isLetter behind
  | server drives first second isServer ends noShare =>
      exact .server drives first second isServer ends
        (beginsWithName_append_separator separates noShare)
  | share drives first second isServer behind isShare ends =>
      exact .share drives first second isServer behind isShare ends

theorem IsShareName.endsWithSeparator_append {name : Path} (isName : flavor.IsShareName name)
    (front : Path) : flavor.endsWithSeparator (front ++ name) = false := by
  rw [Flavor.endsWithSeparator_append isName.1]
  exact not_endsWithSeparator_of_plain isName.1 isName.2

/-- A separator behind a root alone completes it, or it follows a server or a share. -/
theorem Roots.addSuffix (roots : flavor.Roots root []) (colonPlain : flavor.isSeparator ':' = false) :
    flavor.Roots (flavor.addSuffix root) [] ∨
      flavor.endsWithSeparator root = false ∧ flavor.Roots root [flavor.separator] := by
  have behind : flavor.isSeparator flavor.separator = true := isSeparator_separator
  have noName : flavor.beginsWithName [flavor.separator] = false := by simp
  cases roots with
  | relative => exact .inl (.separator behind (by simp))
  | @separator first _ separates noShare =>
      have complete : flavor.endsWithSeparator [first] = true := separates
      rw [flavor.addSuffix_of_endsWithSeparator complete]
      exact .inl (.separator separates noShare)
  | @drive letter _ drives isLetter =>
      have incomplete : flavor.endsWithSeparator [letter, ':'] = false := colonPlain
      rw [addSuffix_of_not_endsWithSeparator incomplete]
      exact .inl (.driveDirectory drives isLetter behind)
  | @driveDirectory letter separator _ drives isLetter separates =>
      have complete : flavor.endsWithSeparator [letter, ':', separator] = true := separates
      rw [flavor.addSuffix_of_endsWithSeparator complete]
      exact .inl (.driveDirectory drives isLetter separates)
  | @server first second server _ drives firstSeparates secondSeparates isServer =>
      exact .inr ⟨isServer.endsWithSeparator_append [first, second],
        .server drives firstSeparates secondSeparates isServer noName rfl⟩
  | @share first second server separator share _ drives firstSeparates secondSeparates isServer
      separates isShare =>
      refine .inr ⟨?_, .share drives firstSeparates secondSeparates isServer separates isShare
        noName⟩
      have ends := isShare.endsWithSeparator_append (first :: second :: (server ++ [separator]))
      simpa using ends

end Roots

end Flavor

namespace PathStyle

variable (style : PathStyle) {path root rest front : Path}

theorem parent?_append (roots : style.flavor.Roots root rest) (goesOn : rest ≠ []) :
    style.flavor.parent? (root ++ rest) =
      some (root ++ style.flavor.removeSuffix (throughLast style.flavor.isSeparator rest)) := by
  have inside : ¬ rest.isEmpty = true := by simpa using goesOn
  rw [Flavor.parent?, style.dropRoot_append roots, style.root_append roots, if_neg inside]
  rfl

/-- There is no directory above a root. -/
theorem parent?_root (roots : style.flavor.Roots root []) : style.flavor.parent? root = none := by
  have nothing : style.flavor.dropRoot root = [] := by
    have left := style.dropRoot_append roots
    rwa [List.append_nil] at left
  rw [Flavor.parent?, nothing]
  rfl

theorem roots_addSuffix (roots : style.flavor.Roots root front)
    (ends : style.flavor.endsWithSeparator front = false) :
    style.flavor.Roots (style.flavor.addSuffix (root ++ front)) [] ∨
      style.flavor.endsWithSeparator (root ++ front) = false ∧
        style.flavor.Roots root (front ++ [style.flavor.separator]) := by
  by_cases nothing : front = []
  · subst nothing
    rw [List.append_nil]
    exact roots.addSuffix style.not_isSeparator_colon
  · right
    rw [Flavor.endsWithSeparator_append nothing]
    exact ⟨ends, roots.append_separator nothing Flavor.isSeparator_separator
      style.not_isSeparator_colon⟩

/-- A directory that is written with a separator at its end is divided at this separator. -/
theorem addSuffix_parent?_addSuffix (roots : style.flavor.Roots root front)
    (ends : style.flavor.endsWithSeparator front = false) :
    style.flavor.addSuffix ((style.flavor.parent? (style.flavor.addSuffix (root ++ front))).getD
        (style.flavor.addSuffix (root ++ front))) =
      style.flavor.addSuffix (root ++ front) := by
  rcases style.roots_addSuffix roots ends with whole | ⟨plain, inside⟩
  · rw [style.parent?_root whole, Option.getD_none, Flavor.addSuffix_addSuffix]
  · have behind : throughLast style.flavor.isSeparator (front ++ [style.flavor.separator]) =
        front ++ [style.flavor.separator] :=
      throughLast_append_mark Flavor.isSeparator_separator front (List.forall_mem_nil _)
    have cut : style.flavor.removeSuffix (front ++ [style.flavor.separator]) = front := by
      rw [Flavor.removeSuffix_append_separators
        (by simp [Flavor.IsSeparatorsOnly]),
        Flavor.removeSuffix_of_not_endsWithSeparator ends]
    have above := style.parent?_append inside (by simp)
    rw [behind, cut] at above
    rw [Flavor.addSuffix_of_not_endsWithSeparator plain, List.append_assoc, above,
      Option.getD_some, Flavor.addSuffix_of_not_endsWithSeparator plain, List.append_assoc]

/-- The directory of a path stands in front of a run of separators. A root alone is its own. -/
theorem exists_directory_run (path : Path) :
    ∃ front run last, style.flavor.SplitsLast (style.flavor.dropRoot path) front run last ∧
      (style.flavor.parent? path).getD path = style.flavor.root path ++ front ∧
      path = style.flavor.root path ++ front ++ (run ++ last) := by
  by_cases inside : style.flavor.dropRoot path = []
  · have onlyRoot := style.root_append_dropRoot path
    rw [inside, List.append_nil] at onlyRoot
    refine ⟨[], [], [], ⟨inside, rfl, List.forall_mem_nil _, List.forall_mem_nil _, fun _ => rfl⟩,
      ?_, by simp [onlyRoot]⟩
    rw [Flavor.parent?, inside, List.append_nil, onlyRoot]
    rfl
  · obtain ⟨front, run, last, splits, above, whole, -⟩ := style.exists_directory inside
    exact ⟨front, run, last, splits, by rw [above, Option.getD_some], whole⟩

/-- A file name behind a separator is all that follows the last run of separators. -/
theorem eq_fileName_of_behind {before front last : Path} {separator : Char}
    (separates : style.flavor.isSeparator separator = true)
    (behind : path = before ++ separator :: style.flavor.fileName path)
    (whole : path = front ++ last)
    (plain : ∀ character ∈ last, style.flavor.isSeparator character = false)
    (sameName : style.flavor.fileName path = style.flavor.fileName last) :
    last = style.flavor.fileName path := by
  obtain ⟨cut, shape⟩ := afterLast_isSuffix style.flavor.isNameDelimiter last
  rw [← Flavor.fileName, ← sameName] at shape
  have parts : before ++ [separator] = front ++ cut := by
    apply @List.append_cancel_right _ _ (style.flavor.fileName path)
    rw [List.append_assoc, List.append_assoc, shape, ← whole]
    exact behind.symm
  rcases cut.eq_nil_or_concat' with rfl | ⟨others, final, rfl⟩
  · exact shape.symm
  · -- What is cut off in front of the name would end with the separator.
    rw [← List.append_assoc] at parts
    obtain ⟨-, same⟩ := List.append_inj' parts rfl
    have plainFinal := plain final (by rw [← shape]; simp)
    rw [← List.singleton_inj.mp same, separates] at plainFinal
    exact absurd plainFinal.symm Bool.false_ne_true

/--
A path whose file name stands behind a separator is its directory, a run of separators and the file
name. The directory begins with the whole root, and it ends with a separator only if it is the root.
So its name and the file name together are the path again, with another run between them.
-/
theorem directoryName_before_fileName {before : Path} {separator : Char}
    (inside : (style.flavor.root path).length < path.length)
    (separates : style.flavor.isSeparator separator = true)
    (behind : path = before ++ separator :: style.flavor.fileName path) :
    ∃ directory run, path = directory ++ run ++ style.flavor.fileName path ∧
      style.flavor.IsSeparatorsOnly run ∧
      (style.flavor.endsWithSeparator directory = true → directory = style.flavor.root path) ∧
      style.flavor.root path <+: directory ∧
      style.flavor.directoryName .none path = style.flavor.addSuffix directory ∧
      ∃ other, style.flavor.IsSeparatorsOnly other ∧
        style.flavor.directoryName .none path ++ style.flavor.fileName path =
          directory ++ other ++ style.flavor.fileName path := by
  have someRest : style.flavor.dropRoot path ≠ [] := by
    rw [Flavor.dropRoot, ne_eq, List.drop_eq_nil_iff]
    omega
  obtain ⟨front, run, last, splits, above, whole, sameName⟩ := style.exists_directory someRest
  rw [← List.append_assoc] at whole
  obtain rfl := style.eq_fileName_of_behind separates behind whole splits.name sameName
  have directory : style.flavor.directoryName .none path =
      style.flavor.addSuffix (style.flavor.root path ++ front) := by
    rw [Flavor.directoryName_none, above, Option.getD_some]
  obtain ⟨other, separators, suffixed⟩ :=
    style.flavor.exists_addSuffix_eq (style.flavor.root path ++ front)
  refine ⟨style.flavor.root path ++ front, run, whole, splits.separators, fun ends => ?_,
    List.prefix_append _ _, directory, other, separators, by rw [directory, suffixed]⟩
  by_cases nothing : front = []
  · rw [nothing, List.append_nil]
  · rw [Flavor.endsWithSeparator_append nothing, splits.ends] at ends
    exact absurd ends Bool.false_ne_true

/-- Two kinds of separators behind a share are one run, and the share is not shortened. -/
theorem directoryName_before_fileName_share :
    (windows.flavor.root "\\\\srv\\share/\\notes.txt".toList).length <
      "\\\\srv\\share/\\notes.txt".toList.length ∧
    windows.flavor.isSeparator '\\' = true ∧
    windows.flavor.fileName "\\\\srv\\share/\\notes.txt".toList = "notes.txt".toList ∧
    ∃ directory run,
      "\\\\srv\\share/\\notes.txt".toList = directory ++ run ++ "notes.txt".toList ∧
      windows.flavor.IsSeparatorsOnly run ∧
      (windows.flavor.endsWithSeparator directory = true →
        directory = "\\\\srv\\share".toList) ∧
      "\\\\srv\\share".toList <+: directory ∧
      windows.flavor.directoryName .none "\\\\srv\\share/\\notes.txt".toList =
        windows.flavor.addSuffix directory := by
  have root : windows.flavor.root "\\\\srv\\share/\\notes.txt".toList =
      "\\\\srv\\share".toList := by decide
  have inside : (windows.flavor.root "\\\\srv\\share/\\notes.txt".toList).length <
      "\\\\srv\\share/\\notes.txt".toList.length := by decide
  have separates : windows.flavor.isSeparator '\\' = true := by decide
  have name : windows.flavor.fileName "\\\\srv\\share/\\notes.txt".toList =
      "notes.txt".toList := by decide
  have behind : "\\\\srv\\share/\\notes.txt".toList = "\\\\srv\\share/".toList ++
      '\\' :: windows.flavor.fileName "\\\\srv\\share/\\notes.txt".toList := by decide
  obtain ⟨directory, run, whole, separators, ends, kept, directoryName, -⟩ :=
    windows.directoryName_before_fileName inside separates behind
  rw [name] at whole
  rw [root] at ends kept
  exact ⟨inside, separates, name, directory, run, whole, separators, ends, kept, directoryName⟩

/-- The directory of a path ends with a separator and is the directory of itself. -/
theorem directoryName_directoryName (queries : FileQueries) (path : Path) :
    style.flavor.endsWithSeparator (style.flavor.directoryName queries path) = true ∧
      style.flavor.directoryName queries (style.flavor.directoryName queries path) =
        style.flavor.directoryName queries path := by
  refine ⟨style.flavor.endsWithSeparator_directoryName queries path, ?_⟩
  have suffixed := style.flavor.addSuffix_of_endsWithSeparator
    (style.flavor.endsWithSeparator_directoryName queries path)
  cases again : queries.directoryExists
      (style.flavor.addSuffix (style.flavor.directoryName queries path)) with
  | true => rw [Flavor.directoryName_of_found _ again, suffixed]
  | false =>
      rw [Flavor.directoryName_of_missing _ again]
      cases found : queries.directoryExists (style.flavor.addSuffix path) with
      | true =>
          -- The same directory is asked for twice.
          rw [suffixed, Flavor.directoryName_of_found _ found, found] at again
          exact absurd again.symm Bool.false_ne_true
      | false =>
          obtain ⟨front, run, last, splits, above, -⟩ := style.exists_directory_run path
          rw [Flavor.directoryName_of_missing _ found, above]
          exact style.addSuffix_parent?_addSuffix (style.roots_of_splitsLast splits) splits.ends

/-- The directory is the path in front of its last piece, but for the separators at its end. -/
theorem removeSuffix_directoryName_of_missing {queries : FileQueries} {directory run : Path}
    (missing : queries.directoryExists (style.flavor.addSuffix path) = false)
    (above : (style.flavor.parent? path).getD path = directory)
    (separators : style.flavor.IsSeparatorsOnly run) :
    style.flavor.removeSuffix (style.flavor.directoryName queries path) =
      style.flavor.removeSuffix (directory ++ run) := by
  rw [Flavor.directoryName_of_missing _ missing, above, Flavor.removeSuffix_addSuffix,
    Flavor.removeSuffix_append_separators separators]

/-- A path that names a directory is this directory but for the separators at its end. -/
theorem removeSuffix_directoryName {queries : FileQueries}
    (named : style.flavor.endsWithSeparator path = true ∨
      queries.directoryExists (style.flavor.addSuffix path) = true) :
    style.flavor.removeSuffix (style.flavor.directoryName queries path) =
      style.flavor.removeSuffix path := by
  cases found : queries.directoryExists (style.flavor.addSuffix path) with
  | true => rw [Flavor.directoryName_of_found _ found, Flavor.removeSuffix_addSuffix]
  | false =>
      have ends : style.flavor.endsWithSeparator path = true :=
        named.resolve_right (by rw [found]; exact Bool.false_ne_true)
      obtain ⟨front, run, last, splits, above, whole⟩ := style.exists_directory_run path
      have noName : last = [] := by
        by_contra someName
        rw [whole, ← List.append_assoc, Flavor.endsWithSeparator_append someName,
          Flavor.not_endsWithSeparator_of_plain someName splits.name] at ends
        exact Bool.false_ne_true ends
      rw [noName, List.append_nil] at whole
      rw [style.removeSuffix_directoryName_of_missing found above splits.separators, ← whole]

/-- Without drives a root alone is made of separators. -/
theorem isSeparatorsOnly_of_dropRoot_posix (nothing : posix.flavor.dropRoot path = []) :
    posix.flavor.IsSeparatorsOnly path := by
  have onlyRoot := posix.root_append_dropRoot path
  rw [nothing, List.append_nil] at onlyRoot
  rw [← onlyRoot]
  exact isSeparator_of_mem_root_posix

/-- Without drives the directory of a file is the path in front of its name. -/
theorem removeSuffix_directoryName_posix {queries : FileQueries} (nonempty : path ≠ [])
    (ends : posix.flavor.endsWithSeparator path = false)
    (missing : queries.directoryExists (posix.flavor.addSuffix path) = false) :
    posix.flavor.removeSuffix (posix.flavor.directoryName queries path) =
      posix.flavor.removeSuffix (path.rdrop (posix.flavor.fileName path).length) := by
  have inside : posix.flavor.dropRoot path ≠ [] := by
    intro nothing
    have only := isSeparatorsOnly_of_dropRoot_posix nothing
    rw [posix.flavor.endsWithSeparator_of_separatorsOnly nonempty only] at ends
    exact Bool.false_ne_true ends.symm
  obtain ⟨front, run, splits, above, whole⟩ := exists_directory_posix inside
  have inFront : path.rdrop (posix.flavor.fileName path).length =
      posix.flavor.root path ++ front ++ run := by
    have cut := @List.rdrop_append_length _ (posix.flavor.root path ++ front ++ run)
      (posix.flavor.fileName path)
    rwa [List.append_assoc, ← whole] at cut
  rw [inFront]
  exact posix.removeSuffix_directoryName_of_missing missing (by rw [above, Option.getD_some])
    splits.separators

@[simp]
theorem isVolumeDelimiter_eq : style.flavor.isVolumeDelimiter = style.flavor.isNameDelimiter := by
  funext character
  cases style <;>
    simp [Flavor.isVolumeDelimiter, Flavor.isNameDelimiter, PathStyle.flavor, Flavor.posix,
      Flavor.windows, Flavor.isSeparator]

theorem lastDirectoryName_eq (queries : FileQueries) (nonempty : path ≠ []) :
    style.flavor.lastDirectoryName queries path =
      .ok (style.flavor.fileName
        (style.flavor.removeSuffix (style.flavor.directoryName queries path))) := by
  have notEmpty : ¬ path.isEmpty = true := by simpa using nonempty
  rw [Flavor.lastDirectoryName, if_neg notEmpty, style.isVolumeDelimiter_eq]
  rfl

/--
The last directory of a path that ends with a separator, or is found as a directory, has the name
with which the path ends. Without drives the last directory of any other path has the name with
which the path ends when its file name is taken off.
-/
theorem lastDirectoryName_eq_fileName (queries : FileQueries) (nonempty : path ≠ []) :
    (style.flavor.endsWithSeparator path = true ∨
        queries.directoryExists (style.flavor.addSuffix path) = true →
      style.flavor.lastDirectoryName queries path =
        .ok (style.flavor.fileName (style.flavor.removeSuffix path))) ∧
    (¬ (posix.flavor.endsWithSeparator path = true ∨
        queries.directoryExists (posix.flavor.addSuffix path) = true) →
      posix.flavor.lastDirectoryName queries path =
        .ok (posix.flavor.fileName (posix.flavor.removeSuffix
          (path.rdrop (posix.flavor.fileName path).length)))) := by
  constructor
  · intro named
    rw [style.lastDirectoryName_eq queries nonempty, style.removeSuffix_directoryName named]
  · intro isFile
    rw [not_or, Bool.not_eq_true, Bool.not_eq_true] at isFile
    rw [posix.lastDirectoryName_eq queries nonempty,
      removeSuffix_directoryName_posix nonempty isFile.1 isFile.2]

/-- What is found as a directory counts as one, and what is not found counts as a file. -/
theorem lastDirectoryName_eq_fileName_found :
    "C:\\Test\\sub".toList ≠ [] ∧ "/test//sub".toList ≠ [] ∧
    windows.flavor.lastDirectoryName ⟨fun _ => false, (· == "C:\\Test\\sub\\".toList)⟩
      "C:\\Test\\sub".toList = .ok "sub".toList ∧
    posix.flavor.lastDirectoryName .none "/test//sub".toList = .ok "test".toList := by
  have drive : "C:\\Test\\sub".toList ≠ [] := by decide
  have directory : "/test//sub".toList ≠ [] := by decide
  refine ⟨drive, directory, ?_, ?_⟩
  · exact (windows.lastDirectoryName_eq_fileName _ drive).1 (.inr (by decide))
  · exact (posix.lastDirectoryName_eq_fileName .none directory).2 (by decide)

end PathStyle

end FileSpec
