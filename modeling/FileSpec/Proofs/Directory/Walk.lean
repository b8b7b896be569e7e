import FileSpec.Directory.Walk
import FileSpec.Proofs.Directory.Tree
import FileSpec.Proofs.Pattern.Matcher

/-!
# Walks through a tree

A walk through a tree makes one visit to each directory that it reaches, in the order of the
tree: `visits_eq`. It reaches the directories above which no call fails, and finds something in
those in which none of its own calls fails.
-/

set_option autoImplicit false

namespace FileSpec

/-- Without a limit, and when nothing ends the walk, all visits are made. -/
theorem Demand.visits_eq_self {endsWith : Visit → Bool} {visits : List Visit}
    (goesOn : ∀ visit ∈ visits, endsWith visit = false) :
    Demand.visits ⟨none, endsWith⟩ visits = visits := by
  induction visits with
  | nil => rfl
  | cons visit others inductionHypothesis =>
      obtain ⟨goesOnHere, goesOnLater⟩ := List.forall_mem_cons.mp goesOn
      have later := inductionHypothesis goesOnLater
      simpa [Demand.visits, Demand.isMet, goesOnHere, Demand.after] using later

namespace Walk

variable (walk : Walk) (failures : ListingFailures) (start : Path)

/-- The error of the first call that fails among those that the walk makes on a directory. -/
def failureAt? (directory : Path) : Option OsError :=
  (failures walk.kind directory).or
    (if walk.recursive then failures .directory directory else none)

/-- Whether the walk comes to a directory: it descends, and is not stopped above. -/
def reaches (directory : TreeDirectory) : Bool :=
  (walk.recursive || directory.names.isEmpty) && directory.above.all fun names =>
    (walk.failureAt? failures (walk.lister.flavor.pathTo start names)).isNone

def reached (tree : DirectoryTree) : List TreeDirectory :=
  tree.directories.filter (walk.reaches failures start)

def matching (directory : TreeDirectory) : List TreeEntry :=
  ((directory.entries walk.kind).filter walk.wanted.accepts).map (TreeEntry.mk directory.names)

/-- What the walk finds in a directory that it reaches: nothing if one of its calls fails. -/
def entriesIn (directory : TreeDirectory) : List TreeEntry :=
  if (walk.failureAt? failures (directory.path walk.lister.flavor start)).isSome then []
  else walk.matching directory

def entries (tree : DirectoryTree) : List TreeEntry :=
  (walk.reached failures start tree).flatMap (walk.entriesIn failures start)

def paths (tree : DirectoryTree) : List Path :=
  (walk.entries failures start tree).map (TreeEntry.path walk.lister.flavor start)

def failuresIn (tree : DirectoryTree) : List WalkFailure :=
  (walk.reached failures start tree).filterMap fun directory =>
    (walk.failureAt? failures (directory.path walk.lister.flavor start)).map
      (WalkFailure.mk (directory.path walk.lister.flavor start))

variable {walk failures start}

def descends (walk : Walk) (failures : ListingFailures) (directory : Path) : Bool :=
  walk.recursive && (walk.failureAt? failures directory).isNone

@[simp]
theorem reaches_top {files subdirectories : List Path} :
    walk.reaches failures start ⟨[], files, subdirectories⟩ = true := by
  simp [reaches, TreeDirectory.above]

@[simp]
theorem reaches_under (directory : TreeDirectory) (name : Path) :
    walk.reaches failures start (directory.under name) =
      (walk.descends failures start &&
        walk.reaches failures (walk.lister.flavor.join start name) directory) := by
  simp only [reaches, TreeDirectory.above_under, List.all_cons, List.all_map, Function.comp_def,
    descends, Flavor.pathTo, List.foldl_cons, List.foldl_nil]
  cases recursive : walk.recursive with
  | false => simp [TreeDirectory.under]
  | true => simp

@[simp]
theorem reached_leaf {files : List Path} :
    walk.reached failures start (.leaf files) = [⟨[], files, []⟩] := by
  rw [reached, DirectoryTree.directories, List.filter_cons_of_pos reaches_top, List.filter_nil]

@[simp]
theorem reached_node {files subdirectories : List Path} {below : Path → DirectoryTree} :
    walk.reached failures start (.node files subdirectories below) =
      ⟨[], files, subdirectories⟩ ::
        if walk.descends failures start then
          subdirectories.flatMap fun name =>
            (walk.reached failures (walk.lister.flavor.join start name) (below name)).map
              (·.under name)
        else [] := by
  rw [reached, DirectoryTree.directories, List.filter_cons_of_pos reaches_top]
  congr 1
  split
  · next goesOn =>
      rw [List.filter_flatMap]
      congr 1
      funext name
      simp [reached, List.filter_map, Function.comp_def, goesOn]
  · next stops =>
      rw [List.filter_eq_nil_iff]
      intro directory member
      obtain ⟨name, _, inBelow⟩ := List.mem_flatMap.mp member
      obtain ⟨inner, _, rfl⟩ := List.mem_map.mp inBelow
      simp [stops]

@[simp]
theorem visit_directory (walk : Walk) (directory : Path) :
    (walk.visit directory).directory = directory := by
  unfold visit
  repeat' split
  all_goals rfl

section Visit

variable {directory : TreeDirectory}
  (answers : walk.lister.AnswersIn failures start directory)

include answers

/-- What a visit shows when the calls on its directory fail or are answered. -/
theorem visit_outcome :
    (walk.visit (directory.path walk.lister.flavor start)).outcome =
      match walk.failureAt? failures (directory.path walk.lister.flavor start) with
      | some error => .error error
      | none => .ok
          ⟨((directory.entries walk.kind).filter walk.wanted.accepts).map
            (walk.lister.flavor.join (directory.path walk.lister.flavor start)),
          if walk.recursive then
            (directory.subdirectories.filter walk.everything.accepts).map
              (walk.lister.flavor.join (directory.path walk.lister.flavor start))
          else []⟩ := by
  simp only [visit, answers _ _, failureAt?]
  cases wantedFailure : failures walk.kind (directory.path walk.lister.flavor start) with
  | some error => rfl
  | none =>
      cases recursive : walk.recursive with
      | false => simp
      | true =>
          cases subdirectoriesFailure :
              failures .directory (directory.path walk.lister.flavor start) with
          | some error => simp
          | none => simp [TreeDirectory.entries]

theorem visit_failure? :
    (walk.visit (directory.path walk.lister.flavor start)).failure? =
      (walk.failureAt? failures (directory.path walk.lister.flavor start)).map
        (WalkFailure.mk (directory.path walk.lister.flavor start)) := by
  rw [Visit.failure?, visit_outcome answers, visit_directory]
  cases walk.failureAt? failures (directory.path walk.lister.flavor start) <;> rfl

theorem visit_found :
    (walk.visit (directory.path walk.lister.flavor start)).found =
      (walk.entriesIn failures start directory).map
        (TreeEntry.path walk.lister.flavor start) := by
  rw [Visit.found, visit_outcome answers, entriesIn]
  cases walk.failureAt? failures (directory.path walk.lister.flavor start) with
  | some error => rfl
  | none => simp [matching, TreeEntry.path, TreeDirectory.path]

theorem visit_subdirectories :
    (walk.visit (directory.path walk.lister.flavor start)).subdirectories =
      if walk.descends failures (directory.path walk.lister.flavor start) then
        (directory.subdirectories.filter walk.everything.accepts).map
          (walk.lister.flavor.join (directory.path walk.lister.flavor start))
      else [] := by
  rw [Visit.subdirectories, visit_outcome answers, descends]
  cases walk.failureAt? failures (directory.path walk.lister.flavor start) with
  | some error => simp
  | none => simp

end Visit

/-- The asterisk of a walk accepts every subdirectory of a tree. -/
def SeesAll (walk : Walk) (tree : DirectoryTree) : Prop :=
  ∀ directory ∈ tree.directories, ∀ name ∈ directory.subdirectories,
    walk.everything.accepts name = true

/-- A walk makes one visit to each directory that it reaches, in the order of the tree. -/
theorem visits_eq {tree : DirectoryTree} {depth : Nat}
    (answers : walk.lister.Answers failures start tree) (within : tree.IsWithin depth)
    (seesAll : walk.SeesAll tree) :
    walk.visits depth start =
      (walk.reached failures start tree).map fun directory =>
        walk.visit (directory.path walk.lister.flavor start) := by
  induction tree generalizing start depth with
  | leaf files =>
      obtain ⟨depth, rfl⟩ := Nat.exists_eq_add_one_of_ne_zero within.positive.ne'
      have here := visit_subdirectories (answers _ (DirectoryTree.mem_directories_leaf.mpr rfl))
      simp only [List.filter_nil, List.map_nil, ite_self, TreeDirectory.path_top] at here
      rw [visits, here, reached_leaf, List.flatMap_nil, List.map_singleton, TreeDirectory.path_top]
  | node files subdirectories below inductionHypothesis =>
      obtain ⟨depth, rfl⟩ := Nat.exists_eq_add_one_of_ne_zero within.positive.ne'
      have here : (walk.visit start).subdirectories =
          if walk.descends failures start then
            subdirectories.map (walk.lister.flavor.join start)
          else [] := by
        have shown := visit_subdirectories (answers _ DirectoryTree.top_mem_directories)
        rw [List.filter_eq_self.mpr (seesAll _ DirectoryTree.top_mem_directories)] at shown
        exact shown
      -- Below a name, the walk is one from the path of the subdirectory through its own tree.
      have later : ∀ name ∈ subdirectories,
          walk.visits depth (walk.lister.flavor.join start name) =
            (walk.reached failures (walk.lister.flavor.join start name) (below name)).map
              fun directory =>
                walk.visit ((directory.under name).path walk.lister.flavor start) := by
        intro name member
        refine inductionHypothesis name (answers.subtree member) (within.subtree member) ?_
        intro directory inside
        exact seesAll (directory.under name)
          (DirectoryTree.under_mem_directories member inside)
      rw [visits, here, reached_node, List.map_cons, TreeDirectory.path_top]
      cases walk.descends failures start with
      | false => rfl
      | true =>
          simp only [if_true, List.flatMap_map, List.map_flatMap, List.map_map]
          exact congrArg _ (List.flatMap_congr later)

section Made

variable {tree : DirectoryTree} (serves : walk.lister.Serves failures start tree)
  (seesAll : walk.SeesAll tree) {endsWith : Visit → Bool}
  (goesOn : ∀ directory ∈ walk.reached failures start tree,
    endsWith (walk.visit (directory.path walk.lister.flavor start)) = false)

include serves seesAll goesOn

theorem madeVisits_served :
    walk.madeVisits ⟨none, endsWith⟩ start =
      (walk.reached failures start tree).map fun directory =>
        walk.visit (directory.path walk.lister.flavor start) := by
  have within : tree.IsWithin (walk.depthFor none) := by
    simpa [depthFor] using serves.deep
  rw [madeVisits_eq, visits_eq serves.answers within seesAll]
  apply Demand.visits_eq_self
  simpa using goesOn

theorem found_served :
    (walk.madeVisits ⟨none, endsWith⟩ start).flatMap Visit.found =
      walk.paths failures start tree := by
  rw [madeVisits_served serves seesAll goesOn, List.flatMap_map, paths, entries, List.map_flatMap]
  refine List.flatMap_congr fun directory member => ?_
  exact visit_found (serves.answers directory (List.mem_of_mem_filter member))

theorem failures_served :
    (walk.madeVisits ⟨none, endsWith⟩ start).filterMap Visit.failure? =
      walk.failuresIn failures start tree := by
  rw [madeVisits_served serves seesAll goesOn, List.filterMap_map, failuresIn]
  refine List.filterMap_congr fun directory member => ?_
  exact visit_failure? (serves.answers directory (List.mem_of_mem_filter member))

end Made

end Walk

end FileSpec
