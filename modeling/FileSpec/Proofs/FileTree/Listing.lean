import FileSpec.FileTree.Search
import FileSpec.Proofs.FileTree.Directories

/-!
# Listing below a start

A path that leads to a directory leads below it with names of entries joined to it, however it is
written: `FileTree.LeadsTo.pathTo`. A request about such a path fails only if the path is too long.
So the lister of a tree serves the directories below a start and fails in those that are locked or
whose path is too long, be it that of the start itself.
-/

set_option autoImplicit false

namespace FileSpec

theorem IsEntryName.isLegalName {name : List Char} (legal : IsEntryName name) :
    Flavor.posix.IsLegalName name := by
  refine ⟨legal.nonempty, fun character member invalid => ?_⟩
  simp only [Flavor.posix, List.mem_cons, List.not_mem_nil, or_false] at invalid
  rcases invalid with rfl | rfl
  · exact legal.noNul member
  · exact legal.noSeparator member

namespace FileTree

variable (tree : FileTree) {path : Path} {place : Place}

/-- Each step of a path can be taken, and the last one arrives at a place. Such a path may still
be too long for a request. -/
structure LeadsTo (path : Path) (place : Place) : Prop where
  noNul : '\x00' ∉ path
  nonempty : path ≠ []
  steps : (names path).foldlM (tree.step path) (tree.startOf path) = .ok place

theorem locate_eq_ok_iff :
    tree.locate path = .ok place ↔ tree.LeadsTo path place ∧ byteLength path ≤ longestPath := by
  unfold locate requestedNames
  by_cases noNul : '\x00' ∈ path
  · have leadsNowhere : ¬ tree.LeadsTo path place := fun leads => leads.noNul noNul
    simp [noNul, leadsNowhere, bind, Except.bind]
  obtain rfl | nonempty := eq_or_ne path []
  · have leadsNowhere : ¬ tree.LeadsTo [] place := fun leads => leads.nonempty rfl
    simp [leadsNowhere, bind, Except.bind]
  by_cases long : longestPath < byteLength path
  · simp [noNul, nonempty, long, bind, Except.bind, Nat.not_le.mpr long]
  · have leads_iff : tree.LeadsTo path place ↔
        (names path).foldlM (tree.step path) (tree.startOf path) = .ok place :=
      ⟨LeadsTo.steps, LeadsTo.mk noNul nonempty⟩
    simp [noNul, nonempty, long, bind, Except.bind, Nat.not_lt.mp long, follow, leads_iff]

theorem locate_of_long (noNul : '\x00' ∉ path) (long : longestPath < byteLength path) :
    tree.locate path = .error (.os (.nameTooLong path)) := by
  have nonempty : path ≠ [] := by
    rintro rfl
    exact absurd long (by decide)
  simp [locate, requestedNames, noNul, nonempty, long, bind, Except.bind]

@[simp]
theorem step_nil : tree.step path place [] =
    if tree.isDirectoryAt place then .ok place else .error (.notADirectory path) := by
  cases directory : tree.isDirectoryAt place <;> simp [step, directory]

/-- An empty name at the end stays where the names in front of it lead. -/
theorem steps_of_steps_append_nil {start : Place} {names : List (List Char)}
    (reached : (names ++ [[]]).foldlM (tree.step path) start = .ok place) :
    names.foldlM (tree.step path) start = .ok place := by
  rw [List.foldlM_append] at reached
  obtain ⟨middle, toMiddle, stays⟩ := exists_of_bind_eq_ok reached
  rw [List.foldlM_cons] at stays
  obtain ⟨next, step, same⟩ := exists_of_bind_eq_ok stays
  obtain rfl := Except.ok.inj same
  rw [step_nil] at step
  split_ifs at step
  rw [toMiddle, Except.ok.inj step]

theorem steps_replicate_nil (isDirectory : tree.isDirectoryAt place = true) (count : Nat) :
    (List.replicate count []).foldlM (tree.step path) place = .ok place := by
  induction count with
  | zero => rfl
  | succ count inductionHypothesis =>
      rw [List.replicate_succ, List.foldlM_cons, step_nil, if_pos isDirectory]
      exact inductionHypothesis

@[simp]
theorem byteLength_replicate_slash (count : Nat) :
    byteLength (List.replicate count '/') = count := by
  induction count with
  | zero => rfl
  | succ count inductionHypothesis =>
      have single : byteLength ['/'] = 1 := by decide
      rw [List.replicate_succ', byteLength_append, inductionHypothesis, single]

@[simp]
theorem names_append_slashes (path : Path) (count : Nat) :
    names (path ++ List.replicate count '/') = names path ++ List.replicate count [] := by
  induction count with
  | zero => simp
  | succ count inductionHypothesis =>
      have separates : Flavor.posix.isSeparator '/' = true := by decide
      rw [List.replicate_succ', List.replicate_succ', ← List.append_assoc, ← List.append_assoc,
        ← inductionHypothesis, names, Flavor.pieces_append_separator separates]
      rfl

@[simp]
theorem startOf_append (nonempty : path ≠ []) (added : Path) :
    tree.startOf (path ++ added) = tree.startOf path := by
  obtain ⟨first, rest, rfl⟩ := List.exists_cons_of_ne_nil nonempty
  rfl

section Join

variable {name : List Char} (legal : IsEntryName name)

include legal

theorem join_eq_addSuffix (nonempty : path ≠ []) :
    Flavor.posix.join path name = Flavor.posix.addSuffix path ++ name :=
  PathStyle.posix.join_eq nonempty legal.isLegalName

theorem join_append_slashes (path : Path) {count : Nat} (positive : 0 < count) :
    Flavor.posix.join (path ++ List.replicate count '/') name =
      path ++ List.replicate count '/' ++ name := by
  obtain ⟨count, rfl⟩ := Nat.exists_eq_add_one_of_ne_zero positive.ne'
  have ends : Flavor.posix.endsWithSeparator (path ++ List.replicate (count + 1) '/') = true := by
    rw [List.replicate_succ', ← List.append_assoc,
      Flavor.endsWithSeparator_append (List.cons_ne_nil '/' [])]
    rfl
  rw [join_eq_addSuffix legal (by simp), Flavor.addSuffix_of_endsWithSeparator ends]

theorem noNul_join (nonempty : path ≠ []) (noNul : '\x00' ∉ path) :
    '\x00' ∉ Flavor.posix.join path name := by
  rw [join_eq_addSuffix legal nonempty, List.mem_append, not_or, Flavor.addSuffix]
  refine ⟨?_, legal.noNul⟩
  split
  · exact noNul
  · simp [noNul, Flavor.posix]

/-- The names in a path with one more name at its end, for a path that leads somewhere. -/
theorem steps_join {start : Place} (nonempty : path ≠ [])
    (reached : (names path).foldlM (tree.step path) start = .ok place)
    (present : (tree.node? (place ++ [name])).isSome = true) :
    (names (Flavor.posix.join path name)).foldlM (tree.step (Flavor.posix.join path name)) start =
      .ok (place ++ [name]) := by
  have single : Flavor.posix.pieces name = [name] :=
    Flavor.pieces_of_plain (isSeparator_eq_false_of_not_mem legal.noSeparator)
  obtain ⟨above, split, reachedAbove⟩ : ∃ above,
      names (Flavor.posix.join path name) = above ++ [name] ∧
        above.foldlM (tree.step path) start = .ok place := by
    rw [join_eq_addSuffix legal nonempty, Flavor.addSuffix]
    split
    · next ends =>
        obtain ⟨front, last, rfl⟩ := path.eq_nil_or_concat'.resolve_left nonempty
        have separates : Flavor.posix.isSeparator last = true := by
          simpa [Flavor.endsWithSeparator] using ends
        refine ⟨Flavor.posix.pieces front, ?_, tree.steps_of_steps_append_nil ?_⟩
        · rw [names, List.append_assoc, List.singleton_append,
            Flavor.pieces_append_separator separates, single]
        · rw [names, Flavor.pieces_append_separator separates] at reached
          exact reached
    · refine ⟨names path, ?_, reached⟩
      rw [names, List.append_assoc, List.singleton_append,
        Flavor.pieces_append_separator Flavor.isSeparator_separator, single, names]
  rw [split, List.foldlM_append, tree.steps_of_steps reachedAbove]
  exact tree.steps_of_present _ (List.forall_mem_singleton.mpr legal) present

end Join

namespace LeadsTo

variable {tree} (leads : tree.LeadsTo path place)

include leads

/-- A request about a path that leads somewhere fails only if the path is too long. -/
theorem locate_eq : tree.locate path =
    if byteLength path ≤ longestPath then .ok place else .error (.os (.nameTooLong path)) := by
  split
  · next short => exact tree.locate_eq_ok_iff.mpr ⟨leads, short⟩
  · next long => exact tree.locate_of_long leads.noNul (Nat.not_le.mp long)

/-- Slashes behind the path of a directory change nothing. -/
theorem append_slashes (isDirectory : tree.isDirectoryAt place = true) (count : Nat) :
    tree.LeadsTo (path ++ List.replicate count '/') place where
  noNul := by simp [leads.noNul]
  nonempty := by simp [leads.nonempty]
  steps := by
    rw [names_append_slashes, tree.startOf_append leads.nonempty, List.foldlM_append,
      tree.steps_of_steps leads.steps]
    exact tree.steps_replicate_nil isDirectory count

theorem join {name : List Char} (legal : IsEntryName name)
    (present : (tree.node? (place ++ [name])).isSome = true) :
    tree.LeadsTo (Flavor.posix.join path name) (place ++ [name]) where
  noNul := noNul_join legal leads.nonempty leads.noNul
  nonempty := PathStyle.posix.join_ne_nil leads.nonempty legal.isLegalName
  steps := by
    have sameStart : tree.startOf (Flavor.posix.join path name) = tree.startOf path := by
      obtain ⟨added, whole⟩ := Flavor.posix.isPrefix_addSuffix path
      rw [join_eq_addSuffix legal leads.nonempty, ← whole, List.append_assoc,
        tree.startOf_append leads.nonempty]
    rw [sameStart]
    exact tree.steps_join legal leads.nonempty leads.steps present

/-- However a start is written, the path of what is below it leads there. -/
theorem pathTo {names : List Path} (legal : ∀ name ∈ names, IsEntryName name)
    (present : (tree.node? (place ++ names)).isSome = true) :
    tree.LeadsTo (Flavor.posix.pathTo path names) (place ++ names) := by
  induction names generalizing path place with
  | nil => rwa [List.append_nil]
  | cons name names inductionHypothesis =>
      obtain ⟨legalName, legalOthers⟩ := List.forall_mem_cons.mp legal
      rw [List.append_cons] at present ⊢
      have here : (tree.node? (place ++ [name])).isSome = true := by
        rw [node?_append] at present
        exact Option.isSome_of_isSome_bind present
      exact inductionHypothesis (leads.join legalName here) legalOthers present

end LeadsTo

/-- Why a directory cannot be listed by its path. -/
def listingFailure? (path : Path) : Option OsError :=
  match tree.locate path with
  | .error (.os error) => some error
  | .error .nulInPath => some (.notFound path)
  | .ok place => if tree.locked.contains place then some (.permissionDenied path) else none

/-- A directory below a start is not locked, and a request can be about its path. -/
def IsOpen (start : Path) (place : Place) (names : List Path) : Prop :=
  place ++ names ∉ tree.locked ∧ byteLength (Flavor.posix.pathTo start names) ≤ longestPath

instance (start : Path) (place : Place) (names : List Path) :
    Decidable (tree.IsOpen start place names) :=
  inferInstanceAs (Decidable (_ ∧ _))

/-- Why a directory that is not open is refused. -/
def refusal (path : Path) : OsError :=
  if byteLength path ≤ longestPath then .permissionDenied path else .nameTooLong path

section Served

variable {start : Path} (leads : tree.LeadsTo start place)

include leads

theorem listingFailure?_pathTo {names : List Path} (legal : ∀ name ∈ names, IsEntryName name)
    (present : (tree.node? (place ++ names)).isSome = true) :
    tree.listingFailure? (Flavor.posix.pathTo start names) =
      if tree.IsOpen start place names then none
      else some (refusal (Flavor.posix.pathTo start names)) := by
  rw [listingFailure?, (leads.pathTo legal present).locate_eq, refusal]
  by_cases short : byteLength (Flavor.posix.pathTo start names) ≤ longestPath <;>
    by_cases locked : place ++ names ∈ tree.locked <;> simp [IsOpen, short, locked]

theorem answersIn_listedAt (ignoreCase : Bool) {names : List Path}
    (legal : ∀ name ∈ names, IsEntryName name) {inner : Node}
    (present : tree.node? (place ++ names) = some inner) (isInner : inner.isDirectory = true) :
    (tree.lister .posix ignoreCase).AnswersIn (fun _ => tree.listingFailure?) start
      (inner.listedAt names) := by
  intro kind matcher
  have isSome : (tree.node? (place ++ names)).isSome = true := by rw [present]; rfl
  have isDirectory : tree.isDirectoryAt (place ++ names) = true := by
    rw [isDirectoryAt, present, Option.any_some, isInner]
  have entries : tree.entryNames (isOfKind kind) (place ++ names) = inner.namesOf kind := by
    rw [entryNames, present]
    rfl
  have located := (leads.pathTo legal isSome).locate_eq
  rw [Node.entries_listedAt]
  simp only [TreeDirectory.path, lister, Node.listedAt, listMatching, list, listingFailure?,
    located]
  split_ifs with short
  · by_cases locked : place ++ names ∈ tree.locked
    · simp [locked, bind, Except.bind, Except.mapError]
    · simp [locked, isDirectory, entries, bind, Except.bind, Except.mapError]
  · rfl

end Served

/-- A path leads to a directory that has names of entries only, there and below. -/
structure StartsAt (tree : FileTree) (start : Path) (place : Place) (node : Node) : Prop where
  leads : tree.LeadsTo start place
  present : tree.node? place = some node
  named : node.HasEntryNames
  isDirectory : node.isDirectory = true

theorem StartsAt.of_leads {tree : FileTree} (named : tree.top.HasEntryNames) {start : Path}
    {place : Place} (leads : tree.LeadsTo start place)
    (isDirectory : tree.isDirectoryAt place = true) :
    ∃ node, tree.StartsAt start place node := by
  rw [isDirectoryAt, Option.any_eq_true] at isDirectory
  obtain ⟨node, present, isNode⟩ := isDirectory
  exact ⟨node, leads, present, (named.of_below? present).2, isNode⟩

theorem StartsAt.mem_directories_iff {tree : FileTree} {start : Path} {place : Place} {node : Node}
    (starts : tree.StartsAt start place node) {directory : TreeDirectory} :
    directory ∈ node.directoryTree.directories ↔
      ∃ inner, node.below? directory.names = some inner ∧ inner.isDirectory = true ∧
        directory = inner.listedAt directory.names :=
  Node.mem_directories_iff starts.named starts.isDirectory

theorem StartsAt.serves {tree : FileTree} {start : Path} {place : Place} {node : Node}
    (starts : tree.StartsAt start place node) (ignoreCase : Bool) :
    (tree.lister .posix ignoreCase).Serves (fun _ => tree.listingFailure?) start
      node.directoryTree where
  answers directory member := by
    obtain ⟨inner, below, isInner, same⟩ := starts.mem_directories_iff.mp member
    rw [same]
    refine tree.answersIn_listedAt starts.leads ignoreCase (starts.named.of_below? below).1 ?_
      isInner
    rw [node?_append, starts.present, Option.bind_some, below]
  deep directory member := by
    have inNode := Node.isWithin_size starts.named starts.isDirectory directory member
    have inTree := Node.size_below?_le starts.present
    exact Nat.lt_of_lt_of_le inNode (by simp only [lister]; omega)

end FileTree

end FileSpec
