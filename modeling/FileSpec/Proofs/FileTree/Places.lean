import FileSpec.FileTree.Plain
import FileSpec.Proofs.Except
import FileSpec.Proofs.Path.Components
import FileSpec.Proofs.Path.Names
import Mathlib.Tactic.MkIffOfInductiveProp

/-!
# Places and their paths

The path of a place leads to it if there is something there. If not, the way ends at a name that is
not found or below something that is not a directory.
-/

set_option autoImplicit false

namespace FileSpec

/-- A name that an entry of a directory can have. -/
@[mk_iff]
structure IsEntryName (name : List Char) : Prop where
  nonempty : name ≠ []
  noSeparator : '/' ∉ name
  noNul : '\x00' ∉ name
  notHere : name ≠ ['.']
  notUp : name ≠ ['.', '.']
  short : FileTree.byteLength name ≤ FileTree.longestName

instance : DecidablePred IsEntryName :=
  fun name => decidable_of_iff _ (isEntryName_iff name).symm

/-- A place below the top whose path is not too long for a request. -/
structure Place.CanBeRequested (place : Place) : Prop where
  below : place ≠ []
  named : ∀ name ∈ place, IsEntryName name
  short : FileTree.byteLength place.path ≤ FileTree.longestPath

@[simp]
theorem FileTree.byteLength_append (first second : List Char) :
    byteLength (first ++ second) = byteLength first + byteLength second := by
  rw [byteLength, String.ofList_append, String.utf8ByteSize_append]
  rfl

theorem isSeparator_eq_false_of_not_mem {name : List Char} (noSeparator : '/' ∉ name) :
    ∀ character ∈ name, Flavor.posix.isSeparator character = false := by
  intro character member
  rw [← Bool.not_eq_true]
  intro separates
  have slash : character = '/' := by simpa [Flavor.isSeparator, Flavor.posix] using separates
  exact noSeparator (slash ▸ member)

theorem FileTree.names_intercalate {names : List (List Char)} (nonempty : names ≠ [])
    (plain : ∀ name ∈ names, '/' ∉ name) :
    FileTree.names (['/'].intercalate names) = names := by
  induction names with
  | nil => exact absurd rfl nonempty
  | cons name names inductionHypothesis =>
      obtain ⟨plainName, plainOthers⟩ := List.forall_mem_cons.mp plain
      have single := Flavor.pieces_of_plain (isSeparator_eq_false_of_not_mem plainName)
      cases names with
      | nil =>
          rw [List.intercalate_singleton, FileTree.names, single]
      | cons next others =>
          rw [List.intercalate_cons_of_ne_nil (List.cons_ne_nil next others), List.append_assoc,
            List.singleton_append, FileTree.names, Flavor.pieces_append_separator (by decide),
            single]
          exact congrArg (name :: ·)
            (inductionHypothesis (List.cons_ne_nil next others) plainOthers)

namespace Place

theorem names_path {place : Place} (below : place ≠ []) (plain : ∀ name ∈ place, '/' ∉ name) :
    FileTree.names place.path = [] :: place := by
  rw [path, FileTree.names, Flavor.pieces_separator (by decide)]
  exact congrArg ([] :: ·) (FileTree.names_intercalate below plain)

theorem mem_path {place : Place} {character : Char} (member : character ∈ place.path) :
    character = '/' ∨ ∃ name ∈ place, character ∈ name := by
  rcases List.mem_cons.mp member with slash | inside
  · exact .inl slash
  · induction place with
    | nil => cases inside
    | cons name names inductionHypothesis =>
        cases names with
        | nil =>
            rw [List.intercalate_singleton] at inside
            exact .inr ⟨name, List.mem_cons_self, inside⟩
        | cons next others =>
            rw [List.intercalate_cons_of_ne_nil (List.cons_ne_nil next others),
              List.mem_append, List.mem_append, List.mem_singleton] at inside
            rcases inside with (here | slash) | later
            · exact .inr ⟨name, List.mem_cons_self, here⟩
            · exact .inl slash
            · refine (inductionHypothesis (List.mem_cons_of_mem _ later) later).imp_right ?_
              rintro ⟨other, present, member⟩
              exact ⟨other, List.mem_cons_of_mem name present, member⟩

theorem byteLength_path (front : Place) (last : List Char) :
    FileTree.byteLength (path (front ++ [last])) =
      FileTree.byteLength ['/'] + FileTree.byteLength (Flavor.posix.separated front) +
        FileTree.byteLength last := by
  have inside := Flavor.posix.separated_append_eq_intercalate front last
  rw [path, ← List.singleton_append, FileTree.byteLength_append, Nat.add_assoc,
    ← FileTree.byteLength_append (Flavor.posix.separated front), inside]
  rfl

/-- What can be requested below a place can be so above it, under a name that is no longer. -/
theorem CanBeRequested.above {start above : Place} {name other : List Char}
    (requested : CanBeRequested (start ++ [name])) (isAbove : above <+: start)
    (legal : IsEntryName other)
    (notLonger : FileTree.byteLength other ≤ FileTree.byteLength name) :
    CanBeRequested (above ++ [other]) := by
  obtain ⟨rest, rfl⟩ := isAbove
  refine ⟨by simp, ?_, ?_⟩
  · intro step member
    rcases List.mem_append.mp member with higher | last
    · exact requested.named step (by simp [higher])
    · rw [List.mem_singleton.mp last]
      exact legal
  · have short := requested.short
    rw [byteLength_path, Flavor.separated, List.flatMap_append,
      FileTree.byteLength_append] at short
    rw [byteLength_path, Flavor.separated]
    omega

end Place

namespace PlainPath

/-- The root is one that a path can have, and the names are neither empty nor dots. -/
structure IsPlain (plain : PlainPath) : Prop where
  rooted : plain.root = [] ∨ plain.root = ['/'] ∨ plain.root = ['/', '/']
  nonempty : ∀ name ∈ plain.names, name ≠ []
  noSeparator : ∀ name ∈ plain.names, '/' ∉ name
  notHere : ∀ name ∈ plain.names, name ≠ ['.']

theorem isPlain_ofPath (path : Path) : (ofPath path).IsPlain := by
  have parts : ∀ name ∈ (ofPath path).names, name ∈ FileTree.names path ∧ name ≠ [] ∧
      name ≠ ['.'] := by
    intro name member
    simpa [ofPath, and_assoc] using member
  refine ⟨?_, fun name member => (parts name member).2.1, ?_,
    fun name member => (parts name member).2.2⟩
  · unfold ofPath rootOf
    dsimp only
    split <;> simp
  · intro name member inside
    have plain := (Flavor.mem_of_mem_pieces (parts name member).1 '/' inside).2
    exact absurd plain (by decide)

theorem mem_goUp {start : Place} {names : List (List Char)} {name : List Char}
    (member : name ∈ goUp start names) : name ∈ start ∨ name ∈ names := by
  induction names generalizing start with
  | nil => exact .inl member
  | cons first names inductionHypothesis =>
      rcases inductionHypothesis member with before | later
      · dsimp only at before
        split at before
        · exact .inl ((List.dropLast_sublist start).subset before)
        · rcases List.mem_append.mp before with above | here
          · exact .inl above
          · exact .inr (List.mem_cons.mpr (.inl (List.mem_singleton.mp here)))
      · exact .inr (List.mem_cons_of_mem first later)

theorem IsPlain.of_subset {root : Path} {names others : List (List Char)}
    (isPlain : IsPlain ⟨root, names⟩) (included : others ⊆ names) : IsPlain ⟨root, others⟩ where
  rooted := isPlain.rooted
  nonempty name member := isPlain.nonempty name (included member)
  noSeparator name member := isPlain.noSeparator name (included member)
  notHere name member := isPlain.notHere name (included member)

/-- The place that an absolute path names has a plain path. -/
theorem isPlain_place_of_rooted {path : Path} (rooted : path.head? = some '/')
    (workingDirectory : Place) : IsPlain ⟨['/'], (ofPath path).place workingDirectory⟩ := by
  have isPlain : IsPlain ⟨['/'], (ofPath path).names⟩ :=
    { isPlain_ofPath path with rooted := .inr (.inl rfl) }
  refine isPlain.of_subset fun name member => ?_
  have hasRoot : (ofPath path).root.isEmpty = false := by
    obtain ⟨rest, rfl⟩ := List.head?_eq_some_iff.mp rooted
    unfold ofPath rootOf
    dsimp only
    split <;> simp_all
  rw [place, hasRoot, if_neg Bool.false_ne_true] at member
  exact (mem_goUp member).resolve_left List.not_mem_nil

theorem exists_intercalate_eq_cons {names : List (List Char)} (hasNames : names ≠ [])
    (nonempty : ∀ name ∈ names, name ≠ []) (noSeparator : ∀ name ∈ names, '/' ∉ name) :
    ∃ first rest, ['/'].intercalate names = first :: rest ∧ first ≠ '/' := by
  obtain ⟨name, names, rfl⟩ := List.exists_cons_of_ne_nil hasNames
  obtain ⟨first, letters, rfl⟩ := List.exists_cons_of_ne_nil (nonempty name List.mem_cons_self)
  have plain : first ≠ '/' := by
    rintro rfl
    exact noSeparator _ List.mem_cons_self List.mem_cons_self
  cases names with
  | nil => exact ⟨first, letters, List.intercalate_singleton, plain⟩
  | cons next others =>
      refine ⟨first, letters ++ ['/'] ++ ['/'].intercalate (next :: others), ?_, plain⟩
      rw [List.intercalate_cons_of_ne_nil (List.cons_ne_nil next others)]
      rfl

/-- The text of a plain path is read as that path again. -/
theorem ofPath_path {plain : PlainPath} (isPlain : plain.IsPlain) (hasNames : plain.names ≠ []) :
    ofPath plain.path = plain := by
  obtain ⟨root, names⟩ := plain
  obtain ⟨rooted, nonempty, noSeparator, notHere⟩ := isPlain
  dsimp only at rooted nonempty noSeparator notHere hasNames
  have kept : names.filter (fun name => !name.isEmpty && name != ['.']) = names := by
    rw [List.filter_eq_self]
    intro name member
    simp [nonempty name member, notHere name member]
  have read := FileTree.names_intercalate hasNames noSeparator
  obtain ⟨first, rest, head, plainHead⟩ :=
    exists_intercalate_eq_cons hasNames nonempty noSeparator
  have written : path ⟨root, names⟩ = root ++ first :: rest := by
    simp [path, hasNames, head]
  rw [head] at read
  have separates : Flavor.posix.isSeparator '/' = true := by decide
  rw [written]
  rcases rooted with rfl | rfl | rfl
  · have noRoot : rootOf (first :: rest) = [] := by simp [rootOf, plainHead]
    simp [ofPath, noRoot, read, kept]
  · have oneSlash : rootOf ('/' :: first :: rest) = ['/'] := by simp [rootOf, plainHead]
    have below : FileTree.names ('/' :: first :: rest) = [] :: names := by
      rw [FileTree.names, Flavor.pieces_separator separates]
      exact congrArg _ read
    simp [ofPath, oneSlash, below, kept]
  · have twoSlashes : rootOf ('/' :: '/' :: first :: rest) = ['/', '/'] := by
      simp [rootOf, plainHead]
    have below : FileTree.names ('/' :: '/' :: first :: rest) = [] :: [] :: names := by
      rw [FileTree.names, Flavor.pieces_separator separates, Flavor.pieces_separator separates]
      exact congrArg (fun others => [] :: [] :: others) read
    simp [ofPath, twoSlashes, below, kept]

end PlainPath

@[simp]
theorem Node.below?_append (front back : Place) (node : Node) :
    node.below? (front ++ back) = (node.below? front).bind (Node.below? back) := by
  induction front generalizing node with
  | nil => rfl
  | cons name front inductionHypothesis =>
      rw [List.cons_append, below?_cons, below?_cons]
      cases node.entries.lookup name with
      | none => rfl
      | some entry => exact inductionHypothesis entry

namespace FileTree

variable (tree : FileTree)

theorem node?_append (front back : Place) :
    tree.node? (front ++ back) = (tree.node? front).bind (Node.below? back) :=
  Node.below?_append front back tree.top

theorem isDirectoryAt_of_below {place : Place} {name : List Char} {names : List (List Char)}
    (present : (tree.node? (place ++ name :: names)).isSome = true) :
    tree.isDirectoryAt place = true := by
  rw [node?_append] at present
  unfold isDirectoryAt
  cases here : tree.node? place with
  | none => simp [here] at present
  | some node =>
      cases node with
      | file content => simp [here] at present
      | directory entries => rfl

variable (path : Path) {place : Place} {names : List (List Char)}

theorem step_of_present {name : List Char} (legal : IsEntryName name)
    (present : (tree.node? (place ++ [name])).isSome = true) :
    tree.step path place name = .ok (place ++ [name]) := by
  have short : ¬ longestName < byteLength name := Nat.not_lt.mpr legal.short
  simp [step, tree.isDirectoryAt_of_below present, legal.nonempty, legal.notHere, legal.notUp,
    short, present]

theorem step_of_absent {name : List Char} (legal : IsEntryName name)
    (absent : tree.node? (place ++ [name]) = none) :
    ∃ error : OsError, tree.step path place name = .error error ∧
      (error.isNotFound || error.isNotDirectory) = true := by
  by_cases directory : tree.isDirectoryAt place = true
  · have short : ¬ longestName < byteLength name := Nat.not_lt.mpr legal.short
    refine ⟨.notFound path, ?_, rfl⟩
    simp [step, directory, legal.nonempty, legal.notHere, legal.notUp, short, absent]
  · refine ⟨.notADirectory path, ?_, rfl⟩
    simp [step, directory]

theorem steps_of_present (legal : ∀ name ∈ names, IsEntryName name)
    (present : (tree.node? (place ++ names)).isSome = true) :
    names.foldlM (tree.step path) place = .ok (place ++ names) := by
  induction names generalizing place with
  | nil =>
      rw [List.append_nil]
      rfl
  | cons name names inductionHypothesis =>
      obtain ⟨legalName, legalOthers⟩ := List.forall_mem_cons.mp legal
      rw [List.append_cons] at present
      have here : (tree.node? (place ++ [name])).isSome = true := by
        rw [node?_append] at present
        exact Option.isSome_of_isSome_bind present
      rw [List.append_cons, List.foldlM_cons, tree.step_of_present path legalName here]
      exact inductionHypothesis legalOthers present

theorem steps_of_absent (legal : ∀ name ∈ names, IsEntryName name)
    (start : (tree.node? place).isSome = true) (absent : tree.node? (place ++ names) = none) :
    ∃ error : OsError, names.foldlM (tree.step path) place = .error error ∧
      (error.isNotFound || error.isNotDirectory) = true := by
  induction names generalizing place with
  | nil =>
      rw [List.append_nil] at absent
      simp [absent] at start
  | cons name names inductionHypothesis =>
      obtain ⟨legalName, legalOthers⟩ := List.forall_mem_cons.mp legal
      rw [List.append_cons] at absent
      cases here : tree.node? (place ++ [name]) with
      | none =>
          obtain ⟨error, failed, kind⟩ := tree.step_of_absent path legalName here
          refine ⟨error, ?_, kind⟩
          rw [List.foldlM_cons, failed]
          rfl
      | some node =>
          have present : (tree.node? (place ++ [name])).isSome = true := by rw [here]; rfl
          obtain ⟨error, failed, kind⟩ := inductionHypothesis legalOthers present absent
          refine ⟨error, ?_, kind⟩
          rw [List.foldlM_cons, tree.step_of_present path legalName present]
          exact failed

theorem requestedNames_path (requested : place.CanBeRequested) :
    requestedNames place.path = .ok ([] :: place) := by
  have noNul : '\x00' ∉ place.path := by
    intro member
    rcases Place.mem_path member with slash | ⟨name, present, inside⟩
    · exact absurd slash (by decide)
    · exact (requested.named name present).noNul inside
  have notEmpty : place.path.isEmpty = false := rfl
  have names := Place.names_path requested.below fun name member =>
    (requested.named name member).noSeparator
  simp [requestedNames, noNul, notEmpty, Nat.not_lt.mpr requested.short, names]

theorem locate_eq_steps (requested : place.CanBeRequested) :
    tree.locate place.path =
      ((([] :: place).foldlM (tree.step place.path) []).mapError .os) := by
  rw [locate, requestedNames_path requested]
  rfl

theorem locate_of_present (requested : place.CanBeRequested)
    (present : (tree.node? place).isSome = true) : tree.locate place.path = .ok place := by
  obtain ⟨name, names, rfl⟩ := List.exists_cons_of_ne_nil requested.below
  have top : tree.isDirectoryAt [] = true := tree.isDirectoryAt_of_below present
  have first : tree.step (Place.path (name :: names)) [] [] = .ok [] := by simp [step, top]
  rw [tree.locate_eq_steps requested, List.foldlM_cons, first]
  have reached : (tree.node? ([] ++ name :: names)).isSome = true := present
  have steps := tree.steps_of_present (Place.path (name :: names)) requested.named reached
  exact congrArg _ steps

theorem locate_of_absent (requested : place.CanBeRequested) (absent : tree.node? place = none) :
    ∃ error : OsError, tree.locate place.path = .error (.os error) ∧
      (error.isNotFound || error.isNotDirectory) = true := by
  rw [tree.locate_eq_steps requested, List.foldlM_cons]
  by_cases top : tree.isDirectoryAt [] = true
  · have first : tree.step place.path [] [] = .ok [] := by simp [step, top]
    have start : (tree.node? []).isSome = true := rfl
    obtain ⟨error, failed, kind⟩ := tree.steps_of_absent place.path requested.named start absent
    refine ⟨error, ?_, kind⟩
    rw [first]
    exact congrArg _ failed
  · have first : tree.step place.path [] [] = .error (.notADirectory place.path) := by
      simp [step, top]
    refine ⟨.notADirectory place.path, ?_, rfl⟩
    rw [first]
    rfl

/-- A step that is taken arrives at a file or directory. -/
theorem isSome_of_step {name : List Char} {next : Place}
    (taken : tree.step path place name = .ok next) : (tree.node? next).isSome = true := by
  have isSome_of_directory :
      tree.isDirectoryAt place = true → (tree.node? place).isSome = true := by
    unfold isDirectoryAt
    cases tree.node? place <;> simp
  unfold step at taken
  split_ifs at taken with noDirectory stays up tooLong present
  · obtain rfl := Except.ok.inj taken
    exact isSome_of_directory (by simpa using noDirectory)
  · obtain rfl := Except.ok.inj taken
    have here := isSome_of_directory (by simpa using noDirectory)
    rcases place.eq_nil_or_concat' with rfl | ⟨above, last, rfl⟩
    · exact here
    · rw [node?_append] at here
      rw [List.dropLast_concat]
      exact Option.isSome_of_isSome_bind here
  · obtain rfl := Except.ok.inj taken
    exact present

theorem isSome_of_steps {next : Place} (start : (tree.node? place).isSome = true)
    (taken : names.foldlM (tree.step path) place = .ok next) : (tree.node? next).isSome = true := by
  induction names generalizing place with
  | nil =>
      obtain rfl := Except.ok.inj taken
      exact start
  | cons name names inductionHypothesis =>
      rw [List.foldlM_cons] at taken
      obtain ⟨middle, first, others⟩ := exists_of_bind_eq_ok taken
      exact inductionHypothesis (tree.isSome_of_step path first) others

theorem isSome_of_locate (found : tree.locate path = .ok place) :
    (tree.node? place).isSome = true := by
  obtain ⟨names, requested, followed⟩ := exists_of_bind_eq_ok found
  have someNames : names ≠ [] := by
    unfold requestedNames at requested
    split_ifs at requested
    rw [← Except.ok.inj requested]
    exact Flavor.posix.pieces_ne_nil path
  obtain ⟨name, others, rfl⟩ := List.exists_cons_of_ne_nil someNames
  rw [follow, mapError_eq_ok_iff, List.foldlM_cons] at followed
  obtain ⟨middle, first, others⟩ := exists_of_bind_eq_ok followed
  exact tree.isSome_of_steps path (tree.isSome_of_step path first) others

/-- Why a step cannot be taken, or a path cannot be followed. -/
def lookupErrors : List OsError :=
  [.notFound path, .notADirectory path, .nameTooLong path]

theorem mem_lookupErrors_of_steps {error : OsError}
    (failed : names.foldlM (tree.step path) place = .error error) : error ∈ lookupErrors path := by
  induction names generalizing place with
  | nil => cases failed
  | cons name names inductionHypothesis =>
      rw [List.foldlM_cons, bind_eq_error_iff] at failed
      rcases failed with first | ⟨middle, -, others⟩
      · unfold step at first
        split_ifs at first <;> obtain rfl := Except.error.inj first <;> simp [lookupErrors]
      · exact inductionHypothesis others

theorem mem_lookupErrors_of_locate {error : OsError}
    (failed : tree.locate path = .error (.os error)) : error ∈ lookupErrors path := by
  rw [locate, bind_eq_error_iff] at failed
  rcases failed with refused | ⟨names, -, lost⟩
  · unfold requestedNames at refused
    split_ifs at refused
    · cases refused
    · obtain rfl := FileError.os.inj (Except.error.inj refused)
      exact List.mem_cons_self
    · obtain rfl := FileError.os.inj (Except.error.inj refused)
      simp [lookupErrors]
  · obtain ⟨cause, failed, same⟩ := mapError_eq_error_iff.mp lost
    obtain rfl := FileError.os.inj same
    exact tree.mem_lookupErrors_of_steps path failed

end FileTree

end FileSpec
