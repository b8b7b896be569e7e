import FileSpec.Directory.Lister

/-!
Walking through directories.

A walk visits a directory and then, one after the other, everything below its subdirectories.
A visit makes one or two listing calls; if one of them fails, the directory contributes nothing
and is not descended into, but the walk goes on. The list of visits is the whole account of a
walk: its results, its calls and its failures are read off it.

A walk makes no visit that is not asked for: `madeVisits_eq` says that the visits made are the
first ones of the full list, up to the one that meets the demand.

Directories are visited at any depth. A limit that an interpreter sets on nested calls, at which
`Walk.foldVisits` would have to give up, is not modelled.
-/

set_option autoImplicit false

namespace FileSpec

structure WalkFailure where
  directory : Path
  cause : OsError
  deriving DecidableEq, Repr

def WalkFailure.message (failure : WalkFailure) : List Char :=
  "Failed to enumerate '".toList ++ failure.directory ++ "': ".toList ++ failure.cause.message

structure DirectoryListing where
  found : List Path
  subdirectories : List Path
  deriving DecidableEq, Repr

structure Visit where
  directory : Path
  calls : List ListingCall
  outcome : Except OsError DirectoryListing

namespace Visit

def found (visit : Visit) : List Path :=
  match visit.outcome with
  | .ok listing => listing.found
  | .error _ => []

def subdirectories (visit : Visit) : List Path :=
  match visit.outcome with
  | .ok listing => listing.subdirectories
  | .error _ => []

def failure? (visit : Visit) : Option WalkFailure :=
  match visit.outcome with
  | .ok _ => none
  | .error cause => some ⟨visit.directory, cause⟩

end Visit

structure Walk where
  lister : Lister
  kind : EntryKind
  wanted : Matcher
  everything : Matcher
  recursive : Bool

namespace Walk

/-- A walk for a specification; none if it or the one of everything has no matcher. -/
def ofSpecification? (lister : Lister) (kind : EntryKind) (specification : List Char)
    (recursive : Bool) : Option Walk := do
  let wanted ← lister.matcher? specification
  let everything ← lister.matcher? ['*']
  some ⟨lister, kind, wanted, everything, recursive⟩

variable (walk : Walk)

def visit (directory : Path) : Visit :=
  let wantedCall := ⟨walk.kind, directory, walk.wanted.specification⟩
  let subdirectoriesCall := ⟨.directory, directory, walk.everything.specification⟩
  match walk.lister.list walk.kind directory walk.wanted with
  | .error cause => ⟨directory, [wantedCall], .error cause⟩
  | .ok found =>
      if walk.recursive then
        match walk.lister.list .directory directory walk.everything with
        | .error cause => ⟨directory, [wantedCall, subdirectoriesCall], .error cause⟩
        | .ok subdirectories =>
            ⟨directory, [wantedCall, subdirectoriesCall], .ok ⟨found, subdirectories⟩⟩
      else ⟨directory, [wantedCall], .ok ⟨found, []⟩⟩

def visits : (depth : Nat) → Path → List Visit
  | 0, _ => []
  | depth + 1, directory =>
      walk.visit directory ::
        (walk.visit directory).subdirectories.flatMap (visits depth)

/-- Take a step for each of the visits from a directory on. One that fails is the last, and no
directory is visited after it. -/
def foldVisits {State Ended : Type} (step : State → Visit → Except Ended State) :
    (depth : Nat) → State → Path → Except Ended State
  | 0, state, _ => .ok state
  | depth + 1, state, directory =>
      let visit := walk.visit directory
      match step state visit with
      | .error ended => .error ended
      | .ok next => visit.subdirectories.foldlM (foldVisits step depth) next

theorem foldVisits_eq {State Ended : Type} (step : State → Visit → Except Ended State)
    (depth : Nat) (state : State) (directory : Path) :
    walk.foldVisits step depth state directory =
      (walk.visits depth directory).foldlM step state := by
  induction depth generalizing state directory with
  | zero => rfl
  | succ depth inductionHypothesis =>
      have foldBelow : ∀ (directories : List Path) (next : State),
          directories.foldlM (walk.foldVisits step depth) next =
            (directories.flatMap (walk.visits depth)).foldlM step next := by
        intro directories
        induction directories with
        | nil => intro next; rfl
        | cons first others othersHypothesis =>
            intro next
            simp only [List.foldlM_cons, List.flatMap_cons, List.foldlM_append,
              inductionHypothesis, othersHypothesis]
      simp only [foldVisits, visits, List.foldlM_cons]
      cases step state (walk.visit directory) with
      | error ended => rfl
      | ok next => exact foldBelow _ next

end Walk

structure Demand where
  /-- How many results are still wanted, if not all of them. -/
  wanted? : Option Nat
  endsWith : Visit → Bool

namespace Demand

variable (demand : Demand)

def isMet : Bool :=
  demand.wanted? == some 0

def after (visit : Visit) : Demand :=
  { demand with wanted? := demand.wanted?.map (· - visit.found.length) }

/-- The first visits, as long as something is wanted and up to one that ends the walk. -/
def visits (demand : Demand) : List Visit → List Visit
  | [] => []
  | visit :: others =>
      if demand.isMet then []
      else if demand.endsWith visit then [visit]
      else visit :: (demand.after visit).visits others

end Demand

/-- Where a walk stands: the visits made, the latest one first, and what is still asked for. -/
structure WalkProgress where
  made : List Visit
  demand : Demand

def WalkProgress.advance (progress : WalkProgress) (visit : Visit) :
    Except (List Visit) WalkProgress :=
  if progress.demand.isMet then .error progress.made
  else if progress.demand.endsWith visit then .error (visit :: progress.made)
  else .ok ⟨visit :: progress.made, progress.demand.after visit⟩

def WalkProgress.visits : Except (List Visit) WalkProgress → List Visit
  | .error made => made.reverse
  | .ok progress => progress.made.reverse

theorem WalkProgress.visits_foldlM (made : List Visit) (demand : Demand)
    (others : List Visit) :
    WalkProgress.visits (others.foldlM WalkProgress.advance ⟨made, demand⟩) =
      made.reverse ++ demand.visits others := by
  induction others generalizing made demand with
  | nil => simp [WalkProgress.visits, Demand.visits, pure, Except.pure]
  | cons visit others inductionHypothesis =>
      simp only [List.foldlM_cons, WalkProgress.advance, Demand.visits]
      split
      · simp [WalkProgress.visits, bind, Except.bind]
      · split
        · simp [WalkProgress.visits, bind, Except.bind]
        · simp [bind, Except.bind, inductionHypothesis]

namespace Walk

variable (walk : Walk)

/--
The depth down to which a walk has to go for `wanted` results, or for all. On a longer chain of
directories one of them occurs twice with no result found in between, and so again and again.
-/
def depthFor (wanted? : Option Nat) : Nat :=
  (wanted?.getD 0 + 1) * walk.lister.depth

def madeVisits (demand : Demand) (start : Path) : List Visit :=
  WalkProgress.visits
    (walk.foldVisits WalkProgress.advance (walk.depthFor demand.wanted?) ⟨[], demand⟩ start)

theorem madeVisits_eq (demand : Demand) (start : Path) :
    walk.madeVisits demand start =
      demand.visits (walk.visits (walk.depthFor demand.wanted?) start) := by
  rw [madeVisits, foldVisits_eq, WalkProgress.visits_foldlM, List.reverse_nil, List.nil_append]

end Walk

inductive FailurePolicy where
  /-- It is reported, and the walk goes on. -/
  | report
  /-- It is written to the log, and the walk goes on. -/
  | log
  /-- It is reported, and ends the walk. -/
  | stop
  deriving DecidableEq, Repr

structure WalkOutcome where
  result : Except WalkFailure (List Path)
  reported : List WalkFailure
  log : List (List Char)
  calls : List ListingCall

namespace Walk

variable (walk : Walk)

def run (policy : FailurePolicy) (limit? : Option Nat) (start : Path) : WalkOutcome :=
  let endsWith := fun visit : Visit => policy == .stop && visit.failure?.isSome
  let made := walk.madeVisits ⟨limit?, endsWith⟩ start
  let failures := made.filterMap Visit.failure?
  let found := made.flatMap Visit.found
  { result :=
      match policy, failures with
      | .stop, failure :: _ => .error failure
      | _, _ => .ok (match limit? with
          | none => found
          | some limit => found.take limit)
    reported := if policy = .log then [] else failures
    log :=
      if policy = .log then failures.map fun failure => "WARNING: ".toList ++ failure.message
      else []
    calls := made.flatMap Visit.calls }

end Walk

structure ListingRequest where
  directory : Path
  specification : List Char
  recursive : Bool
  deriving DecidableEq, Repr

def ListingRequest.answer? (request : ListingRequest) (lister : Lister) (kind : EntryKind)
    (policy : FailurePolicy) (limit? : Option Nat) : Option WalkOutcome := do
  let walk ← Walk.ofSpecification? lister kind request.specification request.recursive
  some (walk.run policy limit? request.directory)

/--
The request that a path makes whose file name is a specification. No file name stands for all
files, no directory for the current one, and a last directory `*` for every subdirectory of
what is in front of it.
-/
def ListingRequest.ofPath (flavor : Flavor) (path : Path) : ListingRequest :=
  let name := flavor.fileName path
  let current := ['.', flavor.separator]
  let directory := if name == path then current else flavor.directoryName .none path
  let specification := if name.isEmpty then ['*'] else name
  match flavor.lastDirectoryName .none directory with
  | .ok ['*'] =>
      let above := (Text.throughLast (· == '*') directory).dropLast
      ⟨if above.isEmpty then current else above, specification, true⟩
  | _ => ⟨directory, specification, false⟩

end FileSpec
