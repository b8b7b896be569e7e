import FileSpec.Proofs.Directory.FileWalk

/-!
# Walks that end early

A walk for the first results makes the visits up to the one that finds the last of them, and a walk
that a failure ends makes the visits up to the first one that fails. So the calls made are the
first ones of the walk for all results: `Walk.run_first` and `Walk.stops_or_not`.
-/

set_option autoImplicit false

namespace FileSpec

/-- A list in two parts, the first of which ends with the item that yields the last of the wanted
results, or holds all items if the results do not suffice. -/
structure EndsAt {Item Result : Type} (results : Item → List Result) (wanted : Nat)
    (front back : List Item) : Prop where
  needed : ∀ before last, front = before ++ [last] → (before.flatMap results).length < wanted
  enough : back ≠ [] → wanted ≤ (front.flatMap results).length

namespace EndsAt

variable {Item Result : Type} {results : Item → List Result} {wanted : Nat}
  {front back : List Item}

theorem of_map {Source Other : Type} {make : Source → Item} {sources others : List Source}
    {otherResults : Source → List Other}
    (same : ∀ source ∈ sources, (results (make source)).length = (otherResults source).length)
    (ends : EndsAt results wanted (sources.map make) (others.map make)) :
    EndsAt otherResults wanted sources others := by
  have count : ∀ part, part ⊆ sources →
      ((part.map make).flatMap results).length = (part.flatMap otherResults).length := by
    intro part included
    rw [List.flatMap_map, List.length_flatMap, List.length_flatMap]
    congr 1
    exact List.map_congr_left fun source member => same source (included member)
  constructor
  · intro before last shape
    rw [← count before (shape ▸ List.subset_append_left before [last])]
    exact ends.needed (before.map make) (make last) (by simp [shape])
  · intro more
    rw [← count sources (List.Subset.refl sources)]
    exact ends.enough (by simpa using more)

variable (ends : EndsAt results wanted front back)

include ends

theorem take_eq :
    (front.flatMap results).take wanted = ((front ++ back).flatMap results).take wanted := by
  rw [List.flatMap_append]
  by_cases all : back = []
  · simp [all]
  · rw [List.take_append_of_le_length (ends.enough all)]

theorem front_eq_nil (nothing : wanted = 0) : front = [] := by
  rcases front.eq_nil_or_concat' with rfl | ⟨before, last, rfl⟩
  · rfl
  · have fewer := ends.needed before last rfl
    omega

theorem exists_last (positive : 0 < wanted)
    (available : wanted ≤ ((front ++ back).flatMap results).length) :
    ∃ before last, front = before ++ [last] ∧
      (before.flatMap results).length < wanted ∧ wanted ≤ (front.flatMap results).length := by
  have enough : wanted ≤ (front.flatMap results).length := by
    by_cases all : back = []
    · simpa [all] using available
    · exact ends.enough all
  rcases front.eq_nil_or_concat' with rfl | ⟨before, last, rfl⟩
  · simp only [List.flatMap_nil, List.length_nil] at enough
    omega
  · exact ⟨before, last, rfl, ends.needed before last rfl, enough⟩

theorem back_eq_nil (few : ((front ++ back).flatMap results).length < wanted) : back = [] := by
  by_contra more
  have enough := ends.enough more
  rw [List.flatMap_append, List.length_append] at few
  omega

end EndsAt

namespace Demand

variable {wanted? : Option Nat} {endsWith : Visit → Bool} {visits others : List Visit}
  {visit : Visit}

@[simp]
theorem visits_of_met : Demand.visits ⟨some 0, endsWith⟩ visits = [] := by
  cases visits with
  | nil => rfl
  | cons visit others => simp [Demand.visits, isMet]

theorem visits_of_endsWith (notMet : wanted? ≠ some 0) (ends : endsWith visit = true) :
    Demand.visits ⟨wanted?, endsWith⟩ (visit :: others) = [visit] := by
  simp [Demand.visits, isMet, notMet, ends]

theorem visits_of_goesOn (notMet : wanted? ≠ some 0) (goesOn : endsWith visit = false) :
    Demand.visits ⟨wanted?, endsWith⟩ (visit :: others) =
      visit :: Demand.visits ⟨wanted?.map (· - visit.found.length), endsWith⟩ others := by
  simp [Demand.visits, isMet, notMet, goesOn, after]

theorem visits_isPrefix : Demand.visits ⟨wanted?, fun _ => false⟩ visits <+: visits := by
  induction visits generalizing wanted? with
  | nil => exact List.prefix_rfl
  | cons visit others inductionHypothesis =>
      by_cases met : wanted? = some 0
      · rw [met, visits_of_met]
        exact List.nil_prefix
      · rw [visits_of_goesOn met rfl, List.prefix_cons_inj]
        exact inductionHypothesis

/-- The visits for a number of results end with the one that finds the last of them. -/
theorem visits_endsAt {wanted : Nat} {back : List Visit}
    (whole : Demand.visits ⟨some wanted, fun _ => false⟩ visits ++ back = visits) :
    EndsAt Visit.found wanted (Demand.visits ⟨some wanted, fun _ => false⟩ visits) back := by
  induction visits generalizing wanted with
  | nil =>
      obtain ⟨_, rfl⟩ := List.append_eq_nil_iff.mp whole
      exact ⟨by simp [Demand.visits], by simp⟩
  | cons visit others inductionHypothesis =>
      rcases Nat.eq_zero_or_pos wanted with rfl | positive
      · rw [visits_of_met]
        exact ⟨by simp, by simp⟩
      · have notMet : some wanted ≠ some 0 := by simpa using positive.ne'
        rw [visits_of_goesOn notMet rfl, Option.map_some] at whole ⊢
        have ends := inductionHypothesis (List.cons.inj whole).2
        constructor
        · intro before last shape
          rcases List.cons_eq_append_iff.mp shape with ⟨rfl, _⟩ | ⟨rest, rfl, later⟩
          · exact positive
          · have fewer := ends.needed rest last later
            simp only [List.flatMap_cons, List.length_append]
            omega
        · intro more
          have enough := ends.enough more
          simp only [List.flatMap_cons, List.length_append]
          omega

/-- What ends a walk does not change the visits in front of it. -/
theorem visits_eq_of_endsWith {before after : List Visit} {last : Visit}
    (made : Demand.visits ⟨wanted?, fun _ => false⟩ visits = before ++ last :: after)
    (goesOn : ∀ visit ∈ before, endsWith visit = false) (ends : endsWith last = true) :
    Demand.visits ⟨wanted?, endsWith⟩ visits = before ++ [last] := by
  induction visits generalizing wanted? before with
  | nil => simp [Demand.visits] at made
  | cons visit others inductionHypothesis =>
      by_cases met : wanted? = some 0
      · rw [met, visits_of_met] at made
        simp at made
      · rw [visits_of_goesOn met rfl] at made
        cases before with
        | nil =>
            obtain ⟨rfl, _⟩ := List.cons.inj made
            exact visits_of_endsWith met ends
        | cons first before =>
            obtain ⟨rfl, later⟩ := List.cons.inj made
            obtain ⟨goesOnHere, goesOnLater⟩ := List.forall_mem_cons.mp goesOn
            rw [visits_of_goesOn met goesOnHere, inductionHypothesis later goesOnLater,
              List.cons_append]

theorem visits_eq_of_goesOn
    (goesOn : ∀ visit ∈ Demand.visits ⟨wanted?, fun _ => false⟩ visits, endsWith visit = false) :
    Demand.visits ⟨wanted?, endsWith⟩ visits = Demand.visits ⟨wanted?, fun _ => false⟩ visits := by
  induction visits generalizing wanted? with
  | nil => rfl
  | cons visit others inductionHypothesis =>
      by_cases met : wanted? = some 0
      · rw [met, visits_of_met, visits_of_met]
      · rw [visits_of_goesOn met rfl] at goesOn
        obtain ⟨goesOnHere, goesOnLater⟩ := List.forall_mem_cons.mp goesOn
        rw [visits_of_goesOn met goesOnHere, visits_of_goesOn met rfl,
          inductionHypothesis goesOnLater]

end Demand

namespace Walk

variable (walk : Walk) (failures : ListingFailures)

/-- The calls that the walk makes on a directory: none after one that fails. -/
def callsOn (directory : Path) : List ListingCall :=
  ⟨walk.kind, directory, walk.wanted.specification⟩ ::
    if walk.recursive && (failures walk.kind directory).isNone then
      [⟨.directory, directory, walk.everything.specification⟩]
    else []

variable {walk failures}

theorem calls_of_failure {directory : Path} {cause : OsError}
    (fails : walk.failureAt? failures directory = some cause) :
    ∃ (before : List ListingCall) (last : ListingCall),
      walk.callsOn failures directory = before ++ [last] ∧
      (∀ call ∈ before, failures call.kind call.directory = none) ∧
      last.directory = directory ∧ failures last.kind directory = some cause := by
  unfold callsOn
  cases wantedFailure : failures walk.kind directory with
  | some error =>
      have same : error = cause := by simpa [failureAt?, wantedFailure] using fails
      refine ⟨[], ⟨walk.kind, directory, walk.wanted.specification⟩, ?_, ?_, rfl, ?_⟩
      · simp
      · simp
      · rw [wantedFailure, same]
  | none =>
      obtain ⟨recursive, subdirectoriesFailure⟩ :
          walk.recursive = true ∧ failures .directory directory = some cause := by
        simpa [failureAt?, wantedFailure] using fails
      refine ⟨[⟨walk.kind, directory, walk.wanted.specification⟩],
        ⟨.directory, directory, walk.everything.specification⟩, ?_, ?_, rfl, ?_⟩
      · simp [recursive]
      · simpa using wantedFailure
      · exact subdirectoriesFailure

theorem calls_of_no_failure {directory : Path}
    (succeeds : walk.failureAt? failures directory = none) :
    ∀ call ∈ walk.callsOn failures directory, failures call.kind call.directory = none := by
  rw [failureAt?, Option.or_eq_none_iff] at succeeds
  obtain ⟨wantedSucceeds, others⟩ := succeeds
  intro call member
  cases recursive : walk.recursive with
  | false =>
      have same : call = ⟨walk.kind, directory, walk.wanted.specification⟩ := by
        simpa [callsOn, recursive] using member
      rw [same]
      exact wantedSucceeds
  | true =>
      have subdirectoriesSucceed : failures .directory directory = none := by
        simpa [recursive] using others
      have either : call = ⟨walk.kind, directory, walk.wanted.specification⟩ ∨
          call = ⟨.directory, directory, walk.everything.specification⟩ := by
        simpa [callsOn, recursive, wantedSucceeds] using member
      rcases either with rfl | rfl
      · exact wantedSucceeds
      · exact subdirectoriesSucceed

theorem visit_calls {start : Path} {directory : TreeDirectory}
    (answers : walk.lister.AnswersIn failures start directory) :
    (walk.visit (directory.path walk.lister.flavor start)).calls =
      walk.callsOn failures (directory.path walk.lister.flavor start) := by
  simp only [visit, callsOn, answers _ _]
  cases wantedFailure : failures walk.kind (directory.path walk.lister.flavor start) with
  | some error => simp
  | none =>
      cases recursive : walk.recursive with
      | false => simp
      | true =>
          cases failures .directory (directory.path walk.lister.flavor start) <;> simp

theorem visit_calls_of_failure {start : Path} {directory : TreeDirectory}
    (answers : walk.lister.AnswersIn failures start directory) {failure : WalkFailure}
    (fails : (walk.visit (directory.path walk.lister.flavor start)).failure? = some failure) :
    ∃ (before : List ListingCall) (last : ListingCall),
      (walk.visit (directory.path walk.lister.flavor start)).calls = before ++ [last] ∧
      (∀ call ∈ before, failures call.kind call.directory = none) ∧
      last.directory = failure.directory ∧
      failures last.kind last.directory = some failure.cause := by
  rw [visit_failure? answers] at fails
  obtain ⟨cause, failsThere, rfl⟩ := Option.map_eq_some_iff.mp fails
  obtain ⟨before, last, calls, succeed, place, failsLast⟩ := calls_of_failure failsThere
  refine ⟨before, last, ?_, succeed, place, ?_⟩
  · rw [visit_calls answers, calls]
  · rw [place, failsLast]

theorem visit_calls_of_no_failure {start : Path} {directory : TreeDirectory}
    (answers : walk.lister.AnswersIn failures start directory)
    (succeeds : (walk.visit (directory.path walk.lister.flavor start)).failure? = none) :
    ∀ call ∈ (walk.visit (directory.path walk.lister.flavor start)).calls,
      failures call.kind call.directory = none := by
  rw [visit_failure? answers, Option.map_eq_none_iff] at succeeds
  rw [visit_calls answers]
  exact calls_of_no_failure succeeds

theorem reached_subset {start : Path} {tree : DirectoryTree} :
    walk.reached failures start tree ⊆ tree.directories :=
  List.filter_subset_self _

/-- The first results, as many as are wanted. -/
def upTo (limit? : Option Nat) (found : List Path) : List Path :=
  match limit? with
  | none => found
  | some limit => found.take limit

theorem run_report (limit? : Option Nat) (start : Path) :
    walk.run .report limit? start =
      { result := .ok (upTo limit?
          ((walk.madeVisits ⟨limit?, fun _ => false⟩ start).flatMap Visit.found))
        reported := (walk.madeVisits ⟨limit?, fun _ => false⟩ start).filterMap Visit.failure?
        log := []
        calls := (walk.madeVisits ⟨limit?, fun _ => false⟩ start).flatMap Visit.calls } := rfl

theorem run_stop (limit? : Option Nat) (start : Path) {made : List Visit}
    (visits : walk.madeVisits ⟨limit?, fun visit => visit.failure?.isSome⟩ start = made) :
    walk.run .stop limit? start =
      { result := match made.filterMap Visit.failure? with
          | failure :: _ => .error failure
          | [] => .ok (upTo limit? (made.flatMap Visit.found))
        reported := made.filterMap Visit.failure?
        log := []
        calls := made.flatMap Visit.calls } := by
  have sameDemand : (fun visit : Visit => FailurePolicy.stop == .stop && visit.failure?.isSome) =
      fun visit => visit.failure?.isSome := rfl
  simp only [run, sameDemand, visits]
  cases made.filterMap Visit.failure? <;> rfl

theorem run_of_goesOn {policy : FailurePolicy} (goesOn : policy ≠ .stop) (limit? : Option Nat)
    (start : Path) :
    (walk.run policy limit? start).result =
        .ok (upTo limit?
          ((walk.madeVisits ⟨limit?, fun _ => false⟩ start).flatMap Visit.found)) ∧
      (walk.run policy limit? start).calls =
        (walk.madeVisits ⟨limit?, fun _ => false⟩ start).flatMap Visit.calls := by
  cases policy with
  | report => exact ⟨rfl, rfl⟩
  | log => exact ⟨rfl, rfl⟩
  | stop => exact absurd rfl goesOn

section Served

variable {start : Path} {tree : DirectoryTree} (serves : walk.lister.Serves failures start tree)
  (seesAll : walk.SeesAll tree)

include serves

theorem calls_in_tree {directories : List TreeDirectory}
    (inTree : directories ⊆ tree.directories) :
    (directories.map fun directory =>
        walk.visit (directory.path walk.lister.flavor start)).flatMap Visit.calls =
      directories.flatMap fun directory =>
        walk.callsOn failures (directory.path walk.lister.flavor start) := by
  rw [List.flatMap_map]
  exact List.flatMap_congr fun directory member =>
    visit_calls (serves.answers directory (inTree member))

theorem found_in_tree {directories : List TreeDirectory}
    (inTree : directories ⊆ tree.directories) :
    (directories.map fun directory =>
        walk.visit (directory.path walk.lister.flavor start)).flatMap Visit.found =
      (directories.flatMap (walk.entriesIn failures start)).map
        (TreeEntry.path walk.lister.flavor start) := by
  rw [List.flatMap_map, List.map_flatMap]
  exact List.flatMap_congr fun directory member =>
    visit_found (serves.answers directory (inTree member))

include seesAll

theorem madeVisits_eq_reached (limit? : Option Nat) (endsWith : Visit → Bool) :
    walk.madeVisits ⟨limit?, endsWith⟩ start =
      Demand.visits ⟨limit?, endsWith⟩ ((walk.reached failures start tree).map fun directory =>
        walk.visit (directory.path walk.lister.flavor start)) := by
  have within : tree.IsWithin (walk.depthFor limit?) := by
    intro directory member
    exact (serves.deep directory member).trans_le (Nat.le_mul_of_pos_left _ (Nat.succ_pos _))
  rw [madeVisits_eq, visits_eq serves.answers within seesAll]

/-- A walk for all results makes the calls on each directory that it reaches. -/
theorem run_calls {policy : FailurePolicy} (goesOn : policy ≠ .stop) :
    (walk.run policy none start).calls =
      (walk.reached failures start tree).flatMap fun directory =>
        walk.callsOn failures (directory.path walk.lister.flavor start) := by
  rw [(run_of_goesOn goesOn none start).2, madeVisits_served serves seesAll (by simp)]
  exact calls_in_tree serves reached_subset

/-- The directories visited for a number of results end with the one in which the last is found. -/
theorem exists_directories (limit : Nat) :
    ∃ front back, walk.reached failures start tree = front ++ back ∧
      EndsAt (walk.entriesIn failures start) limit front back ∧
      walk.madeVisits ⟨some limit, fun _ => false⟩ start =
        front.map fun directory => walk.visit (directory.path walk.lister.flavor start) := by
  rw [madeVisits_eq_reached serves seesAll]
  obtain ⟨others, whole⟩ := @Demand.visits_isPrefix (some limit)
    ((walk.reached failures start tree).map fun directory =>
      walk.visit (directory.path walk.lister.flavor start))
  have ends := Demand.visits_endsAt whole
  obtain ⟨front, back, reached, made, rest⟩ := List.map_eq_append_iff.mp whole.symm
  rw [← made, ← rest] at ends
  refine ⟨front, back, reached, ends.of_map fun directory member => ?_, made.symm⟩
  have inTree : directory ∈ tree.directories := by
    apply reached_subset
    rw [reached]
    exact List.mem_append_left back member
  rw [visit_found (serves.answers directory inTree), List.length_map]

/-- The first results, and the calls on the directories that they are found in. -/
theorem run_first {policy : FailurePolicy} (goesOn : policy ≠ .stop) (limit : Nat) :
    ∃ front back, walk.reached failures start tree = front ++ back ∧
      EndsAt (walk.entriesIn failures start) limit front back ∧
      (walk.run policy (some limit) start).result =
        .ok ((walk.paths failures start tree).take limit) ∧
      (walk.run policy (some limit) start).calls = front.flatMap fun directory =>
        walk.callsOn failures (directory.path walk.lister.flavor start) := by
  obtain ⟨front, back, whole, ends, made⟩ := exists_directories serves seesAll limit
  have inTree : front ⊆ tree.directories :=
    fun directory member => reached_subset (whole ▸ List.mem_append_left back member)
  obtain ⟨result, calls⟩ := @run_of_goesOn walk policy goesOn (some limit) start
  refine ⟨front, back, whole, ends, ?_, ?_⟩
  · rw [result, made, found_in_tree serves inTree, upTo, ← List.map_take, ends.take_eq, ← whole,
      List.map_take]
    rfl
  · rw [calls, made, calls_in_tree serves inTree]

theorem exists_answered {limit? : Option Nat} {visit : Visit}
    (made : visit ∈ walk.madeVisits ⟨limit?, fun _ => false⟩ start) :
    ∃ directory, walk.lister.AnswersIn failures start directory ∧
      visit = walk.visit (directory.path walk.lister.flavor start) := by
  rw [madeVisits_eq_reached serves seesAll] at made
  obtain ⟨directory, isReached, rfl⟩ := List.mem_map.mp (Demand.visits_isPrefix.subset made)
  exact ⟨directory, serves.answers directory (reached_subset isReached), rfl⟩

theorem calls_succeed {limit? : Option Nat} {visits : List Visit}
    (included : visits ⊆ walk.madeVisits ⟨limit?, fun _ => false⟩ start)
    (noFailure : ∀ visit ∈ visits, visit.failure? = none) :
    ∀ call ∈ visits.flatMap Visit.calls, failures call.kind call.directory = none := by
  intro call member
  obtain ⟨visit, isVisit, inVisit⟩ := List.mem_flatMap.mp member
  obtain ⟨directory, answers, rfl⟩ := exists_answered serves seesAll (included isVisit)
  exact visit_calls_of_no_failure answers (noFailure _ isVisit) call inVisit

theorem run_stop_of_no_failure {limit? : Option Nat}
    (noFailure : ∀ visit ∈ walk.madeVisits ⟨limit?, fun _ => false⟩ start,
      visit.failure? = none) :
    walk.run .stop limit? start = walk.run .report limit? start := by
  have same : walk.madeVisits ⟨limit?, fun visit => visit.failure?.isSome⟩ start =
      walk.madeVisits ⟨limit?, fun _ => false⟩ start := by
    rw [madeVisits_eq_reached serves seesAll] at noFailure
    rw [madeVisits_eq_reached serves seesAll, madeVisits_eq_reached serves seesAll]
    apply Demand.visits_eq_of_goesOn
    intro visit member
    rw [noFailure visit member, Option.isSome_none]
  rw [run_stop limit? start same, run_report, List.filterMap_eq_nil_iff.mpr noFailure]

theorem run_stop_of_failure {limit? : Option Nat} {front back : List Visit} {visit : Visit}
    {failure : WalkFailure}
    (made : walk.madeVisits ⟨limit?, fun _ => false⟩ start = front ++ visit :: back)
    (noFailure : ∀ visit ∈ front, visit.failure? = none) (fails : visit.failure? = some failure) :
    (walk.run .stop limit? start).calls = (front ++ [visit]).flatMap Visit.calls ∧
      (walk.run .stop limit? start).result = .error failure ∧
      (walk.run .stop limit? start).reported = [failure] := by
  have stopped : walk.madeVisits ⟨limit?, fun visit => visit.failure?.isSome⟩ start =
      front ++ [visit] := by
    rw [madeVisits_eq_reached serves seesAll] at made ⊢
    apply Demand.visits_eq_of_endsWith made
    · intro visit member
      rw [noFailure visit member, Option.isSome_none]
    · rw [fails, Option.isSome_some]
  have onlyFailure : (front ++ [visit]).filterMap Visit.failure? = [failure] := by
    rw [List.filterMap_append, List.filterMap_eq_nil_iff.mpr noFailure, List.filterMap_cons, fails]
    rfl
  rw [run_stop limit? start stopped, onlyFailure]
  exact ⟨rfl, rfl, rfl⟩

/-- A walk that failures end is one that reports them up to its first call that fails. -/
theorem stops_or_not (limit? : Option Nat) :
    ((∀ call ∈ (walk.run .report limit? start).calls,
        failures call.kind call.directory = none) ∧
      walk.run .stop limit? start = walk.run .report limit? start) ∨
    ∃ (before : List ListingCall) (last : ListingCall) (after : List ListingCall)
      (cause : OsError),
      (walk.run .report limit? start).calls = before ++ last :: after ∧
      (∀ call ∈ before, failures call.kind call.directory = none) ∧
      failures last.kind last.directory = some cause ∧
      (walk.run .stop limit? start).calls = before ++ [last] ∧
      (walk.run .stop limit? start).result = .error ⟨last.directory, cause⟩ ∧
      (walk.run .stop limit? start).reported = [⟨last.directory, cause⟩] := by
  cases failed : (walk.madeVisits ⟨limit?, fun _ => false⟩ start).filterMap Visit.failure? with
  | nil =>
      have noFailure := List.filterMap_eq_nil_iff.mp failed
      have succeed := calls_succeed serves seesAll (List.Subset.refl _) noFailure
      exact .inl ⟨succeed, run_stop_of_no_failure serves seesAll noFailure⟩
  | cons failure others =>
      obtain ⟨front, visit, back, made, noFailure, fails, _⟩ :=
        List.filterMap_eq_cons_iff.mp failed
      obtain ⟨stoppedCalls, result, reported⟩ :=
        run_stop_of_failure serves seesAll made noFailure fails
      have isMade : visit ∈ walk.madeVisits ⟨limit?, fun _ => false⟩ start := by simp [made]
      have inFront : front ⊆ walk.madeVisits ⟨limit?, fun _ => false⟩ start := by simp [made]
      obtain ⟨directory, answers, rfl⟩ := exists_answered serves seesAll isMade
      obtain ⟨before, last, calls, succeed, place, failsLast⟩ :=
        visit_calls_of_failure answers fails
      have succeedInFront := calls_succeed serves seesAll inFront noFailure
      refine .inr ⟨front.flatMap Visit.calls ++ before, last, back.flatMap Visit.calls,
        failure.cause, ?_, ?_, failsLast, ?_, ?_, ?_⟩
      · simp [run_report, made, calls]
      · exact List.forall_mem_append.mpr ⟨succeedInFront, succeed⟩
      · simp [stoppedCalls, calls]
      · rw [result, place]
      · rw [reported, place]

end Served

theorem exists_walk {style : PathStyle} {lister : Lister} {tree : DirectoryTree}
    (conventions : lister.flavor = style.flavor) (legal : tree.HasLegalNames style.flavor)
    (kind : EntryKind) (specification : List Char) (recursive : Bool) :
    ∃ walk : Walk, ofSpecification? lister kind specification recursive = some walk ∧
      walk.lister = lister ∧ walk.SeesAll tree :=
  ⟨style.walk lister kind specification recursive,
    ofSpecification?_eq conventions kind specification recursive, rfl,
    seesAll legal kind specification recursive⟩

end Walk

/--
A walk through a tree for its first results makes the calls on the directories up to the one in
which the last of them is found: none for no results, and all if there are fewer. A walk that a
failure ends makes the calls up to the first one that fails, and reports nothing else.
-/
theorem lazyWalk_through_tree (style : PathStyle) {lister : Lister} {failures : ListingFailures}
    {start : Path} {tree : DirectoryTree} (conventions : lister.flavor = style.flavor)
    (legal : tree.HasLegalNames style.flavor) (serves : lister.Serves failures start tree)
    (kind : EntryKind) (specification : List Char) (recursive : Bool) :
    ∃ walk : Walk,
      Walk.ofSpecification? lister kind specification recursive = some walk ∧
      (∀ policy, policy ≠ .stop →
        (walk.run policy none start).result = .ok (walk.paths failures start tree) ∧
        (walk.run policy none start).calls =
          (walk.reached failures start tree).flatMap (fun directory =>
            walk.callsOn failures (directory.path lister.flavor start)) ∧
        ∀ limit, ∃ front back : List TreeDirectory,
          walk.reached failures start tree = front ++ back ∧
          (walk.run policy (some limit) start).result =
            .ok ((walk.paths failures start tree).take limit) ∧
          (walk.run policy (some limit) start).calls = front.flatMap (fun directory =>
            walk.callsOn failures (directory.path lister.flavor start)) ∧
          (limit = 0 → front = []) ∧
          (0 < limit → limit ≤ (walk.paths failures start tree).length →
            ∃ (before : List TreeDirectory) (last : TreeDirectory), front = before ++ [last] ∧
              (before.flatMap (walk.entriesIn failures start)).length < limit ∧
              limit ≤ (front.flatMap (walk.entriesIn failures start)).length) ∧
          ((walk.paths failures start tree).length < limit → back = [])) ∧
      ∀ limit?,
        ((∀ call ∈ (walk.run .report limit? start).calls,
            failures call.kind call.directory = none) ∧
          walk.run .stop limit? start = walk.run .report limit? start) ∨
        ∃ (before : List ListingCall) (last : ListingCall) (after : List ListingCall)
          (cause : OsError),
          (walk.run .report limit? start).calls = before ++ last :: after ∧
          (∀ call ∈ before, failures call.kind call.directory = none) ∧
          failures last.kind last.directory = some cause ∧
          (walk.run .stop limit? start).calls = before ++ [last] ∧
          (walk.run .stop limit? start).result = .error ⟨last.directory, cause⟩ ∧
          (walk.run .stop limit? start).reported = [⟨last.directory, cause⟩] := by
  obtain ⟨walk, made, rfl, seesAll⟩ :=
    Walk.exists_walk conventions legal kind specification recursive
  refine ⟨walk, made, ?_, Walk.stops_or_not serves seesAll⟩
  intro policy goesOn
  refine ⟨Walk.run_result serves seesAll goesOn, Walk.run_calls serves seesAll goesOn, ?_⟩
  intro limit
  obtain ⟨front, back, whole, ends, result, calls⟩ :=
    Walk.run_first serves seesAll goesOn limit
  have count : (walk.paths failures start tree).length =
      ((front ++ back).flatMap (walk.entriesIn failures start)).length := by
    rw [Walk.paths, List.length_map, Walk.entries, whole]
  rw [count]
  exact ⟨front, back, whole, result, calls, ends.front_eq_nil, ends.exists_last,
    ends.back_eq_nil⟩

theorem lazyWalk_through_archive :
    ∃ walk : Walk,
      Walk.ofSpecification? (archive [oldLocked]).lister .file "*.txt".toList true = some walk ∧
      (walk.run .log (some 1) "/data/".toList).result = .ok ["/data/a.txt".toList] ∧
      ∃ before after,
        (walk.run .report none "/data/".toList).calls =
          before ++ ⟨.directory, "/data/old".toList, ['*']⟩ :: after ∧
        (walk.run .stop none "/data/".toList).calls =
          before ++ [⟨.directory, "/data/old".toList, ['*']⟩] ∧
        (walk.run .stop none "/data/".toList).reported =
          [⟨"/data/old".toList, .permissionDenied "/data/old".toList⟩] := by
  obtain ⟨walk, made, first, stops⟩ :=
    lazyWalk_through_tree .posix rfl archiveTree_legal (archive_serves [oldLocked]) .file
      "*.txt".toList true
  have conventions : (archive [oldLocked]).lister.flavor = PathStyle.posix.flavor := rfl
  obtain rfl := Walk.eq_of_ofSpecification? conventions made
  obtain ⟨_, _, firstOnes⟩ := first .log (by decide)
  obtain ⟨_, _, _, result, _⟩ := firstOnes 1
  have stoppedCalls : ((PathStyle.posix.walk (archive [oldLocked]).lister .file "*.txt".toList
      true).run .stop none "/data/".toList).calls =
        [⟨.file, "/data/".toList, "*.txt".toList⟩, ⟨.directory, "/data/".toList, ['*']⟩,
          ⟨.file, "/data/old".toList, "*.txt".toList⟩] ++
            [⟨.directory, "/data/old".toList, ['*']⟩] := by
    simp only [PathStyle.walk, PathStyle.matcher_posix]
    decide +kernel
  have locked : (archive [oldLocked]).listingFailures .directory "/data/old".toList =
      some (.permissionDenied "/data/old".toList) := by decide +kernel
  refine ⟨_, made, ?_, ?_⟩
  · rw [result, paths_archive]
    rfl
  · rcases stops none with ⟨succeed, same⟩ | ⟨before, last, after, cause, calls, _, fails, stopped,
      _, reported⟩
    · rw [← same, stoppedCalls] at succeed
      have succeeds := succeed ⟨.directory, "/data/old".toList, ['*']⟩ (by simp)
      rw [locked] at succeeds
      cases succeeds
    · obtain ⟨rfl, lastCall⟩ := List.append_inj' (stopped.symm.trans stoppedCalls) rfl
      obtain rfl := List.singleton_inj.mp lastCall
      obtain rfl := Option.some.inj (locked.symm.trans fails)
      exact ⟨_, after, calls, stopped, reported⟩

end FileSpec
