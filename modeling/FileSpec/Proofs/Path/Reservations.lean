import FileSpec.Proofs.Path.FileIndex
import FileSpec.Proofs.Path.NumberedNames

/-!
# Reservations

A path is reserved by looking for a free one and creating it. While no file goes away, a path that
was reserved stays taken, so it is not found a second time, whatever the later searches are for and
whatever else is created between them.
-/

set_option autoImplicit false

namespace FileSpec

open Text

namespace Flavor

variable (flavor : Flavor)

/-- A path, and behind it its numbered variants. -/
def candidate (path : Path) : Nat → Path
  | 0 => path
  | number + 1 => flavor.numbered path (number + 1)

theorem candidate_of_positive (path : Path) {number : Nat} (positive : 1 ≤ number) :
    flavor.candidate path number = flavor.numbered path number := by
  obtain ⟨before, rfl⟩ := Nat.exists_eq_add_of_le' positive
  rfl

theorem candidate_injective (path : Path) : Function.Injective (flavor.candidate path) := by
  intro first second same
  cases first with
  | zero =>
      cases second with
      | zero => rfl
      | succ second => exact absurd same (flavor.ne_numbered path (second + 1))
  | succ first =>
      cases second with
      | zero => exact absurd same.symm (flavor.ne_numbered path (first + 1))
      | succ second => exact flavor.numbered_injective path same

end Flavor

namespace FileIndex

variable (index : FileIndex) (flavor : Flavor)

theorem fileExists_addFile (path other : Path) :
    (index.addFile path).fileExists other = true ↔
      other = path ∨ index.fileExists other = true := by
  unfold addFile
  split
  · next listed =>
      constructor
      · exact .inr
      · rintro (rfl | present)
        · rw [fileExists, listed, Bool.true_or]
        · exact present
  · simp [fileExists, or_assoc]

theorem hasFewVariants : flavor.HasFewVariants index.fileExists index.size := by
  obtain ⟨files, present, enough⟩ := index.exists_files
  exact flavor.hasFewVariants_of_files (fun other => (present other).mp) enough

/-- An index is large enough for a search in itself. -/
theorem firstFree_finds (path : Path) :
    Numbering.Finds (fun number => index.fileExists (flavor.numbered path number))
      (Numbering.firstFree (fun number => index.fileExists (flavor.numbered path number))
        (index.size + 1)).number :=
  (index.hasFewVariants flavor).firstFree_finds path

theorem reserve_of_taken {path : Path} (isTaken : index.fileExists path = true) :
    (index.reserve flavor path).1 = flavor.numbered path
      (Numbering.firstFree (fun number => index.fileExists (flavor.numbered path number))
        (index.size + 1)).number :=
  flavor.path_uniquePath_of_taken isTaken index.size

theorem reserve_of_free {path : Path} (free : index.fileExists path = false) :
    (index.reserve flavor path).1 = path := by
  rw [reserve, unique, flavor.uniquePath_of_free free]

theorem reserve_is_free (path : Path) :
    index.fileExists (index.reserve flavor path).1 = false := by
  cases isTaken : index.fileExists path with
  | false => rw [index.reserve_of_free flavor isTaken, isTaken]
  | true =>
      rw [index.reserve_of_taken flavor isTaken]
      exact (index.firstFree_finds flavor path).free

/-- If the first candidates are the ones that are taken, the next one is reserved. -/
theorem reserve_candidate {path : Path} {taken : Nat}
    (firstOnes : ∀ number,
      index.fileExists (flavor.candidate path number) = true ↔ number < taken) :
    (index.reserve flavor path).1 = flavor.candidate path taken := by
  cases taken with
  | zero =>
      apply index.reserve_of_free flavor
      rw [← Bool.not_eq_true]
      exact fun present => absurd ((firstOnes 0).mp present) (Nat.lt_irrefl 0)
  | succ last =>
      have isTaken : index.fileExists path = true := (firstOnes 0).mpr (Nat.succ_pos last)
      have next : ∀ number, 1 ≤ number →
          (index.fileExists (flavor.numbered path number) = true ↔ number ≤ last) := by
        intro number positive
        rw [← flavor.candidate_of_positive path positive, firstOnes, Nat.lt_succ_iff]
      rw [index.reserve_of_taken flavor isTaken,
        (index.firstFree_finds flavor path).eq_succ next, Flavor.candidate]

/-- What happens to the files of an index while paths are reserved in it. -/
inductive Event where
  | create (path : Path)
  | reserve (flavor : Flavor) (path : Path)

/-- A path that was reserved, and the files before that. -/
structure Reservation where
  before : FileIndex
  path : Path

/-- The reservations among a series of events, in order. -/
def reservations : FileIndex → List Event → List Reservation
  | _, [] => []
  | index, .create path :: events => reservations (index.addFile path) events
  | index, .reserve flavor path :: events =>
      let (found, later) := index.reserve flavor path
      ⟨index, found⟩ :: reservations later events

theorem fileExists_before {index : FileIndex} {events : List Event} {path : Path}
    (present : index.fileExists path = true) :
    ∀ reservation ∈ index.reservations events, reservation.before.fileExists path = true := by
  induction events generalizing index with
  | nil => simp [reservations]
  | cons event events inductionHypothesis =>
      cases event with
      | create other =>
          exact inductionHypothesis ((index.fileExists_addFile other path).mpr (.inr present))
      | reserve flavor other =>
          intro reservation member
          rw [reservations] at member
          rcases List.mem_cons.mp member with rfl | later
          · exact present
          · exact inductionHypothesis ((index.fileExists_addFile _ path).mpr (.inr present))
              reservation later

theorem reservation_is_free (events : List Event) :
    ∀ reservation ∈ index.reservations events,
      reservation.before.fileExists reservation.path = false := by
  induction events generalizing index with
  | nil => simp [reservations]
  | cons event events inductionHypothesis =>
      cases event with
      | create other => exact inductionHypothesis (index.addFile other)
      | reserve flavor other =>
          intro reservation member
          rw [reservations] at member
          rcases List.mem_cons.mp member with rfl | later
          · exact index.reserve_is_free flavor other
          · exact inductionHypothesis _ reservation later

theorem reservations_nodup (events : List Event) :
    ((index.reservations events).map (·.path)).Nodup := by
  induction events generalizing index with
  | nil => exact List.nodup_nil
  | cons event events inductionHypothesis =>
      cases event with
      | create other => exact inductionHypothesis (index.addFile other)
      | reserve flavor other =>
          rw [reservations, List.map_cons, List.nodup_cons]
          refine ⟨?_, inductionHypothesis _⟩
          -- The path of a later reservation is free then, and this one is taken from now on.
          intro again
          obtain ⟨reservation, member, same⟩ := List.mem_map.mp again
          have present := fileExists_before
            ((index.fileExists_addFile (index.reserve flavor other).1 _).mpr (.inl rfl))
            reservation member
          have free := reservation_is_free _ events reservation member
          rw [same] at free
          exact absurd (present.symm.trans free) (by decide)

/-- Each reservation of one path takes the candidate behind the last one that is taken. -/
theorem reservations_replicate {path : Path} {taken : Nat}
    (firstOnes : ∀ number,
      index.fileExists (flavor.candidate path number) = true ↔ number < taken) (count : Nat) :
    (index.reservations (List.replicate count (.reserve flavor path))).map (·.path) =
      (List.range' taken count).map (flavor.candidate path) := by
  induction count generalizing index taken with
  | zero => rfl
  | succ count inductionHypothesis =>
      have found := index.reserve_candidate flavor firstOnes
      have later : ∀ number, (index.addFile (index.reserve flavor path).1).fileExists
          (flavor.candidate path number) = true ↔ number < taken + 1 := by
        intro number
        rw [fileExists_addFile, found, (flavor.candidate_injective path).eq_iff, firstOnes]
        omega
      rw [List.replicate_succ, reservations, List.map_cons, List.range'_succ, List.map_cons, found]
      exact congrArg _ (inductionHypothesis (index.addFile (index.reserve flavor path).1) later)

/--
However reservations and other new files follow each other, no path is reserved twice and every
one was free just before. Where neither a path nor a numbered variant of it exists, reserving it
again and again gives the path and its variants in order.
-/
theorem reservations_distinct_and_in_order (index : FileIndex) :
    (∀ events : List Event,
      ((index.reservations events).map (·.path)).Nodup ∧
      ∀ reservation ∈ index.reservations events,
        reservation.before.fileExists reservation.path = false) ∧
    ∀ (flavor : Flavor) (path : Path), index.fileExists path = false →
      (∀ number, 1 ≤ number → index.fileExists (flavor.numbered path number) = false) →
      ∀ count, (index.reservations (List.replicate count (.reserve flavor path))).map (·.path) =
        (List.range count).map fun number =>
          if number = 0 then path else flavor.numbered path number := by
  refine ⟨fun events => ⟨index.reservations_nodup events, index.reservation_is_free events⟩, ?_⟩
  intro flavor path free variantsFree count
  have noneTaken : ∀ number,
      index.fileExists (flavor.candidate path number) = true ↔ number < 0 := by
    intro number
    cases number with
    | zero => simp [Flavor.candidate, free]
    | succ number => simp [Flavor.candidate, variantsFree]
  rw [index.reservations_replicate flavor noneTaken, ← List.range_eq_range']
  apply List.map_congr_left
  intro number _
  cases number <;> rfl

/-- One file, whose name is shorter than any variant of `a.txt`. -/
def oneFile : FileIndex :=
  ⟨["b.txt".toList], [], []⟩

theorem reservations_distinct_and_in_order_oneFile :
    oneFile.fileExists "a.txt".toList = false ∧
    (∀ number, 1 ≤ number →
      oneFile.fileExists (Flavor.windows.numbered "a.txt".toList number) = false) ∧
    (oneFile.reservations (List.replicate 3 (.reserve .windows "a.txt".toList))).map (·.path) =
      ["a.txt".toList, "a (1).txt".toList, "a (2).txt".toList] := by
  have free : oneFile.fileExists "a.txt".toList = false := by decide
  have variantsFree : ∀ number, 1 ≤ number →
      oneFile.fileExists (Flavor.windows.numbered "a.txt".toList number) = false := by
    intro number _
    rw [← Bool.not_eq_true]
    intro present
    have same : Flavor.windows.numbered "a.txt".toList number = "b.txt".toList := by
      simpa [fileExists, oneFile] using present
    have longer := Flavor.windows.length_lt_numbered "a.txt".toList number
    rw [same] at longer
    exact absurd longer (by decide)
  refine ⟨free, variantsFree, ?_⟩
  rw [(reservations_distinct_and_in_order oneFile).2 .windows _ free variantsFree 3]
  rfl

end FileIndex

end FileSpec
