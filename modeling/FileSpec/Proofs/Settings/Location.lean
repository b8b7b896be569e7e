import FileSpec.Proofs.FileTree.Places
import FileSpec.Settings.Location

/-!
# The nearest place

Going up from a place, the first one that has what is wanted is the nearest of all that have it.
-/

set_option autoImplicit false

namespace FileSpec

/-- Of a place and those above it, the nearest that has a property; none if no one has it. -/
def Place.IsNearest (has : Place → Prop) (start : Place) : Option Place → Prop
  | some place =>
      place <+: start ∧ has place ∧ ∀ other, other <+: start → has other → other <+: place
  | none => ∀ other, other <+: start → ¬ has other

namespace SettingsFile

variable {has : Place → Prop} {start : Place}

theorem isNearest_unique {first? second? : Option Place} (first : start.IsNearest has first?)
    (second : start.IsNearest has second?) : first? = second? := by
  cases first? with
  | none =>
      cases second? with
      | none => rfl
      | some place => exact absurd second.2.1 (first place second.1)
  | some place =>
      cases second? with
      | none => exact absurd first.2.1 (second place first.1)
      | some other =>
          have below := first.2.2 other second.1 second.2.1
          have above := second.2.2 place first.1 first.2.1
          rw [above.eq_of_length_le below.length_le]

@[simp]
theorem length_upward (place : Place) : (upward place).length = place.length + 1 := by
  simp [upward]

theorem getElem_upward {place : Place} {up : Nat} (within : up < (upward place).length) :
    (upward place)[up] = place.take (place.length - up) := by
  simp [upward]

theorem isPrefix_of_mem_upward {place above : Place} (member : above ∈ upward place) :
    above <+: place := by
  obtain ⟨up, -, rfl⟩ := List.mem_map.mp member
  exact List.take_prefix _ _

theorem isNearest_find? (has : Place → Bool) (start : Place) :
    start.IsNearest (fun place => has place = true) ((upward start).find? has) := by
  have positioned : ∀ {other : Place}, other <+: start →
      ∃ up, ∃ within : up < (upward start).length, (upward start)[up] = other := by
    intro other isAbove
    have shorter := isAbove.length_le
    refine ⟨start.length - other.length, by rw [length_upward]; omega, ?_⟩
    have kept : start.length - (start.length - other.length) = other.length := by omega
    rw [getElem_upward, kept]
    exact (List.prefix_iff_eq_take.mp isAbove).symm
  cases found : (upward start).find? has with
  | none =>
      intro other isAbove
      obtain ⟨up, within, rfl⟩ := positioned isAbove
      exact List.find?_eq_none.mp found _ (List.getElem_mem within)
  | some place =>
      obtain ⟨holds, up, within, rfl, before⟩ := List.find?_eq_some_iff_getElem.mp found
      refine ⟨isPrefix_of_mem_upward (List.getElem_mem within), holds, ?_⟩
      intro other isAbove also
      obtain ⟨otherUp, otherWithin, rfl⟩ := positioned isAbove
      have notBefore : up ≤ otherUp := by
        by_contra sooner
        have fails := before otherUp (by omega)
        simp [also] at fails
      rw [getElem_upward, getElem_upward]
      exact List.take_prefix_take_left (by omega)

variable (tree : FileTree) (wanted : Node → Bool)

theorem probe_eq {place : Place} (requested : place.CanBeRequested) :
    probe tree wanted place = .ok ((tree.node? place).any wanted) := by
  unfold probe
  cases present : tree.node? place with
  | some node =>
      rw [tree.locate_of_present requested (by rw [present]; rfl)]
      simp [present]
  | none =>
      obtain ⟨error, failed, kind⟩ := tree.locate_of_absent requested present
      rw [failed]
      simp [kind]

theorem firstWith?_eq (name : List Char) {places : List Place}
    (requested : ∀ place ∈ places, Place.CanBeRequested (place ++ [name])) :
    firstWith? tree wanted name places =
      .ok (places.find? fun place => (tree.node? (place ++ [name])).any wanted) := by
  induction places with
  | nil => rfl
  | cons place places inductionHypothesis =>
      obtain ⟨here, others⟩ := List.forall_mem_cons.mp requested
      rw [firstWith?, probe_eq tree wanted here, List.find?_cons]
      cases (tree.node? (place ++ [name])).any wanted with
      | true => rfl
      | false => exact inductionHypothesis others

/-- Where everything on the way up can be requested, the nearest place is found. -/
theorem nearest?_eq {name : List Char} {start : Path} (noNul : '\x00' ∉ start)
    (requested : ∀ place, place <+: tree.lexicalPlace start →
      Place.CanBeRequested (place ++ [name])) {place? : Option Place}
    (nearest : (tree.lexicalPlace start).IsNearest
      (fun place => (tree.node? (place ++ [name])).any wanted = true) place?) :
    nearest? tree wanted name start = .ok place? := by
  have plain : start.contains '\x00' = false := by simpa using noNul
  have found := firstWith?_eq tree wanted name
    fun place member => requested place (isPrefix_of_mem_upward member)
  have first := isNearest_find? (fun place => (tree.node? (place ++ [name])).any wanted)
    (tree.lexicalPlace start)
  rw [nearest?, plain, if_neg Bool.false_ne_true, found, isNearest_unique first nearest]

variable {tree wanted} {name : List Char} {place : Place}

theorem exists_of_probe (there : probe tree wanted place = .ok true) :
    ∃ found, tree.locate place.path = .ok found ∧ (tree.node? found).any wanted = true := by
  unfold probe at there
  split at there
  · next found located => exact ⟨found, located, Except.ok.inj there⟩
  · split_ifs at there
    cases there
  · cases there

theorem probe_of_firstWith? {places : List Place}
    (first : firstWith? tree wanted name places = .ok (some place)) :
    place ∈ places ∧ probe tree wanted (place ++ [name]) = .ok true := by
  induction places with
  | nil => cases first
  | cons head places inductionHypothesis =>
      rw [firstWith?] at first
      obtain ⟨isThere, probed, others⟩ := exists_of_bind_eq_ok first
      cases isThere with
      | true =>
          obtain rfl := Option.some.inj (Except.ok.inj others)
          exact ⟨List.mem_cons_self, probed⟩
      | false =>
          obtain ⟨member, probed⟩ := inductionHypothesis others
          exact ⟨List.mem_cons_of_mem head member, probed⟩

theorem probe_of_nearest? {start : Path}
    (found : nearest? tree wanted name start = .ok (some place)) :
    place <+: tree.lexicalPlace start ∧ probe tree wanted (place ++ [name]) = .ok true := by
  unfold nearest? at found
  split_ifs at found
  obtain ⟨member, probed⟩ := probe_of_firstWith? found
  exact ⟨isPrefix_of_mem_upward member, probed⟩

/-- The search for the nearest place fails at a path that holds NUL or cannot be followed. -/
theorem nearest?_eq_error {start : Path} {error : FileError}
    (failed : nearest? tree wanted name start = .error error) :
    error = .nulInPath ∨ ∃ path, tree.locate path = .error error := by
  have first : ∀ places, firstWith? tree wanted name places = .error error →
      ∃ path, tree.locate path = .error error := by
    intro places failed
    induction places with
    | nil => cases failed
    | cons place places inductionHypothesis =>
        rw [firstWith?, bind_eq_error_iff] at failed
        rcases failed with notProbed | ⟨isThere, -, others⟩
        · refine ⟨Place.path (place ++ [name]), ?_⟩
          unfold probe at notProbed
          split at notProbed
          · cases notProbed
          · next located =>
              split_ifs at notProbed
              rw [located, Except.error.inj notProbed]
          · next located => rw [located, Except.error.inj notProbed]
        · split_ifs at others
          exact inductionHypothesis others
  unfold nearest? at failed
  split_ifs at failed
  · exact .inl (Except.error.inj failed).symm
  · exact .inr (first _ failed)

end SettingsFile

end FileSpec
