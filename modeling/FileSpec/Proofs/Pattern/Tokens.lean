import FileSpec.Pattern.Token
import FileSpec.Proofs.Path.Flavor

/-!
# The tokens of a specification

`Token.Reads` says by rules which tokens a specification is, read from left to right: a run of
separators is taken whole, and `*` stands for names only where `**` and a separator do not.
`reads_iff` says that the rules leave one reading, the one that `Token.scan` finds.
-/

set_option autoImplicit false

namespace FileSpec

namespace Token

variable {flavor : Flavor}

/-- `Reads flavor specification tokens`: from left to right, the specification is these tokens. -/
inductive Reads (flavor : Flavor) : List Char → List Token → Prop where
  | nil : Reads flavor [] []
  /-- A run of separators that no separator follows. -/
  | separators {run rest tokens} :
      run ≠ [] → (∀ character ∈ run, flavor.isSeparator character = true) →
      flavor.beginsWithSeparator rest = false → Reads flavor rest tokens →
      Reads flavor (run ++ rest) (separators :: tokens)
  | anyCharacter {rest tokens} :
      flavor.isSeparator '?' = false → Reads flavor rest tokens →
      Reads flavor ('?' :: rest) (anyCharacter :: tokens)
  /-- Two asterisks and a run of separators that no separator follows. -/
  | anyDirectories {run rest tokens} :
      flavor.isSeparator '*' = false →
      run ≠ [] → (∀ character ∈ run, flavor.isSeparator character = true) →
      flavor.beginsWithSeparator rest = false → Reads flavor rest tokens →
      Reads flavor ('*' :: '*' :: (run ++ rest)) (anyDirectories :: tokens)
  /-- An asterisk that no asterisk and separator follow. -/
  | anyName {rest tokens} :
      flavor.isSeparator '*' = false →
      (∀ others, rest = '*' :: others → flavor.beginsWithSeparator others = false) →
      Reads flavor rest tokens → Reads flavor ('*' :: rest) (anyName :: tokens)
  | literal {character rest tokens} :
      flavor.isSeparator character = false → character ≠ '?' → character ≠ '*' →
      Reads flavor rest tokens → Reads flavor (character :: rest) (literal character :: tokens)

@[simp]
theorem scan_nil : scan flavor [] = [] := by
  rw [scan]

theorem scan_cons (first : Char) (rest : List Char) :
    scan flavor (first :: rest) =
      (next flavor first rest).1 :: scan flavor (next flavor first rest).2.val := by
  rw [scan]

theorem scan_separators {run rest : List Char} (nonempty : run ≠ [])
    (whole : ∀ character ∈ run, flavor.isSeparator character = true)
    (ends : flavor.beginsWithSeparator rest = false) :
    scan flavor (run ++ rest) = separators :: scan flavor rest := by
  obtain ⟨first, others, rfl⟩ := List.exists_cons_of_ne_nil nonempty
  have left := Flavor.dropWhile_isSeparator
    (fun character member => whole character (List.mem_cons_of_mem first member)) ends
  simp [scan_cons, next, whole first (by simp), left]

theorem scan_anyCharacter (plain : flavor.isSeparator '?' = false) (rest : List Char) :
    scan flavor ('?' :: rest) = anyCharacter :: scan flavor rest := by
  simp [scan_cons, next, plain]

theorem scan_anyDirectories (plain : flavor.isSeparator '*' = false) {run rest : List Char}
    (nonempty : run ≠ []) (whole : ∀ character ∈ run, flavor.isSeparator character = true)
    (ends : flavor.beginsWithSeparator rest = false) :
    scan flavor ('*' :: '*' :: (run ++ rest)) = anyDirectories :: scan flavor rest := by
  obtain ⟨first, others, rfl⟩ := List.exists_cons_of_ne_nil nonempty
  have left := Flavor.dropWhile_isSeparator
    (fun character member => whole character (List.mem_cons_of_mem first member)) ends
  simp [scan_cons, next, plain, whole first (by simp), left]

theorem scan_anyName (plain : flavor.isSeparator '*' = false) {rest : List Char}
    (single : ∀ others, rest = '*' :: others → flavor.beginsWithSeparator others = false) :
    scan flavor ('*' :: rest) = anyName :: scan flavor rest := by
  have stepped : next flavor '*' rest = (anyName, ⟨rest, Nat.le_refl _⟩) := by
    unfold next
    rw [if_neg (by simp [plain]), if_neg (by decide), if_pos (by decide)]
    split
    · next separator others =>
        have notSeparator := single (separator :: others) rfl
        simp only [Flavor.beginsWithSeparator_cons] at notSeparator
        simp [notSeparator]
    · rfl
  rw [scan_cons, stepped]

theorem scan_literal {character : Char} (plain : flavor.isSeparator character = false)
    (notAny : character ≠ '?') (notStar : character ≠ '*') (rest : List Char) :
    scan flavor (character :: rest) = literal character :: scan flavor rest := by
  simp [scan_cons, next, plain, notAny, notStar]

theorem Reads.eq_scan {specification : List Char} {tokens : List Token}
    (reads : Reads flavor specification tokens) : tokens = scan flavor specification := by
  induction reads with
  | nil => rw [scan_nil]
  | separators nonempty whole ends _ inductionHypothesis =>
      rw [scan_separators nonempty whole ends, inductionHypothesis]
  | anyCharacter plain _ inductionHypothesis =>
      rw [scan_anyCharacter plain, inductionHypothesis]
  | anyDirectories plain nonempty whole ends _ inductionHypothesis =>
      rw [scan_anyDirectories plain nonempty whole ends, inductionHypothesis]
  | anyName plain single _ inductionHypothesis =>
      rw [scan_anyName plain single, inductionHypothesis]
  | literal plain notAny notStar _ inductionHypothesis =>
      rw [scan_literal plain notAny notStar, inductionHypothesis]

theorem takeWhile_isSeparator_cons {first : Char} (isSeparator : flavor.isSeparator first = true)
    (rest : List Char) :
    (∀ character ∈ first :: rest.takeWhile flavor.isSeparator,
        flavor.isSeparator character = true) ∧
      (first :: rest.takeWhile flavor.isSeparator) ++ rest.dropWhile flavor.isSeparator =
        first :: rest := by
  constructor
  · intro character member
    rcases List.mem_cons.mp member with rfl | member
    · exact isSeparator
    · exact List.all_eq_true.mp List.all_takeWhile character member
  · rw [List.cons_append, List.takeWhile_append_dropWhile]

theorem reads_scan (specification : List Char) :
    Reads flavor specification (scan flavor specification) := by
  induction bound : specification.length using Nat.strongRecOn generalizing specification with
  | ind length inductionHypothesis =>
      subst bound
      cases specification with
      | nil =>
          rw [scan_nil]
          exact .nil
      | cons first rest =>
          by_cases isSeparator : flavor.isSeparator first = true
          · obtain ⟨whole, shape⟩ := takeWhile_isSeparator_cons isSeparator rest
            have ends := flavor.beginsWithSeparator_dropWhile rest
            have shorter := Nat.lt_succ_of_le (length_dropWhile_le flavor.isSeparator rest)
            rw [← shape, scan_separators (by simp) whole ends]
            exact .separators (by simp) whole ends (inductionHypothesis _ shorter _ rfl)
          have plain : flavor.isSeparator first = false := by simpa using isSeparator
          by_cases isAny : first = '?'
          · subst isAny
            rw [scan_anyCharacter plain]
            exact .anyCharacter plain (inductionHypothesis _ (Nat.lt_succ_self _) _ rfl)
          by_cases isStar : first = '*'
          · subst isStar
            by_cases single :
                ∀ others, rest = '*' :: others → flavor.beginsWithSeparator others = false
            · rw [scan_anyName plain single]
              exact .anyName plain single (inductionHypothesis _ (Nat.lt_succ_self _) _ rfl)
            · simp only [Classical.not_forall, Bool.not_eq_false] at single
              obtain ⟨others, rfl, begins⟩ := single
              cases others with
              | nil => simp at begins
              | cons separator others =>
                  obtain ⟨whole, shape⟩ := takeWhile_isSeparator_cons begins others
                  have ends := flavor.beginsWithSeparator_dropWhile others
                  have shorter := length_dropWhile_le flavor.isSeparator others
                  rw [← shape, scan_anyDirectories plain (by simp) whole ends]
                  exact .anyDirectories plain (by simp) whole ends
                    (inductionHypothesis _ (by simp only [List.length_cons]; omega) _ rfl)
          · rw [scan_literal plain isAny isStar]
            exact .literal plain isAny isStar (inductionHypothesis _ (Nat.lt_succ_self _) _ rfl)

theorem reads_iff (specification : List Char) (tokens : List Token) :
    Reads flavor specification tokens ↔ tokens = scan flavor specification := by
  constructor
  · exact Reads.eq_scan
  · rintro rfl
    exact reads_scan specification

end Token

end FileSpec
