import FileSpec.Proofs.Pattern.RootRelative

/-!
# Matching without case

Where there are no drives, a matcher that ignores case answers as one that does not, on a
specification and a path whose letters are folded: `accepts_folded`. What it takes for separators,
wildcards and roots is the same, and it accepts all that is accepted by case.
-/

set_option autoImplicit false

namespace FileSpec

open Text

/-- Without drives, a root is one separator and is changed like the rest. -/
theorem Flavor.Roots.map {flavor : Flavor} {change : Char → Char}
    (keeps : flavor.KeepsMarks change) (noDrives : flavor.hasDriveRoots = false)
    {root rest : Path} (roots : flavor.Roots root rest) :
    flavor.Roots (root.map change) (rest.map change) := by
  cases roots with
  | relative plain =>
      exact .relative (by rwa [keeps.beginsWithSeparator_map]) (by simp [noDrives])
  | separator separates =>
      exact .separator (by rwa [keeps.isSeparator]) (by simp [noDrives])
  | drive drives | driveDirectory drives | server drives | share drives =>
      simp [noDrives] at drives

namespace PathStyle

variable (style : PathStyle)

theorem root_map {change : Char → Char} (keeps : style.flavor.KeepsMarks change)
    (noDrives : style.flavor.hasDriveRoots = false) (path : Path) :
    style.flavor.isRooted (path.map change) = style.flavor.isRooted path ∧
      Matcher.pathBelowRoot style.flavor (path.map change) =
        (Matcher.pathBelowRoot style.flavor path).map change := by
  have roots := style.roots_root path
  have changed := roots.map keeps noDrives
  have shape : path.map change = (style.flavor.root path).map change ++
      (style.flavor.dropRoot path).map change := by
    rw [← List.map_append, style.root_append_dropRoot]
  rw [Matcher.pathBelowRoot, Matcher.pathBelowRoot, ← keeps.dropWhile_map, shape,
    style.isRooted_append changed, style.dropRoot_append changed, Flavor.isRooted]
  exact ⟨by simp, rfl⟩

theorem isRootRelative_map_comparedAs (ignoreCase : Bool) (specification : List Char) :
    isRootRelative style.flavor (specification.map (comparedAs ignoreCase)) =
      isRootRelative style.flavor specification := by
  have keeps := style.keepsMarks_comparedAs ignoreCase
  have fixed {separator : Char} (separates : style.flavor.isSeparator separator = true) :
      comparedAs ignoreCase separator = separator :=
    style.comparedAs_of_mem ignoreCase (style.separatesNames separator separates)
  rw [Bool.eq_iff_iff, isRootRelative_iff, isRootRelative_iff, beginsAtRoot_map_iff keeps]
  apply or_congr_right
  constructor
  · intro mixed
    generalize shape : specification.map (comparedAs ignoreCase) = changed at mixed
    cases mixed with
    | separators first second different =>
        obtain ⟨original, rest, rfl, rfl, others⟩ := List.map_eq_cons_iff.mp shape
        obtain ⟨other, rest, rfl, rfl, rfl⟩ := List.map_eq_cons_iff.mp others
        rw [keeps.isSeparator] at first second
        rw [fixed first, fixed second] at different
        exact .separators first second different
  · intro mixed
    cases mixed with
    | separators first second different =>
        rw [List.map_cons, List.map_cons, fixed first, fixed second]
        exact .separators first second different

theorem comparedRegex_caseless (specification : List Char) :
    Token.comparedRegex style.flavor true (Token.scan style.flavor specification) =
      Token.comparedRegex style.flavor false
        (Token.scan style.flavor (specification.map caseless)) := by
  have keeps : style.flavor.KeepsMarks caseless := style.keepsMarks_comparedAs true
  rw [comparedRegex_eq, comparedRegex_eq, comparedAs_false, Token.map_id, List.map_id,
    Token.scan_map keeps]
  rfl

/-- What matches by case matches without. -/
theorem isMatch_caseless {specification text : List Char}
    (matched : (Token.comparedRegex style.flavor false
      (Token.scan style.flavor specification)).isMatch (text.map (comparedAs false)) = true) :
    (Token.comparedRegex style.flavor true (Token.scan style.flavor specification)).isMatch
      (text.map (comparedAs true)) = true := by
  rw [isMatch_comparedRegex_iff, comparedAs_false, Token.map_id, List.map_id,
    List.map_id] at matched
  exact style.isMatch_comparedRegex_of_mem true matched

theorem accepts_caseless {specification : List Char} {path : Path}
    (accepted : (style.matcher false specification).accepts path = true) :
    (style.matcher true specification).accepts path = true := by
  rw [accepts_matcher] at accepted ⊢
  split at accepted
  · next relative =>
      rw [if_pos relative]
      exact style.isMatch_caseless accepted
  · next whole =>
      rw [if_neg whole]
      exact style.isMatch_caseless accepted

theorem accepts_map_caseless (noDrives : style.flavor.hasDriveRoots = false)
    (specification : List Char) (path : Path) :
    (style.matcher true specification).accepts path =
      (style.matcher false (specification.map caseless)).accepts (path.map caseless) := by
  have keeps : style.flavor.KeepsMarks caseless := style.keepsMarks_comparedAs true
  have sameRoot : isRootRelative style.flavor (specification.map caseless) =
      isRootRelative style.flavor specification :=
    style.isRootRelative_map_comparedAs true specification
  obtain ⟨sameRooted, sameBelow⟩ := style.root_map keeps noDrives path
  rw [accepts_matcher, accepts_matcher, sameRoot, sameRooted, sameBelow, keeps.dropWhile_map,
    comparedRegex_caseless, comparedRegex_caseless, comparedAs_false, List.map_id, List.map_id]
  rfl

end PathStyle

/-- Ignoring case is folding the letters of the specification and of the path. The tokens of the
specification are the same but for the letters, and so is whether it is relative to the root. -/
theorem accepts_folded (specification : List Char) :
    ∃ ignoring folded sensitive,
      Matcher.ofSpecification? PathStyle.posix.flavor true specification = some ignoring ∧
      Matcher.ofSpecification? PathStyle.posix.flavor false (specification.map caseless) =
        some folded ∧
      Matcher.ofSpecification? PathStyle.posix.flavor false specification = some sensitive ∧
      Token.scan PathStyle.posix.flavor (specification.map caseless) =
        (Token.scan PathStyle.posix.flavor specification).map (Token.map caseless) ∧
      isRootRelative PathStyle.posix.flavor (specification.map caseless) =
        isRootRelative PathStyle.posix.flavor specification ∧
      ∀ path : Path,
        ignoring.accepts path = folded.accepts (path.map caseless) ∧
        (sensitive.accepts path = true → ignoring.accepts path = true) := by
  refine ⟨_, _, _, PathStyle.posix.ofSpecification?_eq true specification,
    PathStyle.posix.ofSpecification?_eq false (specification.map caseless),
    PathStyle.posix.ofSpecification?_eq false specification,
    Token.scan_map (PathStyle.posix.keepsMarks_comparedAs true) specification,
    PathStyle.posix.isRootRelative_map_comparedAs true specification, fun path => ⟨?_, ?_⟩⟩
  · exact PathStyle.posix.accepts_map_caseless rfl specification path
  · exact PathStyle.posix.accepts_caseless

end FileSpec
