import FileSpec.Proofs.Pattern.LiteralSpecifications
import FileSpec.Proofs.Pattern.Matching

/-!
# Specifications with the same expression

The text of an expression is read back as one expression for each token, and no two tokens have the
same expression, so the text tells the tokens. These in turn tell the specification up to the kinds
and lengths of its runs of separators: `compile_eq_iff_squeezed_eq`.
-/

set_option autoImplicit false

namespace FileSpec

namespace Regex

theorem sequence_injective : Function.Injective sequence := by
  intro regexes others same
  induction regexes generalizing others with
  | nil =>
      cases others with
      | nil => rfl
      | cons other others => cases same
  | cons regex regexes inductionHypothesis =>
      cases others with
      | nil => cases same
      | cons other others =>
          obtain ⟨sameFirst, sameOthers⟩ := Regex.append.inj same
          rw [sameFirst, inductionHypothesis sameOthers]

end Regex

namespace Token

variable {flavor : Flavor}

theorem regex_injective : Function.Injective (regex flavor) := by
  intro token other same
  cases token <;> cases other <;>
    simp_all [regex, Regex.literal, Regex.sequence, Flavor.nameCharacters]

/-- Whatever tokens stand beside each other, none is read as part of its neighbour. -/
theorem flatMap_regexText_injective (hasClass : flavor.HasNameClass) :
    Function.Injective fun tokens : List Token => tokens.flatMap (regexText flavor) := by
  intro tokens others same
  have sameText : tokens.flatMap (regexText flavor) = others.flatMap (regexText flavor) := same
  have fuel : ∃ fuel, tokens.length + 3 ≤ fuel ∧ others.length + 3 ≤ fuel :=
    ⟨tokens.length + others.length + 3, by omega, by omega⟩
  obtain ⟨fuel, enough, enoughOthers⟩ := fuel
  have read := Regex.readSequence?_regexText flavor hasClass tokens enough
  rw [sameText, Regex.readSequence?_regexText flavor hasClass others enoughOthers] at read
  have sameSequence := (Prod.mk.inj (Option.some.inj read)).1
  exact (List.map_injective_iff.mpr regex_injective (Regex.sequence_injective sameSequence)).symm

theorem compile_eq_iff_scan_eq (hasClass : flavor.HasNameClass)
    {specification other : List Char} :
    compile flavor specification = compile flavor other ↔
      scan flavor specification = scan flavor other := by
  constructor
  · intro same
    have sameBody : bodyText flavor specification = bodyText flavor other :=
      List.append_cancel_right (List.cons.inj same).2
    exact flatMap_regexText_injective hasClass sameBody
  · intro same
    rw [compile, compile, bodyText, bodyText, same]

/-- What a token is written as, in its shortest form. -/
def written (flavor : Flavor) : Token → List Char
  | separators => [flavor.separator]
  | anyCharacter => ['?']
  | anyDirectories => ['*', '*', flavor.separator]
  | anyName => ['*']
  | literal character => [character]

theorem Reads.squeezed_eq {specification : List Char} {tokens : List Token}
    (reads : Reads flavor specification tokens) :
    flavor.squeezed specification = tokens.flatMap (written flavor) := by
  induction reads with
  | nil => rfl
  | separators nonempty whole ends _ inductionHypothesis =>
      rw [Flavor.squeezed_run nonempty whole ends, inductionHypothesis]
      rfl
  | anyCharacter plain _ inductionHypothesis =>
      rw [Flavor.squeezed_plain plain, inductionHypothesis]
      rfl
  | anyDirectories plain nonempty whole ends _ inductionHypothesis =>
      rw [Flavor.squeezed_plain plain, Flavor.squeezed_plain plain,
        Flavor.squeezed_run nonempty whole ends, inductionHypothesis]
      rfl
  | anyName plain _ _ inductionHypothesis =>
      rw [Flavor.squeezed_plain plain, inductionHypothesis]
      rfl
  | literal plain _ _ _ inductionHypothesis =>
      rw [Flavor.squeezed_plain plain, inductionHypothesis]
      rfl

/-- Runs that are made single are the same tokens. -/
theorem Reads.squeezed {specification : List Char} {tokens : List Token}
    (reads : Reads flavor specification tokens) :
    Reads flavor (flavor.squeezed specification) tokens := by
  have single : ∀ character ∈ [flavor.separator], flavor.isSeparator character = true :=
    List.forall_mem_singleton.mpr Flavor.isSeparator_separator
  have nonempty : [flavor.separator] ≠ [] := List.cons_ne_nil _ _
  induction reads with
  | nil => exact .nil
  | separators someRun whole ends _ inductionHypothesis =>
      rw [Flavor.squeezed_run someRun whole ends]
      exact .separators nonempty single (by simpa using ends) inductionHypothesis
  | anyCharacter plain _ inductionHypothesis =>
      rw [Flavor.squeezed_plain plain]
      exact .anyCharacter plain inductionHypothesis
  | anyDirectories plain someRun whole ends _ inductionHypothesis =>
      rw [Flavor.squeezed_plain plain, Flavor.squeezed_plain plain,
        Flavor.squeezed_run someRun whole ends]
      exact .anyDirectories plain nonempty single (by simpa using ends) inductionHypothesis
  | anyName plain alone _ inductionHypothesis =>
      rw [Flavor.squeezed_plain plain]
      refine .anyName plain (fun others shape => ?_) inductionHypothesis
      obtain ⟨behind, rfl, rfl⟩ := (Flavor.squeezed_eq_cons_plain_iff plain).mp shape
      simpa using alone behind rfl
  | literal plain notAny notStar _ inductionHypothesis =>
      rw [Flavor.squeezed_plain plain]
      exact .literal plain notAny notStar inductionHypothesis

theorem scan_eq_iff_squeezed_eq {specification other : List Char} :
    scan flavor specification = scan flavor other ↔
      flavor.squeezed specification = flavor.squeezed other := by
  constructor
  · intro same
    rw [(reads_scan specification).squeezed_eq, (reads_scan other).squeezed_eq, same]
  · intro same
    rw [(reads_scan specification).squeezed.eq_scan, (reads_scan other).squeezed.eq_scan, same]

end Token

/-- Two specifications have the same text of an expression exactly if they differ in the kinds and
lengths of runs of separators only, and no text is that of two sequences of tokens. -/
theorem compile_eq_iff_squeezed_eq (style : PathStyle) :
    (∀ specification other : List Char,
      compile style.flavor specification = compile style.flavor other ↔
        style.flavor.squeezed specification = style.flavor.squeezed other) ∧
      Function.Injective fun tokens : List Token =>
        tokens.flatMap (Token.regexText style.flavor) := by
  refine ⟨fun specification other => ?_, Token.flatMap_regexText_injective style.hasNameClass⟩
  rw [Token.compile_eq_iff_scan_eq style.hasNameClass, Token.scan_eq_iff_squeezed_eq]

end FileSpec
