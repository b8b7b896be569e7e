import FileSpec.Proofs.Pattern.TokenLanguage

/-!
# Specifications one behind the other

Where no token can go on over the place at which two specifications meet, the tokens of the two
together are the tokens of the first and then those of the second: `Token.scan_append`. What they
match is then in two parts.
-/

set_option autoImplicit false

namespace FileSpec

/-- Where two texts meet, there is no asterisk in front, and there are not separators on both
sides. -/
def Flavor.MeetBetweenTokens (flavor : Flavor) (front back : List Char) : Prop :=
  ∀ last ∈ front.getLast?, last ≠ '*' ∧
    (flavor.isSeparator last = true → flavor.beginsWithSeparator back = false)

namespace Flavor.MeetBetweenTokens

variable {flavor : Flavor} {back : List Char}

theorem of_ends {front : List Char}
    (ends : ∀ last ∈ front.getLast?, last ≠ '*' ∧ flavor.isSeparator last = false) :
    flavor.MeetBetweenTokens front back := by
  intro last isLast
  obtain ⟨notStar, plain⟩ := ends last isLast
  refine ⟨notStar, fun separates => ?_⟩
  rw [plain] at separates
  cases separates

theorem of_append (start : List Char) {front : List Char}
    (between : flavor.MeetBetweenTokens (start ++ front) back) :
    flavor.MeetBetweenTokens front back :=
  fun last isLast => between last (List.mem_getLast?_append_of_mem_getLast? isLast)

/-- A run of separators that ends within the front, or with it, is not longer in the whole. -/
theorem run_ends {run rest : List Char} (between : flavor.MeetBetweenTokens (run ++ rest) back)
    (nonempty : run ≠ []) (whole : ∀ character ∈ run, flavor.isSeparator character = true)
    (ends : flavor.beginsWithSeparator rest = false) :
    flavor.beginsWithSeparator (rest ++ back) = false := by
  cases rest with
  | nil =>
      rw [List.append_nil] at between
      have isLast : run.getLast nonempty ∈ run.getLast? := List.getLast?_eq_some_getLast nonempty
      exact (between _ isLast).2 (whole _ (List.getLast_mem nonempty))
  | cons first rest => exact ends

/-- An asterisk of the front stands alone if it stands alone in the front. -/
theorem stands_alone {rest : List Char} (between : flavor.MeetBetweenTokens ('*' :: rest) back)
    (single : ∀ others, rest = '*' :: others → flavor.beginsWithSeparator others = false) :
    ∀ others, rest ++ back = '*' :: others → flavor.beginsWithSeparator others = false := by
  intro others shape
  rcases rest with _ | ⟨second, rest⟩
  · exact absurd rfl (between '*' rfl).1
  · obtain ⟨rfl, rfl⟩ := List.cons.inj shape
    cases rest with
    | nil => exact absurd rfl (between '*' rfl).1
    | cons third rest => exact single (third :: rest) rfl

end Flavor.MeetBetweenTokens

namespace Token

variable {flavor : Flavor}

theorem Reads.append {front back : List Char} {tokens others : List Token}
    (between : flavor.MeetBetweenTokens front back) (reads : Reads flavor front tokens)
    (readsBack : Reads flavor back others) :
    Reads flavor (front ++ back) (tokens ++ others) := by
  induction reads with
  | nil => exact readsBack
  | @separators run rest tokens nonempty whole ends _ inductionHypothesis =>
      rw [List.append_assoc]
      exact .separators nonempty whole (between.run_ends nonempty whole ends)
        (inductionHypothesis (between.of_append run))
  | anyCharacter plain _ inductionHypothesis =>
      exact .anyCharacter plain (inductionHypothesis (between.of_append ['?']))
  | @anyDirectories run rest tokens plain nonempty whole ends _ inductionHypothesis =>
      have betweenRun : flavor.MeetBetweenTokens (run ++ rest) back := between.of_append ['*', '*']
      rw [List.cons_append, List.cons_append, List.append_assoc]
      exact .anyDirectories plain nonempty whole (betweenRun.run_ends nonempty whole ends)
        (inductionHypothesis (betweenRun.of_append run))
  | anyName plain single _ inductionHypothesis =>
      exact .anyName plain (between.stands_alone single)
        (inductionHypothesis (between.of_append ['*']))
  | @literal character rest tokens plain notAny notStar _ inductionHypothesis =>
      exact .literal plain notAny notStar (inductionHypothesis (between.of_append [character]))

theorem scan_append {front back : List Char} (between : flavor.MeetBetweenTokens front back) :
    scan flavor (front ++ back) = scan flavor front ++ scan flavor back :=
  ((reads_scan front).append between (reads_scan back)).eq_scan.symm

theorem sequenceLanguage_cons (token : Token) (tokens : List Token) :
    sequenceLanguage flavor (token :: tokens) =
      language flavor token * sequenceLanguage flavor tokens :=
  List.prod_cons

theorem sequenceLanguage_append (tokens others : List Token) :
    sequenceLanguage flavor (tokens ++ others) =
      sequenceLanguage flavor tokens * sequenceLanguage flavor others := by
  rw [sequenceLanguage, sequenceLanguage, sequenceLanguage, List.map_append, List.prod_append]

@[simp]
theorem mem_sequenceLanguage_append {tokens others : List Token} {text : List Char} :
    text ∈ sequenceLanguage flavor (tokens ++ others) ↔
      ∃ front ∈ sequenceLanguage flavor tokens, ∃ rest ∈ sequenceLanguage flavor others,
        front ++ rest = text := by
  rw [sequenceLanguage_append]
  exact Language.mem_mul

end Token

end FileSpec
