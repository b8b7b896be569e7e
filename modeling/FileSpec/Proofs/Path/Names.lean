import FileSpec.Path.Basic
import FileSpec.Proofs.Path.Flavor
import Mathlib.Data.List.Basic

/-!
# Paths built from names

Joining names one after the other to a start gives the start, with a separator at its end, and
the names with separators between them, however the start is written: `pathTo_concat`. So the
names can be told from the path, and what is below a directory is what its path begins.
-/

set_option autoImplicit false

namespace FileSpec

open Text

theorem Text.afterLast_append {delimits : Char → Bool} {front back : List Char}
    (ends : ∀ last ∈ front.getLast?, delimits last = true)
    (plain : ∀ character ∈ back, delimits character = false) :
    afterLast delimits (front ++ back) = back := by
  have kept : ∀ character ∈ back.reverse, (!delimits character) = true := by
    intro character member
    simp [plain character (List.mem_reverse.mp member)]
  have stopped : front.reverse.takeWhile (fun character => !delimits character) = [] := by
    rcases front.eq_nil_or_concat' with rfl | ⟨others, last, rfl⟩
    · rfl
    · simp [ends last (by simp)]
  rw [afterLast, List.reverse_append, List.takeWhile_append_of_pos kept, stopped, List.append_nil,
    List.reverse_reverse]

theorem Text.afterLast_of_plain {delimits : Char → Bool} {text : List Char}
    (plain : ∀ character ∈ text, delimits character = false) : afterLast delimits text = text :=
  @afterLast_append delimits [] text (by simp) plain

theorem Text.not_delimits_of_mem_afterLast {delimits : Char → Bool} {text : List Char}
    {character : Char} (member : character ∈ afterLast delimits text) :
    delimits character = false := by
  have kept := List.all_eq_true.mp List.all_takeWhile character (List.mem_reverse.mp member)
  simpa using kept

theorem Text.throughLast_append_mark {delimits : Char → Bool} {mark : Char}
    (isMark : delimits mark = true) (front : List Char) {back : List Char}
    (plain : ∀ character ∈ back, delimits character = false) :
    throughLast delimits (front ++ mark :: back) = front ++ [mark] := by
  have behind : afterLast delimits ((front ++ [mark]) ++ back) = back :=
    afterLast_append (by simpa using isMark) plain
  have whole := throughLast_append_afterLast delimits ((front ++ [mark]) ++ back)
  rw [behind] at whole
  simpa using List.append_cancel_right whole

theorem Text.delimits_of_getLast?_throughLast {delimits : Char → Bool} (text : List Char) :
    ∀ last ∈ (throughLast delimits text).getLast?, delimits last = true := by
  intro last isLast
  rw [throughLast, List.getLast?_reverse] at isLast
  have stopped := List.head?_dropWhile_not (fun character => !delimits character) text.reverse
  rw [Option.mem_def.mp isLast] at stopped
  simpa using stopped

theorem Text.afterLast_isSuffix (delimits : Char → Bool) (text : List Char) :
    afterLast delimits text <:+ text :=
  ⟨throughLast delimits text, throughLast_append_afterLast delimits text⟩

namespace Flavor

/-- The path that names lead to from a start, one directory after the other. -/
def pathTo (flavor : Flavor) (start : Path) (names : List Path) : Path :=
  names.foldl flavor.join start

/-- Names with a separator behind each. -/
def separated (flavor : Flavor) (names : List Path) : Path :=
  names.flatMap (· ++ [flavor.separator])

variable {flavor : Flavor}

@[simp]
theorem pathTo_nil (start : Path) : flavor.pathTo start [] = start := rfl

@[simp]
theorem separated_nil : flavor.separated [] = [] := rfl

@[simp]
theorem separated_cons (name : Path) (names : List Path) :
    flavor.separated (name :: names) = name ++ flavor.separator :: flavor.separated names := by
  simp [separated]

@[simp]
theorem endsWithSeparator_append {front back : Path} (nonempty : back ≠ []) :
    flavor.endsWithSeparator (front ++ back) = flavor.endsWithSeparator back := by
  have last := List.getLast?_eq_some_getLast nonempty
  simp [endsWithSeparator, List.getLast?_append, last]

theorem not_endsWithSeparator_of_plain {name : Path} (nonempty : name ≠ [])
    (plain : ∀ character ∈ name, flavor.isSeparator character = false) :
    flavor.endsWithSeparator name = false := by
  have last := List.getLast?_eq_some_getLast nonempty
  simpa [endsWithSeparator, last] using plain _ (List.getLast_mem nonempty)

theorem IsLegalName.endsWithSeparator {name : Path} (legal : flavor.IsLegalName name)
    (separates : flavor.SeparatesNames) : flavor.endsWithSeparator name = false :=
  not_endsWithSeparator_of_plain legal.1 (legal.not_isSeparator separates)

theorem addSuffix_of_endsWithSeparator {path : Path}
    (ends : flavor.endsWithSeparator path = true) : flavor.addSuffix path = path :=
  if_pos ends

theorem addSuffix_of_not_endsWithSeparator {path : Path}
    (ends : flavor.endsWithSeparator path = false) :
    flavor.addSuffix path = path ++ [flavor.separator] := by
  simp [addSuffix, ends]

@[simp]
theorem endsWithSeparator_addSuffix (path : Path) :
    flavor.endsWithSeparator (flavor.addSuffix path) = true := by
  unfold addSuffix
  split
  · assumption
  · simp [endsWithSeparator]

@[simp]
theorem addSuffix_ne_nil (path : Path) : flavor.addSuffix path ≠ [] := by
  intro nothing
  have ends : flavor.endsWithSeparator (flavor.addSuffix path) = true :=
    endsWithSeparator_addSuffix path
  rw [nothing] at ends
  exact Bool.false_ne_true ends

@[simp]
theorem addSuffix_addSuffix (path : Path) :
    flavor.addSuffix (flavor.addSuffix path) = flavor.addSuffix path :=
  addSuffix_of_endsWithSeparator (endsWithSeparator_addSuffix path)

/-- Only the end of a text decides about a separator behind it. -/
theorem addSuffix_append (front : Path) {back : Path} (nonempty : back ≠ []) :
    flavor.addSuffix (front ++ back) = front ++ flavor.addSuffix back := by
  unfold addSuffix
  rw [endsWithSeparator_append nonempty]
  split
  · rfl
  · exact List.append_assoc front back _

theorem removeSuffix_of_not_endsWithSeparator {path : Path}
    (ends : flavor.endsWithSeparator path = false) : flavor.removeSuffix path = path := by
  rcases path.eq_nil_or_concat' with rfl | ⟨front, last, rfl⟩
  · rfl
  · simp only [endsWithSeparator, List.getLast?_concat, Option.any_some] at ends
    simp [removeSuffix, dropTrailing, ends]

theorem length_removeSuffix_le (path : Path) :
    (flavor.removeSuffix path).length ≤ path.length := by
  have cut := (List.dropWhile_sublist flavor.isSeparator (l := path.reverse)).length_le
  simpa [removeSuffix, dropTrailing] using cut

theorem isPrefix_addSuffix (path : Path) : path <+: flavor.addSuffix path := by
  unfold addSuffix
  split
  · exact List.prefix_rfl
  · exact List.prefix_append _ _

theorem isSeparator_of_getLast?_addSuffix (path : Path) :
    ∀ last ∈ (flavor.addSuffix path).getLast?, flavor.isSeparator last = true := by
  intro last isLast
  have ends : flavor.endsWithSeparator (flavor.addSuffix path) = true :=
    endsWithSeparator_addSuffix path
  rwa [endsWithSeparator, Option.mem_def.mp isLast] at ends

/-- A relative path goes on behind a directory. -/
theorem join_eq_addSuffix {directory path : Path} (nonempty : directory ≠ [])
    (relative : flavor.isRooted path = false) :
    flavor.join directory path = flavor.addSuffix directory ++ path := by
  have notEmpty : directory.isEmpty = false := by simpa using nonempty
  simp only [join, notEmpty, relative, addSuffix, Bool.or_self, Bool.false_eq_true, if_false]
  split
  · rfl
  · simp

theorem getLast?_separated (names : List Path) :
    ∀ last ∈ (flavor.separated names).getLast?, last = flavor.separator := by
  rcases names.eq_nil_or_concat' with rfl | ⟨front, last, rfl⟩
  · simp
  · simp [separated, List.flatMap_append, List.getLast?_append]

theorem separated_append_eq_intercalate (names : List Path) (last : Path) :
    flavor.separated names ++ last = [flavor.separator].intercalate (names ++ [last]) := by
  induction names with
  | nil => simp
  | cons name names inductionHypothesis =>
      rw [separated_cons, List.cons_append, List.intercalate_cons_of_ne_nil (by simp),
        ← inductionHypothesis]
      simp

/-- Two texts without the separator in front of it are the same. -/
theorem append_separator_inj {name other rest more : Path} (first : flavor.separator ∉ name)
    (second : flavor.separator ∉ other)
    (same : name ++ flavor.separator :: rest = other ++ flavor.separator :: more) :
    name = other ∧ rest = more := by
  induction name generalizing other with
  | nil =>
      cases other with
      | nil => simpa using same
      | cons character other =>
          simp only [List.nil_append, List.cons_append, List.cons.injEq] at same
          exact absurd (by simp [same.1]) second
  | cons character name inductionHypothesis =>
      cases other with
      | nil =>
          simp only [List.nil_append, List.cons_append, List.cons.injEq] at same
          exact absurd (by simp [same.1]) first
      | cons head other =>
          simp only [List.cons_append, List.cons.injEq] at same
          obtain ⟨rfl, same⟩ := same
          simp only [List.mem_cons, not_or] at first second
          obtain ⟨rfl, rest⟩ := inductionHypothesis first.2 second.2 same
          exact ⟨rfl, rest⟩

/-- Names that are read off the front of a path are the first of its names. -/
theorem separated_isPrefix_iff {names others : List Path} {file : Path}
    (inNames : ∀ name ∈ names, flavor.separator ∉ name)
    (inOthers : ∀ name ∈ others, flavor.separator ∉ name) (inFile : flavor.separator ∉ file) :
    flavor.separated names <+: flavor.separated others ++ file ↔ names <+: others := by
  induction names generalizing others with
  | nil => simp
  | cons name names inductionHypothesis =>
      obtain ⟨inName, inNames⟩ := List.forall_mem_cons.mp inNames
      cases others with
      | nil =>
          simp only [separated_cons, List.prefix_nil, reduceCtorEq, iff_false]
          rintro ⟨rest, shape⟩
          apply inFile
          have member : flavor.separator ∈ flavor.separated [] ++ file := by
            rw [← shape]
            simp
          simpa using member
      | cons other others =>
          obtain ⟨inOther, inOthers⟩ := List.forall_mem_cons.mp inOthers
          rw [separated_cons, separated_cons, List.cons_prefix_cons,
            ← inductionHypothesis inNames inOthers]
          constructor
          · rintro ⟨rest, shape⟩
            simp only [List.append_assoc, List.cons_append] at shape
            obtain ⟨same, rest⟩ := append_separator_inj inName inOther shape
            exact ⟨same, _, rest⟩
          · rintro ⟨rfl, rest, shape⟩
            exact ⟨rest, by simp [← shape]⟩

/-- Names, and what follows them, can be told from the text that they make. -/
theorem separated_append_inj {names others : List Path} {file other : Path}
    (inNames : ∀ name ∈ names, flavor.separator ∉ name)
    (inOthers : ∀ name ∈ others, flavor.separator ∉ name)
    (inFile : flavor.separator ∉ file) (inOther : flavor.separator ∉ other)
    (same : flavor.separated names ++ file = flavor.separated others ++ other) :
    names = others ∧ file = other := by
  have forwards : names <+: others := by
    rw [← separated_isPrefix_iff inNames inOthers inOther, ← same]
    exact List.prefix_append _ _
  have backwards : others <+: names := by
    rw [← separated_isPrefix_iff inOthers inNames inFile, same]
    exact List.prefix_append _ _
  obtain rfl := forwards.eq_of_length_le backwards.length_le
  exact ⟨rfl, List.append_cancel_left same⟩

end Flavor

namespace PathStyle

variable (style : PathStyle)

theorem separator_not_mem {name : Path} (legal : style.flavor.IsLegalName name) :
    style.flavor.separator ∉ name := by
  intro member
  have plain := legal.not_isSeparator style.separatesNames _ member
  simp at plain

theorem separator_not_mem_of_legal {names : List Path}
    (legal : ∀ name ∈ names, style.flavor.IsLegalName name) :
    ∀ name ∈ names, style.flavor.separator ∉ name :=
  fun name member => style.separator_not_mem (legal name member)

theorem not_isNameDelimiter {name : Path} (legal : style.flavor.IsLegalName name) :
    ∀ character ∈ name, style.flavor.isNameDelimiter character = false := by
  intro character member
  have volumeInvalid : style.flavor.hasDriveRoots = true →
      style.flavor.volumeSeparator ∈ style.flavor.invalidNameChars := by
    cases style <;> decide
  have plain := legal.not_isSeparator style.separatesNames character member
  simp only [Flavor.isNameDelimiter, plain, Bool.false_or, Bool.and_eq_false_imp,
    beq_eq_false_iff_ne]
  rintro drives rfl
  exact legal.2 _ member (volumeInvalid drives)

theorem fileName_separated_append (names : List Path) {file : Path}
    (legal : style.flavor.IsLegalName file) :
    style.flavor.fileName (style.flavor.separated names ++ file) = file := by
  refine Text.afterLast_append (fun last member => ?_) (style.not_isNameDelimiter legal)
  rw [Flavor.getLast?_separated names last member]
  simp [Flavor.isNameDelimiter]

theorem join_eq {directory name : Path} (nonempty : directory ≠ [])
    (legal : style.flavor.IsLegalName name) :
    style.flavor.join directory name = style.flavor.addSuffix directory ++ name :=
  Flavor.join_eq_addSuffix nonempty (style.isRooted_of_isLegalName legal)

theorem fileName_join {directory name : Path} (nonempty : directory ≠ [])
    (legal : style.flavor.IsLegalName name) :
    style.flavor.fileName (style.flavor.join directory name) = name := by
  rw [style.join_eq nonempty legal]
  refine Text.afterLast_append (fun last isLast => ?_) (style.not_isNameDelimiter legal)
  rw [Flavor.isNameDelimiter, Flavor.isSeparator_of_getLast?_addSuffix directory last isLast,
    Bool.true_or]

theorem addSuffix_join {directory name : Path} (nonempty : directory ≠ [])
    (legal : style.flavor.IsLegalName name) :
    style.flavor.addSuffix (style.flavor.join directory name) =
      style.flavor.addSuffix directory ++ (name ++ [style.flavor.separator]) := by
  have ends := legal.endsWithSeparator style.separatesNames
  rw [style.join_eq nonempty legal, Flavor.addSuffix_append _ legal.1,
    Flavor.addSuffix_of_not_endsWithSeparator ends]

theorem join_ne_nil {directory name : Path} (nonempty : directory ≠ [])
    (legal : style.flavor.IsLegalName name) : style.flavor.join directory name ≠ [] := by
  rw [style.join_eq nonempty legal]
  simp [legal.1]

theorem pathTo_ne_nil {start : Path} (nonempty : start ≠ []) {names : List Path}
    (legal : ∀ name ∈ names, style.flavor.IsLegalName name) :
    style.flavor.pathTo start names ≠ [] := by
  induction names generalizing start with
  | nil => exact nonempty
  | cons name names inductionHypothesis =>
      obtain ⟨legalName, legalNames⟩ := List.forall_mem_cons.mp legal
      exact inductionHypothesis (style.join_ne_nil nonempty legalName) legalNames

theorem addSuffix_pathTo {start : Path} (nonempty : start ≠ []) {names : List Path}
    (legal : ∀ name ∈ names, style.flavor.IsLegalName name) :
    style.flavor.addSuffix (style.flavor.pathTo start names) =
      style.flavor.addSuffix start ++ style.flavor.separated names := by
  induction names generalizing start with
  | nil => simp
  | cons name names inductionHypothesis =>
      obtain ⟨legalName, legalNames⟩ := List.forall_mem_cons.mp legal
      have below := inductionHypothesis (style.join_ne_nil nonempty legalName) legalNames
      rw [style.addSuffix_join nonempty legalName] at below
      rw [Flavor.separated_cons]
      simpa [Flavor.pathTo] using below

theorem join_pathTo {start file : Path} (nonempty : start ≠ []) {names : List Path}
    (legal : ∀ name ∈ names, style.flavor.IsLegalName name)
    (legalFile : style.flavor.IsLegalName file) :
    style.flavor.join (style.flavor.pathTo start names) file =
      style.flavor.addSuffix start ++ (style.flavor.separated names ++ file) := by
  rw [style.join_eq (style.pathTo_ne_nil nonempty legal) legalFile,
    style.addSuffix_pathTo nonempty legal, List.append_assoc]

theorem pathTo_append_singleton {start last : Path} (nonempty : start ≠ []) {front : List Path}
    (legal : ∀ name ∈ front, style.flavor.IsLegalName name)
    (legalLast : style.flavor.IsLegalName last) :
    style.flavor.pathTo start (front ++ [last]) =
      style.flavor.addSuffix start ++ style.flavor.separated front ++ last := by
  rw [Flavor.pathTo, List.foldl_append, ← Flavor.pathTo, List.append_assoc]
  exact style.join_pathTo nonempty legal legalLast

/-- What is below a directory is what begins with its path. -/
theorem addSuffix_isPrefix_join_iff {start file : Path} (nonempty : start ≠ [])
    {names others : List Path} (legal : ∀ name ∈ names, style.flavor.IsLegalName name)
    (legalOthers : ∀ name ∈ others, style.flavor.IsLegalName name)
    (legalFile : style.flavor.IsLegalName file) :
    style.flavor.addSuffix (style.flavor.pathTo start names) <+:
        style.flavor.join (style.flavor.pathTo start others) file ↔
      names <+: others := by
  rw [style.addSuffix_pathTo nonempty legal, style.join_pathTo nonempty legalOthers legalFile,
    List.prefix_append_right_inj]
  exact Flavor.separated_isPrefix_iff (style.separator_not_mem_of_legal legal)
    (style.separator_not_mem_of_legal legalOthers) (style.separator_not_mem legalFile)

theorem pathTo_inj {start : Path} (nonempty : start ≠ []) {names others : List Path}
    (legal : ∀ name ∈ names, style.flavor.IsLegalName name)
    (legalOthers : ∀ name ∈ others, style.flavor.IsLegalName name)
    (same : style.flavor.pathTo start names = style.flavor.pathTo start others) :
    names = others := by
  have suffixed := congrArg style.flavor.addSuffix same
  rw [style.addSuffix_pathTo nonempty legal,
    style.addSuffix_pathTo nonempty legalOthers] at suffixed
  have separated : style.flavor.separated names ++ [] = style.flavor.separated others ++ [] := by
    rw [List.append_cancel_left suffixed]
  exact (Flavor.separated_append_inj (style.separator_not_mem_of_legal legal)
    (style.separator_not_mem_of_legal legalOthers) List.not_mem_nil List.not_mem_nil separated).1

theorem removeSuffix_pathTo {start : Path} (nonempty : start ≠ []) {front : List Path}
    {last : Path} (legal : ∀ name ∈ front ++ [last], style.flavor.IsLegalName name) :
    style.flavor.removeSuffix (style.flavor.pathTo start (front ++ [last])) =
      style.flavor.pathTo start (front ++ [last]) := by
  obtain ⟨legalFront, legalLast⟩ := List.forall_mem_append.mp legal
  have legalLast := legalLast last (List.mem_singleton_self last)
  apply Flavor.removeSuffix_of_not_endsWithSeparator
  rw [style.pathTo_append_singleton nonempty legalFront legalLast,
    Flavor.endsWithSeparator_append legalLast.1]
  exact legalLast.endsWithSeparator style.separatesNames

theorem removeSuffix_pathTo_ne {start : Path} (nonempty : start ≠ []) {front : List Path}
    {last : Path} (legal : ∀ name ∈ front ++ [last], style.flavor.IsLegalName name) :
    style.flavor.removeSuffix start ≠
      style.flavor.removeSuffix (style.flavor.pathTo start (front ++ [last])) := by
  intro same
  rw [style.removeSuffix_pathTo nonempty legal] at same
  obtain ⟨legalFront, legalLast⟩ := List.forall_mem_append.mp legal
  have legalLast := legalLast last (List.mem_singleton_self last)
  rw [style.pathTo_append_singleton nonempty legalFront legalLast] at same
  have lengths := congrArg List.length same
  have shorter := style.flavor.length_removeSuffix_le start
  have longer := (style.flavor.isPrefix_addSuffix start).length_le
  have positive := List.length_pos_iff.mpr legalLast.1
  simp only [List.length_append] at lengths
  omega

theorem removeSuffix_pathTo_inj {start : Path} (nonempty : start ≠ []) {names others : List Path}
    (legal : ∀ name ∈ names, style.flavor.IsLegalName name)
    (legalOthers : ∀ name ∈ others, style.flavor.IsLegalName name)
    (same : style.flavor.removeSuffix (style.flavor.pathTo start names) =
      style.flavor.removeSuffix (style.flavor.pathTo start others)) :
    names = others := by
  rcases names.eq_nil_or_concat' with rfl | ⟨front, last, rfl⟩ <;>
    rcases others.eq_nil_or_concat' with rfl | ⟨otherFront, otherLast, rfl⟩
  · rfl
  · exact absurd same (style.removeSuffix_pathTo_ne nonempty legalOthers)
  · exact absurd same.symm (style.removeSuffix_pathTo_ne nonempty legal)
  · rw [style.removeSuffix_pathTo nonempty legal, style.removeSuffix_pathTo nonempty legalOthers]
      at same
    exact style.pathTo_inj nonempty legal legalOthers same

theorem join_pathTo_inj {start file other : Path} (nonempty : start ≠ [])
    {names others : List Path} (legal : ∀ name ∈ names, style.flavor.IsLegalName name)
    (legalOthers : ∀ name ∈ others, style.flavor.IsLegalName name)
    (legalFile : style.flavor.IsLegalName file) (legalOther : style.flavor.IsLegalName other)
    (same : style.flavor.join (style.flavor.pathTo start names) file =
      style.flavor.join (style.flavor.pathTo start others) other) :
    names = others ∧ file = other := by
  rw [style.join_pathTo nonempty legal legalFile,
    style.join_pathTo nonempty legalOthers legalOther] at same
  exact Flavor.separated_append_inj (style.separator_not_mem_of_legal legal)
    (style.separator_not_mem_of_legal legalOthers) (style.separator_not_mem legalFile)
    (style.separator_not_mem legalOther) (List.append_cancel_left same)

end PathStyle

end FileSpec
