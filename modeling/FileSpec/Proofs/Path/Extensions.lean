import FileSpec.Proofs.Path.Names

/-!
# Stems and extensions

`SplitsExtension` says by rules how a file name is divided: a name without a dot is all stem, a dot
at the end belongs to neither part, and otherwise the last dot begins the extension. Every name is
divided by one of the rules, and what is put between the stem and the extension becomes part of the
stem as long as it has no dot: `SplitsExtension.insert`.
-/

set_option autoImplicit false

namespace FileSpec

open Text

/-- `SplitsExtension name stem extension`: the parts of a file name. -/
inductive SplitsExtension : Path → Path → Path → Prop where
  | plain {name} : '.' ∉ name → SplitsExtension name name []
  | endingInDot {stem} : SplitsExtension (stem ++ ['.']) stem []
  | dotted {stem kind} : kind ≠ [] → '.' ∉ kind →
      SplitsExtension (stem ++ '.' :: kind) stem ('.' :: kind)

theorem exists_splitsExtension (name : Path) :
    ∃ stem extension, SplitsExtension name stem extension := by
  induction name with
  | nil => exact ⟨[], [], .plain List.not_mem_nil⟩
  | cons first rest inductionHypothesis =>
      obtain ⟨stem, extension, splits⟩ := inductionHypothesis
      cases splits with
      | plain noDot =>
          by_cases dot : first = '.'
          · subst dot
            by_cases nothing : rest = []
            · subst nothing
              exact ⟨[], [], @SplitsExtension.endingInDot []⟩
            · exact ⟨[], '.' :: rest, @SplitsExtension.dotted [] rest nothing noDot⟩
          · exact ⟨first :: rest, [], .plain (List.not_mem_cons_of_ne_of_not_mem (Ne.symm dot) noDot)⟩
      | endingInDot => exact ⟨first :: stem, [], @SplitsExtension.endingInDot (first :: stem)⟩
      | @dotted _ kind nonempty noDot =>
          exact ⟨first :: stem, '.' :: kind,
            @SplitsExtension.dotted (first :: stem) kind nonempty noDot⟩

namespace SplitsExtension

variable {name stem extension : Path}

theorem splitExtension_eq (splits : SplitsExtension name stem extension) :
    splitExtension name = (stem, extension) := by
  cases splits with
  | plain noDot => simp [splitExtension, noDot]
  | endingInDot =>
      have cut : throughLast (· == '.') (stem ++ ['.']) = stem ++ ['.'] :=
        throughLast_append_mark rfl stem (List.forall_mem_nil _)
      simp [splitExtension, cut]
  | @dotted _ kind nonempty noDot =>
      have plain : ∀ character ∈ kind, (character == '.') = false := by
        intro character member
        rw [beq_eq_false_iff_ne]
        exact ne_of_mem_of_not_mem member noDot
      have cut : throughLast (· == '.') (stem ++ '.' :: kind) = stem ++ ['.'] :=
        throughLast_append_mark rfl stem plain
      have kept : afterLast (· == '.') (stem ++ '.' :: kind) = kind := by
        have behind : afterLast (· == '.') ((stem ++ ['.']) ++ kind) = kind :=
          afterLast_append (by simp) plain
        simpa using behind
      have notAtEnd : ('.' :: kind).getLast? ≠ some '.' := by
        intro atEnd
        rw [List.getLast?_cons_of_ne_nil nonempty] at atEnd
        exact noDot (List.mem_of_getLast? atEnd)
      simp [splitExtension, cut, kept, notAtEnd]

end SplitsExtension

theorem splitsExtension (name : Path) :
    SplitsExtension name (splitExtension name).1 (splitExtension name).2 := by
  obtain ⟨stem, extension, splits⟩ := exists_splitsExtension name
  rwa [splits.splitExtension_eq]

namespace SplitsExtension

variable {name stem extension : Path}

/-- A dot at the end is all that a name can lose. -/
theorem length_le (splits : SplitsExtension name stem extension) :
    name.length ≤ stem.length + extension.length + 1 := by
  cases splits <;> simp

theorem stem_append_extension (splits : SplitsExtension name stem extension)
    (noDotAtEnd : name.getLast? ≠ some '.') : stem ++ extension = name := by
  cases splits with
  | plain => exact List.append_nil name
  | endingInDot => simp at noDotAtEnd
  | dotted => rfl

/-- What is put in front of the extension belongs to the stem. -/
theorem insert (splits : SplitsExtension name stem extension)
    (noDotAtEnd : name.getLast? ≠ some '.') {mark : Path} (noDot : '.' ∉ mark) :
    SplitsExtension (stem ++ mark ++ extension) (stem ++ mark) extension := by
  cases splits with
  | plain noDotBefore =>
      rw [List.append_nil]
      exact .plain (List.not_mem_append noDotBefore noDot)
  | endingInDot => simp at noDotAtEnd
  | dotted nonempty noDotBehind => exact .dotted nonempty noDotBehind

end SplitsExtension

namespace Flavor

variable (flavor : Flavor)

theorem fileName_isSuffix (path : Path) : flavor.fileName path <:+ path :=
  ⟨throughLast flavor.isNameDelimiter path, throughLast_append_afterLast _ path⟩

theorem endsWithSeparator_of_fileName {path : Path} (named : flavor.fileName path ≠ []) :
    flavor.endsWithSeparator path = false := by
  rw [← Bool.not_eq_true]
  intro ends
  apply named
  rw [endsWithSeparator] at ends
  cases last : path.getLast? with
  | none => simp [last] at ends
  | some final =>
      obtain ⟨front, rfl⟩ := List.getLast?_eq_some_iff.mp last
      have separates : flavor.isSeparator final = true := by simpa using ends
      simp [fileName, afterLast, isNameDelimiter, separates]

/-- A path that does not end with a separator has the stem and the extension of its file name. -/
theorem splitsExtension_fileName {path : Path} (ends : flavor.endsWithSeparator path = false) :
    SplitsExtension (flavor.fileName path) (flavor.stem path) (flavor.extension path) := by
  rw [stem, extension, removeSuffix_of_not_endsWithSeparator ends]
  exact splitsExtension (flavor.fileName path)

end Flavor

end FileSpec
