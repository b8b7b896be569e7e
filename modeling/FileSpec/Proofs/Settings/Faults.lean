import FileSpec.Proofs.Settings.Sources

/-!
# Settings files that cannot be used

The settings files for a directory are read one after the other. One that is not there gives
nothing. Of all others the first one that cannot be used decides, and it does so in one of two ways:
the user is told that it is locked or no TOML, but not what else can be wrong with it.
-/

set_option autoImplicit false

namespace FileSpec

open SettingsFile

/-- The settings files that are consulted for a directory, in the order in which they are read. -/
def SettingsFile.consulted (tree : FileTree) (environment : Environment) (start : Path) :
    Except SettingsError (List Path) := do
  let package? ← (ofPackage? tree start).mapError (SettingsError.source ∘ .file)
  let project? ← (ofProject? tree start).mapError (SettingsError.source ∘ .file)
  match ofUser? environment with
  | none => .error .unknownHome
  | some user => .ok (user.path :: (package?.toList ++ project?.toList).map Place.path)

namespace FileTree

variable (tree : FileTree)

def IsUsable (path : Path) : Prop :=
  ∃ table?, tree.Gives path table?

/-- What is wrong with a settings file and is told: nobody may open it, or it is no TOML. -/
inductive IsReported (path : Path) : SourceError → Prop where
  | locked {place : Place} :
      tree.locate path = .ok place → place ∈ tree.locked →
      IsReported path (.file (.os (.permissionDenied path)))
  | malformed {content : List UInt8} {text : List Char} :
      tree.read path = .ok content → decode content = .ok text →
      Toml.parse text = .error .malformed → IsReported path (.notToml .malformed)

/-- What is wrong with a settings file and is not told. -/
inductive IsUnreported (path : Path) : SourceError → Prop where
  | unreachable {error : FileError} :
      tree.locate path = .error error → (∀ cause, error = .os cause → cause.isNotFound = false) →
      IsUnreported path (.file error)
  | directory {place : Place} :
      tree.locate path = .ok place → place ∉ tree.locked → tree.isDirectoryAt place = true →
      IsUnreported path (.file (.os (.isADirectory path)))
  | notUtf8 {content : List UInt8} :
      tree.read path = .ok content → (∀ text : String, text.toUTF8.data.toList ≠ content) →
      IsUnreported path .notUtf8
  | tooManyDigits {content : List UInt8} {text : List Char} :
      tree.read path = .ok content → decode content = .ok text →
      Toml.parse text = .error .tooManyDigits → IsUnreported path (.notToml .tooManyDigits)

/-- What keeps a settings file from being used, told or not. -/
def IsWrong (path : Path) (error : SourceError) : Prop :=
  tree.IsReported path error ∨ tree.IsUnreported path error

/-- Of files that are read one after the other, the first that cannot be used is so for this
reason. -/
inductive FailsFirst (fails : Path → SourceError → Prop) : List Path → SourceError → Prop where
  | here {file : Path} {others : List Path} {error : SourceError} :
      fails file error → FailsFirst fails (file :: others) error
  | later {file : Path} {others : List Path} {error : SourceError} :
      tree.IsUsable file → FailsFirst fails others error → FailsFirst fails (file :: others) error

variable {tree}

section First

variable {fails : Path → SourceError → Prop} {front back : List Path} {error : SourceError}

theorem FailsFirst.exists_file (first : tree.FailsFirst fails front error) :
    ∃ file ∈ front, fails file error := by
  induction first with
  | here here => exact ⟨_, List.mem_cons_self, here⟩
  | later usable _ inductionHypothesis =>
      obtain ⟨file, member, here⟩ := inductionHypothesis
      exact ⟨file, List.mem_cons_of_mem _ member, here⟩

theorem failsFirst_append_iff :
    tree.FailsFirst fails (front ++ back) error ↔
      tree.FailsFirst fails front error ∨
        (∀ file ∈ front, tree.IsUsable file) ∧ tree.FailsFirst fails back error := by
  induction front with
  | nil =>
      have noFile : ¬ tree.FailsFirst fails [] error := nofun
      simp [noFile]
  | cons file front inductionHypothesis =>
      rw [List.cons_append, List.forall_mem_cons]
      constructor
      · intro first
        cases first with
        | here here => exact .inl (.here here)
        | later usable later =>
            rcases inductionHypothesis.mp later with inFront | ⟨others, inBack⟩
            · exact .inl (.later usable inFront)
            · exact .inr ⟨⟨usable, others⟩, inBack⟩
      · rintro (first | ⟨⟨usable, others⟩, first⟩)
        · cases first with
          | here here => exact .here here
          | later usable later => exact .later usable (inductionHypothesis.mpr (.inl later))
        · exact .later usable (inductionHypothesis.mpr (.inr ⟨others, first⟩))

theorem failsFirst_isWrong_iff :
    tree.FailsFirst tree.IsWrong front error ↔
      tree.FailsFirst tree.IsReported front error ∨
        tree.FailsFirst tree.IsUnreported front error := by
  constructor
  · intro first
    induction first with
    | here here => exact here.imp .here .here
    | later usable _ inductionHypothesis =>
        exact inductionHypothesis.imp (.later usable) (.later usable)
  · rintro (first | first)
    · induction first with
      | here here => exact .here (.inl here)
      | later usable _ inductionHypothesis => exact .later usable inductionHypothesis
    · induction first with
      | here here => exact .here (.inr here)
      | later usable _ inductionHypothesis => exact .later usable inductionHypothesis

end First

theorem decode_eq_error {content : List UInt8} {error : SourceError}
    (failed : decode content = .error error) :
    error = .notUtf8 ∧ ∀ text : String, text.toUTF8.data.toList ≠ content := by
  constructor
  · unfold decode at failed
    split at failed
    · cases failed
    · exact (Except.error.inj failed).symm
  · rintro text rfl
    rw [decode_toUTF8] at failed
    cases failed

theorem decode_of_no_text {content : List UInt8}
    (noText : ∀ text : String, text.toUTF8.data.toList ≠ content) :
    decode content = .error .notUtf8 := by
  cases decoded : decode content with
  | error error => rw [(decode_eq_error decoded).1]
  | ok text =>
      unfold decode String.fromUTF8? at decoded
      split_ifs at decoded with valid
      exact absurd rfl (noText (String.fromUTF8 _ valid))

section Reading

variable {path : Path} {error : FileError}

theorem read_eq_error_iff :
    tree.read path = .error error ↔
      tree.locate path = .error error ∨
      ∃ place, tree.locate path = .ok place ∧
        (place ∈ tree.locked ∧ error = .os (.permissionDenied path) ∨
          place ∉ tree.locked ∧ tree.isDirectoryAt place = true ∧
            error = .os (.isADirectory path)) := by
  rw [read, bind_eq_error_iff]
  refine or_congr_right (exists_congr fun place => and_congr_right fun found => ?_)
  have present := tree.isSome_of_locate path found
  by_cases locked : place ∈ tree.locked
  · have isLocked : tree.locked.contains place = true := by simpa using locked
    simp only [isLocked, if_true, locked, true_and, not_true, false_and, or_false,
      Except.error.injEq, eq_comm]
  · unfold isDirectoryAt
    cases here : tree.node? place with
    | none => simp [here] at present
    | some node =>
        cases node with
        | file content => simp [locked, Node.isDirectory]
        | directory entries => simp [locked, Node.isDirectory, eq_comm]

theorem not_isNotFound_of_located {place : Place} (located : tree.locate path = .ok place)
    {cause : OsError} (unread : tree.read path = .error (.os cause)) :
    cause.isNotFound = false := by
  rcases read_eq_error_iff.mp unread with lost | ⟨_, _, ⟨_, denied⟩ | ⟨_, _, isDirectory⟩⟩
  · rw [located] at lost
    cases lost
  · rw [FileError.os.inj denied]
    rfl
  · rw [FileError.os.inj isDirectory]
    rfl

end Reading

section File

variable {file : PlainPath} (isPlain : file.IsPlain) (hasNames : file.names ≠ [])
  {error : SourceError}

include isPlain hasNames

theorem readTable_eq_error_iff :
    tree.readTable file.path = .error error ↔
      (∃ cause, tree.read file.path = .error cause ∧ .file cause = error) ∨
      ∃ content, tree.read file.path = .ok content ∧
        (decode content = .error error ∨
          ∃ text, decode content = .ok text ∧
            ∃ defect, Toml.parse text = .error defect ∧ .notToml defect = error) := by
  rw [readTable, PlainPath.ofPath_path isPlain hasNames, bind_eq_error_iff]
  simp only [bind_eq_error_iff, mapError_eq_error_iff, mapError_eq_ok_iff]

theorem readTable_eq_file_error_iff {cause : FileError} :
    tree.readTable file.path = .error (.file cause) ↔ tree.read file.path = .error cause := by
  rw [readTable_eq_error_iff isPlain hasNames]
  constructor
  · rintro (⟨_, unread, same⟩ | ⟨_, _, undecoded | ⟨_, _, _, _, other⟩⟩)
    · rw [unread, SourceError.file.inj same]
    · cases (decode_eq_error undecoded).1
    · cases other
  · exact fun unread => .inl ⟨cause, unread, rfl⟩

/-- A settings file is wrong in one of the ways, unless it is only not there. -/
theorem isWrong_iff :
    tree.IsWrong file.path error ↔
      tree.readTable file.path = .error error ∧
        ∀ cause, error = .file (.os cause) → cause.isNotFound = false := by
  rw [readTable_eq_error_iff isPlain hasNames]
  constructor
  · rintro (reported | unreported)
    · cases reported with
      | locked found locked =>
          have unread := read_eq_error_iff.mpr (.inr ⟨_, found, .inl ⟨locked, rfl⟩⟩)
          refine ⟨.inl ⟨_, unread, rfl⟩, fun cause same => ?_⟩
          exact not_isNotFound_of_located found (SourceError.file.inj same ▸ unread)
      | malformed read decoded parsed =>
          exact ⟨.inr ⟨_, read, .inr ⟨_, decoded, _, parsed, rfl⟩⟩, nofun⟩
    · cases unreported with
      | unreachable lost notAbsent =>
          refine ⟨.inl ⟨_, read_eq_error_iff.mpr (.inl lost), rfl⟩, fun cause same => ?_⟩
          exact notAbsent cause (SourceError.file.inj same)
      | directory found notLocked isDirectory =>
          have unread := read_eq_error_iff.mpr
            (.inr ⟨_, found, .inr ⟨notLocked, isDirectory, rfl⟩⟩)
          refine ⟨.inl ⟨_, unread, rfl⟩, fun cause same => ?_⟩
          exact not_isNotFound_of_located found (SourceError.file.inj same ▸ unread)
      | notUtf8 read noText => exact ⟨.inr ⟨_, read, .inl (decode_of_no_text noText)⟩, nofun⟩
      | tooManyDigits read decoded parsed =>
          exact ⟨.inr ⟨_, read, .inr ⟨_, decoded, _, parsed, rfl⟩⟩, nofun⟩
  · rintro ⟨⟨cause, failed, rfl⟩ |
      ⟨content, read, undecoded | ⟨text, decoded, defect, failed, rfl⟩⟩, notAbsent⟩
    · rcases read_eq_error_iff.mp failed with lost | ⟨place, found, ⟨locked, rfl⟩ |
        ⟨notLocked, isDirectory, rfl⟩⟩
      · exact .inr (.unreachable lost fun cause same => notAbsent cause (congrArg _ same))
      · exact .inl (.locked found locked)
      · exact .inr (.directory found notLocked isDirectory)
    · obtain ⟨rfl, noText⟩ := decode_eq_error undecoded
      exact .inr (.notUtf8 read noText)
    · cases defect with
      | malformed => exact .inl (.malformed read decoded failed)
      | tooManyDigits => exact .inr (.tooManyDigits read decoded failed)

theorem readTable?_eq_error_iff :
    tree.readTable? file.path = .error error ↔ tree.IsWrong file.path error := by
  rw [isWrong_iff isPlain hasNames, readTable?]
  split
  · next table read => simp [read]
  · next cause read =>
      rw [read]
      split
      · next absent =>
          simp only [reduceCtorEq, false_iff, not_and]
          intro same notAbsent
          rw [notAbsent cause (Except.error.inj same).symm] at absent
          cases absent
      · next present =>
          simp only [Except.error.injEq, iff_self_and]
          intro same other isOther
          obtain rfl := FileError.os.inj (SourceError.file.inj (same.trans isOther))
          simpa using present
  · next cause notOs read =>
      rw [read]
      simp only [Except.error.injEq, iff_self_and]
      intro same other isOther
      exact absurd (same.trans isOther) (notOs other)

theorem exists_readTable?_iff :
    (∃ table?, tree.readTable? file.path = .ok table?) ↔ tree.IsUsable file.path := by
  constructor
  · rintro ⟨table?, read⟩
    unfold readTable? at read
    split at read
    · next table made =>
        rw [readTable, PlainPath.ofPath_path isPlain hasNames] at made
        obtain ⟨content, found, made⟩ := exists_of_bind_eq_ok made
        obtain ⟨text, decoded, parsed⟩ := exists_of_bind_eq_ok made
        exact ⟨_, .written (mapError_eq_ok_iff.mp found) decoded (mapError_eq_ok_iff.mp parsed)⟩
    · next cause failed =>
        split at read
        · next absent =>
            have unread := (readTable_eq_file_error_iff isPlain hasNames).mp failed
            exact ⟨_, .missing unread absent⟩
        · cases read
    · cases read
  · rintro ⟨table?, gives⟩
    exact ⟨table?, gives.readTable? isPlain hasNames⟩

/-- A file of a package is only read where there is one. -/
theorem readPackageTable_eq_error_iff {place : Place} (found : tree.locate file.path = .ok place) :
    tree.readPackageTable file.path = .error error ↔ tree.IsWrong file.path error := by
  rw [isWrong_iff isPlain hasNames, readPackageTable, bind_eq_error_iff]
  simp only [reduceCtorEq, and_false, exists_false, or_false, iff_self_and]
  rintro failed cause rfl
  exact not_isNotFound_of_located found ((readTable_eq_file_error_iff isPlain hasNames).mp failed)

theorem isUsable_iff : tree.IsUsable file.path ↔ ∀ error, ¬ tree.IsWrong file.path error := by
  rw [← exists_readTable?_iff isPlain hasNames, exists_eq_ok_iff]
  exact forall_congr' fun error => not_congr (readTable?_eq_error_iff isPlain hasNames)

end File

/-- A result that is read from files is had exactly if all of them can be used. If not, the first
that cannot says why. -/
structure ReadsFrom (tree : FileTree) {Result : Type} (result : Except SettingsError Result)
    (files : List Path) : Prop where
  fails : ∀ error, result = .error error ↔
    ∃ cause, .source cause = error ∧ tree.FailsFirst tree.IsWrong files cause
  succeeds : (∃ read, result = .ok read) ↔ ∀ file ∈ files, tree.IsUsable file

namespace ReadsFrom

variable {First Second : Type} {front back : List Path}

theorem nothing (read : First) : tree.ReadsFrom (.ok read) [] where
  fails error := by
    have noFile : ∀ cause, ¬ tree.FailsFirst tree.IsWrong [] cause := nofun
    simp [noFile]
  succeeds := by simp

theorem bind {first : Except SettingsError First} {next : First → Except SettingsError Second}
    (reads : tree.ReadsFrom first front) (readsNext : ∀ read, tree.ReadsFrom (next read) back) :
    tree.ReadsFrom (first >>= next) (front ++ back) where
  fails error := by
    simp only [bind_eq_error_iff, reads.fails, (readsNext _).fails, failsFirst_append_iff,
      ← reads.succeeds]
    constructor
    · rintro (⟨cause, same, inFront⟩ | ⟨read, had, cause, same, inBack⟩)
      · exact ⟨cause, same, .inl inFront⟩
      · exact ⟨cause, same, .inr ⟨⟨read, had⟩, inBack⟩⟩
    · rintro ⟨cause, same, inFront | ⟨⟨read, had⟩, inBack⟩⟩
      · exact .inl ⟨cause, same, inFront⟩
      · exact .inr ⟨read, had, cause, same, inBack⟩
  succeeds := by
    rw [List.forall_mem_append, ← reads.succeeds]
    constructor
    · rintro ⟨read, bound⟩
      obtain ⟨middle, had, next⟩ := exists_of_bind_eq_ok bound
      exact ⟨⟨middle, had⟩, (readsNext middle).succeeds.mp ⟨read, next⟩⟩
    · rintro ⟨⟨middle, had⟩, usable⟩
      rw [had]
      exact (readsNext middle).succeeds.mpr usable

theorem single {file : PlainPath} (isPlain : file.IsPlain) (hasNames : file.names ≠ [])
    {layer : Except SourceError (Option Table)}
    (fails : ∀ error, layer = .error error ↔ tree.IsWrong file.path error) :
    tree.ReadsFrom (layer.mapError .source) [file.path] where
  fails error := by
    rw [mapError_eq_error_iff]
    refine exists_congr fun cause => ?_
    rw [fails, and_comm]
    refine and_congr_right fun _ => ⟨.here, fun first => ?_⟩
    cases first with
    | here wrong => exact wrong
    | later _ noFile => cases noFile
  succeeds := by
    rw [List.forall_mem_singleton, isUsable_iff isPlain hasNames]
    simp only [mapError_eq_ok_iff, exists_eq_ok_iff, ← fails, ne_eq]

/-- A layer of a place that need not be there. -/
theorem ofPlace? {read : Path → Except SourceError (Option Table)} {place? : Option Place}
    (reads : ∀ place, place? = some place →
      tree.ReadsFrom ((read place.path).mapError .source) [place.path]) :
    tree.ReadsFrom ((layerAt read place?).mapError .source) (place?.toList.map Place.path) := by
  cases place? with
  | none => exact nothing none
  | some place => exact reads place rfl

end ReadsFrom

section Consulted

variable (tree) (environment : Environment)

/-- The layers that are read once it is known where to look. -/
def readLayers (package? project? : Option Place) : Except SettingsError (List (Option Table)) :=
  match ofUser? environment with
  | none => .error .unknownHome
  | some user => do
      let userLayer ← (tree.readTable? user.path).mapError .source
      let packageLayer ← (layerAt tree.readPackageTable package?).mapError .source
      let projectLayer ← (layerAt tree.readTable? project?).mapError .source
      .ok [userLayer, packageLayer, projectLayer]

theorem fileLayers_eq (start : Path) :
    Settings.fileLayers tree environment start = (do
      let package? ← (ofPackage? tree start).mapError (SettingsError.source ∘ .file)
      let project? ← (ofProject? tree start).mapError (SettingsError.source ∘ .file)
      tree.readLayers environment package? project?) := by
  unfold Settings.fileLayers readLayers
  cases ofPackage? tree start with
  | error error => rfl
  | ok package? =>
      cases ofProject? tree start with
      | error error => rfl
      | ok project? =>
          cases package? <;> cases project? <;> rfl

variable {tree environment} {start : Path}

theorem fileLayers_of_not_consulted {error : SettingsError}
    (failed : consulted tree environment start = .error error) :
    Settings.fileLayers tree environment start = .error error := by
  rw [fileLayers_eq]
  rw [consulted, bind_eq_error_iff] at failed
  rcases failed with noPackage | ⟨package?, packageFound, failed⟩
  · rw [noPackage]
    rfl
  rw [bind_eq_error_iff] at failed
  rcases failed with noProject | ⟨project?, projectFound, failed⟩
  · rw [packageFound, noProject]
    rfl
  · rw [packageFound, projectFound]
    change tree.readLayers environment package? project? = _
    unfold readLayers
    split at failed
    · exact congrArg _ (Except.error.inj failed)
    · cases failed

section Plain

variable (plainStart : PlainPath.IsPlain ⟨['/'], tree.lexicalPlace start⟩) {place : Place}

include plainStart

/-- What has legal names below a nearest place has a plain path. -/
theorem isPlain_of_nearest? {wanted : Node → Bool} {name : List Char}
    (nearest : nearest? tree wanted name start = .ok (some place)) {names : List (List Char)}
    (legal : ∀ name ∈ names, IsEntryName name) : PlainPath.IsPlain ⟨['/'], place ++ names⟩ :=
  (plainStart.of_subset (probe_of_nearest? nearest).1.subset).append legal

theorem isPlain_of_ofProject? (found : ofProject? tree start = .ok (some place)) :
    PlainPath.IsPlain ⟨['/'], place⟩ ∧ place ≠ [] := by
  obtain ⟨above?, nearest, shape⟩ := exists_of_bind_eq_ok found
  obtain ⟨above, rfl, rfl⟩ := Option.map_eq_some_iff.mp (Except.ok.inj shape)
  exact ⟨isPlain_of_nearest? plainStart nearest (by decide), by simp⟩

/-- The file of a package is there when it is read. -/
theorem isPlain_of_ofPackage? (found : ofPackage? tree start = .ok (some place)) :
    (PlainPath.IsPlain ⟨['/'], place⟩ ∧ place ≠ []) ∧
      ∃ inTree, tree.locate place.path = .ok inTree := by
  obtain ⟨above?, nearest, shape⟩ := exists_of_bind_eq_ok found
  obtain ⟨above, rfl, rfl⟩ := Option.map_eq_some_iff.mp (Except.ok.inj shape)
  obtain ⟨inTree, located, -⟩ := exists_of_probe (probe_of_nearest? nearest).2
  exact ⟨⟨isPlain_of_nearest? plainStart nearest (by decide), by simp⟩, inTree, located⟩

theorem readsFrom_fileLayers {files : List Path}
    (found : consulted tree environment start = .ok files) :
    tree.ReadsFrom (Settings.fileLayers tree environment start) files := by
  obtain ⟨package?, packageFound, found⟩ := exists_of_bind_eq_ok found
  obtain ⟨project?, projectFound, found⟩ := exists_of_bind_eq_ok found
  rw [fileLayers_eq, packageFound, projectFound]
  change tree.ReadsFrom (tree.readLayers environment package? project?) files
  rw [mapError_eq_ok_iff] at packageFound projectFound
  unfold readLayers
  split at found
  · cases found
  · next user isUser =>
      obtain ⟨isPlain, hasNames⟩ := isPlain_of_ofUser? isUser
      have userReads : tree.ReadsFrom ((tree.readTable? user.path).mapError .source) [user.path] :=
        .single isPlain hasNames fun error => readTable?_eq_error_iff isPlain hasNames
      have packageReads : tree.ReadsFrom
          ((layerAt tree.readPackageTable package?).mapError .source)
          (package?.toList.map Place.path) := by
        refine .ofPlace? fun place isPlace => ?_
        obtain ⟨⟨isPlain, below⟩, _, located⟩ :=
          isPlain_of_ofPackage? plainStart (isPlace ▸ packageFound)
        exact .single isPlain below fun error =>
          readPackageTable_eq_error_iff isPlain below located
      have projectReads : tree.ReadsFrom ((layerAt tree.readTable? project?).mapError .source)
          (project?.toList.map Place.path) := by
        refine .ofPlace? fun place isPlace => ?_
        obtain ⟨isPlain, below⟩ := isPlain_of_ofProject? plainStart (isPlace ▸ projectFound)
        exact .single isPlain below fun error => readTable?_eq_error_iff isPlain below
      have allRead := userReads.bind fun userLayer => packageReads.bind fun packageLayer =>
        projectReads.bind fun projectLayer => .nothing [userLayer, packageLayer, projectLayer]
      simpa [← Except.ok.inj found] using allRead

end Plain

end Consulted

end FileTree

end FileSpec
