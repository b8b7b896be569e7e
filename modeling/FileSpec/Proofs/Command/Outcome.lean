import FileSpec.Command.Outcome
import FileSpec.Proofs.Directory.Selection
import FileSpec.Proofs.Settings.Faults

/-!
# How commands end

A command ends with a report once its settings are known. Settings that are invalid, locked or no
TOML are reported as wrong input; whatever else can be wrong with the files that are consulted for
them ends the command without a report, and with the exit code for no match.
-/

set_option autoImplicit false

namespace FileSpec

open SettingsFile

/-- There is nothing but an error message, and the exit code for wrong input. -/
def Outcome.IsInputError (outcome : Outcome) : Prop :=
  ∃ report, outcome = .finished report ∧ report.exitCode.number = 4 ∧ report.outputText = [] ∧
    ∀ describe, "Error: ".toList <+: report.messageText describe

theorem Report.isInputError_failure {message : Message}
    (isError : ∀ describe, "Error: ".toList <+: message.text describe) :
    (Outcome.finished (.failure .inputError message)).IsInputError := by
  refine ⟨_, rfl, rfl, rfl, fun describe => ?_⟩
  obtain ⟨rest, shape⟩ := isError describe
  exact ⟨rest ++ ['\n'], by simp [Report.messageText, Report.lines, Report.failure, ← shape]⟩

theorem Outcome.not_isInputError_failed (error : SettingsError) :
    ¬ (Outcome.failed error).IsInputError :=
  nofun

namespace Command

variable (tree : FileTree) (environment : Environment) (style? : Option PathStyle)
  (command : Command)

/-- What the caller of a command sets by options. -/
def callerLayer : Table :=
  ("path_style", (style?.map fun style => Value.text style.name).getD .null) :: command.overrides

/-- The settings that hold for a command. -/
def settings : Except SettingsError Settings :=
  Settings.resolve tree environment none (command.callerLayer style?)

theorem outcome_eq :
    command.outcome tree environment style? =
      match command.settings tree environment style? with
      | .error error => withoutSettings error
      | .ok settings => .finished (command.report tree settings) := rfl

/-- Nothing that the command was asked to compare is accepted. -/
def MatchesNothing (settings : Settings) : Command → Prop
  | accept path specifications _ =>
      matchesAny? settings.pathStyle.flavor settings.ignoreCase path specifications = some false
  | find directory _ _ _ _ =>
      ∃ selection found,
        Selection.ofSpecifications? settings.pathStyle.flavor settings.ignoreCase
          settings.patterns settings.exclude = some selection ∧
        tree.find selection settings.ignoreCase settings.recursive directory = .ok found ∧
        found.paths = []
  | _ => False

section Report

variable (settings : Settings)

theorem exitCode_acceptReport_iff {path : Path} {specifications : List (List Char)} :
    (acceptReport settings path specifications).exitCode = .noMatch ↔
      matchesAny? settings.pathStyle.flavor settings.ignoreCase path specifications =
        some false := by
  rw [acceptReport, settings.pathStyle.matchesAny?_eq]
  cases acceptedByAny _ path with
  | false => simp
  | true => simp [Report.line]

theorem exitCode_searchReport_iff {found : SelectedFiles} :
    (searchReport found).exitCode = .noMatch ↔ found.paths = [] := by
  cases paths : found.paths with
  | nil => simp [searchReport, paths]
  | cons first others => simp [searchReport, paths]

/-- By a built-in style every selection can search. -/
theorem find_ne_noMatcher {style : PathStyle} {selection : Selection}
    (ofStyle : selection.flavor = style.flavor) {ignoreCase recursive : Bool} {directory : Path} :
    tree.find selection ignoreCase recursive directory ≠ .error .noMatcher := by
  have made : Walk.ofSpecification? (tree.lister selection.flavor ignoreCase) .file ['*']
      recursive = some (style.walk (tree.lister selection.flavor ignoreCase) .file ['*']
        recursive) :=
    Walk.ofSpecification?_eq ofStyle .file ['*'] recursive
  rw [FileTree.find, made]
  split
  · simp
  · intro failed
    obtain ⟨_, -, other⟩ := mapError_eq_error_iff.mp failed
    cases other

theorem exitCode_findReport_iff {directory : Path} {patterns exclude : List (List Char)}
    {recursive? ignoreCase? : Option Bool} :
    (findReport tree settings directory).exitCode = .noMatch ↔
      (find directory patterns exclude recursive? ignoreCase?).MatchesNothing tree settings := by
  have made := settings.pathStyle.ofSpecifications?_eq settings.ignoreCase settings.patterns
    settings.exclude
  rw [findReport, MatchesNothing, made]
  dsimp only
  cases searched : tree.find (settings.pathStyle.selection settings.ignoreCase settings.patterns
      settings.exclude) settings.ignoreCase settings.recursive directory with
  | ok found => simp [exitCode_searchReport_iff, searched]
  | error error =>
      have notMatched : (searchFailure directory error).exitCode ≠ .noMatch := by
        cases error with
        | noDirectory path => simp [searchFailure, Report.failure]
        | file cause => cases cause <;> simp [searchFailure, Report.failure]
        | noMatcher => exact absurd searched (find_ne_noMatcher tree rfl)
      simp [notMatched, searched]

theorem exitCode_report_iff :
    (command.report tree settings).exitCode = .noMatch ↔ command.MatchesNothing tree settings := by
  cases command with
  | accept path specifications ignoreCase? => exact exitCode_acceptReport_iff settings
  | showRegex specification => simp [report, MatchesNothing, Report.line]
  | find directory patterns exclude recursive? ignoreCase? =>
      exact exitCode_findReport_iff tree settings
  | unique path =>
      simp only [report, uniqueReport, MatchesNothing, iff_false]
      split <;> simp [Report.failure, Report.line]
  | trim path width? => simp [report, MatchesNothing, Report.line]
  | lastDirectory path =>
      simp only [report, lastDirectoryReport, MatchesNothing, iff_false]
      split <;> simp [Report.failure, Report.line]
  | check paths =>
      simp only [report, checkReport, MatchesNothing, iff_false]
      split <;> simp

end Report

section Settings

variable {tree environment style? command} {error : SettingsError}

theorem settings_eq : command.settings tree environment style? = (do
    let layers ← Settings.fileLayers tree environment tree.workingDirectory.path
    (Settings.ofValue (.table (Table.mergeLayers
      (layers ++ [some (command.callerLayer style?).withoutNulls])))).mapError .invalid) := rfl

theorem isInputError_invalidSettings (error : SettingsError) :
    (Outcome.finished (.failure .inputError (.invalidSettings error))).IsInputError := by
  refine Report.isInputError_failure fun describe => ?_
  have begins : "Error: ".toList <+: "Error: Invalid configuration: ".toList := by
    decide +kernel
  exact (begins.trans (List.prefix_append _ _)).trans (List.prefix_append _ _)

theorem isInputError_unreadableSettings (error : OsError) :
    (Outcome.finished (.failure .inputError (.unreadableSettings error))).IsInputError := by
  refine Report.isInputError_failure fun describe => ?_
  have begins : "Error: ".toList <+: "Error: Cannot read configuration file: ".toList := by
    decide +kernel
  exact (begins.trans (List.prefix_append _ _)).trans (List.prefix_append _ _)

/-- That there are no settings is reported as wrong input or not at all. -/
theorem withoutSettings_isInputError_or_failed (error : SettingsError) :
    (withoutSettings error).IsInputError ∨ withoutSettings error = .failed error := by
  unfold withoutSettings
  split
  · exact .inl (isInputError_invalidSettings _)
  · exact .inl (isInputError_invalidSettings _)
  · split_ifs
    · exact .inl (isInputError_unreadableSettings _)
    · exact .inr rfl
  · exact .inr rfl

theorem isInputError_of_isReported {path : Path} {cause : SourceError}
    (reported : tree.IsReported path cause) : (withoutSettings (.source cause)).IsInputError := by
  cases reported with
  | locked found locked => exact isInputError_unreadableSettings _
  | malformed read decoded parsed => exact isInputError_invalidSettings _

theorem isNotPermitted_of_mem_lookupErrors {path : Path} {cause : OsError}
    (member : cause ∈ FileTree.lookupErrors path) : cause.isNotPermitted = false := by
  simp only [FileTree.lookupErrors, List.mem_cons, List.not_mem_nil, or_false] at member
  rcases member with rfl | rfl | rfl <;> rfl

/-- A path that leads nowhere is never one that must not be read. -/
theorem withoutSettings_of_lost {path : Path} {cause : FileError}
    (lost : tree.locate path = .error cause) :
    withoutSettings (.source (.file cause)) = .failed (.source (.file cause)) := by
  cases cause with
  | os error =>
      have permitted :=
        isNotPermitted_of_mem_lookupErrors (tree.mem_lookupErrors_of_locate path lost)
      simp [withoutSettings, permitted]
  | nulInPath => rfl

theorem withoutSettings_of_isUnreported {path : Path} {cause : SourceError}
    (unreported : tree.IsUnreported path cause) :
    withoutSettings (.source cause) = .failed (.source cause) := by
  cases unreported with
  | unreachable lost notAbsent => exact withoutSettings_of_lost lost
  | directory found notLocked isDirectory => rfl
  | notUtf8 read noText => rfl
  | tooManyDigits read decoded parsed => rfl

/-- Where it cannot be told which files to consult, nothing is reported. -/
theorem withoutSettings_of_not_consulted {start : Path}
    (failed : consulted tree environment start = .error error) :
    withoutSettings error = .failed error := by
  have ofSearch : ∀ {wanted name cause}, nearest? tree wanted name start = .error cause →
      withoutSettings (.source (.file cause)) = .failed (.source (.file cause)) := by
    intro wanted name cause failed
    rcases nearest?_eq_error failed with rfl | ⟨path, lost⟩
    · rfl
    · exact withoutSettings_of_lost lost
  rw [consulted, bind_eq_error_iff] at failed
  rcases failed with noPackage | ⟨package?, -, failed⟩
  · obtain ⟨cause, failed, rfl⟩ := mapError_eq_error_iff.mp noPackage
    rw [ofPackage?, bind_eq_error_iff] at failed
    exact ofSearch (failed.resolve_right (by simp))
  rw [bind_eq_error_iff] at failed
  rcases failed with noProject | ⟨project?, -, failed⟩
  · obtain ⟨cause, failed, rfl⟩ := mapError_eq_error_iff.mp noProject
    rw [ofProject?, bind_eq_error_iff] at failed
    exact ofSearch (failed.resolve_right (by simp))
  · split at failed
    · rw [← Except.error.inj failed]
      rfl
    · cases failed

end Settings

section Outcome

variable {tree environment style? command} {error : SettingsError} {files : List Path}

theorem readsFrom_consulted
    (found : consulted tree environment tree.workingDirectory.path = .ok files) :
    tree.ReadsFrom (Settings.fileLayers tree environment tree.workingDirectory.path) files :=
  FileTree.readsFrom_fileLayers (PlainPath.isPlain_place_of_rooted rfl _) found

theorem settings_of_layers_error
    (failed : Settings.fileLayers tree environment tree.workingDirectory.path = .error error) :
    command.settings tree environment style? = .error error := by
  rw [settings_eq, failed]
  rfl

theorem outcome_of_layers_error
    (failed : Settings.fileLayers tree environment tree.workingDirectory.path = .error error) :
    command.outcome tree environment style? = withoutSettings error := by
  rw [outcome_eq, settings_of_layers_error failed]

/-- Once every consulted file has been read, only the values in them can be wrong. -/
theorem outcome_of_layers {layers : List (Option Table)}
    (read : Settings.fileLayers tree environment tree.workingDirectory.path = .ok layers) :
    (∃ errors, command.settings tree environment style? = .error (.invalid errors) ∧
      (command.outcome tree environment style?).IsInputError) ∨
    ∃ settings, command.settings tree environment style? = .ok settings ∧
      command.outcome tree environment style? = .finished (command.report tree settings) := by
  rw [outcome_eq]
  cases known : command.settings tree environment style? with
  | ok settings => exact .inr ⟨settings, rfl, rfl⟩
  | error error =>
      rw [settings_eq, read] at known
      obtain ⟨errors, -, rfl⟩ := mapError_eq_error_iff.mp known
      exact .inl ⟨errors, rfl, isInputError_invalidSettings _⟩

theorem outcome_of_failsFirst {cause : SourceError}
    (found : consulted tree environment tree.workingDirectory.path = .ok files)
    (first : tree.FailsFirst tree.IsWrong files cause) :
    command.outcome tree environment style? = withoutSettings (.source cause) :=
  outcome_of_layers_error (((readsFrom_consulted found).fails _).mpr ⟨cause, rfl, first⟩)

theorem outcome_of_failsFirst_reported {cause : SourceError}
    (found : consulted tree environment tree.workingDirectory.path = .ok files)
    (first : tree.FailsFirst tree.IsReported files cause) :
    (command.outcome tree environment style?).IsInputError := by
  obtain ⟨file, -, reported⟩ := first.exists_file
  rw [outcome_of_failsFirst found (FileTree.failsFirst_isWrong_iff.mpr (.inl first))]
  exact isInputError_of_isReported reported

theorem outcome_of_failsFirst_unreported {cause : SourceError}
    (found : consulted tree environment tree.workingDirectory.path = .ok files)
    (first : tree.FailsFirst tree.IsUnreported files cause) :
    command.outcome tree environment style? = .failed (.source cause) := by
  obtain ⟨file, -, unreported⟩ := first.exists_file
  rw [outcome_of_failsFirst found (FileTree.failsFirst_isWrong_iff.mpr (.inr first))]
  exact withoutSettings_of_isUnreported unreported

theorem outcome_of_not_consulted
    (failed : consulted tree environment tree.workingDirectory.path = .error error) :
    command.outcome tree environment style? = .failed error := by
  rw [outcome_of_layers_error (FileTree.fileLayers_of_not_consulted failed)]
  exact withoutSettings_of_not_consulted failed

theorem outcome_eq_failed_iff :
    command.outcome tree environment style? = .failed error ↔
      consulted tree environment tree.workingDirectory.path = .error error ∨
      ∃ files cause, consulted tree environment tree.workingDirectory.path = .ok files ∧
        tree.FailsFirst tree.IsUnreported files cause ∧ .source cause = error := by
  constructor
  · intro failed
    cases found : consulted tree environment tree.workingDirectory.path with
    | error other =>
        rw [outcome_of_not_consulted found] at failed
        exact .inl (congrArg _ (Outcome.failed.inj failed))
    | ok files =>
        right
        cases read : Settings.fileLayers tree environment tree.workingDirectory.path with
        | ok layers =>
            rcases outcome_of_layers read with ⟨errors, -, reported⟩ | ⟨settings, -, finished⟩
            · rw [failed] at reported
              exact absurd reported (Outcome.not_isInputError_failed error)
            · rw [failed] at finished
              cases finished
        | error other =>
            obtain ⟨cause, rfl, wrong⟩ := ((readsFrom_consulted found).fails other).mp read
            rcases FileTree.failsFirst_isWrong_iff.mp wrong with reported | unreported
            · have isReported : (command.outcome tree environment style?).IsInputError :=
                outcome_of_failsFirst_reported found reported
              rw [failed] at isReported
              exact absurd isReported (Outcome.not_isInputError_failed error)
            · rw [outcome_of_failsFirst_unreported found unreported] at failed
              exact ⟨files, cause, rfl, unreported, Outcome.failed.inj failed⟩
  · rintro (notFound | ⟨files, cause, found, first, rfl⟩)
    · exact outcome_of_not_consulted notFound
    · exact outcome_of_failsFirst_unreported found first

theorem exitNumber_outcome_iff :
    (command.outcome tree environment style?).exitNumber = 1 ↔
      (∃ error, command.outcome tree environment style? = .failed error) ∨
      ∃ settings, command.settings tree environment style? = .ok settings ∧
        command.MatchesNothing tree settings := by
  rw [outcome_eq]
  cases command.settings tree environment style? with
  | ok settings =>
      have number : ∀ exitCode : ExitCode, exitCode.number = 1 ↔ exitCode = .noMatch := by
        intro exitCode
        cases exitCode <;> decide
      simp [Outcome.exitNumber, number, exitCode_report_iff]
  | error error =>
      simp only [reduceCtorEq, false_and, exists_false, or_false]
      rcases withoutSettings_isInputError_or_failed error with
        ⟨report, finished, inputError, -⟩ | failed
      · rw [finished]
        simp [Outcome.exitNumber, inputError]
      · rw [failed]
        exact ⟨fun _ => ⟨error, rfl⟩, fun _ => rfl⟩

/--
A command ends without a report exactly if it cannot be told which settings files to consult, or if
the first of them that cannot be used cannot be reached, is a directory, is not UTF-8 or has an
integer of too many digits. If it is locked or no TOML, or if all can be used and the settings in
them are invalid, there is an error message and the exit code for wrong input. The exit code for no
match means just that nothing matched, or that there is no report. A limit that an interpreter sets
on nested calls, which values deep within others could reach, is not modelled.
-/
theorem outcome_by_settings_files (tree : FileTree) (environment : Environment)
    (style? : Option PathStyle) (command : Command) :
    (∀ error, command.outcome tree environment style? = .failed error ↔
      consulted tree environment tree.workingDirectory.path = .error error ∨
      ∃ files cause, consulted tree environment tree.workingDirectory.path = .ok files ∧
        tree.FailsFirst tree.IsUnreported files cause ∧ .source cause = error) ∧
    (∀ files, consulted tree environment tree.workingDirectory.path = .ok files →
      ((∃ cause, tree.FailsFirst tree.IsReported files cause) ∨
        (∃ cause, tree.FailsFirst tree.IsUnreported files cause) ∨
        ∀ file ∈ files, tree.IsUsable file) ∧
      (∀ cause, tree.FailsFirst tree.IsReported files cause →
        (command.outcome tree environment style?).IsInputError) ∧
      ((∀ file ∈ files, tree.IsUsable file) →
        (∃ errors, command.settings tree environment style? = .error (.invalid errors) ∧
          (command.outcome tree environment style?).IsInputError) ∨
        ∃ settings, command.settings tree environment style? = .ok settings ∧
          command.outcome tree environment style? =
            .finished (command.report tree settings))) ∧
    ((command.outcome tree environment style?).exitNumber = 1 ↔
      (∃ error, command.outcome tree environment style? = .failed error) ∨
      ∃ settings, command.settings tree environment style? = .ok settings ∧
        command.MatchesNothing tree settings) := by
  refine ⟨fun error => outcome_eq_failed_iff, fun files found => ⟨?_, ?_, ?_⟩,
    exitNumber_outcome_iff⟩
  · have reads := readsFrom_consulted found
    rw [← reads.succeeds, exists_eq_ok_iff, ← or_assoc, or_iff_not_imp_left]
    rintro noneFirst error failed
    obtain ⟨cause, -, wrong⟩ := (reads.fails error).mp failed
    exact noneFirst ((FileTree.failsFirst_isWrong_iff.mp wrong).imp (.intro cause) (.intro cause))
  · exact fun cause => outcome_of_failsFirst_reported found
  · intro usable
    obtain ⟨layers, read⟩ := (readsFrom_consulted found).succeeds.mpr usable
    exact outcome_of_layers read

end Outcome

/-- A file that would be accepted, and a project whose settings file is no text. -/
def garbled : FileTree where
  top := .directory [("a.txt".toList, .file .empty),
    (".michi".toList, .directory [("config.toml".toList, .file (.bytes [0xFF]))])]
  locked := []
  workingDirectory := []

def homeOnly : Environment where
  home := "/home".toList
  configHome? := none

/-- The settings file of the user, which is not there, and that of the project. -/
def projectFiles : List Path :=
  ["/home/.config/michi/config.toml".toList, "/.michi/config.toml".toList]

/-- The settings file of the project is locked. -/
def sealed : FileTree :=
  { garbled with locked := [[projectDirectory, fileName]] }

theorem outcome_by_settings_files_sealed :
    consulted sealed homeOnly sealed.workingDirectory.path = .ok projectFiles ∧
    sealed.FailsFirst sealed.IsReported projectFiles
      (.file (.os (.permissionDenied "/.michi/config.toml".toList))) ∧
    ((accept "a.txt".toList ["*.txt".toList] none).outcome sealed homeOnly none).IsInputError := by
  obtain ⟨-, byFiles, -⟩ :=
    outcome_by_settings_files sealed homeOnly none (accept "a.txt".toList ["*.txt".toList] none)
  have found : consulted sealed homeOnly sealed.workingDirectory.path = .ok projectFiles := by
    decide +kernel
  have absent : sealed.read "/home/.config/michi/config.toml".toList =
      .error (.os (.notFound "/home/.config/michi/config.toml".toList)) := by
    decide +kernel
  have located : sealed.locate "/.michi/config.toml".toList =
      .ok [projectDirectory, fileName] := by decide +kernel
  have reported : sealed.IsReported "/.michi/config.toml".toList
      (.file (.os (.permissionDenied "/.michi/config.toml".toList))) :=
    .locked located List.mem_cons_self
  have first : sealed.FailsFirst sealed.IsReported projectFiles _ :=
    .later ⟨none, .missing absent rfl⟩ (.here reported)
  obtain ⟨-, whenReported, -⟩ := byFiles _ found
  exact ⟨found, first, whenReported _ first⟩

theorem exitNumber_of_garbled_settings :
    consulted garbled homeOnly garbled.workingDirectory.path = .ok projectFiles ∧
    garbled.read "/.michi/config.toml".toList = .ok [0xFF] ∧
    (accept "a.txt".toList ["*.txt".toList] none).outcome garbled homeOnly none =
      .failed (.source .notUtf8) ∧
    ¬ ((accept "a.txt".toList ["*.txt".toList] none).outcome garbled homeOnly none).IsInputError ∧
    ((accept "a.txt".toList ["*.txt".toList] none).outcome garbled homeOnly none).exitNumber =
      1 ∧
    matchesAny? .posix false "a.txt".toList ["*.txt".toList] = some true := by
  have found : consulted garbled homeOnly garbled.workingDirectory.path = .ok projectFiles := by
    decide +kernel
  have absent : garbled.read "/home/.config/michi/config.toml".toList =
      .error (.os (.notFound "/home/.config/michi/config.toml".toList)) := by decide +kernel
  have content : garbled.read "/.michi/config.toml".toList = .ok [0xFF] := by decide +kernel
  have noText : FileTree.decode [0xFF] = .error .notUtf8 := by decide +kernel
  have unreported : garbled.IsUnreported "/.michi/config.toml".toList .notUtf8 :=
    .notUtf8 content (FileTree.decode_eq_error noText).2
  have failed : (accept "a.txt".toList ["*.txt".toList] none).outcome garbled homeOnly none =
      .failed (.source .notUtf8) :=
    outcome_of_failsFirst_unreported found (.later ⟨none, .missing absent rfl⟩ (.here unreported))
  have matched : matchesAny? PathStyle.posix.flavor false "a.txt".toList ["*.txt".toList] =
      some true := by
    simp only [PathStyle.matchesAny?_eq, PathStyle.matcher_posix]
    decide +kernel
  refine ⟨found, content, failed, ?_, ?_, matched⟩
  · rw [failed]
    exact Outcome.not_isInputError_failed _
  · rw [failed]
    rfl

end Command

end FileSpec
