import Surface.CommandLine.Run
import Surface.Proofs.Disk.Writing
import Surface.Proofs.Snapshot.Events

/-! # What a command leaves behind

The report of a command is settled before anything is written, so it is that of the disk as the
command has found it, also where the output goes into a snapshot or over the configuration. It is
handed over as a whole or not at all: nothing is printed and no file changes when any step fails.
-/

namespace Surface.CommandLine

open Surface.Workspace Surface.Snapshot

/-- What the text of the configuration file sets, with the defaults for the rest. A failure tells
the path of the file, whether the file cannot be read or says something that does not fit. -/
def fileConfig (w : Workspace) : Option Text → Except Failure Config
  | some path =>
    match w.readText path with
    | .ok text =>
      match Config.ofToml text with
      | .ok config => .ok config
      | .error f => .error { f with path := some path }
    | .error e => .error (ioFailure "load_config" path e.message)
  | none => .ok {}

/-- The settings with those of the arguments in their place. -/
def Arguments.override (a : Arguments) (base : Config) : Config where
  dialect := a.dialect.getD base.dialect
  duplicates := a.duplicates.getD base.duplicates
  format := a.format.getD base.format

/-- The rendered report, or the first failure on the way to it. -/
def outcome (w : Workspace) (a : Arguments) : Except Failure Text := do
  let base ← fileConfig w a.config
  (run (a.override base) w a.oldRoot a.newRoot).result

def confirmation (path : Text) : Text := "✓ Report written to ".toList ++ path ++ "\n".toList

/-- How a command with an output option hands an outcome over. -/
inductive HandsOver (w : Workspace) : Option Text → Except Failure Text → Response → Prop
  | failed {output : Option Text} {f : Failure} {r : Response} :
      r.exitCode = 1 → r.stdout = [] → r.workspace = w → HandsOver w output (.error f) r
  | printed {text : Text} {r : Response} :
      r.exitCode = 0 → r.stdout = text → r.workspace = w → HandsOver w none (.ok text) r
  | written {path text file : Text} {parent : Location} {r : Response} :
      w.fileFor path = .ok (parent, file) → r.exitCode = 0 → r.stdout = confirmation path →
      Wrote w r.workspace path text (parent ++ [file]) → HandsOver w (some path) (.ok text) r
  | unopened {path text : Text} {e : FileError} {r : Response} :
      w.fileFor path = .error e → r.exitCode = 1 → r.stdout = [] → r.workspace = w →
      HandsOver w (some path) (.ok text) r

variable {w : Workspace} {a : Arguments}

theorem fileConfig_some (w : Workspace) (path : Text) :
    fileConfig w (some path) = Config.load w path := by
  rw [fileConfig, Config.load]
  cases w.readText path with
  | error e => rfl
  | ok text =>
    dsimp only
    cases Config.ofToml text <;> rfl

theorem resolveConfig_eq (w : Workspace) (a : Arguments) :
    resolveConfig w a = (fileConfig w a.config).map a.override := by
  rw [resolveConfig]
  cases a.config with
  | none => rfl
  | some path =>
    rw [fileConfig_some]
    dsimp only [bind, Except.bind]
    cases Config.load w path <;> rfl

theorem result_report (w : Workspace) (a : Arguments) : (report w a).result = outcome w a := by
  simp only [report, outcome, resolveConfig_eq, bind, Except.bind]
  cases fileConfig w a.config <;> rfl

theorem handsOver_deliver (w : Workspace) (output : Option Text) (text : Text) :
    HandsOver w output (.ok text) (deliver w output text) := by
  cases output with
  | none => exact .printed rfl rfl rfl
  | some path =>
    cases h : w.fileFor path with
    | error e =>
      have hwrite : w.write path (encode text) = .error e := by
        rw [write_eq, h]
        rfl
      simp only [deliver, hwrite]
      exact .unopened h rfl rfl rfl
    | ok place =>
      obtain ⟨parent, file⟩ := place
      have hwrite : w.write path (encode text) =
          .ok { w with disk := w.disk.put parent file (.file (encode text)) } := by
        rw [write_eq, h]
        rfl
      simp only [deliver, hwrite]
      exact .written h rfl rfl (wrote_of_fileFor h text)

/-- What is handed over does not depend on the log. -/
theorem HandsOver.withLog {output : Option Text} {result : Except Failure Text} {r : Response}
    (h : HandsOver w output result r) (log : List Event) :
    HandsOver w output result { r with log } := by
  cases h with
  | failed hexit hstdout hworkspace => exact .failed hexit hstdout hworkspace
  | printed hexit hstdout hworkspace => exact .printed hexit hstdout hworkspace
  | written hopen hexit hstdout hwrote => exact .written hopen hexit hstdout hwrote
  | unopened hopen hexit hstdout hworkspace => exact .unopened hopen hexit hstdout hworkspace

theorem handsOver_execute (w : Workspace) (override : Option Text) (a : Arguments) :
    HandsOver w a.output (outcome w a) (execute w override a) := by
  rw [execute, ← result_report]
  cases h : (report w a).result with
  | error f => exact .failed rfl rfl rfl
  | ok text => exact (handsOver_deliver w a.output text).withLog _

/-- A command does everything or nothing. -/
theorem respond_handsOver (w : Workspace) (override : Option Text) {arguments : List Text}
    (h : parse arguments = .ok a) :
    HandsOver w a.output (outcome w a) (respond w override arguments) := by
  rw [respond, h]
  exact handsOver_execute w override a

def tanksCommand : List Text :=
  ["t".toList, "tanks".toList, "tanks".toList, "--config=tanks.toml".toList,
    "--on-duplicate=overwrite".toList, "-otanks/a.txt".toList]

def tanksArguments : Arguments where
  folder := "t"
  oldRoot := "tanks"
  newRoot := "tanks"
  config := some "tanks.toml".toList
  duplicates := some .overwrite
  output := some "tanks/a.txt".toList

theorem readBytes_tanksWith {settings first last : ByteArray} :
    (tanksWith settings first last).readBytes "tanks.toml".toList = .ok settings := by
  have hnames : Path.names "tanks.toml".toList = ["tanks.toml".toList] := rfl
  rw [readBytes, resolve, hnames]
  simp only [Disk.follow]
  rfl

theorem fileConfig_tanks : fileConfig tanks (some "tanks.toml".toList) =
    .ok { duplicates := .fail, format := .json } := by
  rw [fileConfig, readText, tanks, readBytes_tanksWith]
  dsimp only [bind, Except.bind]
  rw [decode_encode]
  decide +kernel

theorem outcome_tanks : outcome tanks tanksArguments =
    (run { duplicates := .overwrite, format := .json } tanks "tanks".toList
      "tanks".toList).result := by
  have hconfig : fileConfig tanks tanksArguments.config =
      .ok { duplicates := .fail, format := .json } := fileConfig_tanks
  rw [outcome, hconfig]
  rfl

theorem isOk_outcome_tanks : (outcome tanks tanksArguments).isOk = true := by
  rw [outcome_tanks]
  simp only [run, Report.betweenSnapshots, Snapshot.read, tanks, readRoot_tanksWith]
  decide +kernel

/-- The report is written over a listing that it has been made from. The format is that of the
configuration file, whose way with duplicates the arguments override. -/
theorem respond_handsOver_tanks : parse tanksCommand = .ok tanksArguments ∧
    fileConfig tanks (some "tanks.toml".toList) =
      .ok { duplicates := .fail, format := .json } ∧
    outcome tanks tanksArguments = (run { duplicates := .overwrite, format := .json } tanks
      "tanks".toList "tanks".toList).result ∧
    (outcome tanks tanksArguments).isOk = true ∧
    HandsOver tanks (some "tanks/a.txt".toList) (outcome tanks tanksArguments)
      (respond tanks none tanksCommand) := by
  have hparse : parse tanksCommand = .ok tanksArguments := rfl
  exact ⟨hparse, fileConfig_tanks, outcome_tanks, isOk_outcome_tanks,
    respond_handsOver tanks none hparse⟩

end Surface.CommandLine
