import Surface.CommandLine.Help
import Surface.CommandLine.Log
import Surface.Config.Decode
import Surface.Run

/-! # The command

The whole program as a function of its arguments and of the disk. The report is complete before
anything is written, and a failed run leaves the disk as it was.
-/

namespace Surface.CommandLine

structure Response where
  exitCode : Nat
  stdout : Text := []
  stderr : Text := []
  log : List Event := []
  workspace : Workspace

def errorText (message : Text) : Text := "Error: ".toList ++ message ++ "\n".toList

/-- The settings of the configuration file, where the arguments do not set them themselves. -/
def resolveConfig (w : Workspace) (a : Arguments) : Except Failure Config := do
  let base : Config ← match a.config with
    | some path => Config.load w path
    | none => .ok {}
  .ok
    { dialect := a.dialect.getD base.dialect
      duplicates := a.duplicates.getD base.duplicates
      format := a.format.getD base.format }

/-- The report that the arguments ask for. -/
def report (w : Workspace) (a : Arguments) : Traced Text :=
  match resolveConfig w a with
  | .ok c => run c w a.oldRoot a.newRoot
  | .error f => ⟨.error f, []⟩

/-- Hands the report over: to the output file if there is one, else to the standard output. -/
def deliver (w : Workspace) (output : Option Text) (report : Text) : Response :=
  match output with
  | none => { exitCode := 0, stdout := report, workspace := w }
  | some path =>
    match w.write path (Workspace.encode report) with
    | .ok written =>
      { exitCode := 0
        stdout := "✓ Report written to ".toList ++ path ++ "\n".toList
        workspace := written }
    | .error e => { exitCode := 1, stderr := errorText e.message, workspace := w }

def execute (w : Workspace) (override : Option Text) (a : Arguments) : Response :=
  let t := report w a
  let response := match t.result with
    | .ok text => deliver w a.output text
    | .error f => { exitCode := 1, stderr := errorText f.display, workspace := w }
  { response with log := shown (threshold? a.log override) (.folderIgnored a.folder :: t.events) }

/-- Runs the program; `override` is the log level given from outside. -/
def respond (w : Workspace) (override : Option Text) (arguments : List Text) : Response :=
  match parse arguments with
  | .ok a => execute w override a
  | .error .help => { exitCode := 0, stdout := help, workspace := w }
  | .error .usage => { exitCode := 2, stderr := usage ++ "\n".toList, workspace := w }

end Surface.CommandLine
