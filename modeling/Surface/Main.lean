import Surface.CommandLine.Run

/-! # The program

Loads what the arguments name from the real disk, lets the library respond, and carries the
response out.
-/

namespace Surface.Main

/-- What has been loaded, and the locations that need not be loaded again. -/
structure Loaded where
  disk : Disk := .empty
  seen : List Location := []

abbrev Loading := StateT Loaded IO

def pathOf (l : Location) : String := String.ofList ('/' :: ['/'].intercalate l)

def locationOf (path : String) : Location :=
  (Path.names path.toList).filter fun name => !Path.staysHere name

def change (f : Disk → Disk) : Loading Unit := modify fun s => { s with disk := f s.disk }

def putAt (l : Location) (node : Node) : Loading Unit :=
  change fun d =>
    match l.getLast? with
    | some name => (d.makeDirectories l.dropLast).put l.dropLast name node
    | none => d

/-- The kind of what stands at a location, links not followed. -/
def kindAt? (l : Location) : IO (Option IO.FS.FileType) := do
  match ← (System.mkFilePath [pathOf l]).symlinkMetadata.toBaseIO with
  | .ok found => return some found.type
  | .error _ => return none

/-- Loads a link and tells where it leads. A link that leads nowhere is kept as one that leads to a
name no disk holds, or to itself if it is one of a circle of links. -/
def loadLink (l : Location) : Loading (Option Location) := do
  match ← (System.mkFilePath [pathOf l]).metadata.toBaseIO with
  | .ok _ =>
    let target ← IO.FS.realPath (pathOf l)
    putAt l (.link target.toString.toList)
    return some (locationOf target.toString)
  | .error (.noFileOrDirectory ..) =>
    putAt l (.link ['\x00'])
    return none
  | .error _ =>
    putAt l (.link (pathOf l).toList)
    return none

/-- Loads a location with all that is below it, and all that links there lead to. -/
partial def load (l : Location) : Loading Unit := do
  if l ∈ (← get).seen then return
  modify fun s => { s with seen := l :: s.seen }
  match ← kindAt? l with
  | some .dir =>
    change fun d => d.makeDirectories l
    for entry in ← (System.mkFilePath [pathOf l]).readDir do
      load (l ++ [entry.fileName.toList])
  | some .symlink =>
    if let some target ← loadLink l then load target
  | some _ => putAt l (.file (← IO.FS.readBinFile (pathOf l)))
  | none => return

/-- Loads the directories and links on the way of a path, and what it leads to: all of it, or only
whether it is a file or a directory. -/
def loadPath (current : Location) (path : Text) (whole : Bool) : Loading Unit := do
  let mut here := Path.start current path
  change fun d => d.makeDirectories here
  for name in Path.names path do
    if Path.staysHere name then continue
    if Path.goesUp name then
      here := here.dropLast
      continue
    let l := here ++ [name]
    match ← kindAt? l with
    | some .dir =>
      change fun d => d.makeDirectories l
      here := l
    | some .symlink =>
      match ← loadLink l with
      | some target =>
        match ← kindAt? target with
        | some .dir => change fun d => d.makeDirectories target
        | _ => putAt target (.file .empty)
        here := target
      | none => return
    | some _ =>
      putAt l (.file .empty)
      here := l
    | none => return
  if whole then load here

def loadWorkspace (arguments : List Text) : IO Workspace := do
  let current := locationOf (← IO.FS.realPath (← IO.currentDir)).toString
  match CommandLine.parse arguments with
  | .error _ => return ⟨Disk.empty.makeDirectories current, current⟩
  | .ok a =>
    let loading : Loading Unit := do
      change fun d => d.makeDirectories current
      for path in a.output.toList do
        loadPath current path false
      for path in a.config.toList ++ [a.oldRoot, a.newRoot] do
        loadPath current path true
    let (_, loaded) ← loading.run {}
    return ⟨loaded.disk, current⟩

/-- What the system says about a file that cannot be written. -/
def systemMessage : IO.Error → String
  | .noFileOrDirectory _ code details
  | .inappropriateType _ code details
  | .invalidArgument _ code details
  | .permissionDenied _ code details
  | .resourceExhausted _ code details
  | .otherError code details => details ++ " (os error " ++ toString code ++ ")"
  | e => toString e

/-- Writes what the output file holds after the run to the real disk. The run has failed if the
system refuses that, as it may where a link leads to nothing. -/
def carryOut (a : CommandLine.Arguments) (r : CommandLine.Response) :
    IO CommandLine.Response := do
  let some path := a.output | return r
  let .ok content := r.workspace.readBytes path | return r
  match ← (IO.FS.writeBinFile (String.ofList path) content).toBaseIO with
  | .ok () => return r
  | .error e =>
    let message := (systemMessage e).toList
    return { r with exitCode := 1, stdout := [], stderr := CommandLine.errorText message }

/-- The environment variable that takes the place of the log profile's level. -/
def levelVariable : String := "RUST_LOG"

def respond (arguments : List Text) : IO UInt32 := do
  let started ← IO.monoMsNow
  let w ← loadWorkspace arguments
  let override := (← IO.getEnv levelVariable).map String.toList
  let mut r := CommandLine.respond w override arguments
  let elapsed := (← IO.monoMsNow) - started
  if let .ok a := CommandLine.parse arguments then
    for event in r.log do
      IO.eprintln (String.ofList (CommandLine.logLine a.log elapsed event))
    if r.exitCode = 0 then r ← carryOut a r
  IO.print (String.ofList r.stdout)
  IO.eprint (String.ofList r.stderr)
  return UInt32.ofNat r.exitCode

end Surface.Main

def main (arguments : List String) : IO UInt32 := do
  try
    Surface.Main.respond (arguments.map String.toList)
  catch e =>
    IO.eprintln s!"Error: {e}"
    return 1
