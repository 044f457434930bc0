import Surface.Disk.Walk
import Surface.Listing

/-! # Snapshots

A snapshot is a directory in which every file is a listing. Its table is the fold of the listings
in the order of the walk, so a later file may redefine what an earlier one has defined.
-/

namespace Surface.Snapshot

def readFile (options : ReadOptions) (file : SourceFile) (table : SymbolTable) : Progress :=
  match file.text with
  | .error e => ⟨table, [], some (ioFailure "read_listing" file.path e.message)⟩
  | .ok text =>
    let listing : Listing := ⟨file.path, text⟩
    (listing.read options table).emit (.listed file.path listing.declarations.length)

def readFiles (options : ReadOptions) (files : List SourceFile) (table : SymbolTable) : Progress :=
  files.foldl (fun p file => p.andThen (readFile options file)) ⟨table, [], none⟩

def readWalk (options : ReadOptions) (walk : Walk) : Progress :=
  (readFiles options walk.files ∅).andThen fun table => ⟨table, [], walk.failure⟩

/-- Why a path leads to no snapshot. -/
def rootProblem? (w : Workspace) (root : Text) : Option Text :=
  if w.isDirectory root then none
  else if w.exists? root then some "not a directory"
  else some "does not exist"

def readRoot (options : ReadOptions) (w : Workspace) (root : Text) : Progress :=
  match rootProblem? w root with
  | some reason => ⟨∅, [], some (Cause.rootInvalid root reason).failure⟩
  | none => readWalk options (w.walk root)

/-- Reads a whole snapshot and tells where that begins and how it ends. -/
def read (options : ReadOptions) (w : Workspace) (root : Text) : Progress :=
  let p := readRoot options w root
  let last := match p.failure with
    | some f => Event.readFailed root f.kind
    | none => Event.readEnded root p.table.size p.table.classes.length
  { p with events := .readStarted root :: p.events ++ [last] }

end Surface.Snapshot
