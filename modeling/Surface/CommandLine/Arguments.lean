import Surface.Config.Basic

/-! # Arguments

Options and the three positional arguments may come in any order. A value is checked when the next
argument shows that it is complete, so whichever of a bad value and a call for help comes first
decides.
-/

namespace Surface.CommandLine

inductive LogProfile where
  | quiet
  | dev
  | json
  | off
  deriving DecidableEq, Repr, Inhabited

instance : Choice LogProfile where
  all := [.quiet, .dev, .json, .off]
  name
    | .quiet => "quiet"
    | .dev => "dev"
    | .json => "json"
    | .off => "off"
  find_name p := by cases p <;> decide

structure Arguments where
  folder : Text
  oldRoot : Text
  newRoot : Text
  config : Option Text := none
  dialect : Option Dialect := none
  duplicates : Option DuplicatePolicy := none
  format : Option Format := none
  output : Option Text := none
  log : LogProfile := .quiet
  deriving DecidableEq, Repr

/-- Why the arguments lead to no run. -/
inductive Refusal where
  | help
  | usage
  deriving DecidableEq, Repr

/-- What a value is for. -/
inductive Slot where
  | positional
  | config
  | dialect
  | onDuplicate
  | format
  | output
  | log
  deriving DecidableEq, Repr

namespace Slot

def ofLongName? (name : Text) : Option Slot :=
  List.lookup name
    [("config".toList, config), ("dialect".toList, dialect), ("on-duplicate".toList, onDuplicate),
      ("format".toList, format), ("output".toList, output), ("log".toList, log)]

end Slot

/-- The values that have been checked so far. -/
structure Draft where
  positionals : List Text := []
  config : Option Text := none
  dialect : Option Dialect := none
  duplicates : Option DuplicatePolicy := none
  format : Option Format := none
  output : Option Text := none
  log : Option LogProfile := none
  deriving DecidableEq, Repr

namespace Draft

def path? (value : Text) : Option Text := if value = [] then none else some value

/-- Sets what is not set yet. -/
def setOnce {α : Type} (old new : Option α) : Option (Option α) :=
  match old, new with
  | none, some a => some (some a)
  | _, _ => none

/-- Checks a value and puts it where it belongs. A fourth positional argument, a second value for
an option and an unknown alternative are refused, and so is an empty path. -/
def fill (d : Draft) (slot : Slot) (value : Text) : Option Draft :=
  match slot with
  | .positional => do
    let path ← path? value
    if d.positionals.length < 3 then some { d with positionals := d.positionals ++ [path] }
    else none
  | .config => do some { d with config := ← setOnce d.config (path? value) }
  | .dialect => do some { d with dialect := ← setOnce d.dialect (Choice.ofName? value) }
  | .onDuplicate => do some { d with duplicates := ← setOnce d.duplicates (Choice.ofName? value) }
  | .format => do some { d with format := ← setOnce d.format (Choice.ofName? value) }
  | .output => do some { d with output := ← setOnce d.output (path? value) }
  | .log => do some { d with log := ← setOnce d.log (Choice.ofName? value) }

def complete (d : Draft) : Except Refusal Arguments :=
  match d.positionals with
  | [folder, oldRoot, newRoot] =>
    .ok
      { folder, oldRoot, newRoot
        config := d.config
        dialect := d.dialect
        duplicates := d.duplicates
        format := d.format
        output := d.output
        log := d.log.getD .quiet }
  | _ => .error .usage

end Draft

/-- A value that is not checked yet, or an option that still waits for its value. -/
structure Pending where
  slot : Slot
  value : Option Text
  deriving DecidableEq, Repr

structure State where
  draft : Draft := {}
  pending : Option Pending := none
  /-- Behind `--` every argument is positional. -/
  optionsEnded : Bool := false
  deriving DecidableEq, Repr

namespace State

def fill (s : State) (slot : Slot) (value : Text) : Except Refusal State :=
  match s.draft.fill slot value with
  | some draft => .ok { s with draft, pending := none }
  | none => .error .usage

/-- Checks what is pending. -/
def settle (s : State) : Except Refusal State :=
  match s.pending with
  | none => .ok s
  | some ⟨_, none⟩ => .error .usage
  | some ⟨slot, some value⟩ => s.fill slot value

def await (s : State) (slot : Slot) (value : Option Text) : Except Refusal State := do
  let s ← s.settle
  return { s with pending := some ⟨slot, value⟩ }

def give (s : State) (slot : Slot) (value : Text) : Except Refusal State := do
  (← s.settle).fill slot value

def callForHelp (s : State) : Except Refusal State := do
  let _ ← s.settle
  .error .help

/-- A long option, with what stands behind its first `=`. -/
def readLong (s : State) (name : Text) (attached : Option Text) : Except Refusal State :=
  if name = "help" then
    match attached with
    | none => s.callForHelp
    | some _ => .error .usage
  else
    match Slot.ofLongName? name, attached with
    | some slot, some value => s.give slot value
    | some slot, none => s.await slot none
    | none, _ => .error .usage

/-- A short option, with the rest of its argument; only the output takes a value. -/
def readShort (s : State) (letter : Char) (attached : Text) : Except Refusal State :=
  if letter = 'h' then s.callForHelp
  else if letter = 'o' then
    match attached with
    | [] => s.await .output none
    | '=' :: value => s.give .output value
    | value => s.give .output value
  else .error .usage

/-- An argument that is no option: the value of a waiting option, or a positional argument. -/
def readWord (s : State) (word : Text) : Except Refusal State :=
  match s.pending with
  | some ⟨slot, none⟩ => .ok { s with pending := some ⟨slot, some word⟩ }
  | _ => s.await .positional (some word)

def read (s : State) (argument : Text) : Except Refusal State :=
  if s.optionsEnded then s.await .positional (some argument)
  else
    match argument with
    | ['-', '-'] => .ok { s with optionsEnded := true }
    | '-' :: '-' :: rest =>
      let name := rest.takeWhile (· != '=')
      match rest.dropWhile (· != '=') with
      | _ :: value => s.readLong name (some value)
      | [] => s.readLong name none
    | '-' :: letter :: rest => s.readShort letter rest
    | word => s.readWord word

end State

/-- What the arguments ask for. -/
def parse (arguments : List Text) : Except Refusal Arguments := do
  let s ← arguments.foldlM State.read {}
  (← s.settle).draft.complete

end Surface.CommandLine
