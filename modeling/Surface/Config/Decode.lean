import Surface.Config.Basic
import Surface.Disk.Path
import Surface.Toml.Document

/-! # Reading a configuration

A configuration file is a TOML document that may set each field. Its keys are taken in the order of
the document, and the first one that does not fit is reported.
-/

namespace Surface.Config

inductive Problem where
  | malformed
  | unknownField (key : Text)
  | unknownVariant (name : Text) (expected : List Text)
  | wrongType (key : Text)
  deriving DecidableEq, Repr

def fieldNames : List Text := ["dialect", "on_duplicate", "format"]

def quoted (name : Text) : Text := '`' :: name ++ ['`']

namespace Problem

/-- What does not fit, on one line. -/
def detail : Problem → Text
  | malformed => "malformed document"
  | unknownField key =>
    "unknown field ".toList ++ quoted key ++ ", expected one of ".toList ++
      ", ".toList.intercalate (fieldNames.map quoted)
  | unknownVariant name expected =>
    "unknown variant ".toList ++ quoted name ++ ", expected ".toList ++
      " or ".toList.intercalate (expected.map quoted)
  | wrongType key => "wanted string or table for ".toList ++ quoted key

def reason (p : Problem) : Text := "TOML parse error\n".toList ++ p.detail

end Problem

def isEmptyItem : Toml.Item → Bool
  | .table _ [] => true
  | .array [] => true
  | _ => false

section

variable {α : Type} [Choice α]

def ofName (name : Text) : Except Problem α :=
  match Choice.ofName? name with
  | some a => .ok a
  | none => .error (.unknownVariant name ((Choice.all : List α).map Choice.name))

/-- An alternative is given by its name, or by a table whose only key is the name and whose value
there is empty. -/
def ofItem (key : Text) : Toml.Item → Except Problem α
  | .text name => ofName name
  | .table _ [(name, content)] => do
    let a ← ofName name
    if isEmptyItem content then .ok a else .error (.wrongType key)
  | _ => .error (.wrongType key)

end

def setField (c : Config) (entry : Text × Toml.Item) : Except Problem Config :=
  let (key, item) := entry
  if key = "dialect" then do return { c with dialect := ← ofItem key item }
  else if key = "on_duplicate" then do return { c with duplicates := ← ofItem key item }
  else if key = "format" then do return { c with format := ← ofItem key item }
  else .error (.unknownField key)

def decode (t : Text) : Except Problem Config :=
  match Toml.parse? t with
  | some entries => entries.foldlM setField {}
  | none => .error .malformed

def ofToml (t : Text) : Except Failure Config :=
  (decode t).mapError fun p => (Cause.config p.reason).failure

/-- Reads the configuration file at a path. -/
def load (w : Workspace) (path : Text) : Except Failure Config :=
  match w.readText path with
  | .error e => .error (ioFailure "load_config" path e.message)
  | .ok t => (ofToml t).mapError fun f => { f with path := some path }

end Surface.Config
