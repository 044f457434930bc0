import Surface.Choice

/-! # Failures

A cause says what went wrong in the words of the domain. A failure carries its message together
with the place where it arose: operation, path, line and offending text.
-/

namespace Surface

inductive FailureKind where
  | invalidInput
  | parse
  | missingTypeDeclaration
  | duplicateSymbol
  | config
  | io
  | serialization
  deriving DecidableEq, Repr

namespace FailureKind

instance : Choice FailureKind where
  all := [invalidInput, parse, missingTypeDeclaration, duplicateSymbol, config, io, serialization]
  name
    | invalidInput => "InvalidInput"
    | parse => "Parse"
    | missingTypeDeclaration => "MissingTypeDeclaration"
    | duplicateSymbol => "DuplicateSymbol"
    | config => "Config"
    | io => "Io"
    | serialization => "Serialization"
  find_name k := by cases k <;> decide

/-- The stable code by which tools tell failures apart. -/
def code : FailureKind → Text
  | invalidInput => "ERR_INVALID_INPUT"
  | parse => "ERR_PARSE"
  | missingTypeDeclaration => "ERR_MISSING_TYPE_DECLARATION"
  | duplicateSymbol => "ERR_DUPLICATE_SYMBOL"
  | config => "ERR_CONFIG"
  | io => "ERR_IO"
  | serialization => "ERR_SERIALIZATION"

theorem code_injective {a b : FailureKind} (h : a.code = b.code) : a = b := by
  revert h
  cases a <;> cases b <;> decide

end FailureKind

structure Failure where
  kind : FailureKind
  op : Option Text := none
  path : Option Text := none
  line : Option Nat := none
  text : Option Text := none
  message : Text := []
  deriving DecidableEq, Repr

namespace Failure

/-- The place is shown only with a path; a line without a path is left out. -/
def display (f : Failure) : Text :=
  '[' :: f.kind.code ++ "]".toList ++
  (match f.op with
    | some op => " in operation '".toList ++ op ++ "'".toList
    | none => []) ++
  (if f.message = [] then [] else ": ".toList ++ f.message) ++
  (match f.path, f.line with
    | some path, some line => " (".toList ++ path ++ ":".toList ++ Text.decimal line ++ ")".toList
    | some path, none => " (".toList ++ path ++ ")".toList
    | none, _ => [])

end Failure

inductive Cause where
  | unparseable (text : Text)
  | missingType (label text : Text)
  | duplicate (declaringClass signature : Text)
  | rootInvalid (path reason : Text)
  | io (path message : Text)
  | config (reason : Text)
  | serialization (message : Text)
  deriving DecidableEq, Repr

namespace Cause

def kind : Cause → FailureKind
  | unparseable _ => .parse
  | missingType _ _ => .missingTypeDeclaration
  | duplicate _ _ => .duplicateSymbol
  | rootInvalid _ _ => .invalidInput
  | io _ _ => .io
  | config _ => .config
  | serialization _ => .serialization

def message : Cause → Text
  | unparseable text => "Could not parse ".toList ++ text
  | missingType label text =>
    "First declaration must declare a type, found ".toList ++ label ++ ": ".toList ++ text
  | duplicate declaringClass signature =>
    "Duplicate symbol ".toList ++ signature ++ " in ".toList ++ declaringClass
  | rootInvalid path reason => "Invalid snapshot root ".toList ++ path ++ ": ".toList ++ reason
  | io path message => "I/O error on ".toList ++ path ++ ": ".toList ++ message
  | config reason => "Invalid configuration: ".toList ++ reason
  | serialization message => "Serialization error: ".toList ++ message

/-- The failure as it arises, with the context that the cause alone determines. -/
def failure (c : Cause) : Failure :=
  let bare : Failure := { kind := c.kind, message := c.message }
  match c with
  | unparseable text => { bare with op := some "classify_line", text := some text }
  | missingType _ text => { bare with op := some "parse_listing", text := some text }
  | duplicate _ signature => { bare with op := some "insert_symbol", text := some signature }
  | rootInvalid path _ => { bare with op := some "parse_snapshot", path := some path }
  | io path _ => { bare with path := some path }
  | config _ => { bare with op := some "load_config" }
  | serialization _ => bare

@[simp] theorem kind_failure (c : Cause) : c.failure.kind = c.kind := by cases c <;> rfl

@[simp] theorem message_failure (c : Cause) : c.failure.message = c.message := by cases c <;> rfl

end Cause

/-- A file could not be read or written during `op`. -/
def ioFailure (op path message : Text) : Failure :=
  { (Cause.io path message).failure with op := some op }

end Surface
