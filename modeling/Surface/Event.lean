import Surface.Failure
import Surface.Policy
import Surface.Report.Basic

/-! # Events

What a run tells about itself while it works. The operations of reading a snapshot, comparing two
tables and a whole run each start once and then either end or fail.
-/

namespace Surface

inductive Level where
  | trace
  | debug
  | info
  | warn
  | error
  deriving DecidableEq, Repr

namespace Level

def name : Level → Text
  | trace => "TRACE"
  | debug => "DEBUG"
  | info => "INFO"
  | warn => "WARN"
  | error => "ERROR"

/-- A higher severity passes more filters. -/
def severity : Level → Nat
  | trace => 0
  | debug => 1
  | info => 2
  | warn => 3
  | error => 4

end Level

inductive Operation where
  | readSnapshot
  | compare
  | run
  deriving DecidableEq, Repr

namespace Operation

def name : Operation → Text
  | readSnapshot => "parse_snapshot"
  | compare => "compute_report"
  | run => "run_api_diff"

/-- The part of the program that reports the operation. -/
def component : Operation → Text
  | readSnapshot => "apidiff_core::snapshot::parser"
  | compare => "apidiff_core::diff::engine"
  | run => "apidiff_core::pipeline"

end Operation

inductive Phase where
  | start
  | finish
  | failure
  deriving DecidableEq, Repr

def Phase.name : Phase → Text
  | start => "start"
  | finish => "end"
  | failure => "end_error"

inductive Event where
  | readStarted (root : Text)
  | readEnded (root : Text) (symbols classes : Nat)
  | readFailed (root : Text) (kind : FailureKind)
  | compareStarted (oldSymbols newSymbols : Nat)
  | compareEnded (summary : Summary)
  | runStarted (oldRoot newRoot : Text) (dialect : Dialect)
  | runEnded (outputBytes : Nat)
  | runFailed (kind : FailureKind)
  | classified (kind : Kind) (signature : Text)
  | overwritten (source : Text) (line : Nat)
  | listed (source : Text) (declarations : Nat)
  | folderIgnored (path : Text)
  deriving DecidableEq, Repr

/-- The value of an event's field. How long an operation took is left to whoever has a clock. -/
inductive FieldValue where
  | text (t : Text)
  | number (n : Nat)
  | elapsed
  deriving DecidableEq, Repr

namespace Event

/-- The operation that the event brackets, and where in it the event stands. -/
def bracket? : Event → Option (Operation × Phase)
  | readStarted _ => some (.readSnapshot, .start)
  | readEnded _ _ _ => some (.readSnapshot, .finish)
  | readFailed _ _ => some (.readSnapshot, .failure)
  | compareStarted _ _ => some (.compare, .start)
  | compareEnded _ => some (.compare, .finish)
  | runStarted _ _ _ => some (.run, .start)
  | runEnded _ => some (.run, .finish)
  | runFailed _ => some (.run, .failure)
  | classified _ _ | overwritten _ _ | listed _ _ | folderIgnored _ => none

def level (e : Event) : Level :=
  match e, e.bracket? with
  | _, some (_, .failure) => .error
  | _, some _ => .info
  | classified _ _, _ => .trace
  | _, none => .debug

def target (e : Event) : Text :=
  match e, e.bracket? with
  | _, some (op, _) => op.component
  | classified _ _, _ => "apidiff_core::classify"
  | folderIgnored _, _ => "apidiff_cli::commands::diff"
  | _, none => "apidiff_core::snapshot::parser"

def dialectName : Dialect → Text
  | .extended => "Extended"
  | .classic => "Classic"

def failureFields (kind : FailureKind) : List (Text × FieldValue) :=
  [("err.kind", .text (Choice.name kind)), ("err.code", .text kind.code)]

/-- The fields of its own that an event has beside its bracket. -/
def details : Event → List (Text × FieldValue)
  | readStarted root => [("snapshot_path", .text root)]
  | readEnded root symbols classes =>
    [("duration_ms", .elapsed), ("snapshot_path", .text root), ("symbol_count", .number symbols),
      ("class_count", .number classes)]
  | readFailed root kind =>
    ("duration_ms".toList, .elapsed) :: failureFields kind ++
      [("snapshot_path".toList, .text root)]
  | compareStarted oldSymbols newSymbols =>
    [("old_symbols", .number oldSymbols), ("new_symbols", .number newSymbols)]
  | compareEnded summary =>
    [("duration_ms", .elapsed), ("additions", .number summary.additions),
      ("deletions", .number summary.deletions), ("modifications", .number summary.modifications),
      ("class_count", .number summary.classes)]
  | runStarted oldRoot newRoot dialect =>
    [("old_path", .text oldRoot), ("new_path", .text newRoot),
      ("dialect", .text (dialectName dialect))]
  | runEnded outputBytes => [("duration_ms", .elapsed), ("output_bytes", .number outputBytes)]
  | runFailed kind => ("duration_ms".toList, .elapsed) :: failureFields kind
  | classified kind signature =>
    [("message", .text "classified"), ("matcher", .text (Choice.name kind)),
      ("signature", .text signature)]
  | overwritten source line =>
    [("message", .text "duplicate identity overwritten"), ("listing_path", .text source),
      ("line", .number line)]
  | listed source declarations =>
    [("message", .text "parsed listing"), ("listing_path", .text source),
      ("declarations", .number declarations)]
  | folderIgnored path =>
    [("message", .text "temp folder accepted, not read"), ("temp_folder", .text path)]

def fields (e : Event) : List (Text × FieldValue) :=
  match e.bracket? with
  | some (op, phase) =>
    ("component".toList, .text op.component) :: ("op".toList, .text op.name) ::
      ("event".toList, .text phase.name) :: e.details
  | none => e.details

end Event
end Surface
