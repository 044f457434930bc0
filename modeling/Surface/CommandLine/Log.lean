import Surface.CommandLine.Arguments
import Surface.Event
import Surface.Json.Printer

/-! # Which events are logged

A log profile shows the events from one level on, or none at all. A level given from outside takes
the place of the profile's own, unless the profile logs nothing.
-/

namespace Surface.CommandLine

/-- The least severe level that is shown, or nothing. -/
def LogProfile.threshold? : LogProfile → Option Level
  | quiet => some .warn
  | dev => some .debug
  | json => some .info
  | off => none

/-- The threshold that a level's name stands for; outer `none` is for a text that names none. -/
def thresholdOfName? (name : Text) : Option (Option Level) :=
  List.lookup name
    [("off".toList, none), ("error".toList, some .error), ("warn".toList, some .warn),
      ("info".toList, some .info), ("debug".toList, some .debug), ("trace".toList, some .trace)]

def threshold? (profile : LogProfile) (override : Option Text) : Option Level :=
  if profile = .off then none
  else ((override.bind thresholdOfName?).getD profile.threshold?)

def shown (threshold : Option Level) (events : List Event) : List Event :=
  match threshold with
  | some level => events.filter fun e => level.severity ≤ e.level.severity
  | none => []

def fieldJson (elapsed : Nat) : FieldValue → Json
  | .text t => .text t
  | .number n => .number n
  | .elapsed => .number elapsed

def fieldText (elapsed : Nat) : FieldValue → Text
  | .text t => t
  | .number n => Text.decimal n
  | .elapsed => Text.decimal elapsed

/-- An event as a line of the log, after `elapsed` milliseconds. -/
def logLine (profile : LogProfile) (elapsed : Nat) (e : Event) : Text :=
  match profile with
  | .json =>
    Json.compact (.object [("level", .text e.level.name),
      ("fields", .object (e.fields.map fun (name, value) => (name, fieldJson elapsed value))),
      ("target", .text e.target)])
  | _ =>
    e.level.name ++ ' ' :: e.target ++ ':' ::
      e.fields.flatMap fun (name, value) => ' ' :: name ++ '=' :: fieldText elapsed value

theorem shown_sublist (threshold : Option Level) (events : List Event) :
    List.Sublist (shown threshold events) events := by
  unfold shown
  split
  · exact List.filter_sublist
  · exact List.nil_sublist events

end Surface.CommandLine
