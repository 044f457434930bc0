import Surface.Event

/-! # What events tell

Whoever listens to a run sees the fields of its events: the message of a plain event, and what the
start and the end of an operation tell about it.
-/

namespace Surface.Event

def field? (name : Text) (e : Event) : Option FieldValue := e.fields.lookup name

def text? (name : Text) (e : Event) : Option Text :=
  match e.field? name with
  | some (.text t) => some t
  | _ => none

def number? (name : Text) (e : Event) : Option Nat :=
  match e.field? name with
  | some (.number n) => some n
  | _ => none

/-- The event has the message. -/
def tells (message : Text) (e : Event) : Bool := e.text? "message" == some message

/-- The event stands at the start, the end or the failure of an operation. -/
def isBracket (e : Event) : Bool := e.bracket?.isSome

/-- The events at one place of one operation. -/
def atBracket (op : Operation) (phase : Phase) (events : List Event) : List Event :=
  events.filter fun e => e.bracket? = some (op, phase)

theorem atBracket_append (op : Operation) (phase : Phase) (a b : List Event) :
    atBracket op phase (a ++ b) = atBracket op phase a ++ atBracket op phase b :=
  List.filter_append ..

end Surface.Event
