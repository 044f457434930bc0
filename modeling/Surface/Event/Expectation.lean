import Surface.Event

/-! # Expected events

Checks that an operation has told of an event, by the names of both.
-/

namespace Surface.Event

def belongsTo (op : Text) (e : Event) : Bool := e.bracket?.any fun b => b.1.name == op

def isNamed (name : Text) (e : Event) : Bool := e.bracket?.any fun b => b.2.name == name

/-- The events of one operation. -/
def ofOperation (op : Text) (events : List Event) : List Event := events.filter (belongsTo op)

/-- An event that is not there, and how many others the operation has. -/
structure Missing where
  op : Text
  name : Text
  others : Nat
  deriving DecidableEq, Repr

def Missing.message (m : Missing) : Text :=
  "Expected event op=".toList ++ m.op ++ " event=".toList ++ m.name ++ " not found; ".toList ++
    Text.decimal m.others ++ " events recorded for that op".toList

def missing? (op name : Text) (events : List Event) : Option Missing :=
  let recorded := ofOperation op events
  if recorded.any (isNamed name) then none else some ⟨op, name, recorded.length⟩

theorem missing?_eq_none_iff {op name : Text} {events : List Event} :
    missing? op name events = none ↔ ∃ e ∈ events, belongsTo op e ∧ isNamed name e := by
  simp [missing?, ofOperation]

end Surface.Event
