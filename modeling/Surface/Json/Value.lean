import Surface.Text.Basic

/-! # JSON values

The values that reports are made of: numbers are natural, and the members of an object keep their
order.
-/

namespace Surface

inductive Json where
  | number (n : Nat)
  | text (t : Text)
  | array (items : List Json)
  | object (members : List (Text × Json))

namespace Json

/-- The value of the first member with a name. -/
def member? (name : Text) : Json → Option Json
  | object members => (members.find? fun m => m.1 == name).map Prod.snd
  | _ => none

def text? : Json → Option Text
  | text t => some t
  | _ => none

def number? : Json → Option Nat
  | number n => some n
  | _ => none

def items? : Json → Option (List Json)
  | array items => some items
  | _ => none

def members? : Json → Option (List (Text × Json))
  | object members => some members
  | _ => none

end Json
end Surface
