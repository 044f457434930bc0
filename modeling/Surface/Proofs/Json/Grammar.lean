import Surface.Proofs.Json.Spelling

/-! # How a value is written in JSON

Numbers are written in one way. Texts may be spelled in any way, and blanks may stand around every
value and every mark. A document is one value with blanks around it.
-/

namespace Surface.Json

def IsSpaces (w : Text) : Prop := ∀ c ∈ w, isSpace c = true

/-- Texts that follow others: a comma in front of each, and blanks around it. -/
inductive Further : List Text → Text → Prop
  | nil : Further [] []
  | cons {ws : List Text} {w before behind more : Text} : IsSpaces before → IsSpaces behind →
      Further ws more → Further (w :: ws) (',' :: before ++ (w ++ behind) ++ more)

/-- Texts with commas between them, and blanks around each. -/
inductive Listed : List Text → Text → Prop
  | nil {gap : Text} : IsSpaces gap → Listed [] gap
  | cons {ws : List Text} {w before behind more : Text} : IsSpaces before → IsSpaces behind →
      Further ws more → Listed (w :: ws) (before ++ (w ++ behind ++ more))

/-- A member of an object with its written form. -/
structure Member where
  name : Text
  value : Json
  key : Text
  before : Text
  behind : Text
  written : Text

namespace Member

def entry (m : Member) : Text × Json := (m.name, m.value)

def text (m : Member) : Text := m.key ++ m.before ++ [':'] ++ m.behind ++ m.written

structure Named (m : Member) : Prop where
  quotes : Quotes m.name m.key
  before : IsSpaces m.before
  behind : IsSpaces m.behind

end Member

inductive Writes : Json → Text → Prop
  | number (n : Nat) : Writes (.number n) (Text.decimal n)
  | text {t w : Text} : Quotes t w → Writes (.text t) w
  | array {items : List (Json × Text)} {w : Text} : (∀ e ∈ items, Writes e.1 e.2) →
      Listed (items.map Prod.snd) w → Writes (.array (items.map Prod.fst)) ('[' :: w ++ [']'])
  | object {members : List Member} {w : Text} : (∀ m ∈ members, m.Named) →
      (∀ m ∈ members, Writes m.value m.written) → Listed (members.map Member.text) w →
      Writes (.object (members.map Member.entry)) ('{' :: w ++ ['}'])

/-- A text that is the written form of one value, up to blanks around it. -/
inductive Document (v : Json) : Text → Prop
  | intro {before w behind : Text} : IsSpaces before → Writes v w → IsSpaces behind →
      Document v (before ++ w ++ behind)

end Surface.Json
