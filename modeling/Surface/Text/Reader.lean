import Surface.Text.Basic

/-! # Readers

A reader takes a value off the front of a text, or refuses the text. A choice between two readers
tries the second on the same text when the first refuses it.
-/

namespace Surface

abbrev Reader (α : Type) := StateT Text Option α

namespace Reader

variable {α β : Type}

def satisfy (p : Char → Bool) : Reader Char
  | [] => none
  | c :: t => if p c then some (c, t) else none

def next : Reader Char := satisfy fun _ => true

def char (c : Char) : Reader Char := satisfy fun x => x == c

def literal (s : Text) : Reader Text := fun t =>
  if s.isPrefixOf t then some (s, t.drop s.length) else none

/-- The longest run of characters with a property, which may be empty. -/
def takeWhile (p : Char → Bool) : Reader Text := fun t => some (t.takeWhile p, t.dropWhile p)

def takeWhile1 (p : Char → Bool) : Reader Text := do
  let s ← takeWhile p
  if s = [] then failure else return s

/-- The next character, which stays in the text. -/
def peek? : Reader (Option Char) := fun t => some (t.head?, t)

def endOfText : Reader Unit := fun t => if t = [] then some ((), t) else none

/-- Succeeds where the reader does, but takes nothing. -/
def lookingAt (r : Reader α) : Reader Unit := fun t => (r t).map fun _ => ((), t)

/-- The text that a reader takes. -/
def written (r : Reader α) : Reader Text := fun t =>
  (r t).map fun (_, rest) => (t.take (t.length - rest.length), rest)

/-- Reads again and again, until the reader refuses the rest or takes nothing. -/
def many (r : Reader α) (t : Text) : Option (List α × Text) :=
  match r t with
  | none => some ([], t)
  | some (a, rest) =>
    if rest.length < t.length then
      (many r rest).map fun (as, rest) => (a :: as, rest)
    else some ([a], rest)
  termination_by t.length

/-- One value or more with separators between them. -/
def separated1 (r : Reader α) (separator : Reader β) : Reader (List α) := do
  let a ← r
  let as ← many (separator *> r)
  return a :: as

def separated (r : Reader α) (separator : Reader β) : Reader (List α) :=
  separated1 r separator <|> pure []

/-- The value of a text that the reader takes as a whole. -/
def readAll (r : Reader α) (t : Text) : Option α := ((r <* endOfText) t).map Prod.fst

end Reader
end Surface
