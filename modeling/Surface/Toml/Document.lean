import Surface.Toml.DateTime
import Surface.Toml.Item
import Surface.Toml.Number
import Surface.Toml.Quoted

/-! # TOML documents

A document is read line by line into its root table. It is refused as a whole when any line is
malformed or defines something that is already there.
-/

namespace Surface.Toml

open Reader

/-- Arrays and inline tables may stand in each other this deep, and a key has fewer parts than the
next number. -/
def maxDepth : Nat := 79
def maxKeyParts : Nat := 79

def isBare (c : Char) : Bool := c.isAlphanum || c == '-' || c == '_'

def simpleKey : Reader Text := basicString <|> literalString <|> takeWhile1 isBare

/-- A key as the tables it leads through and its last part. -/
def key : Reader (List Text × Text) := do
  let parts ← separated1 (space *> simpleKey <* space) (char '.')
  match parts.getLast? with
  | some last => if parts.length ≤ maxKeyParts then return (parts.dropLast, last) else failure
  | none => failure

def boolean : Reader Bool :=
  (fun _ => true) <$> literal "true" <|> (fun _ => false) <$> literal "false"

def plainValue : Reader Item :=
  .text <$> string <|> .dateTime <$> dateTime <|> .float <$> float <|> .integer <$> integer <|>
    .boolean <$> boolean

/-- Items between brackets; a comma may follow the last one. -/
def arrayOf (item : Reader Item) : Reader Item := do
  let _ ← char '['
  let items ← separated (spread *> item <* spread) (char ',')
  if items ≠ [] then
    let _ ← optional (char ',')
  let _ ← spread *> char ']'
  return .array items

/-- Keys with items between braces, on one line. -/
def inlineTableOf (item : Reader Item) : Reader Item := do
  let _ ← char '\x7b'
  let pairs ← separated
    (do
      let (path, last) ← key
      let value ← char '=' *> space *> item <* space
      return (path, last, value))
    (char ',')
  let _ ← space *> char '\x7d'
  let add := fun (table : Table) (path, last, value) => table.addDotted path last value
  match pairs.foldlM add ⟨.inline, []⟩ with
  | some table => return .table .inline table.entries
  | none => failure

/-- A value that holds others at most `depth` levels deep. -/
def value : Nat → Reader Item
  | 0 => plainValue
  | depth + 1 => arrayOf (value depth) <|> inlineTableOf (value depth) <|> plainValue

/-- The root table so far, and the header's path to the table that lines now add to. -/
structure State where
  root : Table := ⟨.header, []⟩
  current : List Text := []

def pairLine (s : State) : Reader State := do
  let (path, last) ← key
  let item ← char '=' *> space *> value maxDepth <* lineEnd
  match s.root.changeAt true (Table.addDotted path last item) s.current with
  | some root => return { s with root := root }
  | none => failure

def headerLine (s : State) : Reader State := do
  let (path, last) ← char '[' *> key <* char ']' <* lineEnd
  match s.root.openTable path last with
  | some root => return ⟨root, path ++ [last]⟩
  | none => failure

def elementLine (s : State) : Reader State := do
  let (path, last) ← literal ['[', '['] *> key <* literal [']', ']'] <* lineEnd
  match s.root.openElement path last with
  | some root => return ⟨root, path ++ [last]⟩
  | none => failure

def line (s : State) : Reader State := do
  match ← peek? with
  | some '#' => (fun _ => s) <$> lineEnd
  | some '\n' | some '\r' => (fun _ => s) <$> newline
  | some '[' => elementLine s <|> headerLine s
  | _ => pairLine s

/-- Reads the lines of a document that the state goes before. -/
def lines (s : State) (t : Text) : Option State :=
  let t := t.dropWhile isSpace
  if t = [] then some s
  else
    match line s t with
    | none => none
    | some (next, rest) => if rest.length < t.length then lines next rest else none
  termination_by t.length
  decreasing_by
    exact Nat.lt_of_lt_of_le ‹_› (List.dropWhile_suffix _).length_le

def byteOrderMark : Char := '\ufeff'

/-- The entries of a document's root table. -/
def parse? (t : Text) : Option Entries :=
  let t := if t.head? = some byteOrderMark then t.drop 1 else t
  (lines {} t).map fun s => s.root.entries

end Surface.Toml
