import Surface.Json.Value
import Surface.Text.Hexadecimal

/-! # Printing JSON

Pretty-printed JSON: each item and each member stands on a line of its own, two blanks deeper than
what holds it. Quotes, backslashes and control characters are escaped, all else is copied.
-/

namespace Surface.Json

def escapeChar (c : Char) : Text :=
  if c = '"' then "\\\""
  else if c = '\\' then "\\\\"
  else if c = '\n' then "\\n"
  else if c = '\r' then "\\r"
  else if c = '\t' then "\\t"
  else if c.toNat = 0x08 then "\\b"
  else if c.toNat = 0x0C then "\\f"
  else if c.toNat < 0x20 then
    "\\u00".toList ++ [Text.hexDigit (c.toNat / 16), Text.hexDigit (c.toNat % 16)]
  else [c]

def quote (t : Text) : Text := '"' :: t.flatMap escapeChar ++ ['"']

def newLine (depth : Nat) : Text := '\n' :: List.replicate (2 * depth) ' '

mutual

def pretty (depth : Nat) : Json → Text
  | number n => Text.decimal n
  | text t => quote t
  | array [] => "[]"
  | array (item :: items) =>
    '[' :: newLine (depth + 1) ++ pretty (depth + 1) item ++ prettyItems (depth + 1) items ++
      newLine depth ++ [']']
  | object [] => ['{', '}']
  | object ((name, value) :: members) =>
    '{' :: newLine (depth + 1) ++ quote name ++ ": ".toList ++ pretty (depth + 1) value ++
      prettyMembers (depth + 1) members ++ newLine depth ++ ['}']

def prettyItems (depth : Nat) : List Json → Text
  | [] => []
  | item :: items => ',' :: newLine depth ++ pretty depth item ++ prettyItems depth items

def prettyMembers (depth : Nat) : List (Text × Json) → Text
  | [] => []
  | (name, value) :: members =>
    ',' :: newLine depth ++ quote name ++ ": ".toList ++ pretty depth value ++
      prettyMembers depth members

end

mutual

/-- The value on one line, without blanks. -/
def compact : Json → Text
  | number n => Text.decimal n
  | text t => quote t
  | array [] => "[]"
  | array (item :: items) => '[' :: compact item ++ compactItems items ++ [']']
  | object [] => ['{', '}']
  | object ((name, value) :: members) =>
    '{' :: quote name ++ ':' :: compact value ++ compactMembers members ++ ['}']

def compactItems : List Json → Text
  | [] => []
  | item :: items => ',' :: compact item ++ compactItems items

def compactMembers : List (Text × Json) → Text
  | [] => []
  | (name, value) :: members =>
    ',' :: quote name ++ ':' :: compact value ++ compactMembers members

end

/-- A document is one value and a line feed. -/
def print (value : Json) : Text := pretty 0 value ++ ['\n']

end Surface.Json
