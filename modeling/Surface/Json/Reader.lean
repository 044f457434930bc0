import Surface.Json.Value
import Surface.Text.Hexadecimal

/-! # Reading JSON

Reads the documents whose values are texts, natural numbers, arrays and objects. Blanks may stand
around every value and every mark.
-/

namespace Surface.Json

open Reader

def isSpace (c : Char) : Bool := c == ' ' || c == '\t' || c == '\n' || c == '\r'

def space : Reader Text := Reader.takeWhile isSpace

/-- The character of two surrogates, the first of which has been read. -/
def lowSurrogate (high : Nat) : Reader Char := do
  let low ← literal ['\\', 'u'] *> hexNumber 4
  if 0xDC00 ≤ low ∧ low < 0xE000 then
    return Char.ofNat (0x10000 + 0x400 * (high - 0xD800) + (low - 0xDC00))
  else failure

def escape : Reader Char := do
  let _ ← char '\\'
  match ← next with
  | '"' => return '"'
  | '\\' => return '\\'
  | '/' => return '/'
  | 'b' => return '\x08'
  | 'f' => return '\x0c'
  | 'n' => return '\n'
  | 'r' => return '\r'
  | 't' => return '\t'
  | 'u' => do
    let n ← hexNumber 4
    if n.isValidChar then return Char.ofNat n
    else if n < 0xDC00 then lowSurrogate n
    else failure
  | _ => failure

def plainChar : Reader Char := satisfy fun c => c != '"' && c != '\\' && 0x20 ≤ c.toNat

def quoted : Reader Text := char '"' *> many (plainChar <|> escape) <* char '"'

/-- Decimal digits that start with zero only if they are zero alone. -/
def natural : Reader Nat := do
  let digits ← takeWhile1 Char.isDigit
  if digits.head? = some '0' ∧ digits ≠ ['0'] then failure
  else return digits.foldl (fun n c => 10 * n + (c.toNat - '0'.toNat)) 0

def arrayOf (item : Reader Json) : Reader Json := do
  let items ← char '[' *> space *> separated (item <* space) (char ',' *> space) <* char ']'
  return array items

def objectOf (value : Reader Json) : Reader Json := do
  let member : Reader (Text × Json) := do
    let name ← quoted <* space <* char ':' <* space
    return (name, ← value)
  let members ←
    char '\x7b' *> space *> separated (member <* space) (char ',' *> space) <* char '\x7d'
  return object members

/-- A value that is at most `depth` levels deep. -/
def value : Nat → Reader Json
  | 0 => failure
  | depth + 1 =>
    text <$> quoted <|> number <$> natural <|> arrayOf (value depth) <|> objectOf (value depth)

/-- The value of a document. -/
def parse? (t : Text) : Option Json := readAll (space *> value t.length <* space) t

end Surface.Json
