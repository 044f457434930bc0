import Surface.Text.Reader

/-! # TOML numbers

Integers are read exactly and have to fit into 64 bits with a sign. A positive float must not be so
large that only infinity is near it.
-/

namespace Surface.Toml

open Reader

def digitValue (c : Char) : Nat :=
  if c.isDigit then c.toNat - '0'.toNat
  else if c.isUpper then c.toNat - 'A'.toNat + 10
  else c.toNat - 'a'.toNat + 10

def valueOf (base : Nat) (digits : Text) : Nat :=
  digits.foldl (fun n c => base * n + digitValue c) 0

/-- Digits, with single underscores between them that mean nothing. -/
def digits (isDigit : Char → Bool) : Reader Text := do
  let c ← satisfy isDigit
  let rest ← many (satisfy isDigit <|> char '_' *> satisfy isDigit)
  return c :: rest

def sign : Reader Bool :=
  (fun _ => true) <$> char '-' <|> (fun _ => false) <$> char '+' <|> pure false

/-- Decimal digits that start with zero only if they are zero alone. -/
def decimalDigits : Reader Text := fun t =>
  match t with
  | '0' :: rest => some (['0'], rest)
  | _ => digits Char.isDigit t

def fitsInteger (n : Int) : Bool := Int64.minValue.toInt ≤ n && n ≤ Int64.maxValue.toInt

def bounded (n : Int) : Reader Int := if fitsInteger n then return n else failure

def radixInteger (letter : Char) (base : Nat) (isDigit : Char → Bool) : Reader Int := do
  let _ ← literal ['0', letter]
  bounded (valueOf base (← digits isDigit))

def isHexDigit (c : Char) : Bool :=
  c.isDigit || ('a' ≤ c && c ≤ 'f') || ('A' ≤ c && c ≤ 'F')

def decimalInteger : Reader Int := do
  let negative ← sign
  let n : Int := valueOf 10 (← decimalDigits)
  bounded (if negative then -n else n)

def integer : Reader Int :=
  radixInteger 'x' 16 isHexDigit <|> radixInteger 'o' 8 (fun c => '0' ≤ c && c ≤ '7') <|>
    radixInteger 'b' 2 (fun c => c == '0' || c == '1') <|> decimalInteger

/-- From this value on, infinity is the nearest of the 64-bit floats. -/
def overflowBound : Nat := Nat.pow 2 1024 - Nat.pow 2 970

/-- Whether `mantissa * 10 ^ exponent` overflows. Exponents far out are settled by the number of
digits alone. -/
def overflows (mantissa : Nat) (exponent : Int) : Bool :=
  let magnitude := (Nat.toDigits 10 mantissa).length + exponent
  if mantissa = 0 ∨ magnitude < 300 then false
  else if 320 < magnitude then true
  else if 0 ≤ exponent then overflowBound ≤ mantissa * Nat.pow 10 exponent.toNat
  else overflowBound * Nat.pow 10 (-exponent).toNat ≤ mantissa

def exponentPart : Reader Int := do
  let _ ← char 'e' <|> char 'E'
  let negative ← sign
  let n : Int := valueOf 10 (← digits Char.isDigit)
  return if negative then -n else n

def finiteFloat : Reader Unit := do
  let negative ← sign
  let whole ← decimalDigits
  let (fraction, exponent) ←
    (fun e => ([], e)) <$> exponentPart <|>
      (do
        let fraction ← char '.' *> digits Char.isDigit
        let exponent ← exponentPart <|> pure 0
        return (fraction, exponent))
  if !negative ∧ overflows (valueOf 10 (whole ++ fraction)) (exponent - fraction.length) then
    failure

def specialFloat : Reader Unit := do
  let _ ← sign
  let _ ← literal "inf" <|> literal "nan"

/-- A float as it is written. -/
def float : Reader Text := written (finiteFloat <|> specialFloat)

end Surface.Toml
