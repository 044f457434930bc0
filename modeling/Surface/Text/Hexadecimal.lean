import Surface.Text.Reader

/-! # Hexadecimal digits

Digits are written in lower case and read in either case.
-/

namespace Surface

namespace Text

def hexDigit (n : Nat) : Char := Nat.digitChar n

def hexDigit? (c : Char) : Option Nat :=
  if '0' ≤ c ∧ c ≤ '9' then some (c.toNat - '0'.toNat)
  else if 'a' ≤ c ∧ c ≤ 'f' then some (c.toNat - 'a'.toNat + 10)
  else if 'A' ≤ c ∧ c ≤ 'F' then some (c.toNat - 'A'.toNat + 10)
  else none

theorem hexDigit?_hexDigit {n : Nat} (h : n < 16) : hexDigit? (hexDigit n) = some n := by
  have : ∀ n < 16, hexDigit? (hexDigit n) = some n := by decide
  exact this n h

end Text

namespace Reader

def hexNumberFrom (n : Nat) : Nat → Reader Nat
  | 0 => return n
  | digits + 1 => do
    match Text.hexDigit? (← next) with
    | some d => hexNumberFrom (16 * n + d) digits
    | none => failure

/-- A number written with exactly so many hexadecimal digits. -/
def hexNumber (digits : Nat) : Reader Nat := hexNumberFrom 0 digits

end Reader
end Surface
