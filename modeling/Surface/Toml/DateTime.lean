import Surface.Text.Reader

/-! # TOML dates and times

A date, a time, or both with an optional offset. Days have to exist in their month, and a minute may
have a leap second.
-/

namespace Surface.Toml

open Reader

def twoDigits (low high : Nat) : Reader Nat := do
  let a ← satisfy Char.isDigit
  let b ← satisfy Char.isDigit
  let n := 10 * (a.toNat - '0'.toNat) + (b.toNat - '0'.toNat)
  if low ≤ n ∧ n ≤ high then return n else failure

def isLeapYear (year : Nat) : Bool := (year % 4 == 0 && year % 100 != 0) || year % 400 == 0

def daysIn (year month : Nat) : Nat :=
  if month = 2 then if isLeapYear year then 29 else 28
  else if month ∈ [4, 6, 9, 11] then 30
  else 31

def date : Reader Unit := do
  let century ← twoDigits 0 99
  let year ← twoDigits 0 99
  let month ← char '-' *> twoDigits 1 12
  let _ ← char '-' *> twoDigits 1 (daysIn (100 * century + year) month)

def time : Reader Unit := do
  let _ ← twoDigits 0 23
  let _ ← char ':' *> twoDigits 0 59
  let _ ← char ':' *> twoDigits 0 60
  let _ ← optional (char '.' *> takeWhile1 Char.isDigit)

def offset : Reader Unit :=
  (fun _ => ()) <$> (char 'Z' <|> char 'z') <|> do
    let _ ← char '+' <|> char '-'
    let _ ← twoDigits 0 23
    let _ ← char ':' *> twoDigits 0 59

/-- A date or time as it is written. -/
def dateTime : Reader Text := written do
  let dateAndTime : Reader Unit := do
    date
    let _ ← optional do
      let _ ← char 'T' <|> char 't' <|> char ' '
      time
      let _ ← optional offset
  dateAndTime <|> time

end Surface.Toml
