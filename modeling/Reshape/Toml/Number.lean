import Reshape.Data
import Reshape.Toml.Text

/-!
# Numbers and dates

* Whole numbers are written in base ten with a sign, or without one in base two, eight or sixteen
  behind a mark; they fit into 64 bits. An underscore may stand between any two digits.
* A number with a fraction or an exponent must not be too great for a float of 64 bits
  (`isTooGreat`).
* A date is year, month and day, with or without a time; a time has hours, minutes and seconds.
-/

namespace Reshape.Toml

open Reader

/-! ## Digits -/

/-- Digits of a class, with single underscores between them. -/
def digits (p : Char → Bool) : Reader (List Char) := do
  let first ← char p
  let more ← many do
    discard (optional (word "_"))
    char p
  return first :: more

/-- A sign, if there is one; whether it is a minus. -/
def sign : Reader Bool :=
  (do word "-"; return true) <|> (do discard (optional (word "+")); return false)

/-- The number that digits in a base stand for. -/
def numberOf (base : Nat) (cs : List Char) : Nat := cs.foldl (fun n c => n * base + hexValue c) 0

/-- Digits in base ten without idle zeros in front. -/
def leanDigits : Reader (List Char) :=
  (do word "0"; return ['0']) <|> digits Char.isDigit

/-! ## Whole numbers -/

/-- A whole number in a base other than ten, behind its mark. -/
def markedInt (mark : String) (base : Nat) (p : Char → Bool) : Reader Int := do
  word mark
  return (numberOf base (← digits p) : Int)

/-- A whole number in base ten. -/
def decimalInt : Reader Int := do
  let negative ← sign
  let n : Int := numberOf 10 (← leanDigits)
  return if negative then -n else n

/-- A whole number of 64 bits. -/
def int : Reader Data := do
  let n ← markedInt "0x" 16 isHexDigit
    <|> markedInt "0o" 8 (fun c => '0' ≤ c && c ≤ '7')
    <|> markedInt "0b" 2 (fun c => c = '0' || c = '1')
    <|> decimalInt
  require (-0x8000000000000000 ≤ n && n < 0x8000000000000000)
  return .int n

/-! ## Numbers with a fraction or an exponent -/

/-- Whether the digits of a decimal number, shifted by an exponent, are too great for a float of 64
bits: the number is at least half a step above the greatest float. -/
def isTooGreat (ds : List Char) (exponent : Int) : Bool :=
  let n := numberOf 10 ds
  if n = 0 then false
  else if 400 < exponent then true
  else if 0 ≤ exponent then 1 <<< 1024 - 1 <<< 970 ≤ n * Nat.pow 10 exponent.toNat
  else if (ds.length : Int) ≤ -exponent then false
  else (1 <<< 1024 - 1 <<< 970) * Nat.pow 10 (-exponent).toNat ≤ n

/-- A fraction, with its dot. -/
def fraction : Reader (List Char) := do
  word "."
  digits Char.isDigit

/-- An exponent, with its mark. -/
def exponent : Reader Int := do
  word "e" <|> word "E"
  let negative ← sign
  let n : Int := numberOf 10 (← digits Char.isDigit)
  return if negative then -n else n

/-- Infinity or what is no number. -/
def specialFloat : Reader Data := do
  discard sign
  word "inf" <|> word "nan"
  return .float

/-- A number with a fraction, an exponent or both. -/
def float : Reader Data := do
  let negative ← sign
  let whole ← leanDigits
  let part ← optional fraction
  let power ← optional exponent
  require (part.isSome || power.isSome)
  let ds := whole ++ part.getD []
  require (negative || !isTooGreat ds (power.getD 0 - (part.getD []).length))
  return .float

/-! ## Dates and times -/

/-- A number of exactly so many digits, between two bounds. -/
def fixedNumber (count low high : Nat) : Reader Nat := do
  let n := numberOf 10 (← exactly Char.isDigit count)
  require (low ≤ n && n ≤ high)
  return n

/-- The number of days of a month. -/
def daysIn (year month : Nat) : Nat :=
  if month = 2 then
    if year % 4 = 0 ∧ (year % 100 ≠ 0 ∨ year % 400 = 0) then 29 else 28
  else if month = 4 ∨ month = 6 ∨ month = 9 ∨ month = 11 then 30
  else 31

/-- Year, month and day. -/
def date : Reader Unit := do
  let year ← fixedNumber 4 0 9999
  word "-"
  let month ← fixedNumber 2 1 12
  word "-"
  discard (fixedNumber 2 1 (daysIn year month))

/-- Hours, minutes and seconds, with or without a fraction. A minute may have a leap second. -/
def time : Reader Unit := do
  discard (fixedNumber 2 0 23)
  word ":"
  discard (fixedNumber 2 0 59)
  word ":"
  discard (fixedNumber 2 0 60)
  discard (optional do
    word "."
    chars1 Char.isDigit)

/-- The distance of a local time from world time. -/
def timeOffset : Reader Unit :=
  word "Z" <|> word "z" <|> (do
    word "+" <|> word "-"
    discard (fixedNumber 2 0 23)
    word ":"
    discard (fixedNumber 2 0 59))

/-- What stands between a date and its time. -/
def timeMark : Reader Unit := word "T" <|> word "t" <|> word " "

/-- A date, a time, or both. The value is a record with one field that is no setting. -/
def moment : Reader Data := do
  (do
    date
    discard (optional do
      timeMark
      time
      discard (optional timeOffset))) <|> time
  return .record [("moment", .null)]

end Reshape.Toml
