import NamedContent.Toml.Text

/-! # Numbers and dates of TOML

Integers are signed 64-bit numbers in four bases, with underscores between digits. Of floating-point
numbers and dates only the form matters here, not the value.

* `Toml.integer`: the value of an integer
* `Toml.float`: the form of a floating-point number
* `Toml.dateTime`: the form of a date, a time, or both
-/

namespace NamedContent.Toml

/-! ## Digits -/

/-- One or more digits of a class, with single underscores between them. -/
def digits (isDigit : Char → Bool) : Parser (List Char) := do
  let first ← next
  if !isDigit first then failure
  let rest ← repeatOn (fun acc => do
    match ← peek with
    | some '_' => do
      char '_'
      let c ← next
      if isDigit c then return some (c :: acc) else failure
    | some c => if isDigit c then do discard next; return some (c :: acc) else return none
    | none => return none) [first]
  return rest.reverse

/-- The number with the digits in a base. -/
def ofDigits (base : Nat) (ds : List Char) : Nat :=
  ds.foldl (fun n c => base * n + (hexDigit? c).getD 0) 0

/-- Whether a character is an octal digit. -/
def isOctal (c : Char) : Bool := '0' ≤ c && c ≤ '7'

/-- Whether a character is a binary digit. -/
def isBinary (c : Char) : Bool := c == '0' || c == '1'

/-- Whether there is a minus sign, when there may be a sign. -/
def sign : Parser Bool := do
  match ← peek with
  | some '-' => do
    char '-'
    return true
  | some '+' => do
    char '+'
    return false
  | _ => return false

/-- Decimal digits without a leading zero, unless there is no other digit. -/
def decimalDigits : Parser (List Char) := do
  match ← peek with
  | some '0' => do
    char '0'
    return ['0']
  | _ => digits Char.isDigit

/-! ## Integers -/

/-- The number, if it is a signed 64-bit number. -/
def fit (n : Int) : Parser Int :=
  if -0x8000000000000000 ≤ n ∧ n < 0x8000000000000000 then pure n else failure

/-- The number with digits of a class in a base, after the mark of the base. -/
def based (mark : String) (base : Nat) (isDigit : Char → Bool) : Parser Int := do
  word mark
  fit (ofDigits base (← digits isDigit))

/-- An integer. -/
def integer : Parser Int := fun text =>
  match text with
  | '0' :: 'x' :: _ => based "0x" 16 (fun c => (hexDigit? c).isSome) text
  | '0' :: 'o' :: _ => based "0o" 8 isOctal text
  | '0' :: 'b' :: _ => based "0b" 2 isBinary text
  | _ => (do
    let negative ← sign
    let n := ofDigits 10 (← decimalDigits)
    fit (if negative then -(n : Int) else n)) text

/-! ## Floating-point numbers -/

/-- Whether `digits · 10 ^ exponent` is too large for the nearest double to be finite. -/
def overflows (digits : Nat) (exponent : Int) : Bool :=
  let bound : Nat := Nat.pow 2 1024 - Nat.pow 2 970
  if digits = 0 then false
  else
    match exponent with
    | .ofNat e => 400 < e || bound ≤ digits * Nat.pow 10 e
    | .negSucc e => 310 ≤ (Nat.toDigits 10 digits).length - (e + 1)
        || (309 ≤ (Nat.toDigits 10 digits).length - (e + 1) && bound * Nat.pow 10 (e + 1) ≤ digits)

/-- A number with a fractional part, an exponent, or both. -/
def decimalFloat : Parser Unit := do
  let negative ← sign
  let whole ← decimalDigits
  let fraction ← possibly (do char '.'; digits Char.isDigit)
  let exponent ← possibly (do
    match ← next with
    | 'e' => pure ()
    | 'E' => pure ()
    | _ => failure
    let negative ← sign
    let n := ofDigits 10 (← digits Char.isDigit)
    return (if negative then -(n : Int) else n))
  if fraction.isNone ∧ exponent.isNone then failure
  let fraction := fraction.getD []
  let value := ofDigits 10 (whole ++ fraction)
  if !negative && overflows value (exponent.getD 0 - fraction.length) then failure

/-- Infinity or not-a-number. -/
def specialFloat : Parser Unit := do
  discard sign
  either (word "inf") (word "nan")

/-- A floating-point number. -/
def float : Parser Unit := either decimalFloat specialFloat

/-! ## Dates and times -/

/-- A number of exactly `width` digits, between two bounds. -/
def fixed (width low high : Nat) : Parser Nat := do
  let n ← go width 0
  if low ≤ n ∧ n ≤ high then pure n else failure
where
  /-- The number that so many more digits complete. -/
  go : Nat → Nat → Parser Nat
    | 0, n => pure n
    | width + 1, n => do
      let c ← next
      if c.isDigit then go width (10 * n + (c.toNat - 48)) else failure

/-- The number of days of a month. -/
def daysIn (year month : Nat) : Nat :=
  let leap := year % 4 = 0 ∧ (year % 100 ≠ 0 ∨ year % 400 = 0)
  if month = 2 then if leap then 29 else 28
  else if month = 4 ∨ month = 6 ∨ month = 9 ∨ month = 11 then 30
  else 31

/-- A day of the calendar. -/
def date : Parser Unit := do
  let year ← fixed 4 0 9999
  char '-'
  let month ← fixed 2 1 12
  char '-'
  discard (fixed 2 1 (daysIn year month))

/-- A time of day; second 60 is a leap second. -/
def time : Parser Unit := do
  discard (fixed 2 0 23)
  char ':'
  discard (fixed 2 0 59)
  char ':'
  discard (fixed 2 0 60)
  discard (possibly (do
    char '.'
    let ds ← run Char.isDigit
    if ds.isEmpty then failure))

/-- The offset of a time of day. -/
def offset : Parser Unit := do
  match ← next with
  | 'Z' => pure ()
  | 'z' => pure ()
  | '+' => hours
  | '-' => hours
  | _ => failure
where
  /-- Hours and minutes. -/
  hours : Parser Unit := do
    discard (fixed 2 0 23)
    char ':'
    discard (fixed 2 0 59)

/-- What separates a date from a time. -/
def dateTimeMark : Parser Unit := do
  match ← next with
  | 'T' => pure ()
  | 't' => pure ()
  | ' ' => pure ()
  | _ => failure

/-- A date, a time, or a date and a time with or without an offset. -/
def dateTime : Parser Unit :=
  either
    (do
      date
      discard (possibly (do
        dateTimeMark
        time
        discard (possibly offset))))
    time

end NamedContent.Toml
