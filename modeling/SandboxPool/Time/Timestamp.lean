import SandboxPool.Decimal.Shortest
import SandboxPool.Text.Blank
import SandboxPool.Time.Calendar

/-!
# Points in time as text

A `Timestamp` is a second and the nanoseconds within it. A leap second is the second before it
with a billion nanoseconds or more.

* `Timestamp.text` writes `2024-01-02T03:04:05.120Z`: always in Universal Time, with a fraction of
  0, 3, 6 or 9 digits.
* `Timestamp.parse?` reads a date, a time and an offset from Universal Time. Blanks may stand
  between the parts, leading zeros may be missing, and the offset may be a name or have a blank in
  place of its colon.
-/

namespace SandboxPool.Time

/-- A second counted from the start of 1970 and the nanoseconds within it. -/
structure Timestamp where
  second : Int
  nano : Nat
  deriving Repr, DecidableEq, Inhabited

/-- The number of the first day of 1970. -/
def epochDay : Int := 719162

def nanosPerSecond : Nat := 1000000000

/-- The point in time so many nanoseconds after the start of 1970. -/
def Timestamp.ofNanos (n : Nat) : Timestamp :=
  ⟨Int.ofNat (n / nanosPerSecond), n % nanosPerSecond⟩

/-- The nanoseconds from one point in time to a later one. -/
def Timestamp.nanosSince (later earlier : Timestamp) : Int :=
  (later.second - earlier.second) * nanosPerSecond + Int.ofNat later.nano - Int.ofNat earlier.nano

/-! ## Writing -/

/-- The digits of a number, with zeros in front up to a width. -/
def padded (width n : Nat) : List Char :=
  let digits := Decimal.digitList n
  List.replicate (width - digits.length) '0' ++ digits

/-- A year: four digits, or a sign and at least as many where it has more or is negative. -/
def yearText (year : Int) : List Char :=
  if 0 ≤ year && year ≤ 9999 then padded 4 year.toNat
  else (if year < 0 then '-' else '+') :: padded 4 year.natAbs

/-- The fraction of a second, to three, six or nine digits. -/
def fractionText (nano : Nat) : List Char :=
  if nano = 0 then []
  else if nano % 1000000 = 0 then '.' :: padded 3 (nano / 1000000)
  else if nano % 1000 = 0 then '.' :: padded 6 (nano / 1000)
  else '.' :: padded 9 nano

def Timestamp.text (t : Timestamp) : String :=
  let date := dateOfDay (t.second / 86400 + epochDay)
  let inDay := (t.second % 86400).toNat
  let leap := if nanosPerSecond ≤ t.nano then 1 else 0
  String.ofList (yearText date.year ++ '-' :: padded 2 date.month ++ '-' :: padded 2 date.day
    ++ 'T' :: padded 2 (inDay / 3600) ++ ':' :: padded 2 (inDay / 60 % 60)
    ++ ':' :: padded 2 (inDay % 60 + leap) ++ fractionText (t.nano - leap * nanosPerSecond) ++ ['Z'])

/-! ## Reading -/

/-- Takes up to `width` digits off the front. -/
def takeDigits : Nat → List Char → List Char × List Char
  | 0, cs => ([], cs)
  | _ + 1, [] => ([], [])
  | width + 1, c :: rest =>
    if c.isDigit then
      let (digits, left) := takeDigits width rest
      (c :: digits, left)
    else ([], c :: rest)

def digitsValue (digits : List Char) : Nat :=
  digits.foldl (fun n c => n * 10 + (c.toNat - 48)) 0

/-- Reads a number of one to `width` digits. -/
def readNumber? (width : Nat) (cs : List Char) : Option (Nat × List Char) :=
  match takeDigits width cs with
  | ([], _) => none
  | (digits, rest) => some (digitsValue digits, rest)

def readMark? (mark : Char) : List Char → Option (List Char)
  | c :: rest => if c = mark then some rest else none
  | [] => none

/-- Reads a number of one or two digits behind blanks. -/
def readField? (cs : List Char) : Option (Nat × List Char) := readNumber? 2 (Text.trimStartList cs)

/-- Reads a mark and then a number of one or two digits, both behind blanks. -/
def readNextField? (mark : Char) (cs : List Char) : Option (Nat × List Char) :=
  (readMark? mark (Text.trimStartList cs)).bind readField?

/-- Reads a year behind blanks: up to four digits, or a sign and any number of them. -/
def readYear? (cs : List Char) : Option (Int × List Char) :=
  match Text.trimStartList cs with
  | '-' :: rest => (readNumber? rest.length rest).map fun (n, rest) => (-Int.ofNat n, rest)
  | '+' :: rest => (readNumber? rest.length rest).map fun (n, rest) => (Int.ofNat n, rest)
  | cs => (readNumber? 4 cs).map fun (n, rest) => (Int.ofNat n, rest)

def readDate? (cs : List Char) : Option (Date × List Char) :=
  (readYear? cs).bind fun (year, cs) =>
    (readNextField? '-' cs).bind fun (month, cs) =>
      (readNextField? '-' cs).map fun (day, cs) => (⟨year, month, day⟩, cs)

/-- Reads a fraction, if there is one, as nanoseconds. Digits behind the ninth do not count. -/
def readNanos? : List Char → Option (Nat × List Char)
  | '.' :: rest =>
    match takeDigits 9 rest with
    | ([], _) => none
    | (digits, left) =>
      some (digitsValue digits * Decimal.powerOfTen (9 - digits.length), left.dropWhile Char.isDigit)
  | cs => some (0, cs)

/-- The time of a day: hour, minute, second and nanosecond. -/
structure Clock where
  hour : Nat
  minute : Nat
  second : Nat
  nano : Nat

def readClock? (cs : List Char) : Option (Clock × List Char) :=
  (readField? cs).bind fun (hour, cs) =>
    (readNextField? ':' cs).bind fun (minute, cs) =>
      (readNextField? ':' cs).bind fun (second, cs) =>
        (readNanos? cs).map fun (nano, cs) => (⟨hour, minute, second, nano⟩, cs)

/-- Reads the two hours and two minutes of an offset, with any number of colons and blanks
between, as seconds. -/
def readOffsetSize? (cs : List Char) : Option (Nat × List Char) :=
  match takeDigits 2 cs with
  | ([a, b], rest) =>
    match takeDigits 2 (rest.dropWhile fun c => c == ':' || Text.isBlank c) with
    | ([c, d], rest) =>
      if digitsValue [c, d] < 60 then
        some (digitsValue [a, b] * 3600 + digitsValue [c, d] * 60, rest)
      else none
    | _ => none
  | _ => none

/-- Reads an offset from Universal Time in seconds. -/
def readOffset? : List Char → Option (Int × List Char)
  | 'Z' :: rest => some (0, rest)
  | 'z' :: rest => some (0, rest)
  | '+' :: rest => (readOffsetSize? rest).map fun (n, rest) => (Int.ofNat n, rest)
  | '-' :: rest => (readOffsetSize? rest).map fun (n, rest) => (-Int.ofNat n, rest)
  | '\u2212' :: rest => (readOffsetSize? rest).map fun (n, rest) => (-Int.ofNat n, rest)
  | a :: b :: c :: rest =>
    if a.toLower = 'u' && b.toLower = 't' && c.toLower = 'c' then some (0, rest) else none
  | _ => none

/-- The point in time of a date, a time and an offset, if they are within their bounds. -/
def Timestamp.of? (d : Date) (c : Clock) (offset : Int) : Option Timestamp :=
  if validDate d && c.hour < 24 && c.minute < 60 && c.second ≤ 60 && offset.natAbs < 86400 then
    let (second, nano) := if c.second = 60 then (59, c.nano + nanosPerSecond) else (c.second, c.nano)
    let total := (dayNumber d - epochDay) * 86400
      + Int.ofNat (c.hour * 3600 + c.minute * 60 + second) - offset
    let year := yearOfDay (total / 86400 + epochDay)
    if firstYear ≤ year && year ≤ lastYear then some ⟨total, nano⟩ else none
  else none

/-- The separator between a date and a time. -/
def isSeparator (c : Char) : Bool := c == 'T' || c == 't' || c == ' '

/-- The point in time that a text stands for. -/
def Timestamp.parse? (s : String) : Option Timestamp :=
  (readDate? s.toList).bind fun (date, cs) =>
    match cs with
    | [] => none
    | mark :: cs =>
      if isSeparator mark then
        (readClock? cs).bind fun (clock, cs) =>
          (readOffset? (Text.trimStartList cs)).bind fun (offset, cs) =>
            if cs.all Text.isBlank then Timestamp.of? date clock offset else none
      else none

/-- The first nanosecond since 1970 that the calendar no longer covers. -/
def calendarEnd : Nat :=
  ((daysBeforeYear (lastYear + 1) - epochDay) * 86400).toNat * nanosPerSecond

end SandboxPool.Time
