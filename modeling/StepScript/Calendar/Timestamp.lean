import StepScript.Calendar.Date
import StepScript.Calendar.Duration

/-!
# Timestamp — points in time with an offset from universal time

A timestamp is read from and written as `2024-02-29T12:34:56.789+02:00`.  Its fields (year, hour,
…) are those of the clock at its offset, its order is that of universal time.  The last second of a
minute may be a leap second, which counts up to two thousand milliseconds.
-/

namespace StepScript

structure Timestamp where
  /-- Whole seconds of universal time since 1 January 1970. -/
  seconds : Int
  /-- Nanoseconds above the whole seconds; `10 ^ 9` or more inside a leap second. -/
  nanos : Nat
  /-- Seconds that the clock is ahead of universal time. -/
  offset : Int
  deriving DecidableEq

namespace Timestamp

/-! ## Fields -/

def clock (t : Timestamp) : Int :=
  t.seconds + t.offset

def days (t : Timestamp) : Int :=
  t.clock / 86400

def date (t : Timestamp) : Date :=
  Date.ofDays t.days

def secondOfDay (t : Timestamp) : Nat :=
  (t.clock % 86400).toNat

def hour (t : Timestamp) : Nat := t.secondOfDay / 3600

def minute (t : Timestamp) : Nat := t.secondOfDay / 60 % 60

def second (t : Timestamp) : Nat := t.secondOfDay % 60

/-! ## Reading -/

inductive ReadError where
  | invalid
  | tooShort
  | tooLong
  | outOfRange
  deriving DecidableEq

def ReadError.message : ReadError → String
  | .invalid => "input contains invalid characters"
  | .tooShort => "premature end of input"
  | .tooLong => "trailing input"
  | .outOfRange => "input is out of range"

def byteCount (cs : List Char) : Nat :=
  cs.foldl (fun n c => n + c.utf8Size) 0

def digits (count : Nat) (cs : List Char) : Except ReadError (Nat × List Char) :=
  if byteCount cs < count then .error .tooShort
  else
    let ds := cs.take count
    if ds.length = count && ds.all Char.isDigit then .ok (Reading.decimalValue ds, cs.drop count)
    else .error .invalid

def field (low high : Nat) (cs : List Char) : Except ReadError (Nat × List Char) := do
  let (n, rest) ← digits 2 cs
  if low ≤ n && n ≤ high then return (n, rest) else throw .outOfRange

def mark (c : Char) : List Char → Except ReadError (List Char)
  | [] => .error .tooShort
  | d :: rest => if d = c then .ok rest else .error .invalid

def separator : List Char → Except ReadError (List Char)
  | [] => .error .tooShort
  | c :: rest => if c = 't' || c = 'T' || c = ' ' then .ok rest else .error .invalid

/-- Read the digits of a fraction, of which the first nine count. -/
def fraction (cs : List Char) : Except ReadError (Nat × List Char) :=
  match cs with
  | [] => .error .tooShort
  | _ =>
    let ds := cs.takeWhile Char.isDigit
    if ds.isEmpty then .error .invalid
    else
      let used := ds.take 9
      .ok (Reading.decimalValue used * tenPow (9 - used.length), cs.drop ds.length)

def offsetPart (cs : List Char) : Except ReadError (Int × List Char) :=
  match cs with
  | [] => .error .tooShort
  | c :: rest =>
    if c = 'Z' || c = 'z' then .ok (0, rest)
    else if c = '+' || c = '-' || c = '\u2212' then do
      let (hours, rest) ← digits 2 rest
      let rest ← mark ':' rest
      let (minutes, rest) ← digits 2 rest
      if minutes > 59 then throw .outOfRange
      let seconds : Int := hours * 3600 + minutes * 60
      return (if c = '+' then seconds else -seconds, rest)
    else .error .invalid

def read (text : String) : Except ReadError Timestamp := do
  let (year, cs) ← digits 4 text.toList
  let cs ← mark '-' cs
  let (month, cs) ← field 1 12 cs
  let cs ← mark '-' cs
  let (day, cs) ← field 1 31 cs
  let cs ← separator cs
  let (hour, cs) ← field 0 23 cs
  let cs ← mark ':' cs
  let (minute, cs) ← field 0 59 cs
  let cs ← mark ':' cs
  let (second, cs) ← field 0 60 cs
  let (nanos, cs) ← match cs with
    | '.' :: rest => fraction rest
    | cs => .ok (0, cs)
  let (offset, cs) ← offsetPart cs
  if offset.natAbs > (23 * 60 + 59) * 60 then throw .outOfRange
  if !cs.isEmpty then throw .tooLong
  let date : Date := ⟨year, month, day⟩
  if !date.isValid then throw .outOfRange
  let leap := second = 60
  let second := if leap then 59 else second
  let nanos := if leap then nanos + tenPow 9 else nanos
  return ⟨date.toDays * 86400 + (hour * 3600 + minute * 60 + second : Nat) - offset, nanos, offset⟩

/-! ## Writing -/

def padded (width n : Nat) : String :=
  let ds := Nat.toDigits 10 n
  String.ofList (List.replicate (width - ds.length) '0' ++ ds)

def yearText (year : Int) : String :=
  if 0 ≤ year && year ≤ 9999 then padded 4 year.toNat
  else (if year < 0 then "-" else "+") ++ padded 4 year.natAbs

/-- The fraction of a second in milliseconds, microseconds or nanoseconds, whichever is exact. -/
def fractionText (nanos : Nat) : String :=
  if nanos = 0 then ""
  else if nanos % tenPow 6 = 0 then "." ++ padded 3 (nanos / tenPow 6)
  else if nanos % tenPow 3 = 0 then "." ++ padded 6 (nanos / tenPow 3)
  else "." ++ padded 9 nanos

def offsetText (offset : Int) : String :=
  let minutes := offset.natAbs / 60
  (if offset < 0 then "-" else "+") ++ padded 2 (minutes / 60) ++ ":" ++ padded 2 (minutes % 60)

def text (t : Timestamp) : String :=
  let d := t.date
  let leap := decide (t.nanos ≥ tenPow 9)
  let second := if leap then t.second + 1 else t.second
  let nanos := if leap then t.nanos - tenPow 9 else t.nanos
  yearText d.year ++ "-" ++ padded 2 d.month ++ "-" ++ padded 2 d.day ++ "T" ++
    padded 2 t.hour ++ ":" ++ padded 2 t.minute ++ ":" ++ padded 2 second ++
    fractionText nanos ++ offsetText t.offset

/-! ## Order and arithmetic -/

def compareTime (t u : Timestamp) : Ordering :=
  match compare t.seconds u.seconds with
  | .eq => compare t.nanos u.nanos
  | order => order

def instant (t : Timestamp) : Int :=
  t.seconds * tenPow 9 + t.nanos

/-- The first and the last point in time that arithmetic may reach. -/
def earliest : Int := Date.toDays ⟨1, 1, 1⟩ * 86400 * tenPow 9

def latest : Int := (Date.toDays ⟨10000, 1, 1⟩ * 86400) * tenPow 9 - 1

def later (t : Timestamp) (d : Duration) : Timestamp :=
  let n := t.instant + d.nanos
  ⟨n / tenPow 9, (n % tenPow 9).toNat, t.offset⟩

/-- The point in time a duration later, within the range of arithmetic. -/
def add? (t : Timestamp) (d : Duration) : Option Timestamp :=
  let u := t.later d
  if earliest ≤ u.instant && u.instant ≤ latest then some u else none

def since (t u : Timestamp) : Duration :=
  ⟨t.instant - u.instant⟩

end Timestamp

end StepScript
