import Engram.Text.Blank
import Engram.Time.Instant

/-!
Reading dates and instants. Blanks may stand in front of every number and every separator, months,
days and times need no leading zeros, and a year of more than four digits needs a sign.
-/

namespace Engram.Time

abbrev Scan (α : Type) := List Char → Option (α × List Char)

def skipBlanks (cs : List Char) : List Char :=
  cs.dropWhile Text.isBlank

def natOfDigits (digits : List Char) : Nat :=
  digits.foldl (fun n c => n * 10 + (c.toNat - '0'.toNat)) 0

/-- One to `most` digits. -/
def scanNat (most : Nat) : Scan Nat := fun cs =>
  let digits := (cs.take most).takeWhile Char.isDigit
  if digits.isEmpty then none else some (natOfDigits digits, cs.drop digits.length)

/-- A number of at most `most` digits after blanks. -/
def scanField (most : Nat) : Scan Nat := fun cs => scanNat most (skipBlanks cs)

/-- A year: up to four digits, or a sign and any number of them. -/
def scanYear : Scan Int := fun cs =>
  match skipBlanks cs with
  | '-' :: rest => (scanNat rest.length rest).map fun (n, rest) => (-n, rest)
  | '+' :: rest => (scanNat rest.length rest).map fun (n, rest) => (n, rest)
  | rest => (scanNat 4 rest).map fun (n, rest) => (n, rest)

/-- A separator, after blanks. -/
def scanMark (mark : Char) (cs : List Char) : Option (List Char) :=
  match skipBlanks cs with
  | c :: rest => if c = mark then some rest else none
  | [] => none

def scanDate : Scan Date := fun cs => do
  let (year, cs) ← scanYear cs
  let cs ← scanMark '-' cs
  let (month, cs) ← scanField 2 cs
  let cs ← scanMark '-' cs
  let (day, cs) ← scanField 2 cs
  let date ← Date.ofCivil? ⟨year, month, day⟩
  return (date, cs)

/-- A fraction of a second, if there is one. Digits past the ninth are dropped. -/
def scanFraction : Scan Nat
  | '.' :: rest => do
    let (_, after) ← scanNat 9 rest
    let count := rest.length - after.length
    return (natOfDigits (rest.take count) * Number.tenTo (9 - count), after.dropWhile Char.isDigit)
  | cs => some (0, cs)

/-- Seconds of the day and nanoseconds. Second 60 is a leap second of any minute. -/
def scanTime : Scan (Nat × Nat) := fun cs => do
  let (hour, cs) ← scanField 2 cs
  let cs ← scanMark ':' cs
  let (minute, cs) ← scanField 2 cs
  let cs ← scanMark ':' cs
  let (second, cs) ← scanField 2 cs
  let (nanos, cs) ← scanFraction cs
  let ofMinute := (hour * 60 + minute) * 60
  if 23 < hour || 59 < minute || 60 < second then none
  else if second = 60 then some ((ofMinute + 59, billion + nanos), cs)
  else some ((ofMinute + second, nanos), cs)

def isOffsetSpace (c : Char) : Bool :=
  c = ':' || Text.isBlank c

/-- Two digits. -/
def scanPair : Scan Nat
  | a :: b :: rest =>
    if a.isDigit && b.isDigit then some (natOfDigits [a, b], rest) else none
  | _ => none

/-- Hours and minutes of an offset whose sign has been read, in seconds. -/
def scanOffsetSize : Scan Nat := fun cs => do
  let (hours, cs) ← scanPair cs
  let (minutes, cs) ← scanPair (cs.dropWhile isOffsetSpace)
  if 59 < minutes then none else some (hours * 3600 + minutes * 60, cs)

/-- An offset from UTC in seconds: `Z`, or `UTC`, in either case, or a signed time. -/
def scanOffset : Scan Int := fun cs =>
  if (cs.take 3).map Char.toUpper = ['U', 'T', 'C'] then some (0, cs.drop 3)
  else
    match cs with
    | 'Z' :: rest => some (0, rest)
    | 'z' :: rest => some (0, rest)
    | '+' :: rest => (scanOffsetSize rest).map fun (n, rest) => (n, rest)
    | '-' :: rest => (scanOffsetSize rest).map fun (n, rest) => (-n, rest)
    | '\u2212' :: rest => (scanOffsetSize rest).map fun (n, rest) => (-n, rest)
    | _ => none

/-- Read a date. Only blanks may follow it. -/
def Date.parse? (s : String) : Option Date := do
  let (date, rest) ← scanDate s.toList
  if (skipBlanks rest).isEmpty then some date else none

/-- A date and a time of day, apart by a `T` or one blank. -/
def scanLocal : Scan Instant := fun cs => do
  let (date, cs) ← scanDate cs
  match cs with
  | mark :: rest =>
    if mark = 'T' || mark = 't' || mark = ' ' then
      let ((second, nanos), rest) ← scanTime rest
      return (⟨date.days * secondsPerDay + second, nanos⟩, rest)
    else none
  | [] => none

/-- A local time at an offset from UTC, if its date in UTC is one there is. -/
def Instant.atOffset? (t : Instant) (offset : Int) : Option Instant :=
  let t := { t with seconds := t.seconds - offset }
  if t.date.isValid then some t else none

/-- Read an instant with its offset from UTC, which must be less than a day. -/
def Instant.parse? (s : String) : Option Instant := do
  let (t, cs) ← scanLocal s.toList
  let (offset, rest) ← scanOffset (skipBlanks cs)
  if (skipBlanks rest).isEmpty && offset.natAbs < 86400 then t.atOffset? offset else none

/-- Exactly `count` digits. -/
def scanExact (count : Nat) : Scan Nat := fun cs =>
  let digits := (cs.take count).takeWhile Char.isDigit
  if digits.length = count then some (natOfDigits digits, cs.drop count) else none

/-- A separator, right here. -/
def scanHere (mark : Char) : List Char → Option (List Char)
  | c :: rest => if c = mark then some rest else none
  | [] => none

/-- A date, a time of day and nanoseconds, all with their full number of digits. -/
def scanStrict : Scan Instant := fun cs => do
  let (year, cs) ← scanExact 4 cs
  let cs ← scanHere '-' cs
  let (month, cs) ← scanExact 2 cs
  let cs ← scanHere '-' cs
  let (day, cs) ← scanExact 2 cs
  let date ← Date.ofCivil? ⟨year, month, day⟩
  let cs ← (scanHere 'T' cs).or ((scanHere 't' cs).or (scanHere ' ' cs))
  let (hour, cs) ← scanExact 2 cs
  let cs ← scanHere ':' cs
  let (minute, cs) ← scanExact 2 cs
  let cs ← scanHere ':' cs
  let (second, cs) ← scanExact 2 cs
  let (nanos, rest) ← scanFraction cs
  let ofMinute := date.days * secondsPerDay + ((hour * 60 + minute) * 60 : Nat)
  if 23 < hour || 59 < minute || 60 < second then none
  else if second = 60 then some (⟨ofMinute + 59, billion + nanos⟩, rest)
  else some (⟨ofMinute + second, nanos⟩, rest)

/-- `Z`, or a signed time with a colon. -/
def scanStrictOffset : Scan Int
  | 'Z' :: rest => some (0, rest)
  | 'z' :: rest => some (0, rest)
  | mark :: rest => do
    let (hours, rest) ← scanExact 2 rest
    let rest ← scanHere ':' rest
    let (minutes, rest) ← scanExact 2 rest
    let size : Int := (hours * 3600 + minutes * 60 : Nat)
    if 23 < hours || 59 < minutes then none
    else if mark = '+' then some (size, rest)
    else if mark = '-' || mark = '\u2212' then some (-size, rest)
    else none
  | [] => none

/-- Read an instant in which nothing is left out and nothing is added. -/
def Instant.parseStrict? (s : String) : Option Instant := do
  let (t, cs) ← scanStrict s.toList
  let (offset, rest) ← scanStrictOffset cs
  if rest.isEmpty then t.atOffset? offset else none

end Engram.Time
