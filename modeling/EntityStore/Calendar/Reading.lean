import EntityStore.Calendar.Date
import EntityStore.Text.Blank

/-!
Dates and times read from text. Three forms are tried in turn: date and time with a space between
them, with a `T`, and a date alone. Numbers may have white space in front and fewer digits than the
written form gives them.
-/

namespace EntityStore.Calendar

open Text

def number (digits : List Char) : Nat :=
  digits.foldl (fun n c => 10 * n + (c.toNat - '0'.toNat)) 0

/-- The digits at the front, at most `most` of them and at least one, and what follows. -/
def digits? (most : Nat) (s : List Char) : Option (List Char × List Char) :=
  let ds := (s.take most).takeWhile Char.isDigit
  if ds.isEmpty then none else some (ds, s.drop ds.length)

/-- A number of one or two digits, white space in front allowed. -/
def small? (s : List Char) : Option (Nat × List Char) :=
  (digits? 2 (skipBlanks s)).map fun (ds, s) => (number ds, s)

/-- A year: up to four digits, or a sign and any number of them. -/
def year? (s : List Char) : Option (Int × List Char) :=
  match skipBlanks s with
  | '-' :: s => (digits? s.length s).map fun (ds, s) => (-(number ds : Int), s)
  | '+' :: s => (digits? s.length s).map fun (ds, s) => ((number ds : Int), s)
  | s => (digits? 4 s).map fun (ds, s) => ((number ds : Int), s)

/-- The given character and what follows it. -/
def literal? (c : Char) : List Char → Option (List Char)
  | d :: s => if d = c then some s else none
  | [] => none

/-- A date and what follows it. -/
def date? (s : List Char) : Option (Date × List Char) := do
  let (y, s) ← year? s
  let s ← literal? '-' s
  let (m, s) ← small? s
  let s ← literal? '-' s
  let (d, s) ← small? s
  let date ← Date.of? y m d
  some (date, s)

/-- Nanoseconds after a point: nine digits count, further ones are passed over. Without a point
there are none. -/
def fraction? : List Char → Option (Nat × List Char)
  | '.' :: s =>
    (digits? s.length s).map fun (ds, s) =>
      (number (ds.take 9) * Nat.pow 10 (9 - (ds.take 9).length), s)
  | s => some (0, s)

/-- Second 60 is the leap second after 59. -/
def time? (s : List Char) : Option (Time × List Char) := do
  let (h, s) ← small? s
  let s ← literal? ':' s
  let (m, s) ← small? s
  let s ← literal? ':' s
  let (sec, s) ← small? s
  let (nano, s) ← fraction? s
  let time ← if sec = 60 then Time.of? h m 59 (1000000000 + nano) else Time.of? h m sec nano
  some (time, s)

/-- What stands between date and time: a space admits any white space or none. -/
def separator? (c : Char) (s : List Char) : Option (List Char) :=
  if c = ' ' then some (skipBlanks s) else literal? c s

/-- The whole text as a date and a time. -/
def dateTimeWith? (c : Char) (s : List Char) : Option DateTime := do
  let (date, s) ← date? s
  let s ← separator? c s
  let (time, s) ← time? s
  if s.isEmpty then some ⟨date, time⟩ else none

/-- The whole text as a date, taken as its midnight. -/
def dateOnly? (s : List Char) : Option DateTime := do
  let (date, s) ← date? s
  if s.isEmpty then some date.atMidnight else none

/-- The date and time a text stands for, if it stands for one. -/
def DateTime.ofText? (s : String) : Option DateTime :=
  dateTimeWith? ' ' s.toList <|> dateTimeWith? 'T' s.toList <|> dateOnly? s.toList

end EntityStore.Calendar
