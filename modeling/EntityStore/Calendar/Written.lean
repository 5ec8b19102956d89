import EntityStore.Calendar.Date

/-!
The written form of a date and time, which is also the form kept by a store without a type for them:
`1905-06-30 00:00:00.25`. A leap second is written as second 60.
-/

namespace EntityStore.Calendar

/-- Decimal digits, with zeros in front up to the width. -/
def padded (width n : Nat) : List Char :=
  let s := Nat.toDigits 10 n
  List.replicate (width - s.length) '0' ++ s

/-- Four digits at least; a sign for years outside 0 to 9999. -/
def writtenYear (y : Int) : List Char :=
  if y < 0 then '-' :: padded 4 y.natAbs
  else if 9999 < y then '+' :: padded 4 y.natAbs
  else padded 4 y.natAbs

/-- Nothing for a whole second, else as few of three, six or nine digits as are exact. -/
def writtenFraction (nano : Nat) : List Char :=
  if nano = 0 then []
  else if nano % 1000000 = 0 then '.' :: padded 3 (nano / 1000000)
  else if nano % 1000 = 0 then '.' :: padded 6 (nano / 1000)
  else '.' :: padded 9 nano

/-- Year, month and day. -/
def Date.written (d : Date) : List Char :=
  writtenYear d.year ++ '-' :: padded 2 d.month ++ '-' :: padded 2 d.day

/-- Hour, minute, second and fraction. -/
def Time.written (t : Time) : List Char :=
  padded 2 t.hour ++ ':' :: padded 2 t.minute ++ ':' ::
    padded 2 (t.second + t.nano / 1000000000) ++ writtenFraction (t.nano % 1000000000)

/-- Date and time with the given character between them. -/
def DateTime.writtenWith (separator : Char) (x : DateTime) : List Char :=
  x.date.written ++ separator :: x.time.written

/-- Date and time with a space between them. -/
def DateTime.text (x : DateTime) : String := String.ofList (x.writtenWith ' ')

end EntityStore.Calendar
