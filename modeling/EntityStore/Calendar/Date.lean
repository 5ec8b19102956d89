/-!
Dates of the proleptic Gregorian calendar and times of day without a zone. A value of either type is
always a real date or time. A leap second is the second that goes before it with a nanosecond past
the last ordinary one: that is second 59 where a time is made of its parts, and may be any second
where the nanosecond of a time is set afterwards.
-/

namespace EntityStore.Calendar

/-- Every fourth year, but of the centuries only every fourth. -/
def isLeap (year : Int) : Bool := year % 4 == 0 && (year % 100 != 0 || year % 400 == 0)

/-- Days of a month; zero where there is no such month. -/
def daysIn (year : Int) : Nat → Nat
  | 1 | 3 | 5 | 7 | 8 | 10 | 12 => 31
  | 4 | 6 | 9 | 11 => 30
  | 2 => if isLeap year then 29 else 28
  | _ => 0

/-- The least year a date can have. -/
def minYear : Int := -262143

/-- The greatest year a date can have. -/
def maxYear : Int := 262142

/-- A calendar date. -/
structure Date where
  year : Int
  month : Nat
  day : Nat
  year_mem : minYear ≤ year ∧ year ≤ maxYear
  day_mem : 1 ≤ day ∧ day ≤ daysIn year month
deriving DecidableEq

/-- A time of day. -/
structure Time where
  hour : Nat
  minute : Nat
  second : Nat
  nano : Nat
  hour_lt : hour < 24
  minute_lt : minute < 60
  second_lt : second < 60
  nano_lt : nano < 2000000000
deriving DecidableEq

/-- The date with these parts, if there is one. -/
def Date.of? (year : Int) (month day : Nat) : Option Date :=
  if h : (minYear ≤ year ∧ year ≤ maxYear) ∧ 1 ≤ day ∧ day ≤ daysIn year month then
    some ⟨year, month, day, h.1, h.2⟩
  else none

/-- The time made of these parts, if there is one. -/
def Time.of? (hour minute second nano : Nat) : Option Time :=
  if h : hour < 24 ∧ minute < 60 ∧ second < 60 ∧
      (nano < 1000000000 ∨ second = 59 ∧ nano < 2000000000) then
    some ⟨hour, minute, second, nano, h.1, h.2.1, h.2.2.1, by omega⟩
  else none

def Time.midnight : Time := ⟨0, 0, 0, 0, by decide, by decide, by decide, by decide⟩

/-- A date and a time of day. -/
structure DateTime where
  date : Date
  time : Time
deriving DecidableEq

/-- The first of January 1970. -/
def Date.epoch : Date := ⟨1970, 1, 1, by decide, by decide⟩

/-- A date is taken as its midnight. -/
def Date.atMidnight (d : Date) : DateTime := ⟨d, .midnight⟩

/-- The parts from the greatest to the least, in whose order instants are compared. -/
def DateTime.parts (x : DateTime) : List Int :=
  [x.date.year, x.date.month, x.date.day, x.time.hour, x.time.minute, x.time.second, x.time.nano]

def DateTime.order (x y : DateTime) : Ordering := compare x.parts y.parts

end EntityStore.Calendar
