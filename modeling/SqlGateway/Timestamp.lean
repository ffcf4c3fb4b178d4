import SqlGateway.Number.Show

/-!
# Points in time

A timestamp is a date of the Gregorian calendar with a time of day.  It is written as a date and
time of the form `2020-01-01T00:00:00`, or as a date line `Wed, 01 Jan 2020 00:00:00 GMT`.
-/

namespace SqlGateway

structure Timestamp where
  year : Nat
  month : Nat
  day : Nat
  hour : Nat
  minute : Nat
  second : Nat
  micro : Nat
  deriving DecidableEq, Repr, Inhabited

namespace Timestamp

def padded (width n : Nat) : String :=
  String.ofList (padZeros width (Nat.toDigits 10 n))

def render (divider : String) (t : Timestamp) : String :=
  padded 4 t.year ++ "-" ++ padded 2 t.month ++ "-" ++ padded 2 t.day ++ divider ++
    padded 2 t.hour ++ ":" ++ padded 2 t.minute ++ ":" ++ padded 2 t.second ++
    (if t.micro == 0 then "" else "." ++ padded 6 t.micro)

/-- The form `2020-01-01T00:00:00`. -/
def iso (t : Timestamp) : String :=
  t.render "T"

/-- The number of days from the first of March of the year 0 to a date. -/
def dayNumber (t : Timestamp) : Nat :=
  let year := if t.month ≤ 2 then t.year - 1 else t.year
  let month := (t.month + 9) % 12
  365 * year + year / 4 - year / 100 + year / 400 + (153 * month + 2) / 5 + t.day - 1

def weekday (t : Timestamp) : String :=
  ["Wed", "Thu", "Fri", "Sat", "Sun", "Mon", "Tue"].getD (t.dayNumber % 7) ""

def monthName (t : Timestamp) : String :=
  ["Jan", "Feb", "Mar", "Apr", "May", "Jun", "Jul", "Aug", "Sep", "Oct", "Nov", "Dec"].getD
    (t.month - 1) ""

/-- The form `Wed, 01 Jan 2020 00:00:00 GMT`. -/
def dateLine (t : Timestamp) : String :=
  t.weekday ++ ", " ++ padded 2 t.day ++ " " ++ t.monthName ++ " " ++ padded 4 t.year ++ " " ++
    padded 2 t.hour ++ ":" ++ padded 2 t.minute ++ ":" ++ padded 2 t.second ++ " GMT"

def isLeap (year : Nat) : Bool :=
  year % 4 == 0 && (year % 100 != 0 || year % 400 == 0)

def daysIn (year month : Nat) : Nat :=
  if month == 2 then if isLeap year then 29 else 28
  else if [4, 6, 9, 11].contains month then 30 else 31

/-- The same time of the next day. -/
def nextDay (t : Timestamp) : Timestamp :=
  if t.day < daysIn t.year t.month then { t with day := t.day + 1 }
  else if t.month < 12 then { t with month := t.month + 1, day := 1 }
  else { t with year := t.year + 1, month := 1, day := 1 }

/-- The point in time some minutes later. -/
def addMinutes (minutes : Nat) (t : Timestamp) : Timestamp :=
  let total := 60 * t.hour + t.minute + minutes
  Nat.repeat nextDay (total / 1440) { t with hour := total / 60 % 24, minute := total % 60 }

def stamp (t : Timestamp) : String :=
  t.iso ++ "Z"

end Timestamp

end SqlGateway
