/-!
# Calendar

Dates of the Gregorian calendar as days since 1 January 1970, weeks and times of day.
-/

namespace LineScript.Calendar

structure Date where
  year : Int
  month : Nat
  day : Nat

/-- The date of a day counted from 1970, with years that start in March inside. -/
def ofDays (days : Int) : Date :=
  let z := days + 719468
  let era := z.fdiv 146097
  let doe := (z - era * 146097).toNat
  let yoe := (doe - doe / 1460 + doe / 36524 - doe / 146096) / 365
  let doy := doe - (365 * yoe + yoe / 4 - yoe / 100)
  let mp := (5 * doy + 2) / 153
  let day := doy - (153 * mp + 2) / 5 + 1
  let month := if mp < 10 then mp + 3 else mp - 9
  { year := (yoe : Int) + era * 400 + (if month ≤ 2 then 1 else 0), month := month, day := day }

def isLeap (y : Int) : Bool := y % 4 = 0 && (y % 100 ≠ 0 || y % 400 = 0)

def daysBefore (leap : Bool) (month : Nat) : Nat :=
  ([0, 31, 59, 90, 120, 151, 181, 212, 243, 273, 304, 334].getD (month - 1) 0) +
    (if leap && month > 2 then 1 else 0)

/-- Days from 1970 to the first day of a year. -/
def yearStart (y : Int) : Int :=
  let y := y - 1
  y * 365 + y.fdiv 4 - y.fdiv 100 + y.fdiv 400 - 719162

structure Time where
  days : Int
  seconds : Nat

def Time.ofUnix (t : Int) : Time := ⟨t.fdiv 86400, (t.fmod 86400).toNat⟩

def weekdays : List String :=
  ["Monday", "Tuesday", "Wednesday", "Thursday", "Friday", "Saturday", "Sunday"]

def months : List String :=
  ["January", "February", "March", "April", "May", "June", "July", "August", "September", "October",
   "November", "December"]

/-- 0 for Monday. -/
def weekday (days : Int) : Nat := ((days + 3).fmod 7).toNat

def dayName (days : Int) : String := weekdays.getD (weekday days) ""

def pad (width : Nat) (fill : Char) (n : Nat) : String :=
  let t := toString n
  String.ofList (List.replicate (width - t.length) fill) ++ t

def two (n : Nat) : String := pad 2 '0' n

def yearText (y : Int) : String := if y < 0 then "-" ++ toString y.natAbs else toString y

def dateText (d : Date) : String := yearText d.year ++ "-" ++ two d.month ++ "-" ++ two d.day

/-- Year and week in which weeks start on Monday and the first has a Thursday. -/
def isoWeek (days : Int) : Int × Nat :=
  let thursday := days - weekday days + 3
  let y := (ofDays thursday).year
  (y, ((thursday - yearStart y) / 7 + 1).toNat)

end LineScript.Calendar
