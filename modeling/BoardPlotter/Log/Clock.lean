import BoardPlotter.Decimal.Layout

/-!
# Times of records

Seconds from the start of 1970 as a date and a time of day, to the microsecond,
a half going to the even one.
-/

namespace BoardPlotter

structure Instant where
  year : Int
  month : Nat
  day : Nat
  hour : Nat
  minute : Nat
  second : Nat
  micro : Nat
  deriving DecidableEq, Repr

/-- Why there is no date for a number of seconds. -/
inductive ClockError where
  | notANumber
  | overflow
  | tooFar
  | year (n : Int)
  deriving DecidableEq, Repr

def ClockError.message : ClockError → String
  | notANumber => "Invalid value NaN (not a number)"
  | year n => s!"year {n} is out of range"
  | overflow | tooFar => ""

namespace Instant

/-- Days of 400 years. -/
def eraDays : Int := 146097

/-- Year, month and day from the number of days since the start of 1970. Years
begin in March here, so a leap day is the last of its year. -/
def civil (days : Int) : Int × Nat × Nat :=
  let z := days + 719468
  let era := z.fdiv eraDays
  let ofEra := (z.fmod eraDays).toNat
  let yearOfEra := (ofEra - ofEra / 1460 + ofEra / 36524 - ofEra / 146096) / 365
  let ofYear := ofEra - (365 * yearOfEra + yearOfEra / 4 - yearOfEra / 100)
  let m := (5 * ofYear + 2) / 153
  let day := ofYear - (153 * m + 2) / 5 + 1
  let month := if m < 10 then m + 3 else m - 9
  (yearOfEra + era * 400 + (if month ≤ 2 then 1 else 0), month, day)

/-- The nearest whole number, a half going to the even one. -/
def nearest (x : Float) : Int :=
  let n : Int := (Ratio.ofFloat x).round 0
  if isNegative x then -n else n

/-- Whole seconds, and the microseconds behind them. -/
def split (seconds : Float) : Int × Nat :=
  let r := Ratio.ofFloat seconds
  let whole : Int := if isNegative seconds then -(r.floor : Int) else r.floor
  let micro := nearest ((seconds - Float.ofInt whole) * 1000000.0)
  if 1000000 ≤ micro then (whole + 1, (micro - 1000000).toNat)
  else if micro < 0 then (whole - 1, (micro + 1000000).toNat)
  else (whole, micro.toNat)

def ofSeconds (seconds : Float) : Except ClockError Instant :=
  if seconds.isNaN then .error .notANumber
  else if 9223372036854775808.0 ≤ seconds.abs then .error .overflow
  else
    let (whole, micro) := split seconds
    let (year, month, day) := civil (whole.fdiv 86400)
    let clock := (whole.fmod 86400).toNat
    if 2147483647 < (year - 1900).natAbs then .error .tooFar
    else if year < 1 ∨ 9999 < year then .error (.year year)
    else .ok ⟨year, month, day, clock / 3600, clock / 60 % 60, clock % 60, micro⟩

/-- Month, day and time of day; thousandths are cut off. -/
def tail (t : Instant) : String :=
  let two (n : Nat) := Decimal.padLeft 2 '0' (Decimal.text n)
  s!"-{two t.month}-{two t.day}T{two t.hour}:{two t.minute}:{two t.second}." ++
    Decimal.padLeft 3 '0' (Decimal.text (t.micro / 1000))

/-- The text for people to read. -/
def text (t : Instant) : String := s!"{t.year}{t.tail}Z"

/-- The text with four digits of the year and the offset from universal time. -/
def offsetText (t : Instant) : String :=
  Decimal.padLeft 4 '0' (Decimal.text t.year.natAbs) ++ t.tail ++ "+00:00"

end Instant

end BoardPlotter
