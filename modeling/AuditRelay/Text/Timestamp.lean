import AuditRelay.Text.Digits

/-!
# AuditRelay.Text.Timestamp — points of time as text

A point of time is a number of nanoseconds since the beginning of 1970, in UTC. It is written as
date and time of the proleptic Gregorian calendar with nine places of the second, thirty characters
in all.
-/

namespace AuditRelay.Text

/-- A day of the calendar. -/
structure Day where
  year : Nat
  month : Nat
  day : Nat
  deriving DecidableEq, Repr

/-- The day that lies `n` days after the first of January 1970. Years are counted from March, so
that a leap day is the last of its year, in periods of four hundred years. -/
def Day.ofNat (n : Nat) : Day :=
  let z := n + 719468
  let era := z / 146097
  let dayOfEra := z % 146097
  let yearOfEra := (dayOfEra - dayOfEra / 1460 + dayOfEra / 36524 - dayOfEra / 146096) / 365
  let dayOfYear := dayOfEra - (365 * yearOfEra + yearOfEra / 4 - yearOfEra / 100)
  let march := (5 * dayOfYear + 2) / 153
  let day := dayOfYear - (153 * march + 2) / 5 + 1
  let month := if march < 10 then march + 3 else march - 9
  ⟨yearOfEra + era * 400 + (if month ≤ 2 then 1 else 0), month, day⟩

/-- The text of a point of time. -/
def timestamp (nanoseconds : Nat) : String :=
  let seconds := nanoseconds / 1000000000
  let date := Day.ofNat (seconds / 86400)
  let clock := seconds % 86400
  String.ofList <|
    padded 4 date.year ++ '-' :: padded 2 date.month ++ '-' :: padded 2 date.day ++
    'T' :: padded 2 (clock / 3600) ++ ':' :: padded 2 (clock / 60 % 60) ++
    ':' :: padded 2 (clock % 60) ++ '.' :: padded 9 (nanoseconds % 1000000000) ++ ['Z']

end AuditRelay.Text
