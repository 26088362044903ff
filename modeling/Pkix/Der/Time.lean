import Pkix.Der.Element

/-!
# Times

A point in time to the second, as UTCTime with two digits of the year or as GeneralizedTime with
four. The digits have to name a day of the calendar from 1970 on. A time keeps its written form, so
it is written as it was read.
-/

namespace Pkix.Der

/-- The two written forms of a time. -/
inductive TimeForm where
  | utc
  | generalized
  deriving DecidableEq

/-- The universal type of a time form. -/
def TimeForm.universal : TimeForm → UniversalType
  | .utc => .utcTime
  | .generalized => .generalizedTime

/-- The fields of a date and a time of day. -/
structure DateTime where
  year : Nat
  month : Nat
  day : Nat
  hour : Nat
  minute : Nat
  second : Nat
  deriving DecidableEq

namespace DateTime

/-- Whether a year has a 29th of February. -/
def isLeapYear (year : Nat) : Bool :=
  year % 4 == 0 && (year % 100 != 0 || year % 400 == 0)

/-- The number of days of a month. -/
def daysInMonth (year month : Nat) : Nat :=
  if month = 2 then if isLeapYear year then 29 else 28
  else if month = 4 ∨ month = 6 ∨ month = 9 ∨ month = 11 then 30
  else 31

/-- Whether the fields name a second of the calendar from 1970 on; leap seconds are left out. -/
def isValid (t : DateTime) : Bool :=
  1970 ≤ t.year && 1 ≤ t.month && t.month ≤ 12 && 1 ≤ t.day &&
    t.day ≤ daysInMonth t.year t.month && t.hour ≤ 23 && t.minute ≤ 59 && t.second ≤ 59

end DateTime

structure Time where
  form : TimeForm
  digits : Octets
  deriving DecidableEq

namespace Time

def pair? (a b : UInt8) : Option Nat :=
  if 0x30 ≤ a ∧ a ≤ 0x39 ∧ 0x30 ≤ b ∧ b ≤ 0x39 then some (10 * (a.toNat - 48) + (b.toNat - 48))
  else none

/-- The numbers that the octets make two by two, up to the closing `Z`. -/
def pairs? : Octets → Option (List Nat)
  | [0x5a] => some []
  | a :: b :: rest => do return (← pair? a b) :: (← pairs? rest)
  | _ => none

/-- The date and time that content octets of a form denote. The two digits of UTCTime stand for
the years 1950 to 2049. -/
def dateTime? (form : TimeForm) (octets : Octets) : Option DateTime := do
  match form, ← pairs? octets with
  | .utc, [year, month, day, hour, minute, second] =>
    some ⟨if 50 ≤ year then 1900 + year else 2000 + year, month, day, hour, minute, second⟩
  | .generalized, [century, year, month, day, hour, minute, second] =>
    some ⟨100 * century + year, month, day, hour, minute, second⟩
  | _, _ => none

def toElement (t : Time) : Element :=
  ⟨.universal t.form.universal, t.digits⟩

def ofElement? (e : Element) : Option Time := do
  let form ←
    if e.tag = .universal .utcTime then some TimeForm.utc
    else if e.tag = .universal .generalizedTime then some TimeForm.generalized
    else none
  let date ← dateTime? form e.content
  if date.isValid then some ⟨form, e.content⟩ else none

end Time

end Pkix.Der
