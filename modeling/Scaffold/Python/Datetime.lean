import Scaffold.Python.Repr

namespace Scaffold.Python

def isLeapYear (year : Nat) : Bool :=
  year % 4 = 0 ∧ (year % 100 ≠ 0 ∨ year % 400 = 0)

def daysInMonth (year month : Nat) : Nat :=
  if month = 2 then if isLeapYear year then 29 else 28
  else if month = 4 ∨ month = 6 ∨ month = 9 ∨ month = 11 then 30
  else 31

-- A `datetime` without a time zone.
structure NaiveDatetime where
  year : Nat
  month : Nat
  day : Nat
  hour : Nat := 0
  minute : Nat := 0
  second : Nat := 0
  microsecond : Nat := 0
  yearOk : 1 ≤ year ∧ year ≤ 9999 := by decide
  monthOk : 1 ≤ month ∧ month ≤ 12 := by decide
  dayOk : 1 ≤ day ∧ day ≤ daysInMonth year month := by decide
  timeOk : hour < 24 ∧ minute < 60 ∧ second < 60 ∧ microsecond < 1000000 := by decide
  deriving DecidableEq

-- `tzinfo` is the offset from UTC in seconds.
structure Datetime where
  wall : NaiveDatetime
  tzinfo : Option Int := none
  deriving DecidableEq

namespace NaiveDatetime

def clock (d : NaiveDatetime) : List Char :=
  paddedDecimal 4 d.year ++ '-' :: paddedDecimal 2 d.month ++ '-' :: paddedDecimal 2 d.day ++
    'T' :: paddedDecimal 2 d.hour ++ ':' :: paddedDecimal 2 d.minute ++ ':' :: paddedDecimal 2 d.second

-- `isoformat` writes the fraction only when there is one.
def isoformat (d : NaiveDatetime) : List Char :=
  if d.microsecond = 0 then d.clock else d.clock ++ '.' :: paddedDecimal 6 d.microsecond

@[simp] theorem clock_length (d : NaiveDatetime) : d.clock.length = 19 := by
  simp [clock]

theorem isoformat_length (d : NaiveDatetime) :
    d.isoformat.length = if d.microsecond = 0 then 19 else 26 := by
  unfold isoformat
  split <;> simp

theorem ext {a b : NaiveDatetime} (hyear : a.year = b.year) (hmonth : a.month = b.month)
    (hday : a.day = b.day)
    (hhour : a.hour = b.hour) (hminute : a.minute = b.minute) (hsecond : a.second = b.second)
    (hmicrosecond : a.microsecond = b.microsecond) : a = b := by
  cases a
  cases b
  subst hyear hmonth hday hhour hminute hsecond hmicrosecond
  rfl

theorem daysInMonth_le (year month : Nat) : daysInMonth year month ≤ 31 := by
  unfold daysInMonth
  split_ifs <;> omega

theorem clock_injective {a b : NaiveDatetime} (h : a.clock = b.clock)
    (hmicrosecond : a.microsecond = b.microsecond) :
    a = b := by
  have hdays := daysInMonth_le a.year a.month
  have hdays' := daysInMonth_le b.year b.month
  obtain ⟨hya, hma, hda, hta⟩ := And.intro a.yearOk (And.intro a.monthOk (And.intro a.dayOk a.timeOk))
  obtain ⟨hyb, hmb, hdb, htb⟩ := And.intro b.yearOk (And.intro b.monthOk (And.intro b.dayOk b.timeOk))
  simp only [clock, List.append_assoc, List.cons_append] at h
  obtain ⟨hyear, h⟩ := List.append_inj h (by simp)
  obtain ⟨hmonth, h⟩ := List.append_inj (List.cons.inj h).2 (by simp)
  obtain ⟨hday, h⟩ := List.append_inj (List.cons.inj h).2 (by simp)
  obtain ⟨hhour, h⟩ := List.append_inj (List.cons.inj h).2 (by simp)
  obtain ⟨hminute, h⟩ := List.append_inj (List.cons.inj h).2 (by simp)
  have hsecond := (List.cons.inj h).2
  exact ext (paddedDecimal_injective (by omega) (by omega) hyear)
    (paddedDecimal_injective (by omega) (by omega) hmonth)
    (paddedDecimal_injective (by omega) (by omega) hday)
    (paddedDecimal_injective (by omega) (by omega) hhour)
    (paddedDecimal_injective (by omega) (by omega) hminute)
    (paddedDecimal_injective (by omega) (by omega) hsecond)
    hmicrosecond

theorem isoformat_injective {a b : NaiveDatetime} (h : a.isoformat = b.isoformat) : a = b := by
  have hlength := congrArg List.length h
  rw [isoformat_length, isoformat_length] at hlength
  have ha := a.timeOk
  have hb := b.timeOk
  unfold isoformat at h
  by_cases hza : a.microsecond = 0
  · by_cases hzb : b.microsecond = 0
    · rw [if_pos hza, if_pos hzb] at h
      exact clock_injective h (by omega)
    · simp [hza, hzb] at hlength
  · by_cases hzb : b.microsecond = 0
    · simp [hza, hzb] at hlength
    · rw [if_neg hza, if_neg hzb] at h
      obtain ⟨hclock, hfraction⟩ := List.append_inj h (by simp)
      exact clock_injective hclock (paddedDecimal_injective (by omega) (by omega)
        (List.cons.inj hfraction).2)

end NaiveDatetime

end Scaffold.Python
