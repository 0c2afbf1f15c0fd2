import Mathlib.Algebra.Ring.Int.Defs

namespace ClearwaterSnmp.Calendar

/-- A date of the proleptic Gregorian calendar. -/
structure Date where
  year : ℤ
  month : ℤ
  day : ℤ
deriving DecidableEq, Repr

/-- The days from the first of March of the year 0 to that of the given year, so that the leap
day is the last of its year. -/
def daysBefore (marchYear : ℤ) : ℤ :=
  365 * marchYear + marchYear / 4 - marchYear / 100 + marchYear / 400

/-- The days from the first of January 1970 on. -/
def Date.toDays (d : Date) : ℤ :=
  let marchYear := if d.month ≤ 2 then d.year - 1 else d.year
  let marchMonth := if d.month ≤ 2 then d.month + 9 else d.month - 3
  daysBefore marchYear + (153 * marchMonth + 2) / 5 + (d.day - 1) - 719468

/-- The year from March on that has the given day: four centuries, a century, four years and a
year at a time, where the last century and the last year may be a day longer. -/
def marchYear (z : ℤ) : ℤ :=
  let century := min (z % 146097 / 36524) 3
  let dayOfCentury := z % 146097 - 36524 * century
  let dayOfFour := dayOfCentury % 1461
  400 * (z / 146097) + 100 * century + 4 * (dayOfCentury / 1461) + min (dayOfFour / 365) 3

/-- The day of its year from March on. -/
def dayOfYear (z : ℤ) : ℤ := z - daysBefore (marchYear z)

/-- The month, where March is 0: five months have 153 days from March and from August on. -/
def marchMonth (z : ℤ) : ℤ := (5 * dayOfYear z + 2) / 153

/-- The date of a day, counted from the first of January 1970 on. -/
def Date.ofDays (n : ℤ) : Date :=
  let z := n + 719468
  let day := dayOfYear z - (153 * marchMonth z + 2) / 5 + 1
  if marchMonth z < 10 then ⟨marchYear z, marchMonth z + 3, day⟩
  else ⟨marchYear z + 1, marchMonth z - 9, day⟩

/-- Years are made of their parts without a remainder. -/
theorem daysBefore_parts {era century four single : ℤ} (hc : 0 ≤ century) (hc' : century ≤ 3)
    (hf : 0 ≤ four) (hf' : four ≤ 24) (hs : 0 ≤ single) (hs' : single ≤ 3) :
    daysBefore (400 * era + 100 * century + 4 * four + single) =
      146097 * era + 36524 * century + 1461 * four + 365 * single := by
  have h4 : (400 * era + 100 * century + 4 * four + single) / 4 =
      100 * era + 25 * century + four := by omega
  have h100 : (400 * era + 100 * century + 4 * four + single) / 100 = 4 * era + century := by omega
  have h400 : (400 * era + 100 * century + 4 * four + single) / 400 = era := by omega
  rw [daysBefore, h4, h100, h400]
  omega

theorem dayOfYear_bounds (z : ℤ) : 0 ≤ dayOfYear z ∧ dayOfYear z ≤ 365 := by
  obtain ⟨century, hcentury⟩ : ∃ c, c = min (z % 146097 / 36524) 3 := ⟨_, rfl⟩
  obtain ⟨rest, hrest⟩ : ∃ r, r = z % 146097 - 36524 * century := ⟨_, rfl⟩
  have hyear : marchYear z =
      400 * (z / 146097) + 100 * century + 4 * (rest / 1461) + min (rest % 1461 / 365) 3 := by
    rw [hrest, hcentury]
    rfl
  have hrange : 0 ≤ century ∧ century ≤ 3 ∧ 0 ≤ rest ∧ rest ≤ 36524 := by omega
  rw [dayOfYear, hyear, daysBefore_parts (by omega) (by omega) (by omega) (by omega) (by omega)
    (by omega)]
  omega

theorem marchMonth_bounds (z : ℤ) : 0 ≤ marchMonth z ∧ marchMonth z ≤ 11 := by
  have hday := dayOfYear_bounds z
  rw [marchMonth]
  omega

theorem Date.ofDays_bounds (n : ℤ) :
    1 ≤ (ofDays n).month ∧ (ofDays n).month ≤ 12 ∧ 1 ≤ (ofDays n).day ∧ (ofDays n).day ≤ 31 := by
  have hday := dayOfYear_bounds (n + 719468)
  have hmonth := marchMonth_bounds (n + 719468)
  have hfive : marchMonth (n + 719468) = (5 * dayOfYear (n + 719468) + 2) / 153 := rfl
  rw [ofDays]
  split <;>
  · simp only
    omega

/-- The date of a day has the number of that day. -/
theorem Date.toDays_ofDays (n : ℤ) : (ofDays n).toDays = n := by
  have hmonth := marchMonth_bounds (n + 719468)
  have hday : dayOfYear (n + 719468) = n + 719468 - daysBefore (marchYear (n + 719468)) := rfl
  rw [ofDays, toDays]
  split
  · simp only
    rw [if_neg (by omega), if_neg (by omega), add_sub_cancel_right]
    omega
  · simp only
    rw [if_pos (by omega), if_pos (by omega), add_sub_cancel_right, sub_add_cancel]
    omega

example : (Date.mk 2016 2 29).toDays = 16860 ∧ Date.ofDays 16860 = ⟨2016, 2, 29⟩ := by decide

/-- A year has at least 365 days, but for rounding. -/
theorem daysBefore_add (y : ℤ) {k : ℤ} (hk : 0 ≤ k) :
    daysBefore y + 365 * k - 3 ≤ daysBefore (y + k) := by
  unfold daysBefore
  omega

theorem Date.toDays_add_years (d : Date) {k : ℤ} (hk : 0 ≤ k) :
    d.toDays + 365 * k - 3 ≤ Date.toDays { d with year := d.year + k } := by
  simp only [toDays]
  split
  · have h := daysBefore_add (d.year - 1) hk
    rw [sub_add_eq_add_sub] at h
    omega
  · have h := daysBefore_add d.year hk
    omega

end ClearwaterSnmp.Calendar
