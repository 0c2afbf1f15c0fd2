import ClearwaterSnmp.AlarmActiveTable
import ClearwaterSnmp.Calendar
import ClearwaterSnmp.Oid

namespace ClearwaterSnmp
open Calendar

/-! ## The clock and the C library -/

/-- The time of `CLOCK_REALTIME`. -/
structure ClockTime where
  tvSec : ℤ
  tvNsec : ℕ

/-- The fields of a `struct tm` that are used. -/
structure Tm where
  tmYear : ℤ
  tmMon : ℤ
  tmMday : ℤ
  tmHour : ℤ
  tmMin : ℤ
  tmSec : ℤ

/-- A local time zone at some moment: the C variable `timezone`, in seconds west of UTC, and
the daylight-saving shift that is in force, or 0. -/
structure TimeZone where
  timezone : ℤ
  shift : ℤ
  wholeMinutes : timezone % 60 = 0
  timezone_le : timezone.natAbs ≤ 13 * 3600
  shift_le : shift.natAbs ≤ 24 * 3600

namespace TimeZone

/-- The wall clock, in seconds. -/
def wallClock (zone : TimeZone) (rawtime : ℤ) : ℤ := rawtime - zone.timezone + zone.shift

def localDate (zone : TimeZone) (rawtime : ℤ) : Date := .ofDays (zone.wallClock rawtime / 86400)

def localtime (zone : TimeZone) (rawtime : ℤ) : Tm where
  tmYear := (zone.localDate rawtime).year - 1900
  tmMon := (zone.localDate rawtime).month - 1
  tmMday := (zone.localDate rawtime).day
  tmHour := zone.wallClock rawtime % 86400 / 3600
  tmMin := zone.wallClock rawtime % 3600 / 60
  tmSec := zone.wallClock rawtime % 60

end TimeZone

/-! ## Timestamps -/

/-- `alarm_time_issued`. The fields are of 8 bits, the year is of 16. -/
def alarmTimeIssued (zone : TimeZone) (ts : ClockTime) : SnmpDateTime :=
  let timing := zone.localtime ts.tvSec
  let utcOffset := zone.timezone.natAbs / 3600
  { year := ((1900 + timing.tmYear) % 2 ^ 16).toNat
    month := ((1 + timing.tmMon) % 2 ^ 8).toNat
    day := (timing.tmMday % 2 ^ 8).toNat
    hour := (timing.tmHour % 2 ^ 8).toNat
    minute := (timing.tmMin % 2 ^ 8).toNat
    second := (timing.tmSec % 2 ^ 8).toNat
    decisecond := 0
    direction := if 0 < zone.timezone then '+'.toNat else '-'.toNat
    timegeozone := utcOffset % 2 ^ 8
    mintimezone := zone.timezone.natAbs % 3600 / 60 % 2 ^ 8 }

/-- The octets of the structure in memory. `htons` has put the high octet of the year first. -/
def SnmpDateTime.octets (d : SnmpDateTime) : List ℕ :=
  [d.year / 256, d.year % 256, d.month, d.day, d.hour, d.minute, d.second, d.decisecond,
    d.direction, d.timegeozone, d.mintimezone]

/-- `alarmActiveTable_index_to_oid`: a string goes in with its length before it. -/
def RowIndex.toOid (index : RowIndex) : Oid :=
  index.listName.length :: index.listName.toList.map Char.toNat ++
    11 :: index.dateAndTime.octets ++ [index.counter]

/-- The octets of the timestamp in the index of a row whose list name is empty. -/
def timestampOctets (index : Oid) : List ℕ := (index.drop 2).take 11

theorem timestampOctets_toOid (d : SnmpDateTime) (counter : ℕ) :
    timestampOctets (RowIndex.toOid ⟨"", d, counter⟩) = d.octets := rfl

/-- The moment that the eleven octets of a DateAndTime denote: the local time less the
distance from UTC. -/
def decodeDateAndTime : List ℕ → Option ℤ
  | [yearHigh, yearLow, month, day, hour, minute, second, _, direction, hours, minutes] =>
    let localTime := Date.toDays ⟨256 * yearHigh + yearLow, month, day⟩ * 86400 + 3600 * hour +
      60 * minute + second
    let fromUtc : ℤ := 3600 * hours + 60 * minutes
    if direction = '+'.toNat then some (localTime - fromUtc)
    else if direction = '-'.toNat then some (localTime + fromUtc)
    else none
  | _ => none

variable (zone : TimeZone) (ts : ClockTime)

/-- The date that the octets show: the year has lost what is beyond 16 bits. -/
def shownDate : Date :=
  { zone.localDate ts.tvSec with year := (zone.localDate ts.tvSec).year % 2 ^ 16 }

theorem octet_eq (x : ℤ) (h0 : 0 ≤ x) (hlt : x < 256) : ((x % 2 ^ 8).toNat : ℤ) = x := by omega

/-- The date and the time of day that are in the octets. -/
theorem localTime_alarmTimeIssued :
    Date.toDays ⟨256 * ((alarmTimeIssued zone ts).year / 256 : ℕ) +
          ((alarmTimeIssued zone ts).year % 256 : ℕ), (alarmTimeIssued zone ts).month,
        (alarmTimeIssued zone ts).day⟩ * 86400 +
        3600 * (alarmTimeIssued zone ts).hour + 60 * (alarmTimeIssued zone ts).minute +
        (alarmTimeIssued zone ts).second =
      (shownDate zone ts).toDays * 86400 + zone.wallClock ts.tvSec % 86400 := by
  have hdate := Date.ofDays_bounds (zone.wallClock ts.tvSec / 86400)
  rw [← TimeZone.localDate] at hdate
  have hyear : 256 * (((alarmTimeIssued zone ts).year / 256 : ℕ) : ℤ) +
      ((alarmTimeIssued zone ts).year % 256 : ℕ) = (zone.localDate ts.tvSec).year % 2 ^ 16 := by
    simp only [alarmTimeIssued, TimeZone.localtime]
    omega
  have hmonth : ((alarmTimeIssued zone ts).month : ℤ) = (zone.localDate ts.tvSec).month := by
    simp only [alarmTimeIssued, TimeZone.localtime]
    omega
  have hday : ((alarmTimeIssued zone ts).day : ℤ) = (zone.localDate ts.tvSec).day :=
    octet_eq (zone.localDate ts.tvSec).day (by omega) (by omega)
  have hhour : ((alarmTimeIssued zone ts).hour : ℤ) = zone.wallClock ts.tvSec % 86400 / 3600 :=
    octet_eq (zone.wallClock ts.tvSec % 86400 / 3600) (by omega) (by omega)
  have hminute : ((alarmTimeIssued zone ts).minute : ℤ) = zone.wallClock ts.tvSec % 3600 / 60 :=
    octet_eq (zone.wallClock ts.tvSec % 3600 / 60) (by omega) (by omega)
  have hsecond : ((alarmTimeIssued zone ts).second : ℤ) = zone.wallClock ts.tvSec % 60 :=
    octet_eq (zone.wallClock ts.tvSec % 60) (by omega) (by omega)
  rw [hyear, hmonth, hday, hhour, hminute, hsecond, shownDate]
  omega

/-- The distance from UTC comes out with the sign of `timezone`, which counts to the west. -/
theorem decode_alarmTimeIssued :
    decodeDateAndTime (alarmTimeIssued zone ts).octets =
      some ((shownDate zone ts).toDays * 86400 + zone.wallClock ts.tvSec % 86400 -
        zone.timezone) := by
  have hlocal := localTime_alarmTimeIssued zone ts
  have hminutes := zone.wholeMinutes
  have hle := zone.timezone_le
  have hoffset : 3600 * ((alarmTimeIssued zone ts).timegeozone : ℤ) +
      60 * ((alarmTimeIssued zone ts).mintimezone : ℤ) = zone.timezone.natAbs := by
    simp only [alarmTimeIssued]
    omega
  rw [SnmpDateTime.octets, decodeDateAndTime, hlocal, hoffset]
  by_cases hwest : 0 < zone.timezone
  · have hdir : (alarmTimeIssued zone ts).direction = '+'.toNat := if_pos hwest
    rw [if_pos hdir, Option.some.injEq]
    omega
  · have hdir : (alarmTimeIssued zone ts).direction = '-'.toNat := if_neg hwest
    rw [hdir, if_neg (by decide), if_pos rfl, Option.some.injEq]
    omega

/-- A year that does not fit into 16 bits puts the date off by many years. -/
theorem shownDate_toDays_far
    (hyear : ¬(0 ≤ (zone.localDate ts.tvSec).year ∧ (zone.localDate ts.tvSec).year < 2 ^ 16)) :
    (shownDate zone ts).toDays + 1000 ≤ (zone.localDate ts.tvSec).toDays ∨
      (zone.localDate ts.tvSec).toDays + 1000 ≤ (shownDate zone ts).toDays := by
  have hshown : shownDate zone ts =
      { zone.localDate ts.tvSec with year := (zone.localDate ts.tvSec).year % 2 ^ 16 } := rfl
  obtain ⟨lost, hlost⟩ : ∃ q, (zone.localDate ts.tvSec).year =
      (zone.localDate ts.tvSec).year % 2 ^ 16 + 2 ^ 16 * q :=
    ⟨(zone.localDate ts.tvSec).year / 2 ^ 16, by omega⟩
  rcases lt_trichotomy lost 0 with hneg | hzero | hpos
  · have h := (zone.localDate ts.tvSec).toDays_add_years (k := -(2 ^ 16 * lost)) (by omega)
    rw [show (zone.localDate ts.tvSec).year + -(2 ^ 16 * lost) =
      (zone.localDate ts.tvSec).year % 2 ^ 16 by omega, ← hshown] at h
    right
    omega
  · omega
  · have h := (shownDate zone ts).toDays_add_years (k := 2 ^ 16 * lost) (by omega)
    have hlocal : { shownDate zone ts with year := (shownDate zone ts).year + 2 ^ 16 * lost } =
        zone.localDate ts.tvSec := by
      rw [hshown]
      simp only
      rw [← hlost]
    rw [hlocal] at h
    left
    omega

/-- The timestamp in the index of the row that is created denotes the second in which the alarm
was raised exactly if twice `timezone` is the daylight-saving shift, so that the wrong sign does
not matter, and the year of the local date fits into its two octets. -/
theorem timestamp_denotes_iff (d : AlarmTableDef) (t : AlarmActiveTable) (zone : TimeZone)
    (ts : ClockTime) :
    ∃ row, (t.createRow (.created (alarmTimeIssued zone ts)) d).rowAt d.alarmIndex = some row ∧
      (decodeDateAndTime (timestampOctets row.index.toOid) = some ts.tvSec ↔
        2 * zone.timezone = zone.shift ∧ 0 ≤ (zone.localDate ts.tvSec).year ∧
          (zone.localDate ts.tvSec).year < 2 ^ 16) := by
  have hrow : (t.createRow (.created (alarmTimeIssued zone ts)) d).rowAt d.alarmIndex =
      some ⟨t.allocated, ⟨"", alarmTimeIssued zone ts, (t.alarmCounter + 1) % 2 ^ 64⟩, d⟩ := by
    rw [AlarmActiveTable.rowAt_createRow, if_pos rfl]
  refine ⟨_, hrow, ?_⟩
  have hwall : zone.wallClock ts.tvSec = ts.tvSec - zone.timezone + zone.shift := rfl
  have hdays : (zone.localDate ts.tvSec).toDays = zone.wallClock ts.tvSec / 86400 :=
    Date.toDays_ofDays _
  have htimezone := zone.timezone_le
  have hshift := zone.shift_le
  rw [timestampOctets_toOid, decode_alarmTimeIssued, Option.some.injEq]
  by_cases hyear : 0 ≤ (zone.localDate ts.tvSec).year ∧ (zone.localDate ts.tvSec).year < 2 ^ 16
  · have hshown : shownDate zone ts = zone.localDate ts.tvSec := by
      have hmod : (zone.localDate ts.tvSec).year % 2 ^ 16 = (zone.localDate ts.tvSec).year := by
        omega
      rw [shownDate, hmod]
    rw [hshown, hdays]
    omega
  · -- no shift makes up for the years that are lost
    have hfar := shownDate_toDays_far zone ts hyear
    omega

/-- Five hours west of UTC, without daylight saving. -/
def easternStandard : TimeZone := ⟨18000, 0, rfl, by decide, by decide⟩

/-- An alarm that is raised on 17 May 2016 at 9:30 UTC, when it is 4:30 local time: the index
says five hours east of UTC, and denotes a moment ten hours too early. -/
theorem timestamp_west_of_utc :
    timestampOctets (RowIndex.toOid ⟨"", alarmTimeIssued easternStandard ⟨1463477400, 0⟩, 1⟩) =
        [7, 224, 5, 17, 4, 30, 0, 0, '+'.toNat, 5, 0] ∧
      decodeDateAndTime (timestampOctets
        (RowIndex.toOid ⟨"", alarmTimeIssued easternStandard ⟨1463477400, 0⟩, 1⟩)) =
        some (1463477400 - 36000) ∧
      decodeDateAndTime (timestampOctets
        (RowIndex.toOid ⟨"", alarmTimeIssued easternStandard ⟨1463477400, 0⟩, 1⟩)) ≠
        some 1463477400 := by
  decide

end ClearwaterSnmp
