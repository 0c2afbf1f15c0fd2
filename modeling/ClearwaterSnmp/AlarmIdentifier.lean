import ClearwaterSnmp.AlarmTableDefs

namespace ClearwaterSnmp

/-- The characters of a string up to its first NUL, as `c_str()` shows them to
the C library. -/
def cStr (s : String) : List Char := s.toList.takeWhile (·.toNat ≠ 0)

/-- White space of the C locale. -/
def isSpace (c : Char) : Bool := c = ' ' || (9 ≤ c.toNat && c.toNat ≤ 13)

def digitsValue (digits : List Char) : ℕ := digits.foldl (fun n c => 10 * n + (c.toNat - 48)) 0

/-- `strtoul` in base ten: a 64-bit result, the largest one on overflow, negated
in 64 bits after a minus sign. -/
def strtoul (negative : Bool) (digits : List Char) : ℕ :=
  if 2 ^ 64 ≤ digitsValue digits then 2 ^ 64 - 1
  else if negative then (2 ^ 64 - digitsValue digits) % 2 ^ 64
  else digitsValue digits

def scanSign : List Char → Bool × List Char
  | '-' :: rest => (true, rest)
  | '+' :: rest => (false, rest)
  | input => (false, input)

/-- One `%u` conversion: leading white space is skipped, a sign is accepted, and
the low 32 bits of the number are stored. -/
def scanUnsigned (input : List Char) : Option (ℕ × List Char) :=
  let (negative, rest) := scanSign (input.dropWhile isSpace)
  let digits := rest.takeWhile Char.isDigit
  if digits = [] then none
  else some (strtoul negative digits % 2 ^ 32, rest.dropWhile Char.isDigit)

/-- `sscanf` with the format `%u.%u`, where both conversions are made. What
follows the second number is not looked at. -/
def sscanfIdentifier (input : List Char) : Option (ℕ × ℕ) := do
  let (index, rest) ← scanUnsigned input
  match rest with
  | '.' :: rest =>
    let (severity, _) ← scanUnsigned rest
    some (index, severity)
  | _ => none

/-- `validate_alarm_trigger`, with the index and severity it returns if it accepts. -/
def validateAlarmTrigger (defs : AlarmTableDefs) (identifier : String) : Option (AlarmIndex × ℕ) :=
  match sscanfIdentifier (cStr identifier) with
  | none => none
  | some (index, severity) =>
    if (defs.getDefinition index severity).isValid then some (index, severity) else none

theorem validateAlarmTrigger_eq_some {defs : AlarmTableDefs} {identifier : String} {i n : ℕ} :
    validateAlarmTrigger defs identifier = some (i, n) ↔
      sscanfIdentifier (cStr identifier) = some (i, n) ∧
        (defs.getDefinition i n).isValid = true := by
  unfold validateAlarmTrigger
  split
  · rename_i hscan
    simp [hscan]
  · rename_i index severity hscan
    rw [hscan, Option.some.injEq, Prod.mk.injEq]
    split
    · rename_i hv
      rw [Option.some.injEq, Prod.mk.injEq]
      constructor
      · rintro ⟨rfl, rfl⟩
        exact ⟨⟨rfl, rfl⟩, hv⟩
      · exact And.left
    · rename_i hv
      constructor
      · exact fun h => absurd h (by simp)
      · rintro ⟨⟨rfl, rfl⟩, hv'⟩
        exact absurd hv' hv

theorem sscanfIdentifier_of_validate {defs : AlarmTableDefs} {identifier : String}
    {index severity : ℕ} (h : validateAlarmTrigger defs identifier = some (index, severity)) :
    sscanfIdentifier (cStr identifier) = some (index, severity) :=
  (validateAlarmTrigger_eq_some.mp h).1

/-- Only numbers of severities are accepted, so that the cast is exact. -/
theorem number_ofNumber_of_validate {defs : AlarmTableDefs} {identifier : String}
    {index severity : ℕ} (h : validateAlarmTrigger defs identifier = some (index, severity)) :
    (Severity.ofNumber severity).number = severity := by
  obtain ⟨-, -, hs⟩ := AlarmTableDefs.loaded_of_isValid (validateAlarmTrigger_eq_some.mp h).2
  rw [← hs, Severity.ofNumber_number]

/-- What is accepted names a loaded definition, so its severity can be cast. -/
theorem validateAlarmTrigger_loaded {defs : AlarmTableDefs} {identifier : String}
    {index severity : ℕ} (h : validateAlarmTrigger defs identifier = some (index, severity)) :
    ∃ d, defs.Loaded d ∧ d.alarmIndex = index ∧ d.severity = Severity.ofNumber severity := by
  obtain ⟨hl, hi, hs⟩ := AlarmTableDefs.loaded_of_isValid (validateAlarmTrigger_eq_some.mp h).2
  exact ⟨_, hl, hi, (Severity.ofNumber_number _).symm.trans (congrArg Severity.ofNumber hs)⟩

end ClearwaterSnmp
