import ClearwaterSnmp.AlarmAgent

namespace ClearwaterSnmp

/-- One alarm by itself: the severity last sent, the severity its timer holds,
when the timer is due, and whether the timer is in the heap. A timer outside the
heap may still hold a severity and a time from a request that was cancelled. -/
structure Alarm where
  current : Severity
  pending : Severity
  due : ℕ
  scheduled : Bool
deriving DecidableEq, Repr

namespace Alarm

def idle : Alarm := ⟨.undefinedSeverity, .undefinedSeverity, uint64Max, false⟩

def reschedule (now : ℕ) (severity : Severity) (delay : ℕ) (a : Alarm) : Alarm :=
  if severity ≠ a.pending then
    { a with pending := severity, due := (now + delay) % 2 ^ 64, scheduled := true }
  else { a with scheduled := true }

def request (order : SeverityOrder) (now : ℕ) (severity : Severity) (a : Alarm) : Alarm :=
  if severity = a.current then
    if a.current ≠ a.pending then { a with scheduled := false } else a
  else if order.gt severity a.current then a.reschedule now severity alarmIncreasedDelay
  else a.reschedule now severity alarmReducedDelay

def resync (now : ℕ) (a : Alarm) : Alarm :=
  if a.current ≠ .undefinedSeverity then a.reschedule now a.current alarmResyncDelay else a

def failure (now : ℕ) (severity : Severity) (a : Alarm) : Alarm :=
  if a.current = severity ∧ a.scheduled = false then a.reschedule now severity alarmRetryDelay
  else a

def isDue (now : ℕ) (a : Alarm) : Bool := a.scheduled && a.due ≤ now

/-- The alarm once its timer has popped and `severity` is the current one. -/
def popped (severity : Severity) : Alarm := { idle with current := severity }

end Alarm

/-- What happened to one alarm. -/
inductive AlarmEntry
  | accepted (time : ℕ) (severity : Severity)
  | inform (time : ℕ) (severity previous : Severity)
  | failed (time : ℕ) (severity : Severity)
  | synced (time : ℕ)
deriving DecidableEq, Repr

namespace AlarmEntry

def acceptance : AlarmEntry → Option (ℕ × Severity)
  | accepted time severity => some (time, severity)
  | _ => none

def informed : AlarmEntry → Option Severity
  | inform _ severity _ => some severity
  | _ => none

/-- A resync, or a report that the delivery of `severity` failed. -/
def asksAgain (severity : Severity) : AlarmEntry → Bool
  | failed _ s => s = severity
  | synced _ => true
  | _ => false

def reportsFailure (severity : Severity) : AlarmEntry → Bool
  | failed _ s => s = severity
  | _ => false

end AlarmEntry

namespace History

/-- The severity of the most recent accepted request; histories are newest first. -/
def lastAccepted (h : List AlarmEntry) : Option Severity :=
  (h.filterMap AlarmEntry.acceptance).head?.map Prod.snd

/-- The severity of the last INFORM, undefined if there was none. -/
def lastInformed (h : List AlarmEntry) : Severity :=
  (h.findSome? AlarmEntry.informed).getD .undefinedSeverity

/-- The time of the first request in the longest run of most recent requests
that all ask for `severity`. -/
def requestedSince (severity : Severity) (h : List AlarmEntry) : Option ℕ :=
  (((h.filterMap AlarmEntry.acceptance).takeWhile (·.2 = severity)).getLast?).map Prod.fst

/-- What happened since the last INFORM. -/
def sinceInform (h : List AlarmEntry) : List AlarmEntry :=
  h.takeWhile (·.informed = none)

/-- Every INFORM of a history, with its time, its severity and the severity before
it, meets `Q` with its past. -/
def AtInforms (Q : ℕ → Severity → Severity → List AlarmEntry → Prop) (h : List AlarmEntry) : Prop :=
  Runs.AtEach (fun e past => ∀ t s p, e = .inform t s p → Q t s p past) h

variable (h : List AlarmEntry) (t : ℕ) (s p : Severity)

@[simp] theorem lastAccepted_accepted : lastAccepted (.accepted t s :: h) = some s := rfl

variable (Q : ℕ → Severity → Severity → List AlarmEntry → Prop)

@[simp] theorem atInforms_accepted : AtInforms Q (.accepted t s :: h) ↔ AtInforms Q h := by
  simp [AtInforms, Runs.AtEach]

@[simp] theorem atInforms_failed : AtInforms Q (.failed t s :: h) ↔ AtInforms Q h := by
  simp [AtInforms, Runs.AtEach]

@[simp] theorem atInforms_synced : AtInforms Q (.synced t :: h) ↔ AtInforms Q h := by
  simp [AtInforms, Runs.AtEach]

@[simp] theorem atInforms_inform :
    AtInforms Q (.inform t s p :: h) ↔ Q t s p h ∧ AtInforms Q h := by
  simp [AtInforms, Runs.AtEach]

variable {h Q}

theorem AtInforms.of_eq_append (hQ : AtInforms Q h) {later past : List AlarmEntry} {t : ℕ}
    {s p : Severity} (he : h = later ++ .inform t s p :: past) : Q t s p past :=
  Runs.AtEach.of_eq_append hQ he t s p rfl

end History

/-- What one alarm is configured with: the order of severities, its definition for
each severity, and whether the Active Alarm Table is in use. -/
structure AlarmConfig where
  order : SeverityOrder
  definition : Severity → AlarmTableDef
  ready : Bool
  own_severity : ∀ s, (definition s).isValid = true → (definition s).severity = s
  severity_defined : ∀ s, (definition s).isValid = true → s ≠ .undefinedSeverity

/-- What reaches one alarm of what happens to the agent. -/
inductive AlarmInput
  | request (severity : Severity)
  | resync
  | failure (severity : Severity)
  | pass (creation : RowCreation)
  | clock (later : Clock)
  | other

/-- Requests and failure reports are about severities with a definition. -/
def AlarmInput.Admissible (c : AlarmConfig) : AlarmInput → Prop
  | request s => (c.definition s).isValid = true
  | failure s => (c.definition s).isValid = true
  | _ => True

/-- One alarm with the definition its row shows and its history. -/
structure AlarmState where
  alarm : Alarm
  shown : Option AlarmTableDef
  history : List AlarmEntry

/-- A pass at the time `now` sends the alarm if its timer is due. -/
def AlarmState.pass (c : AlarmConfig) (now : ℕ) (creation : RowCreation) (x : AlarmState) :
    AlarmState :=
  if x.alarm.isDue now then
    let d := c.definition x.alarm.pending
    if d.isValid then
      { alarm := .popped d.severity
        shown := AlarmActiveTable.shownAfterTrap c.ready creation d x.shown
        history := .inform now d.severity x.alarm.current :: x.history }
    else { x with alarm := .popped x.alarm.current }
  else x

/-- The state of the automaton of a single alarm. -/
structure AlarmTrack extends AlarmState where
  now : Clock

/-- The automaton of a single alarm. -/
def AlarmTrack.step (c : AlarmConfig) (x : AlarmTrack) : AlarmInput → AlarmTrack
  | .request s =>
    { x with
      alarm := x.alarm.request c.order x.now.ms s
      history := .accepted x.now.ms s :: x.history }
  | .resync =>
    { x with alarm := x.alarm.resync x.now.ms, history := .synced x.now.ms :: x.history }
  | .failure s =>
    { x with alarm := x.alarm.failure x.now.ms s, history := .failed x.now.ms s :: x.history }
  | .pass creation => { x with toAlarmState := x.toAlarmState.pass c x.now.ms creation }
  | .clock later => { x with now := x.now.advance later }
  | .other => x

namespace AlarmState

variable {c : AlarmConfig} {now : ℕ} {creation : RowCreation} {x : AlarmState}

theorem pass_of_not_due (h : x.alarm.isDue now = false) : x.pass c now creation = x := by
  simp [pass, h]

theorem isDue_pass : (x.pass c now creation).alarm.isDue now = false := by
  cases hd : x.alarm.isDue now with
  | false => rw [pass_of_not_due hd, hd]
  | true =>
    unfold pass
    rw [if_pos hd]
    dsimp only
    split <;> rfl

/-- The timer that popped is out of the heap, so a second pass does nothing. -/
theorem pass_pass : (x.pass c now creation).pass c now creation = x.pass c now creation :=
  pass_of_not_due isDue_pass

end AlarmState
end ClearwaterSnmp
