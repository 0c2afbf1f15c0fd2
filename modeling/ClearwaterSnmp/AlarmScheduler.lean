import ClearwaterSnmp.TimerHeap
import ClearwaterSnmp.AlarmIdentifier
import ClearwaterSnmp.AlarmActiveTable

namespace ClearwaterSnmp
open Std

def uint64Max : ℕ := 2 ^ 64 - 1

def alarmReducedDelay : ℕ := 30000
def alarmRetryDelay : ℕ := 30000
def alarmResyncDelay : ℕ := 0
def alarmIncreasedDelay : ℕ := 0

/-- What the scheduler is built on: a timer heap, the order of severities and
the loaded definitions, none of which has the undefined severity. -/
structure Setup (H : Type) where
  heap : TimerHeap AlarmIndex H
  order : SeverityOrder
  defs : AlarmTableDefs
  severity_defined : ∀ d, defs.Loaded d → d.severity ≠ .undefinedSeverity

structure AlarmTimer where
  popTime : ℕ
  severity : Severity
  index : AlarmIndex
deriving DecidableEq, Repr

/-- The constructor of `AlarmTimer`. -/
def AlarmTimer.new (index : AlarmIndex) : AlarmTimer := ⟨uint64Max, .undefinedSeverity, index⟩

structure SingleAlarmManager where
  alarmTimer : AlarmTimer
  severity : Severity
deriving DecidableEq, Repr

/-- The scheduler. A manager owns its timer, so a pointer to either is named by
the key of the manager in `allAlarmsState`, and the heap holds such keys.
`condSignalled` says that `_cond` was signalled since the sender last waited. -/
structure AlarmScheduler (H : Type) where
  allAlarmsState : ExtTreeMap AlarmIndex SingleAlarmManager
  alarmHeap : H
  condSignalled : Bool

namespace AlarmScheduler

variable {H : Type} (cfg : Setup H)

/-- The managers the constructor makes, one for each alarm index. -/
def populate (ds : List AlarmTableDef) : ExtTreeMap AlarmIndex SingleAlarmManager :=
  ds.foldl (fun managers d =>
    managers.insertIfNew d.alarmIndex ⟨.new d.alarmIndex, .undefinedSeverity⟩) ∅

/-- The constructor. -/
def init : AlarmScheduler H := ⟨populate cfg.defs.iterate, cfg.heap.empty, false⟩

/-- The pop times that the heap can read from the timers. -/
def popTimes (s : AlarmScheduler H) (i : AlarmIndex) : ℕ :=
  ((s.allAlarmsState[i]?).map fun m => m.alarmTimer.popTime).getD uint64Max

/-- `in_heap()` -/
def inHeap (s : AlarmScheduler H) (i : AlarmIndex) : Bool := i ∈ cfg.heap.held s.alarmHeap

def signal (s : AlarmScheduler H) : AlarmScheduler H := { s with condSignalled := true }

/-- Writes to the timer of a manager, through the pointer. -/
def modifyTimer (i : AlarmIndex) (f : AlarmTimer → AlarmTimer) (s : AlarmScheduler H) :
    AlarmScheduler H :=
  { s with allAlarmsState :=
      s.allAlarmsState.modify i fun m => { m with alarmTimer := f m.alarmTimer } }

/-- `_alarm_heap.insert`, of the timer of the manager `i`. -/
def heapInsert (i : AlarmIndex) (s : AlarmScheduler H) : AlarmScheduler H :=
  { s with alarmHeap := cfg.heap.insert s.popTimes i s.alarmHeap }

/-- `_alarm_heap.remove` -/
def heapRemove (i : AlarmIndex) (s : AlarmScheduler H) : AlarmScheduler H :=
  { s with alarmHeap := cfg.heap.remove s.popTimes i s.alarmHeap }

/-- `_alarm_heap.rebalance` -/
def heapRebalance (i : AlarmIndex) (s : AlarmScheduler H) : AlarmScheduler H :=
  { s with alarmHeap := cfg.heap.rebalance s.popTimes i s.alarmHeap }

/-- `AlarmTimer::update_pop_time` -/
def updatePopTime (now : ℕ) (i : AlarmIndex) (timeToAdd : ℕ) (s : AlarmScheduler H) :
    AlarmScheduler H :=
  heapRebalance cfg i
    (s.modifyTimer i fun t => { t with popTime := (now + timeToAdd) % 2 ^ 64 })

/-- `AlarmTimer::remove_from_heap` -/
def removeFromHeap (i : AlarmIndex) (s : AlarmScheduler H) : AlarmScheduler H :=
  heapRemove cfg i
    (s.modifyTimer i fun t => { t with popTime := uint64Max, severity := .undefinedSeverity })

/-- `SingleAlarmManager::change_schedule` -/
def changeSchedule (now : ℕ) (i : AlarmIndex) (manager : SingleAlarmManager)
    (newSeverity : Severity) (timeToDelay : ℕ) (s : AlarmScheduler H) : AlarmScheduler H :=
  -- a timer that holds the severity already keeps its pop time, in the heap or not
  if newSeverity ≠ manager.alarmTimer.severity then
    updatePopTime cfg now i timeToDelay
      (s.modifyTimer i fun t => { t with severity := newSeverity })
  else s

/-- `change_schedule_for_alarm`. The timer enters the heap with the pop time it
has, which is then changed only if the severity is. -/
def changeScheduleForAlarm (now : ℕ) (i : AlarmIndex) (manager : SingleAlarmManager)
    (severity : Severity) (alarmPopTime : ℕ) (s : AlarmScheduler H) : AlarmScheduler H :=
  changeSchedule cfg now i manager severity alarmPopTime (heapInsert cfg i s)

/-- `remove_outdated_alarm_from_heap`. Unlike `remove_from_heap` it leaves the
severity and the pop time of the timer as they are. -/
def removeOutdatedAlarmFromHeap (i : AlarmIndex) (manager : SingleAlarmManager)
    (s : AlarmScheduler H) : AlarmScheduler H :=
  if manager.severity ≠ manager.alarmTimer.severity then
    signal (heapRemove cfg i s)
  else s

/-- `issue_alarm`; the issuer is not read. -/
def issueAlarm (now : ℕ) (identifier : String) (s : AlarmScheduler H) : AlarmScheduler H :=
  match validateAlarmTrigger cfg.defs identifier with
  | none => s
  | some (index, severity) =>
    match s.allAlarmsState[index]? with
    | none => s
    | some manager =>
      let severityAsEnum := Severity.ofNumber severity
      if severityAsEnum = manager.severity then
        -- the severity has not changed, so a timer for another one is outdated
        removeOutdatedAlarmFromHeap cfg index manager s
      else if cfg.order.gt severityAsEnum manager.severity then
        signal (changeScheduleForAlarm cfg now index manager severityAsEnum alarmIncreasedDelay s)
      else
        signal (changeScheduleForAlarm cfg now index manager severityAsEnum alarmReducedDelay s)

/-- The body of the loop of `sync_alarms`. -/
def syncAlarm (now : ℕ) (s : AlarmScheduler H) (i : AlarmIndex) : AlarmScheduler H :=
  match s.allAlarmsState[i]? with
  | none => s
  | some manager =>
    if manager.severity ≠ .undefinedSeverity then
      changeScheduleForAlarm cfg now i manager manager.severity alarmResyncDelay s
    else s

/-- `sync_alarms` -/
def syncAlarms (now : ℕ) (s : AlarmScheduler H) : AlarmScheduler H :=
  signal (s.allAlarmsState.keys.foldl (syncAlarm cfg now) s)

/-- `SingleAlarmManager::should_resend_alarm` -/
def shouldResendAlarm (i : AlarmIndex) (manager : SingleAlarmManager) (severity : Severity)
    (s : AlarmScheduler H) : Bool :=
  manager.severity = severity && !s.inHeap cfg i

/-- `handle_failed_alarm` -/
def handleFailedAlarm (now : ℕ) (d : AlarmTableDef) (s : AlarmScheduler H) : AlarmScheduler H :=
  match s.allAlarmsState[d.alarmIndex]? with
  | none => s
  | some manager =>
    if shouldResendAlarm cfg d.alarmIndex manager d.severity s then
      signal (changeScheduleForAlarm cfg now d.alarmIndex manager d.severity alarmRetryDelay s)
    else s

/-- `get_next_timer`, if the timer's pop time has come. -/
def nextDue (now : ℕ) (s : AlarmScheduler H) : Option AlarmIndex :=
  cfg.heap.nextDue s.popTimes now s.alarmHeap

end AlarmScheduler
end ClearwaterSnmp
