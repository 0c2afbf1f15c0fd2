import ClearwaterSnmp.Runs
import ClearwaterSnmp.AlarmScheduler

namespace ClearwaterSnmp
open Std

/-- A record of what happened, which the code neither keeps nor reads: an
accepted `issue_alarm`, a call of `send_trap` with the severity that the manager
held just before it, a failure report, and a `sync_alarms`. -/
inductive Entry
  | accepted (time : ℕ) (index : AlarmIndex) (severity : Severity)
  | inform (time : ℕ) (d : AlarmTableDef) (previous : Severity)
  | failed (time : ℕ) (index : AlarmIndex) (severity : Severity)
  | synced (time : ℕ)
deriving DecidableEq, Repr

/-- The scheduler with the table it updates. The log is newest first. -/
structure Agent (H : Type) where
  scheduler : AlarmScheduler H
  activeTable : AlarmActiveTable
  log : List Entry

namespace Agent

variable {H : Type} (cfg : Setup H)

/-- `send_trap`, for a manager whose current severity is `previous`. -/
def sendTrap (now : ℕ) (d : AlarmTableDef) (previous : Severity) (a : Agent H) : Agent H :=
  { a with log := .inform now d previous :: a.log }

/-- `SingleAlarmManager::update_alarm_state` -/
def updateAlarmState (creation : RowCreation) (i : AlarmIndex) (d : AlarmTableDef) (a : Agent H) :
    Agent H :=
  { a with
    scheduler := { a.scheduler with
      allAlarmsState := a.scheduler.allAlarmsState.modify i
        fun m => { m with severity := d.severity } }
    activeTable := a.activeTable.trapHandler creation d }

/-- The part of the loop of `heap_sender` that sends the alarm of a due timer. -/
def sendAlarm (now : ℕ) (rows : AlarmIndex → RowCreation) (timer : AlarmTimer) (a : Agent H) :
    Agent H :=
  let d := cfg.defs.getDefinition timer.index timer.severity.number
  if d.isValid then
    match a.scheduler.allAlarmsState[timer.index]? with
    -- a logic error to the source, which has sent the trap by then
    | none => a.sendTrap now d .undefinedSeverity
    | some manager =>
      updateAlarmState (rows timer.index) timer.index d (a.sendTrap now d manager.severity)
  else a

/-- The body of the loop of `heap_sender`, for the timer of the manager `k`. -/
def popTimer (now : ℕ) (rows : AlarmIndex → RowCreation) (k : AlarmIndex) (a : Agent H) :
    Agent H :=
  match a.scheduler.allAlarmsState[k]? with
  | none => a
  | some owner =>
    let a := a.sendAlarm cfg now rows owner.alarmTimer
    { a with scheduler := a.scheduler.removeFromHeap cfg k }

/-- The inner loop of `heap_sender`, for at most the given number of rounds. -/
def heapSenderLoop (now : ℕ) (rows : AlarmIndex → RowCreation) : ℕ → Agent H → Agent H
  | 0, a => a
  | n + 1, a =>
    match a.scheduler.nextDue cfg now with
    | none => a
    | some k => heapSenderLoop now rows n (a.popTimer cfg now rows k)

/-- One pass of `heap_sender`. Each round takes a timer out of the heap, so the
number of timers in it is enough; `SendsDue.nextDue_eq_none` says that the loop
condition is false at the end. -/
def heapSenderPass (now : ℕ) (rows : AlarmIndex → RowCreation) (a : Agent H) : Agent H :=
  a.heapSenderLoop cfg now rows (cfg.heap.held a.scheduler.alarmHeap).card

end Agent

/-- A reading of `Utils::get_time`, in milliseconds. Adding a delay to it stays
below the end of the 64-bit range, some 584 million years ahead. -/
structure Clock where
  ms : ℕ
  in_range : ms + 30000 < uint64Max

/-- The clock moves to a later reading and never goes back. -/
def Clock.advance (c later : Clock) : Clock := if c.ms ≤ later.ms then later else c

structure World (H : Type) extends Agent H where
  now : Clock

/-- What can happen to the agent. A failure report is about a loaded definition,
since it carries back the pointer that was given to `send_v2trap`; a pass brings
the outcome of the row creation for each alarm it sends. -/
inductive Event (defs : AlarmTableDefs)
  | issueAlarm (identifier : String)
  | syncAlarms
  | handleFailedAlarm (d : AlarmTableDef) (loaded : defs.Loaded d)
  | heapSender (rows : AlarmIndex → RowCreation)
  | clock (later : Clock)

namespace World

variable {H : Type} (cfg : Setup H)

/-- The entry for an `issue_alarm` that is accepted. -/
def acceptance (now : ℕ) (identifier : String) : Option Entry :=
  (validateAlarmTrigger cfg.defs identifier).map fun (index, severity) =>
    .accepted now index (Severity.ofNumber severity)

def step (w : World H) : Event cfg.defs → World H
  | .issueAlarm identifier =>
    { w with
      scheduler := w.scheduler.issueAlarm cfg w.now.ms identifier
      log := (acceptance cfg w.now.ms identifier).toList ++ w.log }
  | .syncAlarms =>
    { w with
      scheduler := w.scheduler.syncAlarms cfg w.now.ms
      log := .synced w.now.ms :: w.log }
  | .handleFailedAlarm d _ =>
    { w with
      scheduler := w.scheduler.handleFailedAlarm cfg w.now.ms d
      log := .failed w.now.ms d.alarmIndex d.severity :: w.log }
  | .heapSender rows => { w with toAgent := w.toAgent.heapSenderPass cfg w.now.ms rows }
  | .clock later => { w with now := w.now.advance later }

/-- The agent when the scheduler has been constructed, at the time `now`. -/
def init (table : AlarmActiveTable) (now : Clock) : World H :=
  ⟨⟨.init cfg, table, []⟩, now⟩

/-- The agent after the events `es`. -/
def run (table : AlarmActiveTable) (now : Clock) (es : List (Event cfg.defs)) : World H :=
  Runs.run (step cfg) (init cfg table now) es

end World

/-- Two of the alarms of the unit tests. -/
def AlarmTableDefs.sample : AlarmTableDefs :=
  let cleared : SeverityDetails := ⟨.cleared, "Process failure cleared",
    "The process has been restored to normal operation.", "Cause", "Effect", "Action", "", ""⟩
  let critical : SeverityDetails := ⟨.critical, "Process failure",
    "Monit has detected that the process has failed.", "Cause", "Effect", "Action", "", ""⟩
  let first : AlarmDefinition := ⟨"PROCESS_FAIL", 1000, 163, [cleared, critical]⟩
  let second : AlarmDefinition := ⟨"PROCESS_FAIL", 1001, 163, [cleared, critical]⟩
  AlarmTableDefs.empty |>.insertDef first cleared |>.insertDef first critical
    |>.insertDef second cleared |>.insertDef second critical

/-- A small installation, on which runs can be evaluated. -/
def Setup.sample : Setup (List AlarmIndex) where
  heap := .scanning AlarmIndex
  order := .byUrgency
  defs := .sample
  severity_defined d hd := by
    have hall : ∀ d ∈ AlarmTableDefs.sample.iterate, d.severity ≠ .undefinedSeverity := by decide
    exact hall d (AlarmTableDefs.mem_iterate.mpr hd)

/-- Row creation that succeeds, on the first of January 2017. -/
def RowCreation.sample : AlarmIndex → RowCreation :=
  fun _ => .created ⟨2017, 1, 1, 0, 0, 0, 0, 43, 0, 0⟩

end ClearwaterSnmp
