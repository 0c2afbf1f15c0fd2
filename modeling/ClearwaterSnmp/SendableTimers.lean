import ClearwaterSnmp.AgentSimulation
import ClearwaterSnmp.AlarmInvariants
import ClearwaterSnmp.AlarmTables

namespace ClearwaterSnmp
open AlarmScheduler

/-! ## One alarm -/

/-- What can be sent of an alarm with these definitions. A timer outside the heap is held to it
as well, since it may go back into the heap as it is. -/
structure Alarm.Sendable (definition : Severity → AlarmTableDef) (a : Alarm) : Prop where
  pending_valid : a.pending ≠ .undefinedSeverity → (definition a.pending).isValid = true
  current_valid : a.current ≠ .undefinedSeverity → (definition a.current).isValid = true
  scheduled_pending : a.scheduled = true → a.pending ≠ .undefinedSeverity
  due_finite : a.pending ≠ .undefinedSeverity → a.due < uint64Max

namespace Alarm.Sendable

section Definition

variable {definition : Severity → AlarmTableDef} {a : Alarm} {s : Severity}

theorem popped (hs : s ≠ .undefinedSeverity → (definition s).isValid = true) :
    (Alarm.popped s).Sendable definition where
  pending_valid h := absurd rfl h
  current_valid := hs
  scheduled_pending h := absurd h Bool.false_ne_true
  due_finite h := absurd rfl h

theorem cancelled (h : a.Sendable definition) :
    Sendable definition { a with scheduled := false } where
  pending_valid := h.pending_valid
  current_valid := h.current_valid
  scheduled_pending hs := absurd hs Bool.false_ne_true
  due_finite := h.due_finite

theorem resumed (h : a.Sendable definition) (hp : a.pending ≠ .undefinedSeverity) :
    Sendable definition { a with scheduled := true } where
  pending_valid := h.pending_valid
  current_valid := h.current_valid
  scheduled_pending _ := hp
  due_finite := h.due_finite

end Definition

variable {c : AlarmConfig} {a : Alarm} {s : Severity} {clock : Clock}

theorem rescheduled (h : a.Sendable c.definition) {delay : ℕ} (hd : delay ≤ 30000)
    (hs : (c.definition s).isValid = true) :
    Sendable c.definition ⟨a.current, s, clock.ms + delay, true⟩ where
  pending_valid _ := hs
  current_valid := h.current_valid
  scheduled_pending _ := c.severity_defined s hs
  due_finite _ := by
    have hr := clock.in_range
    show clock.ms + delay < uint64Max
    omega

theorem request (h : a.Sendable c.definition) (hs : (c.definition s).isValid = true) :
    (a.request c.order clock.ms s).Sendable c.definition := by
  rcases Alarm.request_cases c.order clock s a with
      ⟨-, -, he⟩ | ⟨-, -, he⟩ | ⟨-, hp, he⟩ | ⟨-, -, he⟩ | ⟨-, -, he⟩
  · rw [he]
    exact h.cancelled
  · rw [he]
    exact h
  · rw [he]
    exact h.resumed (hp ▸ c.severity_defined s hs)
  · rw [he]
    exact h.rescheduled (Nat.zero_le _) hs
  · rw [he]
    exact h.rescheduled (Nat.le_refl _) hs

theorem resync (h : a.Sendable c.definition) : (a.resync clock.ms).Sendable c.definition := by
  rcases Alarm.resync_cases clock a with ⟨-, he⟩ | ⟨hc, hp, he⟩ | ⟨hc, -, he⟩
  · rw [he]
    exact h
  · rw [he]
    exact h.resumed (hp.trans_ne hc)
  · rw [he]
    exact h.rescheduled (Nat.zero_le _) (h.current_valid hc)

theorem failure (h : a.Sendable c.definition) (hs : (c.definition s).isValid = true) :
    (a.failure clock.ms s).Sendable c.definition := by
  rcases Alarm.failure_cases clock s a with ⟨-, he⟩ | ⟨-, -, hp, he⟩ | ⟨-, -, -, he⟩
  · rw [he]
    exact h
  · rw [he]
    exact h.resumed (hp ▸ c.severity_defined s hs)
  · rw [he]
    exact h.rescheduled (Nat.le_refl _) hs

theorem pass {x : AlarmState} (h : x.alarm.Sendable c.definition) (now : ℕ)
    (creation : RowCreation) : (x.pass c now creation).alarm.Sendable c.definition := by
  unfold AlarmState.pass
  split
  · dsimp only
    split
    · rename_i hv
      apply Sendable.popped
      intro _
      rw [c.own_severity _ hv]
      exact hv
    · exact .popped h.current_valid
  · exact h

theorem step {x : AlarmTrack} (h : x.alarm.Sendable c.definition) {u : AlarmInput}
    (hu : u.Admissible c) : (x.step c u).alarm.Sendable c.definition := by
  cases u with
  | request s => exact h.request hu
  | resync => exact h.resync
  | failure s => exact h.failure hu
  | pass creation => exact h.pass x.now.ms creation
  | clock later => exact h
  | other => exact h

end Alarm.Sendable

/-! ## The branches that are errors of logic, and the tables of severities -/

/-- `severity_to_state` -/
def severityStates : List ℕ := [2, 1, 2, 6, 5, 4, 3]

/-- `severity_to_string` -/
def severityStrings : List String :=
  ["UNDEFINED_SEVERITY", "CLEARED", "INDETERMINATE", "CRITICAL", "MAJOR", "MINOR", "WARNING"]

theorem severityStates_number (d : AlarmTableDef) :
    severityStates[d.severity.number]? = some d.state := by
  rw [AlarmTableDef.state]
  cases d.severity <;> rfl

theorem severityStrings_number (s : Severity) :
    severityStrings[s.number]? = some (AlarmTrapSender.severityToString s) := by
  cases s <;> rfl

namespace AlarmScheduler

variable {H : Type} (cfg : Setup H)

/-- `issue_alarm`, with no result if there is no manager or no enumerator for the severity. -/
def issueAlarmChecked (now : ℕ) (identifier : String) (s : AlarmScheduler H) :
    Option (AlarmScheduler H) :=
  match validateAlarmTrigger cfg.defs identifier with
  | none => some s
  | some (index, severity) =>
    match s.allAlarmsState[index]? with
    | none => none
    | some _ =>
      if (Severity.ofNumber severity).number = severity then
        some (issueAlarm cfg now identifier s)
      else none

/-- `handle_failed_alarm`, with no result if there is no manager. -/
def handleFailedAlarmChecked (now : ℕ) (d : AlarmTableDef) (s : AlarmScheduler H) :
    Option (AlarmScheduler H) :=
  match s.allAlarmsState[d.alarmIndex]? with
  | none => none
  | some _ => some (handleFailedAlarm cfg now d s)

end AlarmScheduler

namespace Agent

variable {H : Type} (cfg : Setup H)

/-- `send_trap`, with no result if a table of severities has no entry for the definition. -/
def sendTrapChecked (now : ℕ) (d : AlarmTableDef) (previous : Severity) (a : Agent H) :
    Option (Agent H) := do
  let _ ← severityStates[d.severity.number]?
  let _ ← severityStrings[d.severity.number]?
  some (a.sendTrap now d previous)

/-- The part of the loop of `heap_sender` that sends an alarm, with no result if there is no
definition or no manager. -/
def sendAlarmChecked (now : ℕ) (rows : AlarmIndex → RowCreation) (timer : AlarmTimer)
    (a : Agent H) : Option (Agent H) :=
  let d := cfg.defs.getDefinition timer.index timer.severity.number
  if d.isValid then
    match a.scheduler.allAlarmsState[timer.index]? with
    | none => none
    | some manager =>
      (a.sendTrapChecked now d manager.severity).map
        (updateAlarmState (rows timer.index) timer.index d)
  else none

def popTimerChecked (now : ℕ) (rows : AlarmIndex → RowCreation) (k : AlarmIndex) (a : Agent H) :
    Option (Agent H) :=
  match a.scheduler.allAlarmsState[k]? with
  | none => none
  | some owner =>
    (a.sendAlarmChecked cfg now rows owner.alarmTimer).map fun a =>
      { a with scheduler := a.scheduler.removeFromHeap cfg k }

def heapSenderLoopChecked (now : ℕ) (rows : AlarmIndex → RowCreation) :
    ℕ → Agent H → Option (Agent H)
  | 0, a => some a
  | n + 1, a =>
    match a.scheduler.nextDue cfg now with
    | none => some a
    | some k => (a.popTimerChecked cfg now rows k).bind (heapSenderLoopChecked now rows n)

def heapSenderPassChecked (now : ℕ) (rows : AlarmIndex → RowCreation) (a : Agent H) :
    Option (Agent H) :=
  a.heapSenderLoopChecked cfg now rows (cfg.heap.held a.scheduler.alarmHeap).card

end Agent

namespace World

variable {H : Type} (cfg : Setup H)

/-- An event that comes when the clock reads `x.1`, which may be before its last reading. -/
def stepAt (w : World H) (x : Clock × Event cfg.defs) : World H :=
  { w with now := x.1 }.step cfg x.2

/-- The same, with no result as soon as a call has none. -/
def stepChecked (w : World H) (x : Clock × Event cfg.defs) : Option (World H) :=
  let w := { w with now := x.1 }
  match x.2 with
  | .issueAlarm identifier =>
    (w.scheduler.issueAlarmChecked cfg w.now.ms identifier).map fun s =>
      { w with
        scheduler := s
        log := (acceptance cfg w.now.ms identifier).toList ++ w.log }
  | .handleFailedAlarm d _ =>
    (w.scheduler.handleFailedAlarmChecked cfg w.now.ms d).map fun s =>
      { w with
        scheduler := s
        log := .failed w.now.ms d.alarmIndex d.severity :: w.log }
  | .heapSender rows =>
    (w.toAgent.heapSenderPassChecked cfg w.now.ms rows).map fun a => { w with toAgent := a }
  | e => some (w.step cfg e)

end World

/-! ## All alarms -/

namespace AlarmScheduler

variable {H : Type} {cfg : Setup H} {s : AlarmScheduler H}

/-- The scheduler is well formed and all its alarms can be sent. -/
structure Sendable (cfg : Setup H) (s : AlarmScheduler H) : Prop where
  wellFormed : WellFormed cfg s
  alarms : ∀ i, (s.alarm cfg i).Sendable fun severity => cfg.defs.getDefinition i severity.number

theorem sendable_init : Sendable cfg (init cfg) where
  wellFormed := wellFormed_init
  alarms i := by
    rw [alarm_init]
    exact .popped (absurd rfl)

/-- The timer of an alarm in the heap has a definition to send. -/
theorem Sendable.timer (h : Sendable cfg s) {k : AlarmIndex}
    (hk : k ∈ cfg.heap.held s.alarmHeap) :
    ∃ m, s.allAlarmsState[k]? = some m ∧ m.alarmTimer.index = k ∧
      m.alarmTimer.popTime < uint64Max ∧
      (cfg.defs.getDefinition k m.alarmTimer.severity.number).isValid = true := by
  obtain ⟨m, hm⟩ := exists_manager (h.wellFormed.held_keys k hk)
  have halarm := h.alarms k
  rw [alarm_of_manager hm] at halarm
  have hp : m.alarmTimer.severity ≠ .undefinedSeverity :=
    halarm.scheduled_pending (by simpa [inHeap] using hk)
  exact ⟨m, hm, h.wellFormed.own_timer k m hm, halarm.due_finite hp, halarm.pending_valid hp⟩

theorem Sendable.issueAlarmChecked (h : Sendable cfg s) (now : ℕ) (identifier : String) :
    issueAlarmChecked cfg now identifier s = some (issueAlarm cfg now identifier s) := by
  rw [AlarmScheduler.issueAlarmChecked]
  cases ha : validateAlarmTrigger cfg.defs identifier with
  | none => rw [issueAlarm_of_rejected now ha]
  | some accepted =>
    obtain ⟨index, severity⟩ := accepted
    obtain ⟨d, hd, rfl, -⟩ := validateAlarmTrigger_loaded ha
    obtain ⟨m, hm⟩ := h.wellFormed.manager hd
    simp only [hm, number_ofNumber_of_validate ha, ↓reduceIte]

theorem Sendable.handleFailedAlarmChecked (h : Sendable cfg s) (now : ℕ) {d : AlarmTableDef}
    (hd : cfg.defs.Loaded d) :
    handleFailedAlarmChecked cfg now d s = some (handleFailedAlarm cfg now d s) := by
  obtain ⟨m, hm⟩ := h.wellFormed.manager hd
  simp only [AlarmScheduler.handleFailedAlarmChecked, hm]

end AlarmScheduler

namespace Agent
open AlarmScheduler

variable {H : Type} {cfg : Setup H} {a : Agent H} {now : ℕ} {rows : AlarmIndex → RowCreation}

theorem sendTrapChecked_eq (d : AlarmTableDef) (previous : Severity) :
    a.sendTrapChecked now d previous = some (a.sendTrap now d previous) := by
  rw [sendTrapChecked, severityStates_number, severityStrings_number]
  rfl

theorem popTimerChecked_eq (h : Sendable cfg a.scheduler) {k : AlarmIndex}
    (hk : k ∈ cfg.heap.held a.scheduler.alarmHeap) :
    a.popTimerChecked cfg now rows k = some (a.popTimer cfg now rows k) := by
  obtain ⟨m, hm, hidx, -, hv⟩ := h.timer hk
  rw [popTimer_of_manager hm hidx, if_pos hv]
  simp only [popTimerChecked, sendAlarmChecked, hm, hidx, if_pos hv, sendTrapChecked_eq,
    Option.map_some]

theorem sendable_popTimer (h : Sendable cfg a.scheduler) {k : AlarmIndex}
    (hk : k ∈ cfg.heap.held a.scheduler.alarmHeap) (hdue : a.scheduler.popTimes k ≤ now) :
    Sendable cfg (a.popTimer cfg now rows k).scheduler where
  wellFormed := wellFormed_popTimer h.wellFormed k
  alarms i := by
    have hstate : (a.popTimer cfg now rows k).alarmState cfg i = _ :=
      alarmState_popTimer h.wellFormed hk hdue i
    change ((a.popTimer cfg now rows k).alarmState cfg i).alarm.Sendable _
    rw [hstate]
    split
    · rename_i hi
      subst hi
      exact Alarm.Sendable.pass (c := cfg.alarmConfig a.activeTable.myHandler i)
        (x := a.alarmState cfg i) (h.alarms i) now (rows i)
    · exact h.alarms i

/-- Every timer that the loop pops has a definition and a manager. -/
theorem heapSenderLoopChecked_eq (n : ℕ) (h : Sendable cfg a.scheduler) :
    a.heapSenderLoopChecked cfg now rows n = some (a.heapSenderLoop cfg now rows n) := by
  induction n generalizing a with
  | zero => rfl
  | succ n ih =>
    rw [heapSenderLoopChecked, heapSenderLoop]
    cases hd : a.scheduler.nextDue cfg now with
    | none => rfl
    | some k =>
      obtain ⟨-, hk, hdue⟩ := cfg.heap.nextDue_eq_some hd
      dsimp only
      rw [popTimerChecked_eq h hk, Option.bind_some]
      exact ih (sendable_popTimer h hk hdue)

theorem heapSenderPassChecked_eq (h : Sendable cfg a.scheduler) :
    a.heapSenderPassChecked cfg now rows = some (a.heapSenderPass cfg now rows) :=
  heapSenderLoopChecked_eq _ h

end Agent

namespace World
open AlarmScheduler

variable {H : Type} {cfg : Setup H}

/-- What is kept by every step, whatever the clock says. -/
structure Sendable (cfg : Setup H) (ready : Bool) (w : World H) : Prop extends
    Sound cfg ready w where
  alarms : ∀ i, (w.scheduler.alarm cfg i).Sendable (cfg.alarmConfig ready i).definition

variable {ready : Bool} {w : World H}

theorem Sendable.scheduler (h : Sendable cfg ready w) : w.scheduler.Sendable cfg :=
  ⟨h.wellFormed, h.alarms⟩

theorem Sendable.at (h : Sendable cfg ready w) (c : Clock) :
    Sendable cfg ready { w with now := c } := ⟨⟨h.wellFormed, h.ready_eq⟩, h.alarms⟩

theorem Sendable.step (h : Sendable cfg ready w) (e : Event cfg.defs) :
    Sendable cfg ready (w.step cfg e) where
  toSound := h.toSound.step e
  alarms i := by
    rw [← track_alarm, track_step h.toSound e i]
    exact (h.alarms i).step (x := w.track cfg i) (e.inputFor_admissible ready i)

theorem Sendable.stepAt (h : Sendable cfg ready w) (x : Clock × Event cfg.defs) :
    Sendable cfg ready (w.stepAt cfg x) := (h.at x.1).step x.2

theorem Sendable.stepChecked (h : Sendable cfg ready w) (x : Clock × Event cfg.defs) :
    stepChecked cfg w x = some (w.stepAt cfg x) := by
  obtain ⟨c, e⟩ := x
  cases e with
  | issueAlarm identifier =>
    simp only [World.stepChecked, h.scheduler.issueAlarmChecked, Option.map_some]
    rfl
  | syncAlarms => rfl
  | handleFailedAlarm d hd =>
    simp only [World.stepChecked, h.scheduler.handleFailedAlarmChecked _ hd, Option.map_some]
    rfl
  | heapSender rows =>
    have hpass : w.toAgent.heapSenderPassChecked cfg c.ms rows =
        some (w.toAgent.heapSenderPass cfg c.ms rows) := Agent.heapSenderPassChecked_eq h.scheduler
    simp only [World.stepChecked, hpass, Option.map_some]
    rfl
  | clock later => rfl

theorem sendable_init (table : AlarmActiveTable) (now : Clock) :
    Sendable cfg table.myHandler (init cfg table now) where
  toSound := sound_init table now
  alarms := AlarmScheduler.sendable_init.alarms

end World

variable {H : Type}

/-- Managers, timers in the heap and current severities all go with a definition. -/
structure AllSendable (cfg : Setup H) (s : AlarmScheduler H) : Prop where
  keys : ∀ i, i ∈ s.allAlarmsState ↔ ∃ d, cfg.defs.Loaded d ∧ d.alarmIndex = i
  timers : ∀ k ∈ cfg.heap.held s.alarmHeap, ∃ m, s.allAlarmsState[k]? = some m ∧
    m.alarmTimer.index = k ∧ m.alarmTimer.popTime < uint64Max ∧
    ∃ d, cfg.defs.Loaded d ∧ d.alarmIndex = k ∧ d.severity = m.alarmTimer.severity
  current : ∀ (i : AlarmIndex) (m : SingleAlarmManager), s.allAlarmsState[i]? = some m →
    m.severity = .undefinedSeverity ∨
      ∃ d, cfg.defs.Loaded d ∧ d.alarmIndex = i ∧ d.severity = m.severity

theorem exists_loaded {defs : AlarmTableDefs} {i : AlarmIndex} {s : Severity}
    (h : (defs.getDefinition i s.number).isValid = true) :
    ∃ d, defs.Loaded d ∧ d.alarmIndex = i ∧ d.severity = s := by
  obtain ⟨hl, hi, hs⟩ := AlarmTableDefs.loaded_of_isValid h
  exact ⟨_, hl, hi, Severity.number_injective hs⟩

theorem AlarmScheduler.Sendable.allSendable {cfg : Setup H} {s : AlarmScheduler H}
    (h : Sendable cfg s) : AllSendable cfg s where
  keys := h.wellFormed.keys
  timers k hk := by
    obtain ⟨m, hm, hidx, hpop, hv⟩ := h.timer hk
    exact ⟨m, hm, hidx, hpop, exists_loaded hv⟩
  current i m hm := by
    have halarm := h.alarms i
    rw [alarm_of_manager hm] at halarm
    by_cases hs : m.severity = .undefinedSeverity
    · exact Or.inl hs
    · exact Or.inr (exists_loaded (halarm.current_valid hs))

/-- In every run, whatever the clock says: what is scheduled can be sent, and no call gets into a
branch for an error of logic, skips a timer or looks up a severity that is not in the tables. -/
theorem scheduled_timers_sendable (cfg : Setup H) (table : AlarmActiveTable) (now : Clock)
    (es : List (Clock × Event cfg.defs)) :
    AllSendable cfg (Runs.run (World.stepAt cfg) (World.init cfg table now) es).scheduler ∧
      Runs.Along (World.stepAt cfg) (fun w x => w.stepChecked cfg x = some (w.stepAt cfg x))
        (World.init cfg table now) es := by
  have hinv (w : World H) (x : Clock × Event cfg.defs)
      (h : World.Sendable cfg table.myHandler w) :
      World.Sendable cfg table.myHandler (w.stepAt cfg x) := h.stepAt x
  constructor
  · exact (Runs.run_invariant hinv (World.sendable_init table now) es).scheduler.allSendable
  · apply Runs.along_of_invariant hinv _ (World.sendable_init table now)
    exact fun w x h => h.stepChecked x

end ClearwaterSnmp
