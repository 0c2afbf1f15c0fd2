import ClearwaterSnmp.ConcurrentCalls
import ClearwaterSnmp.AlarmAgent

namespace ClearwaterSnmp
open Locking

/-! The operations of the scheduler access by access, on the agent that the threads share under
`_lock`. An access reads or writes one manager, the heap, the active table or `_cond`; a pointer
to a manager is its key. -/

namespace World

variable {H : Type} (cfg : Setup H)

def onScheduler (f : AlarmScheduler H → AlarmScheduler H) : Prog (World H) Unit :=
  .write fun w => { w with scheduler := f w.scheduler }

/-- `Utils::get_time`, once the clock has come to `later`. -/
def getTime (later : Clock) : Prog (World H) ℕ := do
  .write fun w => { w with now := w.now.advance later }
  return (← .read).now.ms

def record (entry : Entry) : Prog (World H) Unit :=
  .write fun w => { w with log := entry :: w.log }

/-- Through the iterator that `find` returns. -/
def manager (i : AlarmIndex) : Prog (World H) (Option SingleAlarmManager) := do
  return (← .read).scheduler.allAlarmsState[i]?

/-- `change_schedule`, with `update_pop_time` -/
def changeScheduleProgram (now : ℕ) (i : AlarmIndex) (newSeverity : Severity) (timeToDelay : ℕ) :
    Prog (World H) Unit := do
  match ← manager i with
  | none => return
  | some m =>
    if newSeverity ≠ m.alarmTimer.severity then
      onScheduler (AlarmScheduler.modifyTimer i fun t => { t with severity := newSeverity })
      onScheduler (AlarmScheduler.modifyTimer i fun t =>
        { t with popTime := (now + timeToDelay) % 2 ^ 64 })
      onScheduler (AlarmScheduler.heapRebalance cfg i)

/-- `change_schedule_for_alarm` -/
def changeScheduleForAlarmProgram (now : ℕ) (i : AlarmIndex) (severity : Severity)
    (alarmPopTime : ℕ) : Prog (World H) Unit := do
  onScheduler (AlarmScheduler.heapInsert cfg i)
  changeScheduleProgram cfg now i severity alarmPopTime

/-- `remove_outdated_alarm_from_heap` -/
def removeOutdatedProgram (i : AlarmIndex) : Prog (World H) Unit := do
  match ← manager i with
  | none => return
  | some m =>
    if m.severity ≠ m.alarmTimer.severity then
      onScheduler (AlarmScheduler.heapRemove cfg i)
      onScheduler AlarmScheduler.signal

/-- What `issue_alarm` does under the lock, for a trigger that is valid. -/
def issueAlarmProgram (later : Clock) (index : AlarmIndex) (severity : Severity) :
    Prog (World H) Unit := do
  let now ← getTime later
  record (.accepted now index severity)
  match ← manager index with
  | none => return
  | some m =>
    if severity = m.severity then
      removeOutdatedProgram cfg index
    else
      match ← manager index with
      | none => return
      | some m =>
        if cfg.order.gt severity m.severity then
          changeScheduleForAlarmProgram cfg now index severity alarmIncreasedDelay
          onScheduler AlarmScheduler.signal
        else
          changeScheduleForAlarmProgram cfg now index severity alarmReducedDelay
          onScheduler AlarmScheduler.signal

/-- The loop of `sync_alarms`, over the managers `keys`. -/
def syncLoop (now : ℕ) : List AlarmIndex → Prog (World H) Unit
  | [] => return
  | i :: keys => do
    match ← manager i with
    | none => pure ()
    | some m =>
      if m.severity ≠ .undefinedSeverity then
        changeScheduleForAlarmProgram cfg now i m.severity alarmResyncDelay
    syncLoop now keys

/-- `sync_alarms` -/
def syncAlarmsProgram (later : Clock) : Prog (World H) Unit := do
  let now ← getTime later
  record (.synced now)
  let w ← .read
  syncLoop cfg now w.scheduler.allAlarmsState.keys
  onScheduler AlarmScheduler.signal

/-- `handle_failed_alarm`, in the section in which Net-SNMP calls it. -/
def handleFailedAlarmProgram (later : Clock) (d : AlarmTableDef) : Prog (World H) Unit := do
  let now ← getTime later
  record (.failed now d.alarmIndex d.severity)
  match ← manager d.alarmIndex with
  | none => return
  | some m =>
    if m.severity = d.severity then
      let w ← .read
      if !w.scheduler.inHeap cfg d.alarmIndex then
        changeScheduleForAlarmProgram cfg now d.alarmIndex d.severity alarmRetryDelay
        onScheduler AlarmScheduler.signal

/-- `send_trap` and `update_alarm_state`, for a due timer. -/
def sendAlarmProgram (now : ℕ) (rows : AlarmIndex → RowCreation) (timer : AlarmTimer) :
    Prog (World H) Unit := do
  let d := cfg.defs.getDefinition timer.index timer.severity.number
  if d.isValid then
    let previous := ((← manager timer.index).map (·.severity)).getD .undefinedSeverity
    record (.inform now d previous)
    match ← manager timer.index with
    | none => return
    | some _ =>
      onScheduler fun s => { s with
        allAlarmsState := s.allAlarmsState.modify timer.index fun m =>
          { m with severity := d.severity } }
      .write fun w => { w with activeTable := w.activeTable.trapHandler (rows timer.index) d }

/-- A round of the inner loop of `heap_sender`, with `remove_from_heap`. -/
def popTimerProgram (now : ℕ) (rows : AlarmIndex → RowCreation) (k : AlarmIndex) :
    Prog (World H) Unit := do
  match ← manager k with
  | none => return
  | some owner =>
    sendAlarmProgram cfg now rows owner.alarmTimer
    onScheduler (AlarmScheduler.modifyTimer k fun t =>
      { t with popTime := uint64Max, severity := .undefinedSeverity })
    onScheduler (AlarmScheduler.heapRemove cfg k)

def heapSenderLoopProgram (now : ℕ) (rows : AlarmIndex → RowCreation) :
    ℕ → Prog (World H) Unit
  | 0 => return
  | n + 1 => do
    let w ← .read
    match w.scheduler.nextDue cfg now with
    | none => return
    | some k =>
      popTimerProgram cfg now rows k
      heapSenderLoopProgram now rows n

/-- What `heap_sender` does from getting the lock to waiting, which gives it back. -/
def heapSenderProgram (later : Clock) (rows : AlarmIndex → RowCreation) :
    Prog (World H) Unit := do
  let now ← getTime later
  let w ← .read
  heapSenderLoopProgram cfg now rows (cfg.heap.held w.scheduler.alarmHeap).card

/-- What a thread does with the scheduler at a time, and how the rows are created for what it
sends. -/
inductive Call (defs : AlarmTableDefs)
  | issueAlarm (later : Clock) (identifier : String)
  | syncAlarms (later : Clock)
  | handleFailedAlarm (later : Clock) (d : AlarmTableDef) (loaded : defs.Loaded d)
  | heapSender (later : Clock) (rows : AlarmIndex → RowCreation)

/-- The call as a program. The identifier is validated before the lock is taken. -/
def Call.program : Call cfg.defs → Prog (World H) Unit
  | .issueAlarm later identifier =>
    match validateAlarmTrigger cfg.defs identifier with
    | none => .ret ()
    | some (index, severity) =>
      .locked (issueAlarmProgram cfg later index (Severity.ofNumber severity))
  | .syncAlarms later => .locked (syncAlarmsProgram cfg later)
  | .handleFailedAlarm later d _ => .locked (handleFailedAlarmProgram cfg later d)
  | .heapSender later rows => .locked (heapSenderProgram cfg later rows)

/-- The call as events of the agent. -/
def Call.events : Call cfg.defs → List (Event cfg.defs)
  | .issueAlarm later identifier =>
    if (validateAlarmTrigger cfg.defs identifier).isSome then
      [.clock later, .issueAlarm identifier]
    else []
  | .syncAlarms later => [.clock later, .syncAlarms]
  | .handleFailedAlarm later d loaded => [.clock later, .handleFailedAlarm d loaded]
  | .heapSender later rows => [.clock later, .heapSender rows]

variable {cfg}

theorem nested_manager (i : AlarmIndex) : (manager i : Prog (World H) _).Nested 0 :=
  Prog.nested_read.seq fun _ => Prog.nested_pure _

theorem nested_getTime (later : Clock) : (getTime later : Prog (World H) _).Nested 0 :=
  (Prog.nested_write _).seq fun _ => Prog.nested_read.seq fun _ => Prog.nested_pure _

theorem nested_changeScheduleForAlarmProgram (now : ℕ) (i : AlarmIndex) (severity : Severity)
    (alarmPopTime : ℕ) :
    (changeScheduleForAlarmProgram cfg now i severity alarmPopTime).Nested 0 := by
  refine (Prog.nested_write _).seq fun _ => (nested_manager i).seq fun m => ?_
  split
  · exact Prog.nested_pure _
  · split
    · refine (Prog.nested_write _).seq fun _ => (Prog.nested_write _).seq fun _ => ?_
      exact Prog.nested_write _
    · exact Prog.nested_pure _

theorem nested_removeOutdatedProgram (i : AlarmIndex) :
    (removeOutdatedProgram cfg i).Nested 0 := by
  refine (nested_manager i).seq fun m => ?_
  split
  · exact Prog.nested_pure _
  · split
    · exact (Prog.nested_write _).seq fun _ => Prog.nested_write _
    · exact Prog.nested_pure _

theorem nested_issueAlarmProgram (later : Clock) (index : AlarmIndex) (severity : Severity) :
    (issueAlarmProgram cfg later index severity).Nested 0 := by
  have hchange (now delay : ℕ) :
      (changeScheduleForAlarmProgram cfg now index severity delay).Nested 0 :=
    nested_changeScheduleForAlarmProgram now index severity delay
  refine (nested_getTime later).seq fun now => (Prog.nested_write _).seq fun _ => ?_
  refine (nested_manager index).seq fun m => ?_
  split
  · exact Prog.nested_pure _
  · split
    · exact nested_removeOutdatedProgram index
    · refine (nested_manager index).seq fun m => ?_
      split
      · exact Prog.nested_pure _
      · split
        · exact (hchange _ _).seq fun _ => Prog.nested_write _
        · exact (hchange _ _).seq fun _ => Prog.nested_write _

theorem nested_syncLoop (now : ℕ) (keys : List AlarmIndex) :
    (syncLoop cfg now keys).Nested 0 := by
  induction keys with
  | nil => exact Prog.nested_pure _
  | cons i keys ih =>
    refine (nested_manager i).seq fun m => ?_
    split
    · exact ih
    · split
      · exact (nested_changeScheduleForAlarmProgram _ _ _ _).seq fun _ => ih
      · exact ih

theorem nested_handleFailedAlarmProgram (later : Clock) (d : AlarmTableDef) :
    (handleFailedAlarmProgram cfg later d).Nested 0 := by
  refine (nested_getTime later).seq fun now => (Prog.nested_write _).seq fun _ => ?_
  refine (nested_manager _).seq fun m => ?_
  split
  · exact Prog.nested_pure _
  · split
    · refine Prog.nested_read.seq fun w => ?_
      split
      · exact (nested_changeScheduleForAlarmProgram _ _ _ _).seq fun _ => Prog.nested_write _
      · exact Prog.nested_pure _
    · exact Prog.nested_pure _

theorem nested_sendAlarmProgram (now : ℕ) (rows : AlarmIndex → RowCreation)
    (timer : AlarmTimer) : (sendAlarmProgram cfg now rows timer).Nested 0 := by
  unfold sendAlarmProgram
  simp only
  split
  · refine (nested_manager _).seq fun _ => (Prog.nested_write _).seq fun _ => ?_
    refine (nested_manager _).seq fun m => ?_
    split
    · exact Prog.nested_pure _
    · exact (Prog.nested_write _).seq fun _ => Prog.nested_write _
  · exact Prog.nested_pure _

theorem nested_heapSenderLoopProgram (now : ℕ) (rows : AlarmIndex → RowCreation) (n : ℕ) :
    (heapSenderLoopProgram cfg now rows n).Nested 0 := by
  induction n with
  | zero => exact Prog.nested_pure _
  | succ n ih =>
    refine Prog.nested_read.seq fun w => ?_
    split
    · exact Prog.nested_pure _
    · refine Prog.Nested.seq ?_ fun _ => ih
      refine (nested_manager _).seq fun m => ?_
      split
      · exact Prog.nested_pure _
      · refine (nested_sendAlarmProgram _ _ _).seq fun _ => ?_
        exact (Prog.nested_write _).seq fun _ => Prog.nested_write _

theorem Call.isCall_program (call : Call cfg.defs) : (call.program cfg).IsCall := by
  cases call with
  | issueAlarm later identifier =>
    rw [Call.program]
    split
    · exact .inr ⟨(), rfl⟩
    · exact .inl ⟨_, nested_issueAlarmProgram _ _ _, rfl⟩
  | syncAlarms later =>
    refine .inl ⟨_, ?_, rfl⟩
    refine (nested_getTime later).seq fun now => (Prog.nested_write _).seq fun _ => ?_
    exact Prog.nested_read.seq fun w => (nested_syncLoop _ _).seq fun _ => Prog.nested_write _
  | handleFailedAlarm later d loaded =>
    exact .inl ⟨_, nested_handleFailedAlarmProgram later d, rfl⟩
  | heapSender later rows =>
    refine .inl ⟨_, (nested_getTime later).seq fun now => ?_, rfl⟩
    exact Prog.nested_read.seq fun w => nested_heapSenderLoopProgram _ _ _

@[simp] theorem exec_onScheduler (f : AlarmScheduler H → AlarmScheduler H) (w : World H) :
    (onScheduler f).exec w = ({ w with scheduler := f w.scheduler }, ()) := rfl

@[simp] theorem exec_getTime (later : Clock) (w : World H) :
    (getTime later).exec w = ({ w with now := w.now.advance later }, (w.now.advance later).ms) :=
  rfl

@[simp] theorem exec_record (entry : Entry) (w : World H) :
    (record entry).exec w = ({ w with log := entry :: w.log }, ()) := rfl

@[simp] theorem exec_manager (i : AlarmIndex) (w : World H) :
    (manager i).exec w = (w, w.scheduler.allAlarmsState[i]?) := rfl

theorem exec_changeScheduleForAlarmProgram {s : AlarmScheduler H} {i : AlarmIndex}
    {m : SingleAlarmManager} (hm : s.allAlarmsState[i]? = some m) (table : AlarmActiveTable)
    (log : List Entry) (clock : Clock) (now : ℕ) (severity : Severity) (alarmPopTime : ℕ) :
    (changeScheduleForAlarmProgram cfg now i severity alarmPopTime).exec ⟨⟨s, table, log⟩, clock⟩ =
      (⟨⟨s.changeScheduleForAlarm cfg now i m severity alarmPopTime, table, log⟩, clock⟩, ()) := by
  have hm' : (s.heapInsert cfg i).allAlarmsState[i]? = some m := hm
  simp only [changeScheduleForAlarmProgram, Prog.exec_monad_bind, exec_onScheduler,
    changeScheduleProgram, exec_manager, hm', AlarmScheduler.changeScheduleForAlarm,
    AlarmScheduler.changeSchedule]
  split <;> rfl

theorem exec_removeOutdatedProgram {s : AlarmScheduler H} {i : AlarmIndex}
    {m : SingleAlarmManager} (hm : s.allAlarmsState[i]? = some m) (table : AlarmActiveTable)
    (log : List Entry) (clock : Clock) :
    (removeOutdatedProgram cfg i).exec ⟨⟨s, table, log⟩, clock⟩ =
      (⟨⟨s.removeOutdatedAlarmFromHeap cfg i m, table, log⟩, clock⟩, ()) := by
  simp only [removeOutdatedProgram, Prog.exec_monad_bind, exec_manager, hm,
    AlarmScheduler.removeOutdatedAlarmFromHeap]
  split <;> rfl

theorem exec_syncLoop (now : ℕ) (keys : List AlarmIndex) (w : World H) :
    (syncLoop cfg now keys).exec w =
      ({ w with scheduler := keys.foldl (AlarmScheduler.syncAlarm cfg now) w.scheduler }, ()) := by
  induction keys generalizing w with
  | nil => rfl
  | cons i keys ih =>
    rw [List.foldl_cons, syncLoop, Prog.exec_monad_bind, exec_manager, AlarmScheduler.syncAlarm]
    cases hm : w.scheduler.allAlarmsState[i]? with
    | none => exact ih w
    | some m =>
      simp only
      split
      · obtain ⟨⟨s, table, log⟩, clock⟩ := w
        rw [Prog.exec_monad_bind, exec_changeScheduleForAlarmProgram hm, ih]
      · exact ih w

theorem exec_sendAlarmProgram (now : ℕ) (rows : AlarmIndex → RowCreation) (timer : AlarmTimer)
    (w : World H) :
    (sendAlarmProgram cfg now rows timer).exec w =
      ({ w with toAgent := w.toAgent.sendAlarm cfg now rows timer }, ()) := by
  unfold sendAlarmProgram Agent.sendAlarm
  simp only
  split
  · cases hm : w.scheduler.allAlarmsState[timer.index]? with
    | none => simp [hm, Agent.sendTrap]
    | some m => simp [hm, Agent.sendTrap, Agent.updateAlarmState]
  · rfl

theorem exec_popTimerProgram (now : ℕ) (rows : AlarmIndex → RowCreation) (k : AlarmIndex)
    (w : World H) :
    (popTimerProgram cfg now rows k).exec w =
      ({ w with toAgent := w.toAgent.popTimer cfg now rows k }, ()) := by
  rw [popTimerProgram, Prog.exec_monad_bind, exec_manager, Agent.popTimer]
  cases w.scheduler.allAlarmsState[k]? with
  | none => rfl
  | some owner =>
    simp only [Prog.exec_monad_bind, exec_sendAlarmProgram, exec_onScheduler]
    rfl

theorem exec_heapSenderLoopProgram (now : ℕ) (rows : AlarmIndex → RowCreation) (n : ℕ)
    (w : World H) :
    (heapSenderLoopProgram cfg now rows n).exec w =
      ({ w with toAgent := w.toAgent.heapSenderLoop cfg now rows n }, ()) := by
  induction n generalizing w with
  | zero => rfl
  | succ n ih =>
    rw [heapSenderLoopProgram, Prog.exec_monad_bind, Prog.exec_read, Agent.heapSenderLoop]
    cases w.scheduler.nextDue cfg now with
    | none => rfl
    | some k =>
      simp only [Prog.exec_monad_bind, exec_popTimerProgram]
      exact ih _

theorem exec_issueAlarmProgram {identifier : String} {index : AlarmIndex} {severity : ℕ}
    (hv : validateAlarmTrigger cfg.defs identifier = some (index, severity)) (later : Clock)
    (w : World H) :
    ((issueAlarmProgram cfg later index (Severity.ofNumber severity)).exec w).1 =
      step cfg { w with now := w.now.advance later } (.issueAlarm identifier) := by
  simp only [issueAlarmProgram, Prog.exec_monad_bind, exec_getTime, exec_record, exec_manager,
    step, acceptance, hv, AlarmScheduler.issueAlarm]
  cases hm : w.scheduler.allAlarmsState[index]? with
  | none => rfl
  | some m =>
    simp only
    split
    · rw [exec_removeOutdatedProgram hm]
      rfl
    · simp only [Prog.exec_monad_bind, exec_manager, hm]
      split
      · rw [Prog.exec_monad_bind, exec_changeScheduleForAlarmProgram hm]
        rfl
      · rw [Prog.exec_monad_bind, exec_changeScheduleForAlarmProgram hm]
        rfl

theorem exec_handleFailedAlarmProgram (later : Clock) (d : AlarmTableDef)
    (loaded : cfg.defs.Loaded d) (w : World H) :
    ((handleFailedAlarmProgram cfg later d).exec w).1 =
      step cfg { w with now := w.now.advance later } (.handleFailedAlarm d loaded) := by
  simp only [handleFailedAlarmProgram, Prog.exec_monad_bind, exec_getTime, exec_record,
    exec_manager, step, AlarmScheduler.handleFailedAlarm, AlarmScheduler.shouldResendAlarm]
  cases hm : w.scheduler.allAlarmsState[d.alarmIndex]? with
  | none => rfl
  | some m =>
    by_cases hs : m.severity = d.severity
    · by_cases hh : w.scheduler.inHeap cfg d.alarmIndex = true
      · simp [hs, hh]
      · simp [hs, hh, exec_changeScheduleForAlarmProgram hm]
    · simp [hs]

/-- Without other threads a call is what its events do to the agent. -/
theorem Call.exec_program (call : Call cfg.defs) (w : World H) :
    ((call.program cfg).exec w).1 = Runs.run (step cfg) w (call.events cfg) := by
  cases call with
  | issueAlarm later identifier =>
    rw [Call.program, Call.events]
    cases hv : validateAlarmTrigger cfg.defs identifier with
    | none => rfl
    | some trigger =>
      rw [Option.isSome_some, if_pos rfl, Runs.run_cons, Runs.run_cons, Runs.run_nil]
      exact (congrArg Prod.fst (Prog.exec_locked _ w)).trans (exec_issueAlarmProgram hv later w)
  | syncAlarms later =>
    simp only [Call.program, Prog.exec_locked, syncAlarmsProgram, Prog.exec_monad_bind,
      exec_getTime, exec_record, Prog.exec_read, exec_syncLoop, exec_onScheduler]
    rfl
  | handleFailedAlarm later d loaded =>
    exact (congrArg Prod.fst (Prog.exec_locked _ w)).trans
      (exec_handleFailedAlarmProgram later d loaded w)
  | heapSender later rows =>
    simp only [Call.program, Prog.exec_locked, heapSenderProgram, Prog.exec_monad_bind,
      exec_getTime, Prog.exec_read, exec_heapSenderLoopProgram]
    rfl

/-! Any number of threads: the listener, `heap_sender` and Net-SNMP. -/

variable {ι : Type*} [DecidableEq ι]

/-- The threads before their first call. -/
def threads (w : World H) (calls : ι → List (Call cfg.defs)) :
    System ι (World H) (List Unit) :=
  Serial.system (Call.program cfg) ⟨w, calls, fun _ => []⟩

/-- The events of a history of calls. -/
def eventsOf (made : List (ι × Call cfg.defs)) : List (Event cfg.defs) :=
  made.flatMap fun m => m.2.events cfg

omit [DecidableEq ι] in
theorem memoryAfter_eq_run (w : World H) (made : List (ι × Call cfg.defs)) :
    Serial.memoryAfter (Call.program cfg) w made = Runs.run (step cfg) w (eventsOf made) := by
  induction made generalizing w with
  | nil => rfl
  | cons m made ih =>
    rw [Serial.memoryAfter, List.foldl_cons, m.2.exec_program]
    refine (ih _).trans ?_
    rw [eventsOf, eventsOf, List.flatMap_cons, Runs.run_append]

theorem settle_threads_run (w : World H) (calls : ι → List (Call cfg.defs))
    (schedule : List ι) :
    ∃ (made : List (ι × Call cfg.defs)) (S : Serial ι (World H) (Call cfg.defs) Unit),
      (∀ i, Serial.callsOf i made ++ S.pending i = calls i) ∧
        S.memory = Runs.run (step cfg) w (eventsOf made) ∧
        (Runs.run System.turn (threads w calls) schedule).settle =
          S.system (Call.program cfg) := by
  have hcall : ∀ call : Call cfg.defs, (call.program cfg).IsCall := Call.isCall_program
  obtain ⟨made, hmade, hmem⟩ := Serial.exists_history hcall ⟨w, calls, fun _ => []⟩
    ((threads w calls).grants schedule)
  refine ⟨made, _, hmade, ?_, Serial.settle_run hcall _ schedule⟩
  exact hmem.trans (memoryAfter_eq_run w made)

theorem events_of_session_eq_ret {calls : List (Call cfg.defs)} {results results' : List Unit}
    (h : Prog.session (Call.program cfg) calls results = .ret results') :
    ∀ call ∈ calls, call.events cfg = [] := by
  induction calls generalizing results with
  | nil => simp
  | cons call calls ih =>
    have hcall : call.events cfg = [] ∧ call.program cfg = .ret () := by
      cases call with
      | issueAlarm later identifier =>
        cases hv : validateAlarmTrigger cfg.defs identifier with
        | none => exact ⟨by simp [Call.events, hv], by simp [Call.program, hv]⟩
        | some trigger => simp [Prog.session, Call.program, hv, Prog.locked, Prog.bind] at h
      | syncAlarms later => simp [Prog.session, Call.program, Prog.locked, Prog.bind] at h
      | handleFailedAlarm later d loaded =>
        simp [Prog.session, Call.program, Prog.locked, Prog.bind] at h
      | heapSender later rows => simp [Prog.session, Call.program, Prog.locked, Prog.bind] at h
    rw [Prog.session, hcall.2] at h
    exact List.forall_mem_cons.mpr ⟨hcall.1, ih h⟩

end World
end ClearwaterSnmp
