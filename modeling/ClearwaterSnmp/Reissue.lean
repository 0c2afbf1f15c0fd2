import ClearwaterSnmp.LastRequest

namespace ClearwaterSnmp
open AlarmScheduler

/-- Inserting a timer that is in the heap, and removing one that is not, leaves
the heap as it is. -/
structure TimerHeap.Idempotent {ι H : Type} [DecidableEq ι] (heap : TimerHeap ι H) : Prop where
  insert_held : ∀ pop i h, i ∈ heap.held h → heap.insert pop i h = h
  remove_absent : ∀ pop i h, i ∉ heap.held h → heap.remove pop i h = h

theorem TimerHeap.idempotent_scanning (ι : Type) [DecidableEq ι] :
    (TimerHeap.scanning ι).Idempotent where
  insert_held pop i h hi := if_pos (List.mem_toFinset.mp hi)
  remove_absent pop i h hi := by
    apply List.filter_eq_self.mpr
    intro j hj
    have hne : j ≠ i := fun he => hi (List.mem_toFinset.mpr (he ▸ hj))
    simpa using hne

variable {H : Type} {cfg : Setup H}

namespace AlarmScheduler

variable {s : AlarmScheduler H}

/-- The scheduler without the state of its condition variable. -/
def quiet (s : AlarmScheduler H) : AlarmScheduler H := { s with condSignalled := false }

/-- A request for the severity the alarm is on its way to. -/
theorem quiet_issueAlarm_of_target (hheap : cfg.heap.Idempotent) (now : ℕ) {identifier : String}
    {i n : ℕ} (ha : validateAlarmTrigger cfg.defs identifier = some (i, n))
    {m : SingleAlarmManager} (hm : s.allAlarmsState[i]? = some m)
    (ht : (s.alarm cfg i).target = Severity.ofNumber n) :
    (issueAlarm cfg now identifier s).quiet = s.quiet := by
  have htarget : (if s.inHeap cfg i then m.alarmTimer.severity else m.severity) =
      Severity.ofNumber n := by
    rwa [alarm_of_manager hm] at ht
  simp only [issueAlarm, ha, hm]
  by_cases hc : Severity.ofNumber n = m.severity
  · rw [if_pos hc, removeOutdatedAlarmFromHeap]
    split
    · -- a timer for another severity is not in the heap
      rename_i hne
      have habsent : i ∉ cfg.heap.held s.alarmHeap := by
        intro hmem
        rw [if_pos (by simpa [inHeap] using hmem), hc] at htarget
        exact hne htarget.symm
      have hr : heapRemove cfg i s = s := by
        rw [heapRemove, hheap.remove_absent _ _ _ habsent]
      rw [hr]
      rfl
    · rfl
  · -- the change that was asked for is waiting in the heap
    have hin : s.inHeap cfg i = true := by
      by_contra hout
      rw [if_neg hout] at htarget
      exact hc htarget.symm
    rw [if_pos hin] at htarget
    have hchange (delay : ℕ) :
        changeScheduleForAlarm cfg now i m (Severity.ofNumber n) delay s = s := by
      have hi : heapInsert cfg i s = s := by
        rw [heapInsert, hheap.insert_held _ _ _ (by simpa [inHeap] using hin)]
      rw [changeScheduleForAlarm, hi, changeSchedule, if_neg (by simp [htarget])]
    rw [if_neg hc, hchange, hchange, ite_self]
    rfl

/-! ## What no operation reads -/

theorem quiet_changeScheduleForAlarm (now : ℕ) (i : AlarmIndex) (m : SingleAlarmManager)
    (severity : Severity) (delay : ℕ) :
    (changeScheduleForAlarm cfg now i m severity delay s).quiet =
      (changeScheduleForAlarm cfg now i m severity delay s.quiet).quiet := by
  unfold changeScheduleForAlarm changeSchedule
  split <;> rfl

theorem quiet_removeOutdatedAlarmFromHeap (i : AlarmIndex) (m : SingleAlarmManager) :
    (removeOutdatedAlarmFromHeap cfg i m s).quiet =
      (removeOutdatedAlarmFromHeap cfg i m s.quiet).quiet := by
  unfold removeOutdatedAlarmFromHeap
  split <;> rfl

theorem quiet_issueAlarm (now : ℕ) (identifier : String) :
    (issueAlarm cfg now identifier s).quiet = (issueAlarm cfg now identifier s.quiet).quiet := by
  unfold issueAlarm
  split
  · rfl
  · rw [show s.quiet.allAlarmsState = s.allAlarmsState from rfl]
    split
    · rfl
    · dsimp only
      split_ifs
      · exact quiet_removeOutdatedAlarmFromHeap _ _
      · exact quiet_changeScheduleForAlarm now _ _ _ _
      · exact quiet_changeScheduleForAlarm now _ _ _ _

theorem quiet_handleFailedAlarm (now : ℕ) (d : AlarmTableDef) :
    (handleFailedAlarm cfg now d s).quiet = (handleFailedAlarm cfg now d s.quiet).quiet := by
  unfold handleFailedAlarm
  rw [show s.quiet.allAlarmsState = s.allAlarmsState from rfl]
  split
  · rfl
  · rename_i m _
    rw [show shouldResendAlarm cfg d.alarmIndex m d.severity s.quiet =
      shouldResendAlarm cfg d.alarmIndex m d.severity s from rfl]
    split
    · exact quiet_changeScheduleForAlarm now _ _ _ _
    · rfl

end AlarmScheduler

def Entry.isInform : Entry → Bool
  | .inform _ _ _ => true
  | _ => false

/-- What of the agent the requests that change nothing leave alone: everything but
the state of the condition variable and the record of what was asked for. -/
def Agent.quiet (a : Agent H) : Agent H :=
  { a with scheduler := a.scheduler.quiet, log := a.log.filter Entry.isInform }

namespace Agent

variable {a : Agent H} {now : ℕ} {rows : AlarmIndex → RowCreation}

theorem quiet_quiet : a.quiet.quiet = a.quiet := by
  simp [quiet, AlarmScheduler.quiet]

theorem quiet_sendAlarm (timer : AlarmTimer) :
    (a.sendAlarm cfg now rows timer).quiet = a.quiet.sendAlarm cfg now rows timer := by
  unfold sendAlarm
  dsimp only
  rw [show a.quiet.scheduler.allAlarmsState = a.scheduler.allAlarmsState from rfl]
  split
  · split <;> rfl
  · rfl

theorem quiet_popTimer (k : AlarmIndex) :
    (a.popTimer cfg now rows k).quiet = a.quiet.popTimer cfg now rows k := by
  unfold popTimer
  rw [show a.quiet.scheduler.allAlarmsState = a.scheduler.allAlarmsState from rfl]
  split
  · rfl
  · rename_i owner _
    rw [← quiet_sendAlarm owner.alarmTimer]
    rfl

theorem quiet_heapSenderLoop (n : ℕ) :
    (a.heapSenderLoop cfg now rows n).quiet = a.quiet.heapSenderLoop cfg now rows n := by
  induction n generalizing a with
  | zero => rfl
  | succ n ih =>
    rw [heapSenderLoop, heapSenderLoop,
      show a.quiet.scheduler.nextDue cfg now = a.scheduler.nextDue cfg now from rfl]
    split
    · rfl
    · rename_i k _
      rw [ih, quiet_popTimer]

theorem quiet_heapSenderPass :
    (a.heapSenderPass cfg now rows).quiet = a.quiet.heapSenderPass cfg now rows :=
  quiet_heapSenderLoop _

end Agent

namespace World

def quiet (w : World H) : World H := { w with toAgent := w.toAgent.quiet }

variable {w w' : World H}

theorem quiet_step {e : Event cfg.defs} (hsync : e.isSync = false) :
    (w.step cfg e).quiet = (w.quiet.step cfg e).quiet := by
  have hlog (es log : List Entry) : (es ++ log).filter Entry.isInform =
      (es ++ log.filter Entry.isInform).filter Entry.isInform := by
    simp [List.filter_append]
  cases e with
  | issueAlarm identifier =>
    simp only [quiet, step, Agent.quiet]
    rw [quiet_issueAlarm w.now.ms identifier, hlog]
  | handleFailedAlarm d hd =>
    simp only [quiet, step, Agent.quiet]
    rw [quiet_handleFailedAlarm w.now.ms d, ← List.singleton_append, hlog]
    rfl
  | heapSender rows =>
    simp only [quiet, step]
    rw [Agent.quiet_heapSenderPass, Agent.quiet_heapSenderPass, Agent.quiet_quiet]
  | clock later =>
    simp only [quiet, step]
    rw [Agent.quiet_quiet]
  | syncAlarms => contradiction

/-- The event is an `issue_alarm` that repeats the alarm's most recent accepted one. -/
def isRepeat (cfg : Setup H) (w : World H) : Event cfg.defs → Bool
  | .issueAlarm identifier => (validateAlarmTrigger cfg.defs identifier).any fun (i, n) =>
    History.lastAccepted (w.history i) = some (Severity.ofNumber n)
  | _ => false

theorem eq_issueAlarm_of_isRepeat {e : Event cfg.defs} (h : isRepeat cfg w e = true) :
    ∃ (identifier : String) (i : AlarmIndex) (n : ℕ), e = .issueAlarm identifier ∧
      validateAlarmTrigger cfg.defs identifier = some (i, n) ∧
      History.lastAccepted (w.history i) = some (Severity.ofNumber n) := by
  cases e with
  | issueAlarm identifier =>
    obtain ⟨⟨i, n⟩, ha, hlast⟩ := (Option.any_eq_true _ _).mp h
    exact ⟨identifier, i, n, rfl, ha, by simpa using hlast⟩
  | syncAlarms => contradiction
  | handleFailedAlarm d hd => contradiction
  | heapSender rows => contradiction
  | clock later => contradiction

/-- The alarms are on their way to what was asked for last. -/
structure OnTheirWay (cfg : Setup H) (ready : Bool) (w : World H) : Prop where
  sound : Sound cfg ready w
  settled : ∀ i, (w.track cfg i).Settled (cfg.alarmConfig ready i)
  follows : ∀ i, (w.track cfg i).Follows (cfg.alarmConfig ready i)

theorem OnTheirWay.step {ready : Bool} (h : OnTheirWay cfg ready w) {e : Event cfg.defs}
    (hsync : e.isSync = false) : OnTheirWay cfg ready (w.step cfg e) := by
  refine ⟨h.sound.step e, fun i => ?_, fun i => ?_⟩
  · rw [track_step h.sound e i]
    exact (h.settled i).step (Event.inputFor_admissible ready i e)
  · rw [track_step h.sound e i]
    apply (h.follows i).step (h.settled i) (Event.inputFor_admissible ready i e)
    intro hr
    simp [Event.isSync_of_inputFor hr] at hsync

theorem OnTheirWay.quiet_repeat (hheap : cfg.heap.Idempotent) {ready : Bool}
    (h : OnTheirWay cfg ready w) {e : Event cfg.defs} (he : isRepeat cfg w e = true) :
    (w.step cfg e).quiet = w.quiet := by
  obtain ⟨identifier, i, n, rfl, ha, hlast⟩ := eq_issueAlarm_of_isRepeat he
  obtain ⟨m, hm⟩ := h.sound.manager (isValid_of_accepted ready ha)
  have hs := quiet_issueAlarm_of_target hheap w.now.ms ha hm ((h.follows i).requested _ hlast)
  simp only [quiet, World.step, Agent.quiet]
  rw [hs]
  simp [acceptance, ha, Entry.isInform]

/-- Two runs have come to the same: the time, the managers with their severities
and timers, the heap, the Active Alarm Table and the INFORMs sent. -/
structure SameState (w w' : World H) : Prop where
  now : w.now = w'.now
  managers : w.scheduler.allAlarmsState = w'.scheduler.allAlarmsState
  heap : w.scheduler.alarmHeap = w'.scheduler.alarmHeap
  activeTable : w.activeTable = w'.activeTable
  informs : w.log.filter Entry.isInform = w'.log.filter Entry.isInform

theorem sameState_of_quiet (h : w.quiet = w'.quiet) : SameState w w' where
  now := show w.quiet.now = w'.quiet.now by rw [h]
  managers := show w.quiet.scheduler.allAlarmsState = w'.quiet.scheduler.allAlarmsState by rw [h]
  heap := show w.quiet.scheduler.alarmHeap = w'.quiet.scheduler.alarmHeap by rw [h]
  activeTable := show w.quiet.activeTable = w'.quiet.activeTable by rw [h]
  informs := show w.quiet.log = w'.quiet.log by rw [h]

/-- A run some of whose events are marked as repeats comes, after each event, to
what it comes to without the marked ones. -/
theorem reissue_harmless (cfg : Setup H) (hheap : cfg.heap.Idempotent) (table : AlarmActiveTable)
    (now : Clock) (es : List (Event cfg.defs × Bool)) (hsync : ∀ e ∈ es, e.1.isSync = false)
    (hrepeat : Runs.Along (fun w e => w.step cfg e.1)
      (fun w e => e.2 = true → isRepeat cfg w e.1 = true) (init cfg table now) es)
    {p : List (Event cfg.defs × Bool)} (hp : p <+: es) :
    SameState (run cfg table now (p.map Prod.fst))
      (run cfg table now ((p.filter fun e => !e.2).map Prod.fst)) := by
  have hsync' : Runs.Along (fun w e => w.step cfg e.1) (fun _ e => e.1.isSync = false)
      (init cfg table now) es := Runs.along_of_forall (fun e he _ => hsync e he) _
  have halong := (hrepeat.and hsync').of_isPrefix hp
  -- a repeat may still signal the condition, which is all that is left out of sight
  apply sameState_of_quiet
  rw [run, run, Runs.run_map, Runs.run_map]
  apply Runs.observed_run_filter (I := OnTheirWay cfg table.myHandler) quiet _ _ _ _ rfl halong
  · rintro w e hw ⟨-, hs⟩
    exact hw.step hs
  · rintro w w' e ⟨-, hs⟩ hq
    rw [quiet_step hs, hq, ← quiet_step hs]
  · rintro w e hw ⟨hr, -⟩ hk
    exact hw.quiet_repeat hheap (hr (by simpa using hk))
  · refine ⟨sound_init table now, fun i => ?_, fun i => ?_⟩
    · rw [track_init]
      exact AlarmTrack.settled_initial _ _
    · rw [track_init]
      exact AlarmTrack.follows_initial _ _

/-- A raised alarm is sent, its delivery fails, and it is raised again while the
retry waits; then a clear is asked for, and asked for again later. -/
theorem reissue_harmless_sample :
    let es : List (Event Setup.sample.defs × Bool) :=
      [(.issueAlarm "1000.3", false), (.issueAlarm "1000.3", true), (.heapSender .sample, false),
        (.handleFailedAlarm (AlarmTableDefs.sample.getDefinition 1000 3) (by decide), false),
        (.issueAlarm "1000.3", true), (.issueAlarm "1000.1", false),
        (.clock ⟨20000, by decide⟩, false), (.issueAlarm "1000.1", true),
        (.clock ⟨30000, by decide⟩, false), (.heapSender .sample, false)]
    SameState (run .sample .initialised ⟨0, by decide⟩ (es.map Prod.fst))
      (run .sample .initialised ⟨0, by decide⟩ ((es.filter fun e => !e.2).map Prod.fst)) := by
  intro es
  apply reissue_harmless .sample (TimerHeap.idempotent_scanning _) .initialised ⟨0, by decide⟩ es
  · decide
  · decide
  · exact List.prefix_rfl

end World
end ClearwaterSnmp
