import ClearwaterSnmp.Resends

namespace ClearwaterSnmp
open AlarmScheduler

namespace AlarmTrack

variable {c : AlarmConfig} {x : AlarmTrack}

/-- The delivery of the current severity was reported to have failed, and no
INFORM has been sent since. -/
def Undelivered (x : AlarmTrack) : Prop :=
  ∃ e ∈ History.sinceInform x.history, e.reportsFailure x.alarm.current = true

/-- An undelivered alarm has its timer in the heap. -/
def Remembers (x : AlarmTrack) : Prop := x.Undelivered → x.alarm.scheduled = true

/-- A request for the current severity does not take a waiting change out of the
heap while the current severity is undelivered. -/
def ForgetsNothing (x : AlarmTrack) (u : AlarmInput) : Prop :=
  ∀ s, u = .request s → s = x.alarm.current → x.alarm.scheduled = true →
    x.alarm.pending ≠ x.alarm.current → ¬ x.Undelivered

/-- Failure reports are about severities that a definition can have. -/
def ReportsDefined (x : AlarmTrack) : Prop :=
  ∀ e ∈ x.history, e.reportsFailure .undefinedSeverity = false

theorem undelivered_request (s : Severity) :
    (x.step c (.request s)).Undelivered ↔ x.Undelivered := by
  simp only [Undelivered, step, History.sinceInform_accepted, Alarm.current_request]
  simp [AlarmEntry.reportsFailure]

theorem undelivered_resync : (x.step c .resync).Undelivered ↔ x.Undelivered := by
  simp only [Undelivered, step, History.sinceInform_synced, Alarm.current_resync]
  simp [AlarmEntry.reportsFailure]

theorem undelivered_failure (s : Severity) :
    (x.step c (.failure s)).Undelivered ↔ s = x.alarm.current ∨ x.Undelivered := by
  simp only [Undelivered, step, History.sinceInform_failed, Alarm.current_failure]
  simp [AlarmEntry.reportsFailure]

theorem remembers_request (h : x.Remembers) (s : Severity) :
    (x.step c (.request s)).Remembers ↔ x.ForgetsNothing (.request s) := by
  rw [Remembers, undelivered_request]
  by_cases hc : s = x.alarm.current
  · rcases Alarm.request_of_eq c.order x.now hc with ⟨hp, he⟩ | ⟨hp, he⟩
    · -- the timer leaves the heap, whether it was there or not
      simp only [step, he, Bool.false_eq_true]
      constructor
      · intro hu _ _ _ _ _
        exact hu
      · intro hf hu
        exact hf s rfl hc (h hu) (Ne.symm hp) hu
    · simp only [step, he]
      constructor
      · intro _ _ _ _ _ hne
        exact absurd hp.symm hne
      · intro _
        exact h
  · constructor
    · intro _ s' hs' hcur
      obtain rfl := AlarmInput.request.inj hs'
      exact absurd hcur hc
    · intro _ _
      exact (Alarm.request_of_ne c.order x.now hc).1

theorem Remembers.resync (h : x.Remembers) : (x.step c .resync).Remembers := by
  rw [Remembers, undelivered_resync]
  intro hu
  simp only [step]
  rcases Alarm.resync_cases x.now x.alarm with ⟨-, he⟩ | ⟨-, -, he⟩ | ⟨-, -, he⟩
  · rw [he]
    exact h hu
  · rw [he]
  · rw [he]

theorem Remembers.failure (h : x.Remembers) (s : Severity) :
    (x.step c (.failure s)).Remembers := by
  rw [Remembers, undelivered_failure]
  intro hu
  simp only [step]
  rcases Alarm.failure_cases x.now s x.alarm with ⟨hf, he⟩ | ⟨-, -, -, he⟩ | ⟨-, -, -, he⟩
  · rw [he]
    rcases hu with rfl | hu
    · by_contra hs
      exact hf ⟨rfl, by simpa using hs⟩
    · exact h hu
  · rw [he]
  · rw [he]

theorem Remembers.pass (hset : Settled c x) (h : x.Remembers) (creation : RowCreation) :
    (x.step c (.pass creation)).Remembers := by
  rcases hset.pass_cases creation with ⟨-, he⟩ | ⟨-, -, -, he⟩
  · rwa [he]
  · rw [he]
    intro hu
    simp [Undelivered] at hu

/-- Only a request that cancels a waiting change can forget a failed delivery. -/
theorem remembers_step (hset : Settled c x) (h : x.Remembers) (u : AlarmInput) :
    (x.step c u).Remembers ↔ x.ForgetsNothing u := by
  cases u with
  | request s => exact remembers_request h s
  | resync => exact ⟨fun _ _ hs => by contradiction, fun _ => h.resync⟩
  | failure s => exact ⟨fun _ _ hs => by contradiction, fun _ => h.failure s⟩
  | pass creation => exact ⟨fun _ _ hs => by contradiction, fun _ => h.pass hset creation⟩
  | clock later => exact ⟨fun _ _ hs => by contradiction, fun _ => h⟩
  | other => exact ⟨fun _ _ hs => by contradiction, fun _ => h⟩

theorem ReportsDefined.step (hset : Settled c x) (h : x.ReportsDefined) {u : AlarmInput}
    (hu : u.Admissible c) : (x.step c u).ReportsDefined := by
  cases u with
  | request s => exact List.forall_mem_cons.mpr ⟨rfl, h⟩
  | resync => exact List.forall_mem_cons.mpr ⟨rfl, h⟩
  | failure s =>
    refine List.forall_mem_cons.mpr ⟨?_, h⟩
    simpa [AlarmEntry.reportsFailure] using c.severity_defined s hu
  | pass creation =>
    rcases hset.pass_cases creation with ⟨-, he⟩ | ⟨-, -, -, he⟩
    · rwa [he]
    · rw [he]
      exact List.forall_mem_cons.mpr ⟨rfl, h⟩
  | clock later => exact h
  | other => exact h

/-- An alarm with no current severity is not undelivered. -/
theorem ReportsDefined.not_undelivered (h : x.ReportsDefined)
    (hc : x.alarm.current = .undefinedSeverity) : ¬ x.Undelivered := by
  rintro ⟨e, hmem, hf⟩
  rw [hc, h e (List.takeWhile_subset _ hmem)] at hf
  contradiction

end AlarmTrack

variable {H : Type} {cfg : Setup H}

namespace World

/-- Every alarm whose current severity was reported undelivered, with no INFORM
for the alarm since, has its timer in the heap. -/
def RemembersFailures (cfg : Setup H) (w : World H) : Prop :=
  ∀ (i : AlarmIndex) (m : SingleAlarmManager), w.scheduler.allAlarmsState[i]? = some m →
    (∃ e ∈ History.sinceInform (w.history i), e.reportsFailure m.severity = true) →
    w.scheduler.inHeap cfg i = true

/-- A request for the current severity of an alarm does not find a change to
another severity waiting in the heap while a failed delivery of the current
severity has not been followed by an INFORM. -/
def CancelForgetsNoFailure (cfg : Setup H) (w : World H) : Event cfg.defs → Prop
  | .issueAlarm identifier =>
    ∀ r ∈ validateAlarmTrigger cfg.defs identifier, ∀ m ∈ w.scheduler.allAlarmsState[r.1]?,
      Severity.ofNumber r.2 = m.severity → w.scheduler.inHeap cfg r.1 = true →
      m.alarmTimer.severity ≠ m.severity →
      ¬ ∃ e ∈ History.sinceInform (w.history r.1), e.reportsFailure m.severity = true
  | _ => True

theorem remembersFailures_iff {w : World H} (hd : ∀ i, (w.track cfg i).ReportsDefined) :
    RemembersFailures cfg w ↔ ∀ i, (w.track cfg i).Remembers := by
  constructor
  · intro h i hu
    cases hm : w.scheduler.allAlarmsState[i]? with
    | none =>
      have hc : (w.track cfg i).alarm.current = .undefinedSeverity := by
        simp [track_alarm, alarm, hm, Alarm.idle]
      exact absurd hu ((hd i).not_undelivered hc)
    | some m =>
      rw [AlarmTrack.Undelivered, track_alarm, alarm_of_manager hm] at hu
      rw [track_alarm, alarm_of_manager hm]
      exact h i m hm hu
  · intro h i m hm hu
    have hi := h i
    rw [AlarmTrack.Remembers, AlarmTrack.Undelivered, track_alarm, alarm_of_manager hm] at hi
    exact hi hu

theorem cancelForgetsNoFailure_iff {w : World H} (e : Event cfg.defs) :
    CancelForgetsNoFailure cfg w e ↔
      ∀ i, (w.track cfg i).ForgetsNothing (e.inputFor cfg i) := by
  constructor
  · intro h i s hu
    obtain ⟨identifier, n, rfl, ha, rfl⟩ := Event.eq_issueAlarm_of_inputFor hu
    rw [AlarmTrack.Undelivered, track_alarm]
    cases hm : w.scheduler.allAlarmsState[i]? with
    | none =>
      intro _ hs
      simp [alarm, hm, Alarm.idle] at hs
    | some m =>
      rw [alarm_of_manager hm]
      exact h (i, n) ha m hm
  · intro h
    cases e with
    | issueAlarm identifier =>
      rintro ⟨i, n⟩ ha m hm
      have hi := h i (Severity.ofNumber n) (by simp [Event.inputFor, Option.mem_def.mp ha])
      rw [AlarmTrack.Undelivered, track_alarm, alarm_of_manager hm] at hi
      exact hi
    | _ => trivial

/-- What the comparison with the single alarms relies on. -/
structure Reported (cfg : Setup H) (ready : Bool) (w : World H) : Prop where
  sound : Sound cfg ready w
  settled : ∀ i, (w.track cfg i).Settled (cfg.alarmConfig ready i)
  defined : ∀ i, (w.track cfg i).ReportsDefined

theorem reported_init (cfg : Setup H) (table : AlarmActiveTable) (now : Clock) :
    Reported cfg table.myHandler (init cfg table now) where
  sound := sound_init table now
  settled i := by
    rw [track_init]
    exact AlarmTrack.settled_initial _ _
  defined i e he := by
    rw [track_init] at he
    simp [initialTrack] at he

theorem Reported.step {ready : Bool} {w : World H} (h : Reported cfg ready w)
    (e : Event cfg.defs) : Reported cfg ready (w.step cfg e) where
  sound := h.sound.step e
  settled i := by
    rw [track_step h.sound]
    exact (h.settled i).step (Event.inputFor_admissible _ i e)
  defined i := by
    rw [track_step h.sound]
    exact (h.defined i).step (h.settled i) (Event.inputFor_admissible _ i e)

theorem remembersFailures_step {ready : Bool} {w : World H} (h : Reported cfg ready w)
    (hw : RemembersFailures cfg w) (e : Event cfg.defs) :
    RemembersFailures cfg (w.step cfg e) ↔ CancelForgetsNoFailure cfg w e := by
  rw [remembersFailures_iff (h.step e).defined, cancelForgetsNoFailure_iff]
  have hx := (remembersFailures_iff h.defined).mp hw
  apply forall_congr'
  intro i
  rw [track_step h.sound]
  exact AlarmTrack.remembers_step (h.settled i) (hx i) _

/-- No failed delivery is forgotten in a run exactly if none of its requests
cancels a waiting change of an undelivered alarm. -/
theorem remembers_failures_iff (cfg : Setup H) (table : AlarmActiveTable) (now : Clock)
    (es : List (Event cfg.defs)) :
    (∀ p, p <+: es → RemembersFailures cfg (run cfg table now p)) ↔
      Runs.Along (World.step cfg) (CancelForgetsNoFailure cfg) (init cfg table now) es := by
  have hinit := reported_init cfg table now
  have hremembers : RemembersFailures cfg (init cfg table now) := by
    rw [remembersFailures_iff hinit.defined]
    rintro i ⟨e, he, -⟩
    rw [track_init] at he
    simp [initialTrack, History.sinceInform] at he
  exact Runs.forall_prefix_iff_along (I := Reported cfg table.myHandler) (fun _ e h => h.step e)
    (fun _ e h hw => remembersFailures_step h hw e) hinit hremembers es

/-- The delivery of a critical alarm fails; a clearing takes over the timer of the
retry, and is cancelled by a new request for critical, which the NMS never gets. -/
theorem cancel_forgets_failure :
    ¬ ∀ es : List (Event (Setup.sample).defs), (∀ e ∈ es, e.isSync = false) →
      RemembersFailures .sample (run .sample .initialised ⟨0, by decide⟩ es) := by
  intro h
  have hin := h [.issueAlarm "1000.3", .heapSender .sample,
      .handleFailedAlarm (AlarmTableDefs.sample.getDefinition 1000 3) (by decide),
      .issueAlarm "1000.1", .issueAlarm "1000.3"] (by decide)
    1000 ⟨⟨30000, .cleared, 1000⟩, .critical⟩ (by decide) (by decide)
  exact absurd hin (by decide)

end World
end ClearwaterSnmp
