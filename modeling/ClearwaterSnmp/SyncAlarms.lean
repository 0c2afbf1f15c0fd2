import ClearwaterSnmp.LastRequest

namespace ClearwaterSnmp.World
open AlarmScheduler

variable {H : Type} {cfg : Setup H}

/-! ## Resyncs and waiting changes -/

/-- Once the heap is empty, the severity requested last is the current one. -/
def AllSent (cfg : Setup H) (w : World H) : Prop :=
  cfg.heap.held w.scheduler.alarmHeap = ∅ → ∀ (i : AlarmIndex) (s : Severity),
    History.lastAccepted (w.history i) = some s →
    ∃ m, w.scheduler.allAlarmsState[i]? = some m ∧ m.severity = s

/-- A `sync_alarms` leaves every change of severity that is waiting in the heap
there. -/
def SyncKeepsChanges (cfg : Setup H) (w : World H) (e : Event cfg.defs) : Prop :=
  e.isSync = true → ∀ (i : AlarmIndex) (m : SingleAlarmManager),
    w.scheduler.allAlarmsState[i]? = some m → w.scheduler.inHeap cfg i = true →
    m.alarmTimer.severity ≠ m.severity →
    ∃ m', (w.step cfg e).scheduler.allAlarmsState[i]? = some m' ∧
      (w.step cfg e).scheduler.inHeap cfg i = true ∧
      m'.alarmTimer.severity = m.alarmTimer.severity

/-- In the run on `es`, no change of severity is lost. -/
structure LosesNoChange (cfg : Setup H) (table : AlarmActiveTable) (now : Clock)
    (es : List (Event cfg.defs)) : Prop where
  sent : ∀ p, p <+: es → AllSent cfg (run cfg table now p)
  kept : Runs.Along (World.step cfg) (SyncKeepsChanges cfg) (init cfg table now) es

/-- A resync that finds a waiting change overwrites it with the current severity. -/
theorem syncKeepsChanges_iff {ready : Bool} {w : World H} (hw : Sound cfg ready w)
    (e : Event cfg.defs) : SyncKeepsChanges cfg w e ↔ SyncFindsNoChange cfg w e := by
  by_cases he : e.isSync = true
  swap
  · exact ⟨fun _ h => absurd h he, fun _ h => absurd h he⟩
  obtain rfl := Event.eq_syncAlarms he
  have hal (i : AlarmIndex) : (w.step cfg .syncAlarms).scheduler.alarm cfg i =
      (w.scheduler.alarm cfg i).resync w.now.ms := alarm_syncAlarms hw.wellFormed w.now.ms i
  constructor
  · intro hk _ i m hm hc hs
    by_contra hne
    obtain ⟨m', hm', -, hsev⟩ := hk rfl i m hm hs hne
    have hi := hal i
    have hcases := Alarm.resync_cases w.now (w.scheduler.alarm cfg i)
    rw [alarm_of_manager hm', alarm_of_manager hm] at hi
    rw [alarm_of_manager hm] at hcases
    rcases hcases with ⟨hc', -⟩ | ⟨-, hp, -⟩ | ⟨-, -, hr⟩
    · exact hc hc'
    · exact hne hp
    · rw [hr] at hi
      have hp : m'.alarmTimer.severity = m.severity := congrArg Alarm.pending hi
      exact hne (hsev.symm.trans hp)
  · -- a change that is left waiting belongs to an alarm never sent, which is not resynced
    intro hf _ i m hm hs hne
    have hc : m.severity = .undefinedSeverity := by
      by_contra hc
      exact hne (hf rfl i m hm hc hs)
    have hi := hal i
    rw [Alarm.resync_of_undefined (by rw [alarm_of_manager hm]; exact hc)] at hi
    obtain ⟨m', hm', hs'⟩ := manager_of_alarm (s := (w.step cfg .syncAlarms).scheduler)
      (by rw [hi, alarm_of_manager hm]; exact hs)
    rw [alarm_of_manager hm', alarm_of_manager hm] at hi
    exact ⟨m', hm', hs', congrArg Alarm.pending hi⟩

theorem allSent_of_follows {table : AlarmActiveTable} {now : Clock} {es : List (Event cfg.defs)}
    (h : Runs.Along (World.step cfg) (SyncFindsNoChange cfg) (init cfg table now) es) :
    AllSent cfg (run cfg table now es) := by
  intro hempty i s hs
  obtain ⟨-, hf⟩ := follows_run h i
  obtain ⟨m, hm⟩ := (sound_run cfg table now es).manager (hf.requested_valid s hs)
  have ht : ((run cfg table now es).scheduler.alarm cfg i).target = s := hf.requested s hs
  rw [alarm_of_manager hm] at ht
  exact ⟨m, hm, by simpa [Alarm.target, inHeap, hempty] using ht⟩

/-- No change is lost exactly in the runs whose resyncs find no change waiting. -/
theorem loses_no_change_iff (cfg : Setup H) (table : AlarmActiveTable) (now : Clock)
    (es : List (Event cfg.defs)) :
    LosesNoChange cfg table now es ↔
      Runs.Along (World.step cfg) (SyncFindsNoChange cfg) (init cfg table now) es := by
  constructor
  · intro h
    exact h.kept.mono (fun _ e hw _ => hw.step e) (fun _ e hw => (syncKeepsChanges_iff hw e).mp)
      (sound_init table now)
  · intro h
    exact ⟨fun p hp => allSent_of_follows (h.of_isPrefix hp),
      h.mono (fun _ e hw _ => hw.step e) (fun _ e hw => (syncKeepsChanges_iff hw e).mpr)
        (sound_init table now)⟩

/-- Critical is sent; while the clearing of the alarm waits for its thirty seconds,
a resync puts critical in its place; the pass that follows empties the heap, and
the alarm stays critical although it was cleared. -/
theorem sync_loses_clear :
    ¬ ∀ es : List (Event (Setup.sample).defs),
      LosesNoChange .sample .initialised ⟨0, by decide⟩ es := by
  intro h
  have hs := (h [.issueAlarm "1000.3", .heapSender .sample, .issueAlarm "1000.1", .syncAlarms,
    .heapSender .sample]).sent _ List.prefix_rfl
  obtain ⟨m, hm, hsev⟩ := hs (by decide) 1000 .cleared (by decide)
  have hcritical : ((run .sample .initialised ⟨0, by decide⟩
      [.issueAlarm "1000.3", .heapSender .sample, .issueAlarm "1000.1", .syncAlarms,
        .heapSender .sample]).scheduler.allAlarmsState[1000]?).map SingleAlarmManager.severity =
      some .critical := by decide
  rw [hm, Option.map_some, hsev] at hcritical
  contradiction

/-! ## Resyncs are immediate -/

/-- After a `sync_alarms` in the state `w`, every alarm with a known severity is in
the heap with that severity and is due, and the next pass, whenever it comes, sends
it again. -/
structure ResyncsNow (cfg : Setup H) (w : World H) : Prop where
  due : ∀ (i : AlarmIndex) (m : SingleAlarmManager),
    (w.step cfg .syncAlarms).scheduler.allAlarmsState[i]? = some m →
    m.severity ≠ .undefinedSeverity →
    (w.step cfg .syncAlarms).scheduler.inHeap cfg i = true ∧
      m.alarmTimer.severity = m.severity ∧ m.alarmTimer.popTime ≤ w.now.ms + alarmResyncDelay
  resent : ∀ (i : AlarmIndex) (m : SingleAlarmManager) (later : Clock)
    (rows : AlarmIndex → RowCreation),
    (w.step cfg .syncAlarms).scheduler.allAlarmsState[i]? = some m →
    m.severity ≠ .undefinedSeverity →
    (((w.step cfg .syncAlarms).step cfg (.clock later)).step cfg (.heapSender rows)).history i =
      .inform (w.now.advance later).ms m.severity m.severity :: (w.step cfg .syncAlarms).history i

/-- No retry of a current severity is waiting for a later time. -/
def NoRetryWaiting (cfg : Setup H) (w : World H) : Prop :=
  ∀ (i : AlarmIndex) (m : SingleAlarmManager), w.scheduler.allAlarmsState[i]? = some m →
    m.severity ≠ .undefinedSeverity → w.scheduler.inHeap cfg i = true →
    m.alarmTimer.severity = m.severity → m.alarmTimer.popTime ≤ w.now.ms

/-- A pass sends the alarm of a due timer. -/
theorem history_heapSender {ready : Bool} {w : World H} (hw : Sound cfg ready w) {i : AlarmIndex}
    (hset : (w.track cfg i).Settled (cfg.alarmConfig ready i)) {m : SingleAlarmManager}
    (hm : w.scheduler.allAlarmsState[i]? = some m) (hin : w.scheduler.inHeap cfg i = true)
    (hdue : m.alarmTimer.popTime ≤ w.now.ms) (rows : AlarmIndex → RowCreation) :
    (w.step cfg (.heapSender rows)).history i =
      .inform w.now.ms m.alarmTimer.severity m.severity :: w.history i := by
  have hstep := track_step hw (.heapSender rows) i
  have hcases := hset.pass_cases (rows i)
  rw [track_alarm, alarm_of_manager hm] at hcases
  rcases hcases with ⟨hn, -⟩ | ⟨-, -, -, he⟩
  · have hdue' : m.alarmTimer.popTime ≤ (w.track cfg i).now.ms := hdue
    simp [Alarm.isDue, hin, hdue'] at hn
  · exact congrArg (fun x : AlarmTrack => x.history) (hstep.trans he)

/-- A resync leaves the time of a retry as it is and sets every other one to now. -/
theorem resync_due {ready : Bool} {w : World H} (hw : Sound cfg ready w) {i : AlarmIndex}
    (hset : (w.track cfg i).Settled (cfg.alarmConfig ready i)) (hretry : NoRetryWaiting cfg w)
    {m : SingleAlarmManager}
    (hm : (w.step cfg .syncAlarms).scheduler.allAlarmsState[i]? = some m)
    (hc : m.severity ≠ .undefinedSeverity) :
    (w.step cfg .syncAlarms).scheduler.inHeap cfg i = true ∧
      m.alarmTimer.severity = m.severity ∧ m.alarmTimer.popTime ≤ w.now.ms := by
  have hal : (w.step cfg .syncAlarms).scheduler.alarm cfg i =
      (w.scheduler.alarm cfg i).resync w.now.ms := alarm_syncAlarms hw.wellFormed w.now.ms i
  rw [alarm_of_manager hm] at hal
  have hcur : (w.scheduler.alarm cfg i).current = m.severity := by
    rw [← Alarm.current_resync w.now, ← hal]
  rcases Alarm.resync_cases w.now (w.scheduler.alarm cfg i) with ⟨hu, -⟩ | ⟨hk, hp, hr⟩ | ⟨-, -, hr⟩
  · exact absurd (hcur.symm.trans hu) hc
  · have hs := hset.alarm.pending_scheduled hp (hp.trans_ne hk)
    obtain ⟨m₀, hm₀, hin⟩ := manager_of_alarm hs
    rw [hr] at hal
    rw [alarm_of_manager hm₀] at hal hp hk
    have hp₀ : m₀.alarmTimer.severity = m₀.severity := hp
    have hdue := hretry i m₀ hm₀ hk hin hp₀
    simp only [Alarm.mk.injEq] at hal
    obtain ⟨h1, h2, h3, h4⟩ := hal
    exact ⟨h4, by rw [h2, hp₀, h1], by rw [h3]; exact hdue⟩
  · rw [hr] at hal
    simp only [Alarm.mk.injEq] at hal
    obtain ⟨h1, h2, h3, h4⟩ := hal
    exact ⟨h4, by rw [h2, h1], h3.le⟩

/-- A resync is immediate and complete exactly when no retry is waiting. -/
theorem resyncs_now_iff (cfg : Setup H) (table : AlarmActiveTable) (now : Clock)
    (es : List (Event cfg.defs)) :
    ResyncsNow cfg (run cfg table now es) ↔ NoRetryWaiting cfg (run cfg table now es) := by
  have hw := sound_run cfg table now es
  have hset := settled_run cfg table now es
  set w := run cfg table now es
  have hal (i : AlarmIndex) : (w.step cfg .syncAlarms).scheduler.alarm cfg i =
      (w.scheduler.alarm cfg i).resync w.now.ms := alarm_syncAlarms hw.wellFormed w.now.ms i
  constructor
  · intro h i m hm hc hin hp
    -- the resync only marks the timer as scheduled, which it is already
    have hi := hal i
    rw [Alarm.resync, alarm_of_manager hm, if_pos hc, Alarm.reschedule_of_eq hp.symm] at hi
    have hs : ((w.step cfg .syncAlarms).scheduler.alarm cfg i).scheduled = true := by rw [hi]
    obtain ⟨m', hm', -⟩ := manager_of_alarm hs
    rw [alarm_of_manager hm'] at hi
    simp only [Alarm.mk.injEq] at hi
    have hdue := (h.due i m' hm' (by rw [hi.1]; exact hc)).2.2
    rwa [hi.2.2.1] at hdue
  · intro h
    refine ⟨fun i m hm hc => resync_due hw (hset i) h hm hc, fun i m later rows hm hc => ?_⟩
    obtain ⟨hin, hp, hdue⟩ := resync_due hw (hset i) h hm hc
    have hset' : (((w.step cfg .syncAlarms).step cfg (.clock later)).track cfg i).Settled
        (cfg.alarmConfig table.myHandler i) := by
      rw [track_step (hw.step .syncAlarms), track_step hw]
      exact ((hset i).step (Event.inputFor_admissible _ i _)).step (Event.inputFor_admissible _ i _)
    have hsent := history_heapSender ((hw.step .syncAlarms).step (.clock later)) hset' hm hin
      (hdue.trans (w.now.le_advance later)) rows
    rwa [hp] at hsent

/-- The delivery of a critical alarm has failed, so a retry waits for thirty
seconds; a resync at once leaves it waiting. -/
theorem resync_leaves_retry_waiting :
    ¬ ∀ es : List (Event (Setup.sample).defs),
      ResyncsNow .sample (run .sample .initialised ⟨0, by decide⟩ es) := by
  intro h
  have hd := (h [.issueAlarm "1000.3", .heapSender .sample,
    .handleFailedAlarm (AlarmTableDefs.sample.getDefinition 1000 3) (by decide)]).due 1000
    ⟨⟨30000, .critical, 1000⟩, .critical⟩ (by decide) (by decide)
  exact absurd hd.2.2 (by decide)

end ClearwaterSnmp.World
