import ClearwaterSnmp.SchedulerAlarms

namespace ClearwaterSnmp.AlarmScheduler
open Std

variable {H : Type} {cfg : Setup H} {s : AlarmScheduler H}

/-! ## `issue_alarm` -/

theorem WellFormed.removeOutdatedAlarmFromHeap (h : WellFormed cfg s) (i : AlarmIndex)
    (m : SingleAlarmManager) : WellFormed cfg (removeOutdatedAlarmFromHeap cfg i m s) := by
  unfold AlarmScheduler.removeOutdatedAlarmFromHeap
  split
  · apply WellFormed.signal
    apply h.transfer
    · exact fun _ => rfl
    · intro j hj
      rw [held_heapRemove] at hj
      exact h.held_keys j (Finset.mem_of_mem_erase hj)
    · exact cfg.heap.ordered_remove s.popTimes s.popTimes i _ (fun _ _ => rfl) h.ordered
  · exact h

theorem alarm_removeOutdatedAlarmFromHeap {i : AlarmIndex} {m : SingleAlarmManager}
    (hm : s.allAlarmsState[i]? = some m) (j : AlarmIndex) :
    (removeOutdatedAlarmFromHeap cfg i m s).alarm cfg j =
      if j = i then
        if m.severity ≠ m.alarmTimer.severity then { s.alarm cfg i with scheduled := false }
        else s.alarm cfg i
      else s.alarm cfg j := by
  unfold removeOutdatedAlarmFromHeap
  split
  · rw [alarm_signal]
    split
    · rename_i hj
      subst hj
      have hm' : (heapRemove cfg j s).allAlarmsState[j]? = some m := hm
      rw [alarm_of_manager hm', alarm_of_manager hm]
      simp [inHeap]
    · rename_i hj
      exact alarm_congr (by simp) (by simp [hj])
  · split
    · rename_i hj
      rw [hj]
    · rfl

theorem WellFormed.issueAlarm (h : WellFormed cfg s) (now : ℕ) (identifier : String) :
    WellFormed cfg (issueAlarm cfg now identifier s) := by
  unfold AlarmScheduler.issueAlarm
  split
  · exact h
  · split
    · exact h
    · rename_i m hm
      simp only
      split_ifs
      · exact h.removeOutdatedAlarmFromHeap _ m
      · exact (h.changeScheduleForAlarm hm now _ _).signal
      · exact (h.changeScheduleForAlarm hm now _ _).signal

theorem issueAlarm_of_rejected (now : ℕ) {identifier : String}
    (hr : validateAlarmTrigger cfg.defs identifier = none) :
    issueAlarm cfg now identifier s = s := by
  rw [issueAlarm, hr]

theorem alarm_issueAlarm (h : WellFormed cfg s) (now : ℕ) {identifier : String}
    {index severity : ℕ} (ha : validateAlarmTrigger cfg.defs identifier = some (index, severity))
    (j : AlarmIndex) :
    (issueAlarm cfg now identifier s).alarm cfg j =
      if j = index then (s.alarm cfg index).request cfg.order now (Severity.ofNumber severity)
      else s.alarm cfg j := by
  obtain ⟨d, hd, rfl, -⟩ := validateAlarmTrigger_loaded ha
  obtain ⟨m, hm⟩ := h.manager hd
  have hreq : (s.alarm cfg d.alarmIndex).request cfg.order now (Severity.ofNumber severity) =
      if Severity.ofNumber severity = m.severity then
        if m.severity ≠ m.alarmTimer.severity then
          { s.alarm cfg d.alarmIndex with scheduled := false }
        else s.alarm cfg d.alarmIndex
      else if cfg.order.gt (Severity.ofNumber severity) m.severity then
        (s.alarm cfg d.alarmIndex).reschedule now (Severity.ofNumber severity) alarmIncreasedDelay
      else
        (s.alarm cfg d.alarmIndex).reschedule now (Severity.ofNumber severity)
          alarmReducedDelay := by
    rw [Alarm.request, alarm_of_manager hm]
  simp only [hreq, issueAlarm, ha, hm]
  by_cases hc : Severity.ofNumber severity = m.severity
  · rw [if_pos hc, if_pos hc, alarm_removeOutdatedAlarmFromHeap hm]
  · rw [if_neg hc, if_neg hc]
    by_cases hg : cfg.order.gt (Severity.ofNumber severity) m.severity = true
    · rw [if_pos hg, if_pos hg, alarm_signal, alarm_changeScheduleForAlarm hm]
    · rw [if_neg hg, if_neg hg, alarm_signal, alarm_changeScheduleForAlarm hm]

/-! ## `sync_alarms` and `handle_failed_alarm` -/

theorem WellFormed.syncAlarm (h : WellFormed cfg s) (now : ℕ) (i : AlarmIndex) :
    WellFormed cfg (syncAlarm cfg now s i) := by
  unfold AlarmScheduler.syncAlarm
  split
  · exact h
  · rename_i m hm
    split
    · exact h.changeScheduleForAlarm hm now _ _
    · exact h

theorem alarm_syncAlarm (now : ℕ) (i j : AlarmIndex) :
    (syncAlarm cfg now s i).alarm cfg j =
      if j = i then (s.alarm cfg i).resync now else s.alarm cfg j := by
  cases hm : s.allAlarmsState[i]? with
  | none =>
    by_cases hj : j = i
    · subst hj
      simp [syncAlarm, Alarm.resync, alarm, hm, Alarm.idle]
    · simp [syncAlarm, hm, hj]
  | some m =>
    by_cases hs : m.severity = .undefinedSeverity
    · by_cases hj : j = i
      · subst hj
        simp [syncAlarm, Alarm.resync, hm, hs, alarm_of_manager hm]
      · simp [syncAlarm, hm, hs, hj]
    · simp [syncAlarm, Alarm.resync, hm, hs, alarm_of_manager hm, alarm_changeScheduleForAlarm hm]

theorem WellFormed.syncAlarms (h : WellFormed cfg s) (now : ℕ) :
    WellFormed cfg (syncAlarms cfg now s) := by
  have hfold : WellFormed cfg
      (Runs.run (AlarmScheduler.syncAlarm cfg now) s s.allAlarmsState.keys) :=
    Runs.run_invariant (fun _ i h' => h'.syncAlarm now i) h _
  exact hfold.signal

/-- Every alarm is resynced exactly once: an alarm without a manager is idle, so
there is nothing to resend for it. -/
theorem alarm_syncAlarms (h : WellFormed cfg s) (now : ℕ) (j : AlarmIndex) :
    (syncAlarms cfg now s).alarm cfg j = (s.alarm cfg j).resync now := by
  have hfold := Runs.foldl_frame (syncAlarm cfg now) (fun s i => s.alarm cfg i)
    (Alarm.resync now) (I := WellFormed cfg) (fun _ i h' => h'.syncAlarm now i)
    (fun _ i _ => by rw [alarm_syncAlarm, if_pos rfl])
    (fun _ i k _ hk => by rw [alarm_syncAlarm, if_neg hk])
    s.allAlarmsState.nodup_keys h j
  rw [syncAlarms, alarm_signal]
  apply hfold.trans
  split
  · rfl
  · rename_i hj
    have hn : s.allAlarmsState[j]? = none := by
      rw [ExtTreeMap.mem_keys] at hj
      exact ExtTreeMap.getElem?_eq_none hj
    simp [alarm, hn, Alarm.resync, Alarm.idle]

theorem WellFormed.handleFailedAlarm (h : WellFormed cfg s) (now : ℕ) (d : AlarmTableDef) :
    WellFormed cfg (handleFailedAlarm cfg now d s) := by
  unfold AlarmScheduler.handleFailedAlarm
  split
  · exact h
  · rename_i m hm
    split
    · exact (h.changeScheduleForAlarm hm now _ _).signal
    · exact h

theorem alarm_handleFailedAlarm (h : WellFormed cfg s) (now : ℕ) {d : AlarmTableDef}
    (hd : cfg.defs.Loaded d) (j : AlarmIndex) :
    (handleFailedAlarm cfg now d s).alarm cfg j =
      if j = d.alarmIndex then (s.alarm cfg d.alarmIndex).failure now d.severity
      else s.alarm cfg j := by
  obtain ⟨m, hm⟩ := h.manager hd
  have hre : shouldResendAlarm cfg d.alarmIndex m d.severity s = true ↔
      m.severity = d.severity ∧ s.inHeap cfg d.alarmIndex = false := by simp [shouldResendAlarm]
  simp only [handleFailedAlarm, hm, hre, Alarm.failure, alarm_of_manager hm]
  by_cases hc : m.severity = d.severity ∧ s.inHeap cfg d.alarmIndex = false
  · rw [if_pos hc, if_pos hc, alarm_signal, alarm_changeScheduleForAlarm hm, alarm_of_manager hm]
  · rw [if_neg hc, if_neg hc]
    split
    · rename_i hj
      rw [hj, alarm_of_manager hm]
    · rfl

/-! ## The constructor -/

theorem getElem?_populate (ds : List AlarmTableDef) (i : AlarmIndex) :
    (populate ds)[i]? =
      if i ∈ ds.map AlarmTableDef.alarmIndex then some ⟨.new i, .undefinedSeverity⟩ else none := by
  -- the loop inserts into a map that grows, so the induction is over every such map
  have hfold (managers : ExtTreeMap AlarmIndex SingleAlarmManager) :
      (ds.foldl (fun managers d => managers.insertIfNew d.alarmIndex
        ⟨.new d.alarmIndex, .undefinedSeverity⟩) managers)[i]? =
      if i ∈ managers then managers[i]?
      else if i ∈ ds.map AlarmTableDef.alarmIndex then
        some (SingleAlarmManager.mk (.new i) .undefinedSeverity)
      else none := by
    induction ds generalizing managers with
    | nil =>
      by_cases hi : i ∈ managers <;> simp [hi]
    | cons d ds ih =>
      rw [List.foldl_cons, ih, ExtTreeMap.getElem?_insertIfNew]
      simp only [ExtTreeMap.mem_insertIfNew, Std.compare_eq_iff_eq, List.map_cons, List.mem_cons]
      by_cases hd : d.alarmIndex = i
      · subst hd
        by_cases hi : d.alarmIndex ∈ managers <;> simp [hi]
      · simp [hd, Ne.symm hd]
  rw [populate, hfold]
  simp

theorem wellFormed_init : WellFormed cfg (init cfg) where
  keys i := by
    rw [ExtTreeMap.mem_iff_isSome_getElem?, init, getElem?_populate]
    simp [AlarmTableDefs.mem_iterate]
  own_timer i m hm := by
    rw [init, getElem?_populate] at hm
    split at hm
    · cases hm
      rfl
    · contradiction
  held_keys i hi := by simp [init, cfg.heap.held_empty] at hi
  ordered := cfg.heap.ordered_empty _

theorem alarm_init (cfg : Setup H) (i : AlarmIndex) : (init cfg).alarm cfg i = .idle := by
  unfold alarm
  rw [init, getElem?_populate]
  split
  · rfl
  · rename_i m hm
    split at hm
    · cases hm
      simp [Alarm.idle, AlarmTimer.new, inHeap, cfg.heap.held_empty]
    · contradiction

end ClearwaterSnmp.AlarmScheduler
