import ClearwaterSnmp.SingleAlarm

namespace ClearwaterSnmp.AlarmScheduler
open Std

variable {H : Type} {cfg : Setup H} {s : AlarmScheduler H}

/-- The alarm `i` of the scheduler, by itself. -/
def alarm (cfg : Setup H) (s : AlarmScheduler H) (i : AlarmIndex) : Alarm :=
  match s.allAlarmsState[i]? with
  | none => .idle
  | some m => ⟨m.severity, m.alarmTimer.severity, m.alarmTimer.popTime, s.inHeap cfg i⟩

theorem alarm_of_manager {i : AlarmIndex} {m : SingleAlarmManager}
    (h : s.allAlarmsState[i]? = some m) :
    s.alarm cfg i = ⟨m.severity, m.alarmTimer.severity, m.alarmTimer.popTime, s.inHeap cfg i⟩ := by
  rw [alarm, h]

theorem popTimes_eq_due (cfg : Setup H) (i : AlarmIndex) : s.popTimes i = (s.alarm cfg i).due := by
  unfold popTimes alarm
  cases s.allAlarmsState[i]? <;> rfl

theorem alarm_congr {s' : AlarmScheduler H} {i : AlarmIndex}
    (hm : s'.allAlarmsState[i]? = s.allAlarmsState[i]?)
    (hh : i ∈ cfg.heap.held s'.alarmHeap ↔ i ∈ cfg.heap.held s.alarmHeap) :
    s'.alarm cfg i = s.alarm cfg i := by
  simp only [alarm, hm, inHeap, hh]

/-- Each alarm that has a definition has a manager and no other has; each timer
has the index of the manager that owns it; the heap holds timers of managers and
is balanced for their pop times. -/
structure WellFormed (cfg : Setup H) (s : AlarmScheduler H) : Prop where
  keys : ∀ i, i ∈ s.allAlarmsState ↔ ∃ d, cfg.defs.Loaded d ∧ d.alarmIndex = i
  own_timer : ∀ (i : AlarmIndex) (m : SingleAlarmManager), s.allAlarmsState[i]? = some m →
    m.alarmTimer.index = i
  held_keys : ∀ i, i ∈ cfg.heap.held s.alarmHeap → i ∈ s.allAlarmsState
  ordered : cfg.heap.Ordered s.popTimes s.alarmHeap

/-- An operation that leaves the indexes of the timers alone and keeps the heap
balanced keeps the scheduler well formed. -/
theorem WellFormed.transfer {s' : AlarmScheduler H} (h : WellFormed cfg s)
    (hidx : ∀ j : AlarmIndex, (s'.allAlarmsState[j]?).map (fun m => m.alarmTimer.index) =
      (s.allAlarmsState[j]?).map fun m => m.alarmTimer.index)
    (hheld : ∀ j, j ∈ cfg.heap.held s'.alarmHeap → j ∈ s.allAlarmsState)
    (hord : cfg.heap.Ordered s'.popTimes s'.alarmHeap) : WellFormed cfg s' := by
  have hmem (j : AlarmIndex) : j ∈ s'.allAlarmsState ↔ j ∈ s.allAlarmsState := by
    have hj := congrArg Option.isSome (hidx j)
    simp only [Option.isSome_map] at hj
    rw [ExtTreeMap.mem_iff_isSome_getElem?, ExtTreeMap.mem_iff_isSome_getElem?, hj]
  refine ⟨fun i => (hmem i).trans (h.keys i), fun i m hm => ?_,
    fun i hi => (hmem i).mpr (hheld i hi), hord⟩
  have hi := hidx i
  rw [hm, Option.map_some] at hi
  obtain ⟨m', hm', he⟩ := Option.map_eq_some_iff.mp hi.symm
  rw [← he]
  exact h.own_timer i m' hm'

theorem exists_manager {i : AlarmIndex} (h : i ∈ s.allAlarmsState) :
    ∃ m, s.allAlarmsState[i]? = some m := by
  rwa [ExtTreeMap.mem_iff_isSome_getElem?, Option.isSome_iff_exists] at h

theorem WellFormed.manager (h : WellFormed cfg s) {d : AlarmTableDef} (hd : cfg.defs.Loaded d) :
    ∃ m, s.allAlarmsState[d.alarmIndex]? = some m := by
  apply exists_manager
  exact (h.keys d.alarmIndex).mpr ⟨d, hd, rfl⟩

/-! ## The writes -/

@[simp] theorem allAlarmsState_heapInsert (i : AlarmIndex) :
    (heapInsert cfg i s).allAlarmsState = s.allAlarmsState := rfl

@[simp] theorem allAlarmsState_heapRemove (i : AlarmIndex) :
    (heapRemove cfg i s).allAlarmsState = s.allAlarmsState := rfl

@[simp] theorem allAlarmsState_heapRebalance (i : AlarmIndex) :
    (heapRebalance cfg i s).allAlarmsState = s.allAlarmsState := rfl

@[simp] theorem held_heapRemove (i : AlarmIndex) :
    cfg.heap.held (heapRemove cfg i s).alarmHeap = (cfg.heap.held s.alarmHeap).erase i :=
  cfg.heap.held_remove _ _ _

theorem getElem?_modifyTimer (i j : AlarmIndex) (f : AlarmTimer → AlarmTimer) :
    (s.modifyTimer i f).allAlarmsState[j]? =
      if i = j then (s.allAlarmsState[i]?).map fun m => { m with alarmTimer := f m.alarmTimer }
      else s.allAlarmsState[j]? := by
  simp only [modifyTimer, ExtTreeMap.getElem?_modify, Std.compare_eq_iff_eq]

theorem popTimes_modifyTimer_of_ne {i j : AlarmIndex} (f : AlarmTimer → AlarmTimer) (hj : j ≠ i) :
    (s.modifyTimer i f).popTimes j = s.popTimes j := by
  rw [popTimes, popTimes, getElem?_modifyTimer, if_neg hj.symm]

/-- The timer after a change of schedule. -/
def rescheduled (now : ℕ) (severity : Severity) (delay : ℕ) (t : AlarmTimer) : AlarmTimer :=
  if severity ≠ t.severity then
    { t with severity := severity, popTime := (now + delay) % 2 ^ 64 }
  else t

theorem getElem?_changeScheduleForAlarm {i : AlarmIndex} {m : SingleAlarmManager}
    (hm : s.allAlarmsState[i]? = some m) (now : ℕ) (severity : Severity) (delay : ℕ)
    (j : AlarmIndex) :
    (changeScheduleForAlarm cfg now i m severity delay s).allAlarmsState[j]? =
      if i = j then some { m with alarmTimer := rescheduled now severity delay m.alarmTimer }
      else s.allAlarmsState[j]? := by
  unfold changeScheduleForAlarm changeSchedule rescheduled
  by_cases hs : severity = m.alarmTimer.severity
  · by_cases hj : i = j
    · subst hj
      simp [hs, hm]
    · simp [hs, hj]
  · simp only [ne_eq, hs, not_false_eq_true, ↓reduceIte, updatePopTime,
      allAlarmsState_heapRebalance, getElem?_modifyTimer, allAlarmsState_heapInsert, hm,
      Option.map_some]
    split <;> rfl

theorem held_changeScheduleForAlarm (now : ℕ) (i : AlarmIndex) (m : SingleAlarmManager)
    (severity : Severity) (delay : ℕ) :
    cfg.heap.held (changeScheduleForAlarm cfg now i m severity delay s).alarmHeap =
      Insert.insert i (cfg.heap.held s.alarmHeap) := by
  unfold changeScheduleForAlarm changeSchedule
  split
  · exact (cfg.heap.held_rebalance _ _ _).trans (cfg.heap.held_insert _ _ _)
  · exact cfg.heap.held_insert _ _ _

theorem ordered_changeScheduleForAlarm (h : cfg.heap.Ordered s.popTimes s.alarmHeap) (now : ℕ)
    (i : AlarmIndex) (m : SingleAlarmManager) (severity : Severity) (delay : ℕ) :
    cfg.heap.Ordered (changeScheduleForAlarm cfg now i m severity delay s).popTimes
      (changeScheduleForAlarm cfg now i m severity delay s).alarmHeap := by
  have hins := cfg.heap.ordered_insert s.popTimes i s.alarmHeap h
  unfold changeScheduleForAlarm changeSchedule
  split
  · -- the pop time is written after the timer is in the heap, which is then rebalanced
    apply cfg.heap.ordered_rebalance s.popTimes _ i _ ?_ hins
    intro j hj
    have hs : (modifyTimer i (fun t => { t with severity := severity })
        (heapInsert cfg i s)).popTimes j = s.popTimes j := popTimes_modifyTimer_of_ne _ hj
    rw [← hs]
    exact popTimes_modifyTimer_of_ne (fun t => { t with popTime := (now + delay) % 2 ^ 64 }) hj
  · exact hins

theorem WellFormed.changeScheduleForAlarm (h : WellFormed cfg s) {i : AlarmIndex}
    {m : SingleAlarmManager} (hm : s.allAlarmsState[i]? = some m) (now : ℕ) (severity : Severity)
    (delay : ℕ) : WellFormed cfg (changeScheduleForAlarm cfg now i m severity delay s) := by
  apply h.transfer
  · intro j
    rw [getElem?_changeScheduleForAlarm hm]
    split
    · rename_i hj
      subst hj
      rw [hm, Option.map_some, Option.map_some]
      unfold rescheduled
      split <;> rfl
    · rfl
  · intro j hj
    rw [held_changeScheduleForAlarm, Finset.mem_insert] at hj
    rcases hj with rfl | hj
    · rw [ExtTreeMap.mem_iff_isSome_getElem?, hm]
      rfl
    · exact h.held_keys j hj
  · exact ordered_changeScheduleForAlarm h.ordered now i m severity delay

theorem alarm_changeScheduleForAlarm {i : AlarmIndex} {m : SingleAlarmManager}
    (hm : s.allAlarmsState[i]? = some m) (now : ℕ) (severity : Severity) (delay : ℕ)
    (j : AlarmIndex) :
    (changeScheduleForAlarm cfg now i m severity delay s).alarm cfg j =
      if j = i then (s.alarm cfg i).reschedule now severity delay else s.alarm cfg j := by
  by_cases hj : j = i
  · subst hj
    have hm' : (changeScheduleForAlarm cfg now j m severity delay s).allAlarmsState[j]? = _ :=
      getElem?_changeScheduleForAlarm hm now severity delay j
    rw [if_pos rfl] at hm'
    rw [if_pos rfl, alarm_of_manager hm', alarm_of_manager hm]
    unfold rescheduled Alarm.reschedule
    simp only [inHeap, held_changeScheduleForAlarm, Finset.mem_insert_self, decide_true]
    split <;> rfl
  · rw [if_neg hj]
    apply alarm_congr
    · rw [getElem?_changeScheduleForAlarm hm, if_neg (Ne.symm hj)]
    · simp [held_changeScheduleForAlarm, hj]

@[simp] theorem alarm_signal (i : AlarmIndex) : s.signal.alarm cfg i = s.alarm cfg i := rfl

theorem WellFormed.setSignalled (h : WellFormed cfg s) (signalled : Bool) :
    WellFormed cfg { s with condSignalled := signalled } :=
  ⟨h.keys, h.own_timer, h.held_keys, h.ordered⟩

theorem WellFormed.signal (h : WellFormed cfg s) : WellFormed cfg s.signal := h.setSignalled true

end ClearwaterSnmp.AlarmScheduler
