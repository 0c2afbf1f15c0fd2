import ClearwaterSnmp.ActiveRows
import ClearwaterSnmp.SchedulerOperations

namespace ClearwaterSnmp
open Std

variable {H : Type} {cfg : Setup H}

namespace AlarmScheduler

variable {s : AlarmScheduler H}

theorem getElem?_removeFromHeap (k j : AlarmIndex) :
    (removeFromHeap cfg k s).allAlarmsState[j]? =
      if k = j then (s.allAlarmsState[k]?).map fun m =>
        { m with alarmTimer :=
          { m.alarmTimer with popTime := uint64Max, severity := .undefinedSeverity } }
      else s.allAlarmsState[j]? := by
  rw [removeFromHeap, allAlarmsState_heapRemove, getElem?_modifyTimer]

/-- The pop time is written before the timer is removed, which the heap puts up with. -/
theorem ordered_removeFromHeap (h : cfg.heap.Ordered s.popTimes s.alarmHeap) (k : AlarmIndex) :
    cfg.heap.Ordered (removeFromHeap cfg k s).popTimes (removeFromHeap cfg k s).alarmHeap := by
  apply cfg.heap.ordered_remove s.popTimes _ k _ ?_ h
  intro j hj
  exact popTimes_modifyTimer_of_ne
    (fun t => { t with popTime := uint64Max, severity := .undefinedSeverity }) hj

theorem held_removeFromHeap (k : AlarmIndex) :
    cfg.heap.held (removeFromHeap cfg k s).alarmHeap = (cfg.heap.held s.alarmHeap).erase k :=
  held_heapRemove k

theorem WellFormed.removeFromHeap (h : WellFormed cfg s) (k : AlarmIndex) :
    WellFormed cfg (removeFromHeap cfg k s) := by
  apply h.transfer
  · intro j
    rw [getElem?_removeFromHeap]
    split
    · rename_i hj
      subst hj
      cases s.allAlarmsState[k]? <;> rfl
    · rfl
  · intro j hj
    rw [held_removeFromHeap] at hj
    exact h.held_keys j (Finset.mem_of_mem_erase hj)
  · exact ordered_removeFromHeap h.ordered k

theorem alarm_removeFromHeap (k j : AlarmIndex) :
    (removeFromHeap cfg k s).alarm cfg j =
      if j = k then .popped (s.alarm cfg k).current else s.alarm cfg j := by
  by_cases hj : j = k
  · subst hj
    rw [if_pos rfl]
    unfold alarm
    rw [getElem?_removeFromHeap, if_pos rfl]
    cases s.allAlarmsState[j]? with
    | none => rfl
    | some m => simp [inHeap, Alarm.popped, Alarm.idle, held_removeFromHeap]
  · rw [if_neg hj]
    apply alarm_congr
    · rw [getElem?_removeFromHeap, if_neg (Ne.symm hj)]
    · simp [held_removeFromHeap, hj]

end AlarmScheduler

namespace Agent
open AlarmScheduler

variable {a : Agent H} {now : ℕ} {rows : AlarmIndex → RowCreation}

theorem getElem?_updateAlarmState (creation : RowCreation) (i j : AlarmIndex) (d : AlarmTableDef) :
    (updateAlarmState creation i d a).scheduler.allAlarmsState[j]? =
      if i = j then (a.scheduler.allAlarmsState[i]?).map fun m => { m with severity := d.severity }
      else a.scheduler.allAlarmsState[j]? := by
  simp only [updateAlarmState, ExtTreeMap.getElem?_modify, Std.compare_eq_iff_eq]

/-- What an alarm's timer holds is not touched by `update_alarm_state`. -/
theorem map_alarmTimer_updateAlarmState {β : Type} (f : AlarmTimer → β) (creation : RowCreation)
    (i j : AlarmIndex) (d : AlarmTableDef) :
    ((updateAlarmState creation i d a).scheduler.allAlarmsState[j]?).map (fun m => f m.alarmTimer) =
      (a.scheduler.allAlarmsState[j]?).map fun m => f m.alarmTimer := by
  rw [getElem?_updateAlarmState]
  split
  · rename_i hj
    subst hj
    cases a.scheduler.allAlarmsState[i]? <;> rfl
  · rfl

theorem popTimes_updateAlarmState (creation : RowCreation) (i : AlarmIndex) (d : AlarmTableDef) :
    (updateAlarmState creation i d a).scheduler.popTimes = a.scheduler.popTimes := by
  funext j
  rw [popTimes, popTimes, map_alarmTimer_updateAlarmState AlarmTimer.popTime]

theorem wellFormed_updateAlarmState (h : WellFormed cfg a.scheduler) (creation : RowCreation)
    (i : AlarmIndex) (d : AlarmTableDef) :
    WellFormed cfg (updateAlarmState creation i d a).scheduler := by
  apply h.transfer
  · intro j
    exact map_alarmTimer_updateAlarmState AlarmTimer.index creation i j d
  · exact h.held_keys
  · rw [popTimes_updateAlarmState]
    exact h.ordered

theorem alarm_updateAlarmState {i : AlarmIndex} {m : SingleAlarmManager}
    (hm : a.scheduler.allAlarmsState[i]? = some m) (creation : RowCreation) (d : AlarmTableDef)
    (j : AlarmIndex) :
    (updateAlarmState creation i d a).scheduler.alarm cfg j =
      if j = i then { a.scheduler.alarm cfg i with current := d.severity }
      else a.scheduler.alarm cfg j := by
  by_cases hj : j = i
  · subst hj
    have hm' := getElem?_updateAlarmState (a := a) creation j j d
    rw [if_pos rfl, hm, Option.map_some] at hm'
    rw [if_pos rfl, alarm_of_manager hm', alarm_of_manager hm]
    rfl
  · rw [if_neg hj]
    apply alarm_congr
    · rw [getElem?_updateAlarmState, if_neg (Ne.symm hj)]
    · rfl

/-- What an entry of the log says about the alarm `i`. -/
def entryFor (i : AlarmIndex) : Entry → Option AlarmEntry
  | .accepted time index severity => if index = i then some (.accepted time severity) else none
  | .inform time d previous =>
    if d.alarmIndex = i then some (.inform time d.severity previous) else none
  | .failed time index severity => if index = i then some (.failed time severity) else none
  | .synced time => some (.synced time)

/-- The history of the alarm `i`. -/
def history (a : Agent H) (i : AlarmIndex) : List AlarmEntry := a.log.filterMap (entryFor i)

/-- What the agent holds about the alarm `i`. -/
def alarmState (cfg : Setup H) (a : Agent H) (i : AlarmIndex) : AlarmState :=
  ⟨a.scheduler.alarm cfg i, a.activeTable.definitionAt i, a.history i⟩

end Agent

/-- The configuration of the alarm `i`. -/
def Setup.alarmConfig (cfg : Setup H) (ready : Bool) (i : AlarmIndex) : AlarmConfig where
  order := cfg.order
  definition s := cfg.defs.getDefinition i s.number
  ready := ready
  own_severity s h := Severity.number_injective (AlarmTableDefs.loaded_of_isValid h).2.2
  severity_defined s h := by
    obtain ⟨hl, -, hs⟩ := AlarmTableDefs.loaded_of_isValid h
    have hd := cfg.severity_defined _ hl
    rwa [Severity.number_injective hs] at hd

namespace Agent
open AlarmScheduler

variable {a : Agent H} {now : ℕ} {rows : AlarmIndex → RowCreation}

section OneTimer

variable {k : AlarmIndex} {m : SingleAlarmManager}
  (hm : a.scheduler.allAlarmsState[k]? = some m) (hidx : m.alarmTimer.index = k)
include hm hidx

/-- What popping a timer that names its own manager does: the trap, the manager and the row if
there is a definition, and the heap in any case. -/
theorem popTimer_of_manager :
    a.popTimer cfg now rows k =
      if (cfg.defs.getDefinition k m.alarmTimer.severity.number).isValid then
        { updateAlarmState (rows k) k (cfg.defs.getDefinition k m.alarmTimer.severity.number)
            (a.sendTrap now (cfg.defs.getDefinition k m.alarmTimer.severity.number)
              m.severity) with
          scheduler := removeFromHeap cfg k
            (updateAlarmState (rows k) k (cfg.defs.getDefinition k m.alarmTimer.severity.number)
              (a.sendTrap now (cfg.defs.getDefinition k m.alarmTimer.severity.number)
                m.severity)).scheduler }
      else { a with scheduler := removeFromHeap cfg k a.scheduler } := by
  simp only [popTimer, sendAlarm, hm, hidx]
  split <;> rfl

theorem held_popTimer :
    cfg.heap.held (a.popTimer cfg now rows k).scheduler.alarmHeap =
      (cfg.heap.held a.scheduler.alarmHeap).erase k := by
  rw [popTimer_of_manager hm hidx]
  split <;> exact held_removeFromHeap k

theorem card_held_popTimer {n : ℕ} (hk : k ∈ cfg.heap.held a.scheduler.alarmHeap)
    (hn : (cfg.heap.held a.scheduler.alarmHeap).card ≤ n + 1) :
    (cfg.heap.held (a.popTimer cfg now rows k).scheduler.alarmHeap).card ≤ n := by
  rw [held_popTimer hm hidx, Finset.card_erase_of_mem hk]
  omega

theorem activeTable_popTimer :
    (a.popTimer cfg now rows k).activeTable =
      if (cfg.defs.getDefinition k m.alarmTimer.severity.number).isValid then
        a.activeTable.trapHandler (rows k)
          (cfg.defs.getDefinition k m.alarmTimer.severity.number)
      else a.activeTable := by
  rw [popTimer_of_manager hm hidx]
  split <;> rfl

end OneTimer

theorem popTimer_of_none {k : AlarmIndex} (hm : a.scheduler.allAlarmsState[k]? = none) :
    a.popTimer cfg now rows k = a := by
  simp only [popTimer, hm]

theorem wellFormed_popTimer (h : WellFormed cfg a.scheduler) (k : AlarmIndex) :
    WellFormed cfg (a.popTimer cfg now rows k).scheduler := by
  cases hm : a.scheduler.allAlarmsState[k]? with
  | none => rwa [popTimer_of_none hm]
  | some m =>
    rw [popTimer_of_manager hm (h.own_timer k m hm)]
    split
    · apply WellFormed.removeFromHeap
      exact wellFormed_updateAlarmState (a := a.sendTrap now _ m.severity) h (rows k) k _
    · exact h.removeFromHeap k

/-- What the trap handler keeps of the Active Alarm Table, popping a timer keeps. -/
theorem activeTable_popTimer_invariant {P : AlarmActiveTable → Prop}
    (hP : ∀ t creation d, P t → P (t.trapHandler creation d)) (h : WellFormed cfg a.scheduler)
    (ha : P a.activeTable) (k : AlarmIndex) : P (a.popTimer cfg now rows k).activeTable := by
  cases hm : a.scheduler.allAlarmsState[k]? with
  | none => rwa [popTimer_of_none hm]
  | some m =>
    rw [activeTable_popTimer hm (h.own_timer k m hm)]
    split
    · exact hP _ _ _ ha
    · exact ha

theorem myHandler_popTimer (h : WellFormed cfg a.scheduler) (k : AlarmIndex) :
    (a.popTimer cfg now rows k).activeTable.myHandler = a.activeTable.myHandler :=
  activeTable_popTimer_invariant (P := fun t => t.myHandler = a.activeTable.myHandler)
    (fun t creation d ht => (t.myHandler_trapHandler creation d).trans ht) h rfl k

theorem consistent_popTimer (h : WellFormed cfg a.scheduler) (hc : a.activeTable.Consistent)
    (k : AlarmIndex) : (a.popTimer cfg now rows k).activeTable.Consistent :=
  activeTable_popTimer_invariant (fun _ creation d ht => ht.trapHandler creation d) h hc k

/-- Popping a due timer is a pass of its own alarm and nothing to any other. -/
theorem alarmState_popTimer (h : WellFormed cfg a.scheduler) {k : AlarmIndex}
    (hk : k ∈ cfg.heap.held a.scheduler.alarmHeap) (hdue : a.scheduler.popTimes k ≤ now)
    (i : AlarmIndex) :
    (a.popTimer cfg now rows k).alarmState cfg i =
      if i = k then
        (a.alarmState cfg k).pass (cfg.alarmConfig a.activeTable.myHandler k) now (rows k)
      else a.alarmState cfg i := by
  obtain ⟨owner, hm⟩ := exists_manager (h.held_keys k hk)
  have hisDue : (a.scheduler.alarm cfg k).isDue now = true := by
    rw [popTimes_eq_due cfg] at hdue
    rw [alarm_of_manager hm] at hdue ⊢
    simp [Alarm.isDue, inHeap, hk, hdue]
  have hpending : (a.scheduler.alarm cfg k).pending = owner.alarmTimer.severity := by
    rw [alarm_of_manager hm]
  have hcurrent : (a.scheduler.alarm cfg k).current = owner.severity := by
    rw [alarm_of_manager hm]
  rw [popTimer_of_manager hm (h.own_timer k owner hm)]
  set d := cfg.defs.getDefinition k owner.alarmTimer.severity.number with hd
  by_cases hv : d.isValid
  · have hdk : d.alarmIndex = k := (AlarmTableDefs.loaded_of_isValid hv).2.1
    rw [if_pos hv]
    by_cases hi : i = k
    · subst hi
      simp only [alarmState, AlarmState.pass, Setup.alarmConfig, hisDue, hpending, ← hd, hv,
        hcurrent, alarm_removeFromHeap, ↓reduceIte, AlarmState.mk.injEq]
      -- the alarm, what its row shows, and its history
      refine ⟨?_, ?_, ?_⟩
      · rw [alarm_updateAlarmState (a := a.sendTrap now d owner.severity) hm, if_pos rfl]
      · rw [← hdk]
        exact AlarmActiveTable.definitionAt_trapHandler_self _ _ _
      · simp [history, updateAlarmState, sendTrap, entryFor, hdk]
    · have hdi : d.alarmIndex ≠ i := fun he => hi (he.symm.trans hdk)
      simp only [alarmState, alarm_removeFromHeap, hi, ↓reduceIte, AlarmState.mk.injEq]
      refine ⟨?_, ?_, ?_⟩
      · rw [alarm_updateAlarmState (a := a.sendTrap now d owner.severity) hm, if_neg hi]
        rfl
      · exact AlarmActiveTable.definitionAt_trapHandler_of_ne _ _ _ hdi
      · simp [history, updateAlarmState, sendTrap, entryFor, hdi]
  · -- without a definition the timer leaves the heap and nothing is sent
    rw [if_neg hv]
    by_cases hi : i = k
    · subst hi
      simp only [alarmState, AlarmState.pass, Setup.alarmConfig, hisDue, hpending, ← hd, hv,
        alarm_removeFromHeap, ↓reduceIte, Bool.false_eq_true]
      rfl
    · simp only [alarmState, alarm_removeFromHeap, hi, ↓reduceIte]
      rfl

end Agent
end ClearwaterSnmp
