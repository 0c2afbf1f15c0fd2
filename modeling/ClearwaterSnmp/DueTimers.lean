import ClearwaterSnmp.WakeUp

namespace ClearwaterSnmp
open Std AlarmScheduler

variable {H : Type} {cfg : Setup H}

namespace AlarmScheduler

/-- Each timer in the heap is the one of the manager of its index, and the heap is balanced,
so that `get_next_timer` finds a smallest pop time. -/
structure OwnsHeap (cfg : Setup H) (s : AlarmScheduler H) : Prop where
  owner : ∀ i ∈ cfg.heap.held s.alarmHeap, ∃ m : SingleAlarmManager,
    s.allAlarmsState[i]? = some m ∧ m.alarmTimer.index = i
  ordered : cfg.heap.Ordered s.popTimes s.alarmHeap

/-- The timers in the heap whose pop time has come. -/
def due (cfg : Setup H) (now : ℕ) (s : AlarmScheduler H) : Finset AlarmIndex :=
  (cfg.heap.held s.alarmHeap).filter fun i => s.popTimes i ≤ now

def timerSeverity (s : AlarmScheduler H) (i : AlarmIndex) : Severity :=
  ((s.allAlarmsState[i]?).map fun m => m.alarmTimer.severity).getD .undefinedSeverity

def currentSeverity (s : AlarmScheduler H) (i : AlarmIndex) : Severity :=
  ((s.allAlarmsState[i]?).map SingleAlarmManager.severity).getD .undefinedSeverity

/-- What `get_definition` yields for the timer of the alarm `i`. -/
def timerDefinition (cfg : Setup H) (s : AlarmScheduler H) (i : AlarmIndex) : AlarmTableDef :=
  cfg.defs.getDefinition i (s.timerSeverity i).number

/-- The timers whose alarms a pass is to send. -/
def ToSend (cfg : Setup H) (now : ℕ) (s : AlarmScheduler H) (i : AlarmIndex) : Prop :=
  i ∈ s.due cfg now ∧ (s.timerDefinition cfg i).isValid = true

theorem WellFormed.ownsHeap {s : AlarmScheduler H} (h : WellFormed cfg s) : OwnsHeap cfg s where
  owner i hi := by
    obtain ⟨m, hm⟩ := exists_manager (h.held_keys i hi)
    exact ⟨m, hm, h.own_timer i m hm⟩
  ordered := h.ordered

end AlarmScheduler

/-- The manager of the alarm `i` once its timer has popped. -/
def SingleAlarmManager.popped (i : AlarmIndex) (sent : Bool) (m : SingleAlarmManager) :
    SingleAlarmManager :=
  ⟨.new i, if sent then m.alarmTimer.severity else m.severity⟩

/-- The call of `send_trap` for the timer of the alarm `i`. -/
def Agent.trapFor (cfg : Setup H) (now : ℕ) (a : Agent H) (i : AlarmIndex) : Entry :=
  .inform now (a.scheduler.timerDefinition cfg i) (a.scheduler.currentSeverity i)

/-! ## One timer -/

namespace Agent

variable {a a' : Agent H} {now : ℕ} {rows : AlarmIndex → RowCreation} {k : AlarmIndex}
  {m : SingleAlarmManager}

theorem alarmIndex_timerDefinition (hv : (a.scheduler.timerDefinition cfg k).isValid = true) :
    (a.scheduler.timerDefinition cfg k).alarmIndex = k :=
  (AlarmTableDefs.loaded_of_isValid hv).2.1

section OneTimer

variable (hm : a.scheduler.allAlarmsState[k]? = some m)
include hm

theorem timerDefinition_of_manager :
    a.scheduler.timerDefinition cfg k =
      cfg.defs.getDefinition k m.alarmTimer.severity.number := by
  rw [timerDefinition, timerSeverity, hm]
  rfl

/-- A valid definition has the severity of the timer. -/
theorem severity_timerDefinition (hv : (a.scheduler.timerDefinition cfg k).isValid = true) :
    (a.scheduler.timerDefinition cfg k).severity = m.alarmTimer.severity := by
  rw [timerDefinition_of_manager hm] at hv ⊢
  exact Severity.number_injective (AlarmTableDefs.loaded_of_isValid hv).2.2

variable (hidx : m.alarmTimer.index = k)
include hidx

theorem getElem?_popTimer (j : AlarmIndex) :
    (a.popTimer cfg now rows k).scheduler.allAlarmsState[j]? =
      if k = j then some (m.popped k (a.scheduler.timerDefinition cfg k).isValid)
      else a.scheduler.allAlarmsState[j]? := by
  rw [popTimer_of_manager hm hidx, ← timerDefinition_of_manager hm]
  by_cases hv : (a.scheduler.timerDefinition cfg k).isValid = true
  · rw [if_pos hv, getElem?_removeFromHeap, getElem?_updateAlarmState, getElem?_updateAlarmState,
      if_pos rfl]
    by_cases hj : k = j
    · have hsev := severity_timerDefinition hm hv
      rw [if_pos hj, if_pos hj, sendTrap, hm, hv]
      simp [SingleAlarmManager.popped, AlarmTimer.new, hsev, hidx]
    · rw [if_neg hj, if_neg hj, if_neg hj]
      rfl
  · rw [if_neg hv, getElem?_removeFromHeap]
    by_cases hj : k = j
    · rw [if_pos hj, if_pos hj, hm]
      simp [SingleAlarmManager.popped, AlarmTimer.new, hv, hidx]
    · rw [if_neg hj, if_neg hj]

theorem log_popTimer :
    (a.popTimer cfg now rows k).log =
      if (a.scheduler.timerDefinition cfg k).isValid then a.trapFor cfg now k :: a.log
      else a.log := by
  have htrap : a.trapFor cfg now k =
      .inform now (a.scheduler.timerDefinition cfg k) m.severity := by
    rw [trapFor, currentSeverity, hm]
    rfl
  rw [popTimer_of_manager hm hidx, ← timerDefinition_of_manager hm, htrap]
  split <;> rfl

theorem ordered_popTimer (h : cfg.heap.Ordered a.scheduler.popTimes a.scheduler.alarmHeap) :
    cfg.heap.Ordered (a.popTimer cfg now rows k).scheduler.popTimes
      (a.popTimer cfg now rows k).scheduler.alarmHeap := by
  rw [popTimer_of_manager hm hidx]
  split
  · apply ordered_removeFromHeap
    rw [popTimes_updateAlarmState]
    exact h
  · exact ordered_removeFromHeap h k

theorem ownsHeap_popTimer (h : OwnsHeap cfg a.scheduler) :
    OwnsHeap cfg (a.popTimer cfg now rows k).scheduler where
  owner i hi := by
    rw [held_popTimer hm hidx] at hi
    obtain ⟨owner, howner⟩ := h.owner i (Finset.mem_of_mem_erase hi)
    refine ⟨owner, ?_, howner.2⟩
    rw [getElem?_popTimer hm hidx, if_neg (Finset.ne_of_mem_erase hi).symm, howner.1]
  ordered := ordered_popTimer hm hidx h.ordered

/-- Popping the timer of `k` leaves the other alarms as they are. -/
theorem popTimer_of_ne {j : AlarmIndex} (hj : j ≠ k) :
    (a.popTimer cfg now rows k).scheduler.popTimes j = a.scheduler.popTimes j ∧
      (a.popTimer cfg now rows k).scheduler.timerDefinition cfg j =
        a.scheduler.timerDefinition cfg j ∧
      (a.popTimer cfg now rows k).trapFor cfg now j = a.trapFor cfg now j := by
  have hsame : (a.popTimer cfg now rows k).scheduler.allAlarmsState[j]? =
      a.scheduler.allAlarmsState[j]? := by rw [getElem?_popTimer hm hidx, if_neg hj.symm]
  simp only [popTimes, timerDefinition, trapFor, timerSeverity, currentSeverity, hsame, and_self]

theorem due_popTimer :
    (a.popTimer cfg now rows k).scheduler.due cfg now = (a.scheduler.due cfg now).erase k := by
  ext j
  rw [due, due, held_popTimer hm hidx, Finset.mem_filter, Finset.mem_erase,
    Finset.mem_erase, Finset.mem_filter, and_assoc]
  refine and_congr_right fun hj => ?_
  rw [(popTimer_of_ne hm hidx hj).1]

theorem toSend_popTimer (j : AlarmIndex) :
    (a.popTimer cfg now rows k).scheduler.ToSend cfg now j ↔
      j ≠ k ∧ a.scheduler.ToSend cfg now j := by
  rw [ToSend, ToSend, due_popTimer hm hidx, Finset.mem_erase, and_assoc]
  refine and_congr_right fun hj => ?_
  rw [(popTimer_of_ne hm hidx hj).2.1]

/-- Popping a due timer leaves the rows of the alarms that are not to be sent. -/
theorem rowAt_popTimer (hk : k ∈ a.scheduler.due cfg now) {i : AlarmIndex}
    (hi : ¬a.scheduler.ToSend cfg now i) :
    (a.popTimer cfg now rows k).activeTable.rowAt i = a.activeTable.rowAt i := by
  rw [activeTable_popTimer hm hidx, ← timerDefinition_of_manager hm]
  by_cases hv : (a.scheduler.timerDefinition cfg k).isValid = true
  · have hne : k ≠ i := fun heq => hi (heq ▸ ⟨hk, hv⟩)
    rw [if_pos hv, AlarmActiveTable.rowAt_trapHandler_of_ne]
    rwa [alarmIndex_timerDefinition hv]
  · rw [if_neg hv]

theorem consistent_popTimer_of_manager (hc : a.activeTable.Consistent) :
    (a.popTimer cfg now rows k).activeTable.Consistent := by
  rw [activeTable_popTimer hm hidx]
  split
  · exact hc.trapHandler _ _
  · exact hc

end OneTimer

/-! ## A pass -/

/-- The calls of `send_trap` between two states: one for each timer that is to be sent, in the
order of the pop times. -/
def SendsInOrder (cfg : Setup H) (now : ℕ) (a a' : Agent H) : Prop :=
  ∃ sent : List AlarmIndex, sent.Nodup ∧
    (∀ i, i ∈ sent ↔ a.scheduler.ToSend cfg now i) ∧
    sent.Pairwise (fun i j => a.scheduler.popTimes i ≤ a.scheduler.popTimes j) ∧
    a'.log = (sent.map (a.trapFor cfg now)).reverse ++ a.log

/-- A pass from `a` to `a'` sends exactly what is due at `now`. -/
structure SendsDue (cfg : Setup H) (now : ℕ) (a a' : Agent H) : Prop where
  sends : SendsInOrder cfg now a a'
  heap : cfg.heap.held a'.scheduler.alarmHeap =
    cfg.heap.held a.scheduler.alarmHeap \ a.scheduler.due cfg now
  managers : ∀ i, a'.scheduler.allAlarmsState[i]? =
    if i ∈ a.scheduler.due cfg now then
      (a.scheduler.allAlarmsState[i]?).map
        (.popped i (a.scheduler.timerDefinition cfg i).isValid)
    else a.scheduler.allAlarmsState[i]?
  rows : ∀ i, ¬a.scheduler.ToSend cfg now i → a'.activeTable.rowAt i = a.activeTable.rowAt i
  consistent : a.activeTable.Consistent → a'.activeTable.Consistent

theorem due_eq_empty (h : OwnsHeap cfg a.scheduler) (hn : a.scheduler.nextDue cfg now = none) :
    a.scheduler.due cfg now = ∅ := by
  apply Finset.filter_eq_empty_iff.mpr
  intro i hi
  have hlt := cfg.heap.lt_of_nextDue_eq_none h.ordered hn hi
  omega

theorem SendsDue.of_nothing_due (h : a.scheduler.due cfg now = ∅) : SendsDue cfg now a a where
  sends := ⟨[], List.nodup_nil, by simp [ToSend, h], List.Pairwise.nil, rfl⟩
  heap := by rw [h, Finset.sdiff_empty]
  managers i := by rw [h, if_neg (Finset.notMem_empty i)]
  rows _ _ := rfl
  consistent := id

/-- A round puts its own call before those of the rest of the pass, if it makes one. -/
theorem SendsInOrder.pop (hm : a.scheduler.allAlarmsState[k]? = some m)
    (hidx : m.alarmTimer.index = k) (hk : k ∈ a.scheduler.due cfg now)
    (hmin : ∀ j ∈ a.scheduler.due cfg now, a.scheduler.popTimes k ≤ a.scheduler.popTimes j)
    (hrest : SendsInOrder cfg now (a.popTimer cfg now rows k) a') : SendsInOrder cfg now a a' := by
  obtain ⟨sent, hnodup, hmem, hsorted, hlog⟩ := hrest
  have hsent (i : AlarmIndex) (hi : i ∈ sent) : i ≠ k ∧ a.scheduler.ToSend cfg now i :=
    (toSend_popTimer hm hidx i).mp ((hmem i).mp hi)
  have hsorted' : sent.Pairwise fun i j => a.scheduler.popTimes i ≤ a.scheduler.popTimes j := by
    apply hsorted.imp_of_mem
    intro i j hi hj hle
    rwa [(popTimer_of_ne hm hidx (hsent i hi).1).1, (popTimer_of_ne hm hidx (hsent j hj).1).1]
      at hle
  have htraps : sent.map ((a.popTimer cfg now rows k).trapFor cfg now) =
      sent.map (a.trapFor cfg now) :=
    List.map_congr_left fun i hi => (popTimer_of_ne hm hidx (hsent i hi).1).2.2
  rw [htraps, log_popTimer hm hidx] at hlog
  by_cases hv : (a.scheduler.timerDefinition cfg k).isValid = true
  · refine ⟨k :: sent, List.nodup_cons.mpr ⟨fun hin => (hsent k hin).1 rfl, hnodup⟩, ?_, ?_, ?_⟩
    · intro i
      rw [List.mem_cons, hmem, toSend_popTimer hm hidx]
      by_cases hi : i = k
      · subst hi
        exact iff_of_true (Or.inl rfl) ⟨hk, hv⟩
      · simp [hi]
    · exact List.pairwise_cons.mpr ⟨fun j hj => hmin j (hsent j hj).2.1, hsorted'⟩
    · rw [hlog, if_pos hv, List.map_cons, List.reverse_cons, List.append_assoc]
      rfl
  · -- without a definition the timer only leaves the heap
    refine ⟨sent, hnodup, ?_, hsorted', ?_⟩
    · intro i
      rw [hmem, toSend_popTimer hm hidx]
      refine and_iff_right_of_imp fun hi heq => hv ?_
      rw [← heq]
      exact hi.2
    · rw [hlog, if_neg hv]

/-- One round, and then a pass over what is left, is a pass. -/
theorem SendsDue.pop (h : OwnsHeap cfg a.scheduler)
    (hnext : a.scheduler.nextDue cfg now = some k)
    (hrest : SendsDue cfg now (a.popTimer cfg now rows k) a') : SendsDue cfg now a a' := by
  obtain ⟨hget, hheld, hpop⟩ := cfg.heap.nextDue_eq_some hnext
  obtain ⟨m, hm, hidx⟩ := h.owner k hheld
  have hk : k ∈ a.scheduler.due cfg now := Finset.mem_filter.mpr ⟨hheld, hpop⟩
  have hdue : (a.popTimer cfg now rows k).scheduler.due cfg now =
      (a.scheduler.due cfg now).erase k := due_popTimer hm hidx
  refine ⟨?_, ?_, ?_, ?_, ?_⟩
  · refine hrest.sends.pop hm hidx hk ?_
    intro j hj
    exact cfg.heap.getNextTimer_le _ _ k j h.ordered hget (Finset.mem_filter.mp hj).1
  · rw [hrest.heap, held_popTimer hm hidx, hdue]
    ext j
    simp only [Finset.mem_sdiff, Finset.mem_erase]
    by_cases hj : j = k
    · simp [hj, hk]
    · simp [hj]
  · intro i
    rw [hrest.managers, hdue, getElem?_popTimer hm hidx]
    by_cases hi : k = i
    · subst hi
      rw [if_neg (Finset.notMem_erase k _), if_pos rfl, if_pos hk, hm]
      rfl
    · rw [(popTimer_of_ne hm hidx (Ne.symm hi)).2.1, if_neg hi]
      simp only [Finset.mem_erase, ne_eq, Ne.symm hi, not_false_eq_true, true_and]
  · intro i hi
    have hi' : ¬(a.popTimer cfg now rows k).scheduler.ToSend cfg now i := fun hs =>
      hi ((toSend_popTimer hm hidx i).mp hs).2
    rw [hrest.rows i hi', rowAt_popTimer hm hidx hk hi]
  · intro hc
    exact hrest.consistent (consistent_popTimer_of_manager hm hidx hc)

theorem sendsDue_heapSenderLoop (n : ℕ) (h : OwnsHeap cfg a.scheduler)
    (hn : (cfg.heap.held a.scheduler.alarmHeap).card ≤ n) :
    OwnsHeap cfg (a.heapSenderLoop cfg now rows n).scheduler ∧
      SendsDue cfg now a (a.heapSenderLoop cfg now rows n) := by
  induction n generalizing a with
  | zero =>
    have hempty := Finset.card_eq_zero.mp (Nat.le_zero.mp hn)
    exact ⟨h, .of_nothing_due (due_eq_empty h (cfg.heap.nextDue_of_held_empty hempty))⟩
  | succ n ih =>
    rw [heapSenderLoop]
    split
    · rename_i hnone
      exact ⟨h, .of_nothing_due (due_eq_empty h hnone)⟩
    · rename_i k hnext
      have hheld := (cfg.heap.nextDue_eq_some hnext).2.1
      obtain ⟨m, hm, hidx⟩ := h.owner k hheld
      have howns : OwnsHeap cfg (a.popTimer cfg now rows k).scheduler :=
        ownsHeap_popTimer hm hidx h
      have hrest := ih howns (card_held_popTimer hm hidx hheld hn)
      exact ⟨hrest.1, .pop h hnext hrest.2⟩

/-- More rounds than there are timers in the heap change nothing. -/
theorem heapSenderLoop_eq_of_le {n n' : ℕ} (h : OwnsHeap cfg a.scheduler)
    (hn : (cfg.heap.held a.scheduler.alarmHeap).card ≤ n)
    (hn' : (cfg.heap.held a.scheduler.alarmHeap).card ≤ n') :
    a.heapSenderLoop cfg now rows n = a.heapSenderLoop cfg now rows n' := by
  induction n generalizing a n' with
  | zero =>
    have hempty := Finset.card_eq_zero.mp (Nat.le_zero.mp hn)
    have hnone : a.scheduler.nextDue cfg now = none := cfg.heap.nextDue_of_held_empty hempty
    cases n' with
    | zero => rfl
    | succ n' => rw [heapSenderLoop, heapSenderLoop, hnone]
  | succ n ih =>
    cases hnext : a.scheduler.nextDue cfg now with
    | none =>
      cases n' with
      | zero => rw [heapSenderLoop, heapSenderLoop, hnext]
      | succ n' => rw [heapSenderLoop, heapSenderLoop, hnext]
    | some k =>
      have hheld := (cfg.heap.nextDue_eq_some hnext).2.1
      obtain ⟨m, hm, hidx⟩ := h.owner k hheld
      have hpos := Finset.card_pos.mpr ⟨k, hheld⟩
      obtain ⟨n', rfl⟩ : ∃ r, n' = r + 1 := ⟨n' - 1, by omega⟩
      have howns : OwnsHeap cfg (a.popTimer cfg now rows k).scheduler :=
        ownsHeap_popTimer hm hidx h
      rw [heapSenderLoop, heapSenderLoop, hnext]
      exact ih howns (card_held_popTimer hm hidx hheld hn)
        (card_held_popTimer hm hidx hheld hn')

namespace SendsDue

/-- A timer that is not due keeps its pop time. -/
theorem popTimes_eq (h : SendsDue cfg now a a') {i : AlarmIndex}
    (hi : i ∉ a.scheduler.due cfg now) : a'.scheduler.popTimes i = a.scheduler.popTimes i := by
  rw [popTimes, popTimes, h.managers, if_neg hi]

/-- Nothing that is due is left in the heap. -/
theorem nextDue_eq_none (h : SendsDue cfg now a a') : a'.scheduler.nextDue cfg now = none := by
  cases hnext : a'.scheduler.nextDue cfg now with
  | none => rfl
  | some k =>
    obtain ⟨-, hheld, hpop⟩ := cfg.heap.nextDue_eq_some hnext
    rw [h.heap, Finset.mem_sdiff] at hheld
    rw [h.popTimes_eq hheld.2] at hpop
    exact absurd (Finset.mem_filter.mpr ⟨hheld.1, hpop⟩) hheld.2

/-- The rows of alarms that are not sent stay in the container, and no others come. -/
theorem mem_container (h : SendsDue cfg now a a') (hc : a.activeTable.Consistent)
    {row : ActiveRow} (hrow : ¬a.scheduler.ToSend cfg now row.alarmTableDef.alarmIndex) :
    row ∈ a'.activeTable.container ↔ row ∈ a.activeTable.container := by
  rw [(h.consistent hc).mem_container, hc.mem_container, h.rows _ hrow]

/-- The thread then waits for the smallest pop time that is left. -/
theorem wakeTime_waitUntil (h : SendsDue cfg now a a')
    (hord : cfg.heap.Ordered a'.scheduler.popTimes a'.scheduler.alarmHeap) :
    wakeTime (a'.scheduler.waitUntil cfg) =
      (((cfg.heap.held a.scheduler.alarmHeap \ a.scheduler.due cfg now).image
        a.scheduler.popTimes).min).map (· * 1000000) := by
  have himage : (cfg.heap.held a'.scheduler.alarmHeap).image a'.scheduler.popTimes =
      (cfg.heap.held a.scheduler.alarmHeap \ a.scheduler.due cfg now).image
        a.scheduler.popTimes := by
    rw [h.heap]
    exact Finset.image_congr fun i hi => h.popTimes_eq (Finset.mem_sdiff.mp hi).2
  rw [AlarmScheduler.wakeTime_waitUntil hord, TimerHeap.smallestPopTime, himage]

end SendsDue

/-- A pass of `heap_sender`, in any state of the scheduler in which the timers in the heap belong
to the managers of their indexes: its loop ends, with nothing due left; it sends what was due and
has a definition, each once and in the order of the pop times; it leaves every other timer,
manager and row alone; and the thread then waits for the smallest pop time that is left. -/
theorem pass_sends_exactly_due (cfg : Setup H) (a : Agent H) (h : OwnsHeap cfg a.scheduler)
    (now : ℕ) (rows : AlarmIndex → RowCreation) :
    (∀ n, (cfg.heap.held a.scheduler.alarmHeap).card ≤ n →
      a.heapSenderLoop cfg now rows n = a.heapSenderPass cfg now rows) ∧
      (a.heapSenderPass cfg now rows).scheduler.nextDue cfg now = none ∧
      SendsDue cfg now a (a.heapSenderPass cfg now rows) ∧
      (a.activeTable.Consistent → ∀ row : ActiveRow,
        ¬a.scheduler.ToSend cfg now row.alarmTableDef.alarmIndex →
        (row ∈ (a.heapSenderPass cfg now rows).activeTable.container ↔
          row ∈ a.activeTable.container)) ∧
      wakeTime ((a.heapSenderPass cfg now rows).scheduler.waitUntil cfg) =
        (((cfg.heap.held a.scheduler.alarmHeap \ a.scheduler.due cfg now).image
          a.scheduler.popTimes).min).map (· * 1000000) := by
  have hpass : OwnsHeap cfg (a.heapSenderPass cfg now rows).scheduler ∧
      SendsDue cfg now a (a.heapSenderPass cfg now rows) :=
    sendsDue_heapSenderLoop _ h (Nat.le_refl _)
  exact ⟨fun n hn => heapSenderLoop_eq_of_le h hn (Nat.le_refl _), hpass.2.nextDue_eq_none,
    hpass.2, fun hc _ => hpass.2.mem_container hc, hpass.2.wakeTime_waitUntil hpass.1.ordered⟩

/-- An agent whose first alarm has just been raised. -/
def raisedSample : Agent (List AlarmIndex) :=
  (World.run .sample .initialised ⟨0, by decide⟩ [.issueAlarm "1000.3"]).toAgent

theorem pass_sends_exactly_due_sample :
    raisedSample.scheduler.due .sample 0 = {1000} ∧
      SendsDue .sample 0 raisedSample (raisedSample.heapSenderPass .sample 0 RowCreation.sample) :=
  ⟨by decide, (pass_sends_exactly_due .sample raisedSample
    (World.sound_run _ _ _ _).wellFormed.ownsHeap 0 RowCreation.sample).2.2.1⟩

end Agent
end ClearwaterSnmp
