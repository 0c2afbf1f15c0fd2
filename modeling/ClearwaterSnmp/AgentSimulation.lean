import ClearwaterSnmp.HeapSender

namespace ClearwaterSnmp
open AlarmScheduler

variable {H : Type} {cfg : Setup H}

namespace Agent

variable {a : Agent H} {now : ℕ} {rows : AlarmIndex → RowCreation}

/-- What each popped timer keeps, a pass keeps. -/
theorem heapSenderLoop_invariant {I : Agent H → Prop}
    (hpop : ∀ a k, WellFormed cfg a.scheduler → I a → I (a.popTimer cfg now rows k)) (n : ℕ)
    (h : WellFormed cfg a.scheduler) (ha : I a) :
    WellFormed cfg (a.heapSenderLoop cfg now rows n).scheduler ∧
      I (a.heapSenderLoop cfg now rows n) := by
  induction n generalizing a with
  | zero => exact ⟨h, ha⟩
  | succ n ih =>
    rw [heapSenderLoop]
    split
    · exact ⟨h, ha⟩
    · exact ih (wellFormed_popTimer h _) (hpop a _ h ha)

theorem wellFormed_heapSenderPass (h : WellFormed cfg a.scheduler) :
    WellFormed cfg (a.heapSenderPass cfg now rows).scheduler :=
  (heapSenderLoop_invariant (I := fun _ => True) (fun _ _ _ _ => trivial) _ h trivial).1

theorem myHandler_heapSenderPass (h : WellFormed cfg a.scheduler) :
    (a.heapSenderPass cfg now rows).activeTable.myHandler = a.activeTable.myHandler :=
  (heapSenderLoop_invariant (I := fun b => b.activeTable.myHandler = a.activeTable.myHandler)
    (fun _ k h' hb => (myHandler_popTimer h' k).trans hb) _ h rfl).2

theorem consistent_heapSenderPass (h : WellFormed cfg a.scheduler)
    (hc : a.activeTable.Consistent) : (a.heapSenderPass cfg now rows).activeTable.Consistent :=
  (heapSenderLoop_invariant (I := fun b => b.activeTable.Consistent)
    (fun _ k h' hb => consistent_popTimer h' hb k) _ h hc).2

/-- If nothing is due, a pass of a single alarm does nothing. -/
theorem isDue_of_nextDue_eq_none (h : WellFormed cfg a.scheduler)
    (hn : a.scheduler.nextDue cfg now = none) (i : AlarmIndex) :
    (a.scheduler.alarm cfg i).isDue now = false := by
  unfold alarm
  split
  · rfl
  · rename_i m hm
    by_cases hi : i ∈ cfg.heap.held a.scheduler.alarmHeap
    · have hlt := cfg.heap.lt_of_nextDue_eq_none h.ordered hn hi
      rw [popTimes_eq_due cfg, alarm_of_manager hm] at hlt
      simp [Alarm.isDue, hlt]
    · simp [Alarm.isDue, inHeap, hi]

/-- Whatever the order in which the heap yields the due timers, a pass of the
agent is one pass of each alarm. -/
theorem alarmState_heapSenderLoop (n : ℕ) (h : WellFormed cfg a.scheduler)
    (hn : (cfg.heap.held a.scheduler.alarmHeap).card ≤ n) (i : AlarmIndex) :
    (a.heapSenderLoop cfg now rows n).alarmState cfg i =
      (a.alarmState cfg i).pass (cfg.alarmConfig a.activeTable.myHandler i) now (rows i) := by
  induction n generalizing a with
  | zero =>
    have hempty := Finset.card_eq_zero.mp (Nat.le_zero.mp hn)
    have hnone : a.scheduler.nextDue cfg now = none := cfg.heap.nextDue_of_held_empty hempty
    exact (AlarmState.pass_of_not_due (isDue_of_nextDue_eq_none h hnone i)).symm
  | succ n ih =>
    rw [heapSenderLoop]
    split
    · rename_i hnone
      exact (AlarmState.pass_of_not_due (isDue_of_nextDue_eq_none h hnone i)).symm
    · rename_i k hd
      obtain ⟨-, hk, hdue⟩ := cfg.heap.nextDue_eq_some hd
      obtain ⟨m, hm⟩ := exists_manager (h.held_keys k hk)
      rw [ih (wellFormed_popTimer h k) (card_held_popTimer hm (h.own_timer k m hm) hk hn),
        myHandler_popTimer h k, alarmState_popTimer h hk hdue]
      split
      · -- the rest of the loop is one more pass of `k`, which has just popped
        rename_i hi
        rw [hi, AlarmState.pass_pass]
      · rfl

theorem alarmState_heapSenderPass (now : ℕ) (rows : AlarmIndex → RowCreation)
    (h : WellFormed cfg a.scheduler) (i : AlarmIndex) :
    (a.heapSenderPass cfg now rows).alarmState cfg i =
      (a.alarmState cfg i).pass (cfg.alarmConfig a.activeTable.myHandler i) now (rows i) :=
  alarmState_heapSenderLoop _ h le_rfl i

end Agent

/-- What an event is to the alarm `i`. -/
def Event.inputFor (cfg : Setup H) (i : AlarmIndex) : Event cfg.defs → AlarmInput
  | .issueAlarm identifier =>
    match validateAlarmTrigger cfg.defs identifier with
    | none => .other
    | some (index, severity) =>
      if index = i then .request (Severity.ofNumber severity) else .other
  | .syncAlarms => .resync
  | .handleFailedAlarm d _ => if d.alarmIndex = i then .failure d.severity else .other
  | .heapSender rows => .pass (rows i)
  | .clock later => .clock later

theorem Event.inputFor_admissible (ready : Bool) (i : AlarmIndex) (e : Event cfg.defs) :
    (e.inputFor cfg i).Admissible (cfg.alarmConfig ready i) := by
  have hvalid (d : AlarmTableDef) (hd : cfg.defs.Loaded d) :
      (cfg.defs.getDefinition d.alarmIndex d.severity.number).isValid = true := by
    rw [AlarmTableDefs.getDefinition_of_loaded hd]
    exact AlarmTableDefs.isValid_of_loaded hd
  cases e with
  | issueAlarm identifier =>
    rw [inputFor]
    split
    · trivial
    · rename_i index severity ha
      obtain ⟨d, hd, rfl, hs⟩ := validateAlarmTrigger_loaded ha
      split
      · rename_i hi
        subst hi
        rw [← hs]
        exact hvalid d hd
      · trivial
  | handleFailedAlarm d hd =>
    rw [inputFor]
    split
    · rename_i hi
      subst hi
      exact hvalid d hd
    · trivial
  | _ => trivial

theorem isValid_of_accepted (ready : Bool) {identifier : String} {i : AlarmIndex} {n : ℕ}
    (h : validateAlarmTrigger cfg.defs identifier = some (i, n)) :
    ((cfg.alarmConfig ready i).definition (Severity.ofNumber n)).isValid = true := by
  have hadm : (Event.inputFor cfg i (.issueAlarm identifier)).Admissible
      (cfg.alarmConfig ready i) := Event.inputFor_admissible ready i _
  simpa [Event.inputFor, AlarmInput.Admissible, h] using hadm

theorem isValid_of_reported (ready : Bool) {d : AlarmTableDef} (h : cfg.defs.Loaded d) :
    ((cfg.alarmConfig ready d.alarmIndex).definition d.severity).isValid = true := by
  have hadm : (Event.inputFor cfg d.alarmIndex (.handleFailedAlarm d h)).Admissible
      (cfg.alarmConfig ready d.alarmIndex) := Event.inputFor_admissible ready d.alarmIndex _
  simpa [Event.inputFor, AlarmInput.Admissible] using hadm

theorem Event.eq_issueAlarm_of_inputFor {i : AlarmIndex} {e : Event cfg.defs} {s : Severity}
    (h : e.inputFor cfg i = .request s) :
    ∃ identifier n, e = .issueAlarm identifier ∧
      validateAlarmTrigger cfg.defs identifier = some (i, n) ∧ s = Severity.ofNumber n := by
  cases e with
  | issueAlarm identifier =>
    rw [inputFor] at h
    split at h
    · contradiction
    · rename_i index n ha
      split at h
      · rename_i hi
        subst hi
        obtain rfl := AlarmInput.request.inj h
        exact ⟨identifier, n, rfl, ha, rfl⟩
      · contradiction
  | handleFailedAlarm d hd =>
    rw [inputFor] at h
    split at h <;> contradiction
  | syncAlarms => contradiction
  | heapSender rows => contradiction
  | clock later => contradiction

namespace World

/-- The alarm `i` of the agent, as a state of the automaton of a single alarm. -/
def track (cfg : Setup H) (w : World H) (i : AlarmIndex) : AlarmTrack :=
  ⟨w.toAgent.alarmState cfg i, w.now⟩

theorem track_alarm (w : World H) (i : AlarmIndex) :
    (w.track cfg i).alarm = w.scheduler.alarm cfg i := rfl

/-- What the simulation relies on. -/
structure Sound (cfg : Setup H) (ready : Bool) (w : World H) : Prop where
  wellFormed : WellFormed cfg w.scheduler
  ready_eq : w.activeTable.myHandler = ready

theorem sound_init (table : AlarmActiveTable) (now : Clock) :
    Sound cfg table.myHandler (init cfg table now) := ⟨wellFormed_init, rfl⟩

theorem Sound.step {ready : Bool} {w : World H} (h : Sound cfg ready w) (e : Event cfg.defs) :
    Sound cfg ready (w.step cfg e) := by
  cases e with
  | issueAlarm identifier => exact ⟨h.wellFormed.issueAlarm _ _, h.ready_eq⟩
  | syncAlarms => exact ⟨h.wellFormed.syncAlarms _, h.ready_eq⟩
  | handleFailedAlarm d hd => exact ⟨h.wellFormed.handleFailedAlarm _ _, h.ready_eq⟩
  | heapSender rows =>
    exact ⟨Agent.wellFormed_heapSenderPass h.wellFormed,
      (Agent.myHandler_heapSenderPass h.wellFormed).trans h.ready_eq⟩
  | clock later => exact ⟨h.wellFormed, h.ready_eq⟩

/-- Each step of the agent is a step of each of its alarms. -/
theorem track_step {ready : Bool} {w : World H} (h : Sound cfg ready w) (e : Event cfg.defs)
    (i : AlarmIndex) :
    (w.step cfg e).track cfg i =
      (w.track cfg i).step (cfg.alarmConfig ready i) (e.inputFor cfg i) := by
  cases e with
  | issueAlarm identifier =>
    cases ha : validateAlarmTrigger cfg.defs identifier with
    | none =>
      simp [World.step, Event.inputFor, AlarmTrack.step, acceptance, ha, issueAlarm_of_rejected]
    | some accepted =>
      obtain ⟨index, severity⟩ := accepted
      have hal := alarm_issueAlarm h.wellFormed w.now.ms ha i
      -- the other alarms see neither the new schedule nor the entry in the log
      by_cases hi : index = i
      · subst hi
        rw [if_pos rfl] at hal
        simp [World.step, Event.inputFor, AlarmTrack.step, acceptance, ha, track, hal,
          Agent.alarmState, Agent.history, Agent.entryFor, Setup.alarmConfig]
      · rw [if_neg (Ne.symm hi)] at hal
        simp [World.step, Event.inputFor, AlarmTrack.step, acceptance, ha, track, hal, hi,
          Agent.alarmState, Agent.history, Agent.entryFor]
  | syncAlarms =>
    simp [World.step, Event.inputFor, AlarmTrack.step, track, alarm_syncAlarms h.wellFormed,
      Agent.alarmState, Agent.history, Agent.entryFor]
  | handleFailedAlarm d hd =>
    have hal := alarm_handleFailedAlarm h.wellFormed w.now.ms hd i
    by_cases hi : d.alarmIndex = i
    · subst hi
      rw [if_pos rfl] at hal
      simp [World.step, Event.inputFor, AlarmTrack.step, track, hal, Agent.alarmState,
        Agent.history, Agent.entryFor]
    · rw [if_neg (Ne.symm hi)] at hal
      simp [World.step, Event.inputFor, AlarmTrack.step, track, hal, hi, Agent.alarmState,
        Agent.history, Agent.entryFor]
  | heapSender rows =>
    have hp := Agent.alarmState_heapSenderPass w.now.ms rows h.wellFormed i
    rw [h.ready_eq] at hp
    simp [World.step, Event.inputFor, AlarmTrack.step, track, hp]
  | clock later => rfl

/-- The alarm `i` before anything has happened to it. -/
def initialTrack (table : AlarmActiveTable) (now : Clock) (i : AlarmIndex) : AlarmTrack :=
  ⟨⟨.idle, table.definitionAt i, []⟩, now⟩

theorem track_init (cfg : Setup H) (table : AlarmActiveTable) (now : Clock) (i : AlarmIndex) :
    (init cfg table now).track cfg i = initialTrack table now i := by
  have hal := alarm_init cfg i
  simp [track, init, Agent.alarmState, Agent.history, hal, initialTrack]

/-- Every run of the agent is, for each alarm, a run of the automaton of a single
alarm. -/
theorem track_run (cfg : Setup H) (table : AlarmActiveTable) (now : Clock)
    (es : List (Event cfg.defs)) (i : AlarmIndex) :
    (run cfg table now es).track cfg i =
      Runs.run (AlarmTrack.step (cfg.alarmConfig table.myHandler i)) (initialTrack table now i)
        (es.map (Event.inputFor cfg i)) := by
  rw [← track_init cfg]
  exact Runs.run_simulation (I := Sound cfg table.myHandler)
    (fun w => w.track cfg i) (Event.inputFor cfg i) (fun _ e h => h.step e)
    (fun _ e h => track_step h e i) (sound_init table now) es

theorem sound_run (cfg : Setup H) (table : AlarmActiveTable) (now : Clock)
    (es : List (Event cfg.defs)) : Sound cfg table.myHandler (run cfg table now es) :=
  Runs.run_invariant (fun _ e h => h.step e) (sound_init table now) es

/-- An invariant of the automaton of a single alarm holds of every alarm of the
agent, in a run whose steps meet `P`. -/
theorem track_invariant_along {table : AlarmActiveTable} {now : Clock} {i : AlarmIndex}
    {J : AlarmTrack → Prop} {P : World H → Event cfg.defs → Prop}
    (hinit : J (initialTrack table now i))
    (hstep : ∀ w e, P w e → (e.inputFor cfg i).Admissible (cfg.alarmConfig table.myHandler i) →
      J (w.track cfg i) →
      J ((w.track cfg i).step (cfg.alarmConfig table.myHandler i) (e.inputFor cfg i)))
    {es : List (Event cfg.defs)} (hP : Runs.Along (World.step cfg) P (init cfg table now) es) :
    J ((run cfg table now es).track cfg i) := by
  have h := Runs.run_invariant_along
    (I := fun w => Sound cfg table.myHandler w ∧ J (w.track cfg i))
    (fun w e hw hPe => ⟨hw.1.step e, by
      rw [track_step hw.1 e i]
      exact hstep w e hPe (Event.inputFor_admissible _ i e) hw.2⟩)
    ⟨sound_init table now, by rw [track_init]; exact hinit⟩ hP
  exact h.2

theorem track_invariant {table : AlarmActiveTable} {now : Clock} {i : AlarmIndex}
    {J : AlarmTrack → Prop} (hinit : J (initialTrack table now i))
    (hstep : ∀ x u, u.Admissible (cfg.alarmConfig table.myHandler i) → J x →
      J (x.step (cfg.alarmConfig table.myHandler i) u)) (es : List (Event cfg.defs)) :
    J ((run cfg table now es).track cfg i) :=
  track_invariant_along (P := fun _ _ => True) hinit (fun _ _ _ hadm hJ => hstep _ _ hadm hJ)
    (Runs.along_of_forall (fun _ _ _ => trivial) _)

end World
end ClearwaterSnmp
