import ClearwaterSnmp.LastRequest

namespace ClearwaterSnmp
open AlarmScheduler

/-- A current severity for which the Active Alarm Table has a row. -/
def Severity.active (s : Severity) : Bool := s ≠ .undefinedSeverity ∧ s ≠ .cleared

/-- If row creation succeeds, a trap replaces whatever is shown by its own
definition, unless it is a clear. -/
theorem AlarmActiveTable.shownAfterTrap_of_succeeds {creation : RowCreation}
    (hs : creation.succeeds = true) (d : AlarmTableDef) {shown : Option AlarmTableDef}
    (hshown : ∀ old ∈ shown, d.severity = old.severity → old = d) :
    shownAfterTrap true creation d shown = if d.severity ≠ .cleared then some d else none := by
  unfold shownAfterTrap
  by_cases hc : d.severity = .cleared
  · simp [hc]
  · cases shown with
    | none => simp [hc, hs]
    | some old =>
      by_cases hsev : d.severity = old.severity
      · obtain rfl := hshown old rfl hsev
        simp [hc]
      · simp [hc, hsev, hs]

/-- A row is created whenever a pass needs one. -/
def AlarmInput.CreatesRows : AlarmInput → Prop
  | pass creation => creation.succeeds = true
  | _ => True

namespace AlarmTrack

variable {c : AlarmConfig} {x : AlarmTrack}

/-- The row of an alarm shows the definition of its current severity. -/
def Mirrored (c : AlarmConfig) (x : AlarmTrack) : Prop :=
  x.shown = if x.alarm.current.active then some (c.definition x.alarm.current) else none

theorem mirrored_initial (now : Clock) : Mirrored c ⟨⟨.idle, none, []⟩, now⟩ := by
  simp [Mirrored, Alarm.idle, Severity.active]

theorem Mirrored.pass (hready : c.ready = true) (hset : Settled c x) (h : Mirrored c x)
    {creation : RowCreation} (hs : creation.succeeds = true) :
    Mirrored c (x.step c (.pass creation)) := by
  rcases hset.pass_cases creation with ⟨-, he⟩ | ⟨-, -, hv, he⟩
  · rwa [he]
  · have hown := c.own_severity _ hv
    -- a row that already has this severity has this definition, since both are loaded
    have hshown : ∀ old ∈ x.shown, (c.definition x.alarm.pending).severity = old.severity →
        old = c.definition x.alarm.pending := by
      intro old hold hsev
      rw [h, Option.mem_ite_none_right] at hold
      obtain ⟨ha, hd⟩ := hold
      obtain rfl := Option.some.inj hd
      have hcur : x.alarm.current ≠ .undefinedSeverity := by
        simp only [Severity.active, decide_eq_true_eq] at ha
        exact ha.1
      rw [hown, c.own_severity _ (hset.alarm.current_valid hcur)] at hsev
      rw [hsev]
    rw [he, hready, AlarmActiveTable.shownAfterTrap_of_succeeds hs _ hshown, Mirrored, hown]
    simp [Alarm.popped, Severity.active, c.severity_defined _ hv]

theorem Mirrored.step (hready : c.ready = true) (hset : Settled c x) (h : Mirrored c x)
    {u : AlarmInput} (hu : u.CreatesRows) : Mirrored c (x.step c u) := by
  cases u with
  | request s => simpa only [Mirrored, AlarmTrack.step, Alarm.current_request] using h
  | resync => simpa only [Mirrored, AlarmTrack.step, Alarm.current_resync] using h
  | failure s => simpa only [Mirrored, AlarmTrack.step, Alarm.current_failure] using h
  | pass creation => exact h.pass hready hset hu
  | clock later => exact h
  | other => exact h

end AlarmTrack

variable {H : Type} {cfg : Setup H}

/-- Row creation succeeds throughout a pass. -/
def Event.CreatesRows {defs : AlarmTableDefs} : Event defs → Prop
  | .heapSender rows => ∀ i, (rows i).succeeds = true
  | _ => True

theorem Event.CreatesRows.inputFor {e : Event cfg.defs} (h : e.CreatesRows) (i : AlarmIndex) :
    (e.inputFor cfg i).CreatesRows := by
  cases e with
  | issueAlarm identifier =>
    rw [Event.inputFor]
    split
    · trivial
    · split <;> trivial
  | handleFailedAlarm d hd =>
    rw [Event.inputFor]
    split <;> trivial
  | heapSender rows => exact h i
  | syncAlarms => trivial
  | clock later => trivial

namespace World

/-- The rows that the container holds for an alarm. -/
def rowsFor (w : World H) (i : AlarmIndex) : List ActiveRow :=
  w.activeTable.container.filter (·.alarmTableDef.alarmIndex = i)

theorem consistent_run (cfg : Setup H) {table : AlarmActiveTable} (ht : table.Consistent)
    (now : Clock) (es : List (Event cfg.defs)) : (run cfg table now es).activeTable.Consistent := by
  have h := Runs.run_invariant
    (I := fun w => Sound cfg table.myHandler w ∧ w.activeTable.Consistent)
    (fun w e hw => ⟨hw.1.step e, by
      cases e with
      | heapSender rows => exact Agent.consistent_heapSenderPass hw.1.wellFormed hw.2
      | _ => exact hw.2⟩)
    ⟨sound_init table now, ht⟩ es
  exact h.2

theorem map_rowsFor {w : World H} (h : w.activeTable.Consistent) (i : AlarmIndex) :
    (w.rowsFor i).map ActiveRow.alarmTableDef = (w.activeTable.definitionAt i).toList := by
  rw [rowsFor, h.filter_container, AlarmActiveTable.definitionAt]
  cases w.activeTable.rowAt i <;> rfl

/-- The container has exactly one row for each alarm whose current severity is
known and not cleared, with the loaded definition for that severity, and no row
for any other alarm. -/
structure MirrorsScheduler (cfg : Setup H) (w : World H) : Prop where
  active : ∀ (i : AlarmIndex) (m : SingleAlarmManager),
    w.scheduler.allAlarmsState[i]? = some m → m.severity ≠ .undefinedSeverity →
    m.severity ≠ .cleared →
    ∃ row, w.rowsFor i = [row] ∧ cfg.defs.Loaded row.alarmTableDef ∧
      row.alarmTableDef.alarmIndex = i ∧ row.alarmTableDef.severity = m.severity
  inactive : ∀ i : AlarmIndex,
    (∀ m, w.scheduler.allAlarmsState[i]? = some m →
      m.severity = .undefinedSeverity ∨ m.severity = .cleared) → w.rowsFor i = []

theorem mirrors_scheduler (cfg : Setup H) (now : Clock) (es : List (Event cfg.defs))
    (hrows : ∀ e ∈ es, e.CreatesRows) :
    MirrorsScheduler cfg (run cfg .initialised now es) := by
  have hcons := consistent_run cfg AlarmActiveTable.consistent_initialised now es
  have halong : Runs.Along (World.step cfg) (fun _ e => e.CreatesRows)
      (init cfg .initialised now) es := Runs.along_of_forall (fun e he _ => hrows e he) _
  have hinv (i : AlarmIndex) := settled_invariant_along (i := i) (AlarmTrack.mirrored_initial _)
    (fun _ _ hP _ hset hx => hx.step rfl hset (hP.inputFor i)) halong
  set w := run cfg .initialised now es
  -- the container has at most the row that the row map has for the alarm
  have hdefs (i : AlarmIndex) : (w.rowsFor i).map ActiveRow.alarmTableDef =
      if (w.scheduler.alarm cfg i).current.active then
        [cfg.defs.getDefinition i (w.scheduler.alarm cfg i).current.number] else [] := by
    have hm : w.activeTable.definitionAt i =
        if (w.scheduler.alarm cfg i).current.active then
          some (cfg.defs.getDefinition i (w.scheduler.alarm cfg i).current.number) else none :=
      (hinv i).2
    rw [map_rowsFor hcons, hm]
    split <;> rfl
  constructor
  · intro i m hm hu hc
    have hi := hdefs i
    have hv : (cfg.defs.getDefinition i m.severity.number).isValid = true := by
      have hcur := (hinv i).1.alarm.current_valid
      rw [track_alarm, alarm_of_manager hm] at hcur
      exact hcur hu
    rw [alarm_of_manager hm, if_pos (by simp [Severity.active, hu, hc])] at hi
    obtain ⟨row, hrow, hd⟩ := List.map_eq_singleton_iff.mp hi
    obtain ⟨hl, hindex, hsev⟩ := AlarmTableDefs.loaded_of_isValid hv
    rw [← hd] at hl hindex hsev
    exact ⟨row, hrow, hl, hindex, Severity.number_injective hsev⟩
  · intro i hi
    have hna : (w.scheduler.alarm cfg i).current.active = false := by
      unfold alarm
      split
      · rfl
      · rename_i m hm
        rcases hi m hm with hu | hc
        · simp [hu, Severity.active]
        · simp [hc, Severity.active]
    have hnil := hdefs i
    rw [hna] at hnil
    exact List.map_eq_nil_iff.mp hnil

/-- A critical alarm is raised, resynced and cleared, and another one stays raised. -/
theorem mirrors_scheduler_sample :
    MirrorsScheduler .sample (run .sample .initialised ⟨0, by decide⟩
      [.issueAlarm "1000.3", .issueAlarm "1001.3", .heapSender .sample, .syncAlarms,
        .heapSender .sample, .issueAlarm "1000.1", .clock ⟨30000, by decide⟩,
        .heapSender .sample]) :=
  mirrors_scheduler .sample ⟨0, by decide⟩ _
    (by simp [Event.CreatesRows, RowCreation.sample, RowCreation.succeeds])

end World
end ClearwaterSnmp
