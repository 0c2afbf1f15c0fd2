import ClearwaterSnmp.ActiveTableMirror

namespace ClearwaterSnmp
open AlarmScheduler
open Std

variable {H : Type} {cfg : Setup H}

/-- A manager and its timer are given by the alarm they are, and by its index. -/
theorem AlarmScheduler.WellFormed.ext {s s' : AlarmScheduler H} (h : WellFormed cfg s)
    (h' : WellFormed cfg s') {i : AlarmIndex} (ha : s.alarm cfg i = s'.alarm cfg i) :
    s.allAlarmsState[i]? = s'.allAlarmsState[i]? ∧ s.inHeap cfg i = s'.inHeap cfg i := by
  have hkeys : i ∈ s.allAlarmsState ↔ i ∈ s'.allAlarmsState := (h.keys i).trans (h'.keys i).symm
  by_cases hi : i ∈ s.allAlarmsState
  · obtain ⟨⟨⟨pop, pending, index⟩, severity⟩, hm⟩ := exists_manager hi
    obtain ⟨⟨⟨pop', pending', index'⟩, severity'⟩, hm'⟩ := exists_manager (hkeys.mp hi)
    obtain rfl : index = i := h.own_timer i _ hm
    obtain rfl : index' = index := h'.own_timer index _ hm'
    rw [alarm_of_manager hm, alarm_of_manager hm'] at ha
    simp only [Alarm.mk.injEq] at ha
    obtain ⟨rfl, rfl, rfl, hin⟩ := ha
    exact ⟨hm.trans hm'.symm, hin⟩
  · have hi' : i ∉ s'.allAlarmsState := fun hmem => hi (hkeys.mpr hmem)
    constructor
    · rw [ExtTreeMap.getElem?_eq_none hi, ExtTreeMap.getElem?_eq_none hi']
    · have hn : i ∉ cfg.heap.held s.alarmHeap := fun hmem => hi (h.held_keys i hmem)
      have hn' : i ∉ cfg.heap.held s'.alarmHeap := fun hmem => hi' (h'.held_keys i hmem)
      simp [inHeap, hn, hn']

/-- An `issue_alarm`, accepted or not, or a failure report, for an alarm other
than `i`. -/
def Event.concernsOther (cfg : Setup H) (i : AlarmIndex) : Event cfg.defs → Bool
  | .issueAlarm identifier =>
    (sscanfIdentifier (cStr identifier)).any fun (index, _) => index ≠ i
  | .handleFailedAlarm d _ => d.alarmIndex ≠ i
  | _ => false

/-- The events of a run without those that concern other alarms. -/
def Event.onlyFor (cfg : Setup H) (i : AlarmIndex) (es : List (Event cfg.defs)) :
    List (Event cfg.defs) :=
  es.filter fun e => !e.concernsOther cfg i

theorem Event.inputFor_of_concernsOther {i : AlarmIndex} {e : Event cfg.defs}
    (h : e.concernsOther cfg i = true) : e.inputFor cfg i = .other := by
  cases e with
  | issueAlarm identifier =>
    rw [inputFor]
    split
    · rfl
    · rename_i index severity ha
      have hne : index ≠ i := by
        simpa [concernsOther, sscanfIdentifier_of_validate ha] using h
      rw [if_neg hne]
  | handleFailedAlarm d hd =>
    have hne : d.alarmIndex ≠ i := by simpa [concernsOther] using h
    rw [inputFor, if_neg hne]
  | syncAlarms => contradiction
  | heapSender rows => contradiction
  | clock later => contradiction

namespace World

/-- Two runs have come to the same for the alarm `i`: its manager and timer, what
happened to it, with the times and severities of its INFORMs, and what the Active
Alarm Table shows for it, in the map and in the container. -/
structure SameFor (cfg : Setup H) (i : AlarmIndex) (w w' : World H) : Prop where
  now : w.now = w'.now
  manager : w.scheduler.allAlarmsState[i]? = w'.scheduler.allAlarmsState[i]?
  inHeap : w.scheduler.inHeap cfg i = w'.scheduler.inHeap cfg i
  history : w.history i = w'.history i
  definition : w.activeTable.definitionAt i = w'.activeTable.definitionAt i
  rows : (w.rowsFor i).map ActiveRow.alarmTableDef = (w'.rowsFor i).map ActiveRow.alarmTableDef

/-- The alarm `i` goes through the run on `es` as an automaton of its own, and as
it does without the events that concern other alarms. -/
structure Independent (cfg : Setup H) (table : AlarmActiveTable) (now : Clock)
    (es : List (Event cfg.defs)) (i : AlarmIndex) : Prop where
  product : (run cfg table now es).track cfg i =
    Runs.run (AlarmTrack.step (cfg.alarmConfig table.myHandler i)) (initialTrack table now i)
      (es.map (Event.inputFor cfg i))
  same : ∀ p, p <+: es →
    SameFor cfg i (run cfg table now p) (run cfg table now (Event.onlyFor cfg i p))

theorem track_onlyFor (cfg : Setup H) (table : AlarmActiveTable) (now : Clock)
    (es : List (Event cfg.defs)) (i : AlarmIndex) :
    (run cfg table now (Event.onlyFor cfg i es)).track cfg i =
      (run cfg table now es).track cfg i := by
  rw [track_run, track_run, Runs.run_map, Runs.run_map]
  apply Runs.run_filter
  intro x e he
  rw [Event.inputFor_of_concernsOther (by simpa using he)]
  rfl

theorem sameFor_onlyFor {table : AlarmActiveTable} (ht : table.Consistent) (now : Clock)
    (es : List (Event cfg.defs)) (i : AlarmIndex) :
    SameFor cfg i (run cfg table now es) (run cfg table now (Event.onlyFor cfg i es)) := by
  have htrack := (track_onlyFor cfg table now es i).symm
  have hal := congrArg (fun x : AlarmTrack => x.alarm) htrack
  obtain ⟨hmanager, hheap⟩ := (sound_run cfg table now es).wellFormed.ext
    (sound_run cfg table now (Event.onlyFor cfg i es)).wellFormed hal
  have hshown : (run cfg table now es).activeTable.definitionAt i =
      (run cfg table now (Event.onlyFor cfg i es)).activeTable.definitionAt i :=
    congrArg (fun x : AlarmTrack => x.shown) htrack
  refine ⟨congrArg AlarmTrack.now htrack, hmanager, hheap,
    congrArg (fun x : AlarmTrack => x.history) htrack, hshown, ?_⟩
  rw [map_rowsFor (consistent_run cfg ht now es), map_rowsFor (consistent_run cfg ht now _), hshown]

theorem alarms_are_independent (cfg : Setup H) (table : AlarmActiveTable)
    (ht : table.Consistent) (now : Clock) (es : List (Event cfg.defs)) (i : AlarmIndex) :
    Independent cfg table now es i where
  product := track_run cfg table now es i
  same p _ := sameFor_onlyFor ht now p i

/-- One alarm is raised and cleared while another one is raised and fails. -/
theorem alarms_are_independent_sample :
    Independent .sample .initialised ⟨0, by decide⟩
      [.issueAlarm "1000.3", .issueAlarm "1001.3", .heapSender .sample,
        .handleFailedAlarm (AlarmTableDefs.sample.getDefinition 1001 3) (by decide),
        .issueAlarm "1000.1", .syncAlarms, .clock ⟨30000, by decide⟩, .heapSender .sample] 1000 :=
  alarms_are_independent .sample .initialised AlarmActiveTable.consistent_initialised
    ⟨0, by decide⟩ _ 1000

end World
end ClearwaterSnmp
