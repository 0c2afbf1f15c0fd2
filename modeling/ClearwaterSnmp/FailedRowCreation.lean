import ClearwaterSnmp.RowOwnership

namespace ClearwaterSnmp.AlarmActiveTable

/-- `alarmActiveTable_trap_handler` runs `alarmActiveTable_create_row`: for a new alarm, or for
one whose row has another severity. -/
def CreatesRow (d : AlarmTableDef) (t : AlarmActiveTable) : Prop :=
  t.myHandler = true ∧ d.severity ≠ .cleared ∧
    ∀ row, t.rowAt d.alarmIndex = some row → d.severity ≠ row.alarmTableDef.severity

/-- The container holds the same rows, and the same entries of the map are not NULL. -/
structure SameRows (t t' : AlarmActiveTable) : Prop where
  container : ∀ row, row ∈ t'.container ↔ row ∈ t.container
  pointers : ∀ (i : AlarmIndex) (row : ActiveRow),
    t'.alarmIndexesToRows[i]? = some (some row) ↔ t.alarmIndexesToRows[i]? = some (some row)

variable {t : AlarmActiveTable} {d : AlarmTableDef} {creation : RowCreation}

theorem trapHandler_of_new (h : CreatesRow d t) (hr : t.rowAt d.alarmIndex = none) :
    trapHandler creation d t = createRow creation d (t.touch d.alarmIndex) := by
  simp only [trapHandler, h.1, hr, if_pos h.2.1, if_true]

theorem trapHandler_of_changed (h : CreatesRow d t) {row : ActiveRow}
    (hr : t.rowAt d.alarmIndex = some row) :
    trapHandler creation d t = createRow creation d (deleteRow d t) := by
  have hdiff : d.severity ≠ .cleared ∧ d.severity ≠ row.alarmTableDef.severity :=
    ⟨h.2.1, h.2.2 row hr⟩
  simp only [trapHandler, h.1, hr, if_pos hdiff, if_true]

/-- Where no row is created, it does not matter how a creation would go. -/
theorem trapHandler_of_not_createsRow (h : ¬CreatesRow d t) (creation creation' : RowCreation) :
    trapHandler creation d t = trapHandler creation' d t := by
  cases hm : t.myHandler with
  | false => simp [trapHandler, hm]
  | true =>
    cases hr : t.rowAt d.alarmIndex with
    | none =>
      have hc : ¬d.severity ≠ .cleared := fun hc => h ⟨hm, hc, by simp [hr]⟩
      simp only [trapHandler, hm, hr, if_neg hc]
    | some row =>
      have hc : ¬(d.severity ≠ .cleared ∧ d.severity ≠ row.alarmTableDef.severity) := by
        rintro ⟨hc, hs⟩
        refine h ⟨hm, hc, ?_⟩
        intro row' hr'
        rw [hr] at hr'
        cases hr'
        exact hs
      simp only [trapHandler, hm, hr, if_neg hc]

theorem container_createRow_of_fails (hfails : creation.succeeds = false) :
    (createRow creation d t).container = t.container := by
  cases creation with
  | mallocFailed => rfl
  | indexToOidFailed => rfl
  | created issued => contradiction

theorem rowAt_createRow_of_fails (hfails : creation.succeeds = false) (i : AlarmIndex) :
    (createRow creation d t).rowAt i = t.rowAt i := by
  cases creation with
  | mallocFailed => rfl
  | indexToOidFailed => rfl
  | created issued => contradiction

theorem SameRows.of_rowAt {t t' : AlarmActiveTable} (hcontainer : t'.container = t.container)
    (hrow : ∀ i, t'.rowAt i = t.rowAt i) : SameRows t t' where
  container row := by rw [hcontainer]
  pointers i row := by rw [← rowAt_eq_some, ← rowAt_eq_some, hrow]

theorem SameRows.rowAt_eq_some_iff {t t' : AlarmActiveTable} (h : SameRows t t') (i : AlarmIndex)
    (row : ActiveRow) : t'.rowAt i = some row ↔ t.rowAt i = some row := by
  rw [rowAt_eq_some, rowAt_eq_some]
  exact h.pointers i row

/-- The old row is deleted before the new one is made. -/
theorem sameRows_trapHandler_iff (hruns : CreatesRow d t) (hfails : creation.succeeds = false) :
    SameRows t (trapHandler creation d t) ↔ t.rowAt d.alarmIndex = none := by
  cases hr : t.rowAt d.alarmIndex with
  | none =>
    rw [trapHandler_of_new hruns hr]
    refine iff_of_true (.of_rowAt (container_createRow_of_fails hfails) fun i => ?_) rfl
    rw [rowAt_createRow_of_fails hfails, rowAt_touch]
  | some row =>
    refine iff_of_false (fun h => ?_) (by simp)
    have hgone : (trapHandler creation d t).rowAt d.alarmIndex = none := by
      rw [trapHandler_of_changed hruns hr, rowAt_createRow_of_fails hfails, rowAt_deleteRow,
        if_pos rfl]
    rw [← h.rowAt_eq_some_iff, hgone] at hr
    contradiction

/-- In every table that calls of the trap handler lead to, a failing row creation leaves the
rows as they were exactly if the alarm had none. -/
theorem failed_creation_keeps_rows_iff (calls : List (RowCreation × AlarmTableDef))
    (d : AlarmTableDef) (creation : RowCreation)
    (hruns : CreatesRow d (Runs.run call initialised calls))
    (hfails : creation.succeeds = false) :
    SameRows (Runs.run call initialised calls)
        (trapHandler creation d (Runs.run call initialised calls)) ↔
      (Runs.run call initialised calls).rowAt d.alarmIndex = none :=
  sameRows_trapHandler_iff hruns hfails

/-- An alarm in one of its severities. -/
def processFail (severity : Severity) : AlarmTableDef :=
  let details : SeverityDetails := ⟨severity, "", "", "", "", "", "", ""⟩
  .ofDetails ⟨"PROCESS_FAIL", 1000, 163, [details]⟩ details

/-- The alarm has been raised once, with severity major. -/
def raisedMajor : List (RowCreation × AlarmTableDef) :=
  [(.created ⟨2016, 5, 17, 9, 30, 0, 0, 43, 0, 0⟩, processFail .major)]

theorem rowAt_raisedMajor : ((Runs.run call initialised raisedMajor).rowAt 1000).map
    ActiveRow.alarmTableDef = some (processFail .major) := by
  decide

theorem failed_creation_keeps_rows_sample :
    SameRows (Runs.run call initialised [])
        (trapHandler .mallocFailed (processFail .critical) (Runs.run call initialised [])) ↔
      (Runs.run call initialised []).rowAt 1000 = none :=
  failed_creation_keeps_rows_iff [] (processFail .critical) .mallocFailed
    ⟨rfl, by decide, fun _ h => by simp [initialised, rowAt] at h⟩ rfl

/-- The severity of a raised alarm changes while there is no memory: its row is gone. -/
theorem failed_creation_loses_row :
    CreatesRow (processFail .critical) (Runs.run call initialised raisedMajor) ∧
      (Runs.run call initialised raisedMajor).container.length = 1 ∧
      (trapHandler .mallocFailed (processFail .critical)
        (Runs.run call initialised raisedMajor)).container = [] ∧
      ¬SameRows (Runs.run call initialised raisedMajor)
        (trapHandler .mallocFailed (processFail .critical)
          (Runs.run call initialised raisedMajor)) := by
  have hruns : CreatesRow (processFail .critical) (Runs.run call initialised raisedMajor) := by
    refine ⟨by decide, by decide, ?_⟩
    intro row hr
    have hmajor := rowAt_raisedMajor
    rw [show (processFail .critical).alarmIndex = 1000 from rfl] at hr
    rw [hr, Option.map_some, Option.some.injEq] at hmajor
    rw [hmajor]
    decide
  refine ⟨hruns, by decide, by decide, ?_⟩
  rw [sameRows_trapHandler_iff hruns rfl]
  decide

end ClearwaterSnmp.AlarmActiveTable
