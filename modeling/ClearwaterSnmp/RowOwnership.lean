import ClearwaterSnmp.ActiveRows
import ClearwaterSnmp.Runs

namespace ClearwaterSnmp.AlarmActiveTable

/-- `alarmActiveTable_delete_row`, with no result if the pointer it removes and
frees is NULL or is not the address of a row in the container. -/
def deleteRowChecked (d : AlarmTableDef) (t : AlarmActiveTable) : Option AlarmActiveTable :=
  match t.rowAt d.alarmIndex with
  | none => none
  | some row => if row ∈ t.container then some (deleteRow d t) else none

/-- `alarmActiveTable_trap_handler`, with no result as soon as a call of
`alarmActiveTable_delete_row` has none. -/
def trapHandlerChecked (creation : RowCreation) (d : AlarmTableDef) (t : AlarmActiveTable) :
    Option AlarmActiveTable :=
  if t.myHandler then
    match t.rowAt d.alarmIndex with
    | none =>
      if d.severity ≠ .cleared then some (createRow creation d (t.touch d.alarmIndex))
      else some (t.touch d.alarmIndex)
    | some row =>
      if d.severity ≠ .cleared ∧ d.severity ≠ row.alarmTableDef.severity then
        (deleteRowChecked d t).map (createRow creation d)
      else if d.severity = .cleared then deleteRowChecked d t
      else some t
  else some t

theorem Consistent.deleteRowChecked {t : AlarmActiveTable} (h : Consistent t) {d : AlarmTableDef}
    {row : ActiveRow} (hr : t.rowAt d.alarmIndex = some row) :
    deleteRowChecked d t = some (AlarmActiveTable.deleteRow d t) := by
  have hin : row ∈ t.container := by
    rw [h.mem_container, h.own_index _ row hr]
    exact hr
  simp [AlarmActiveTable.deleteRowChecked, hr, hin]

/-- Where the map and the container agree, only rows in the container are deleted. -/
theorem Consistent.trapHandlerChecked {t : AlarmActiveTable} (h : Consistent t)
    (creation : RowCreation) (d : AlarmTableDef) :
    trapHandlerChecked creation d t = some (AlarmActiveTable.trapHandler creation d t) := by
  rw [AlarmActiveTable.trapHandlerChecked, AlarmActiveTable.trapHandler]
  cases hr : t.rowAt d.alarmIndex with
  | none => split_ifs <;> rfl
  | some row =>
    simp only [h.deleteRowChecked hr, Option.map_some]
    split_ifs <;> rfl

def NoneCleared (t : AlarmActiveTable) : Prop :=
  ∀ i d, t.definitionAt i = some d → d.severity ≠ .cleared

theorem NoneCleared.trapHandler {t : AlarmActiveTable} (h : NoneCleared t)
    (creation : RowCreation) (d : AlarmTableDef) :
    NoneCleared (AlarmActiveTable.trapHandler creation d t) := by
  intro i shown hs
  by_cases hi : d.alarmIndex = i
  · subst hi
    rw [definitionAt_trapHandler_self, shownAfterTrap] at hs
    split_ifs at hs with _ hcreated
    · exact h _ shown hs
    · obtain rfl := Option.some.inj hs
      exact hcreated.1
  · rw [definitionAt_trapHandler_of_ne creation d t hi] at hs
    exact h i shown hs

/-- One call of `alarmActiveTable_trap_handler`. -/
def call (t : AlarmActiveTable) (c : RowCreation × AlarmTableDef) : AlarmActiveTable :=
  trapHandler c.1 c.2 t

/-- The map and the container own the same rows, none of which is for a cleared alarm. -/
structure RowsAgree (t : AlarmActiveTable) : Prop where
  mem_container : ∀ row, row ∈ t.container ↔
    ∃ i : AlarmIndex, t.alarmIndexesToRows[i]? = some (some row)
  own_index : ∀ (i : AlarmIndex) (row : ActiveRow), t.alarmIndexesToRows[i]? = some (some row) →
    row.alarmTableDef.alarmIndex = i
  at_most_one : ∀ i, (t.container.filter (·.alarmTableDef.alarmIndex = i)).length ≤ 1
  not_cleared : ∀ row ∈ t.container, row.alarmTableDef.severity ≠ .cleared

theorem rowAt_eq_some {t : AlarmActiveTable} {i : AlarmIndex} {row : ActiveRow} :
    t.rowAt i = some row ↔ t.alarmIndexesToRows[i]? = some (some row) := by
  simp [rowAt, Option.join_eq_some_iff]

theorem Consistent.rowsAgree {t : AlarmActiveTable} (h : Consistent t) (hc : NoneCleared t) :
    RowsAgree t where
  mem_container row := by
    rw [h.mem_container]
    constructor
    · exact fun hr => ⟨_, rowAt_eq_some.mp hr⟩
    · rintro ⟨i, hi⟩
      have hr := rowAt_eq_some.mpr hi
      rwa [h.own_index i row hr]
  own_index i row hi := h.own_index i row (rowAt_eq_some.mpr hi)
  at_most_one i := by
    rw [h.filter_container]
    cases t.rowAt i <;> simp
  not_cleared row hin := by
    apply hc row.alarmTableDef.alarmIndex
    rw [definitionAt, (h.mem_container row).mp hin]
    rfl

/-- Whatever the calls and whatever fails in them. -/
theorem rows_never_drift_apart (calls : List (RowCreation × AlarmTableDef)) :
    RowsAgree (Runs.run call initialised calls) ∧
      Runs.Along call (fun t c => trapHandlerChecked c.1 c.2 t = some (call t c)) initialised
        calls := by
  have hinv (t : AlarmActiveTable) (c : RowCreation × AlarmTableDef)
      (h : Consistent t ∧ NoneCleared t) : Consistent (call t c) ∧ NoneCleared (call t c) :=
    ⟨h.1.trapHandler c.1 c.2, h.2.trapHandler c.1 c.2⟩
  have hinit : Consistent initialised ∧ NoneCleared initialised := by
    refine ⟨consistent_initialised, fun i d hd => ?_⟩
    simp [initialised, definitionAt, rowAt] at hd
  constructor
  · obtain ⟨hc, hn⟩ := Runs.run_invariant hinv hinit calls
    exact hc.rowsAgree hn
  · apply Runs.along_of_invariant hinv _ hinit
    exact fun t c h => h.1.trapHandlerChecked c.1 c.2

end ClearwaterSnmp.AlarmActiveTable
