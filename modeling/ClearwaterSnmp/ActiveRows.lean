import ClearwaterSnmp.AlarmActiveTable

namespace ClearwaterSnmp.AlarmActiveTable
open Std

/-- The rows in the container are the non-NULL pointers of the map, each under
the alarm index of its own definition, and no address is used twice. -/
structure Consistent (t : AlarmActiveTable) : Prop where
  mem_container : ∀ row, row ∈ t.container ↔ t.rowAt row.alarmTableDef.alarmIndex = some row
  own_index : ∀ i row, t.rowAt i = some row → row.alarmTableDef.alarmIndex = i
  nodup : t.container.Nodup
  address_lt : ∀ row ∈ t.container, row.address < t.allocated
  address_inj : ∀ row ∈ t.container, ∀ row' ∈ t.container, row.address = row'.address → row = row'

theorem consistent_initialised : Consistent initialised where
  mem_container row := by simp [initialised, rowAt]
  own_index i row h := by simp [initialised, rowAt] at h
  nodup := List.nodup_nil
  address_lt row h := by simp [initialised] at h
  address_inj row h := by simp [initialised] at h

theorem Consistent.touch {t : AlarmActiveTable} (h : Consistent t) (i : AlarmIndex) :
    Consistent (t.touch i) where
  mem_container row := by rw [rowAt_touch]; exact h.mem_container row
  own_index j row hj := h.own_index j row (by rwa [rowAt_touch] at hj)
  nodup := h.nodup
  address_lt := h.address_lt
  address_inj := h.address_inj

theorem mem_container_createRow (issued : SnmpDateTime) (d : AlarmTableDef)
    (t : AlarmActiveTable) (row : ActiveRow) :
    row ∈ (createRow (.created issued) d t).container ↔
      row ∈ t.container ∨
        row = ⟨t.allocated, ⟨"", issued, (t.alarmCounter + 1) % 2 ^ 64⟩, d⟩ := by
  simp [createRow]

/-- An alarm whose pointer is NULL has no row in the container. -/
theorem Consistent.alarmIndex_ne {t : AlarmActiveTable} (h : Consistent t) {i : AlarmIndex}
    (hnull : t.rowAt i = none) {row : ActiveRow} (hrow : row ∈ t.container) :
    row.alarmTableDef.alarmIndex ≠ i := by
  intro he
  have hsome := (h.mem_container row).mp hrow
  rw [he, hnull] at hsome
  contradiction

theorem Consistent.createRow {t : AlarmActiveTable} (h : Consistent t) (creation : RowCreation)
    {d : AlarmTableDef} (hnull : t.rowAt d.alarmIndex = none) :
    Consistent (createRow creation d t) := by
  cases creation with
  | mallocFailed => exact h
  | indexToOidFailed =>
    exact ⟨h.mem_container, h.own_index, h.nodup,
      fun row hrow => Nat.lt_succ_of_lt (h.address_lt row hrow), h.address_inj⟩
  | created issued =>
    -- the only new row has the next free address, and its alarm had no row
    have hmem := mem_container_createRow issued d t
    refine ⟨fun row => ?_, fun j row hj => ?_, ?_, fun row hin => ?_,
      fun row hin row' hin' he => ?_⟩
    · rw [hmem, rowAt_createRow]
      split
      · rename_i he
        constructor
        · rintro (hin | rfl)
          · exact absurd he.symm (h.alarmIndex_ne hnull hin)
          · rfl
        · exact fun hs => Or.inr (Option.some.inj hs).symm
      · rename_i he
        rw [h.mem_container]
        exact ⟨fun hs => hs.resolve_right fun hc => he (hc ▸ rfl), Or.inl⟩
    · rw [rowAt_createRow] at hj
      split at hj
      · rename_i he
        cases hj
        exact he
      · exact h.own_index j row hj
    · refine List.nodup_append.mpr ⟨h.nodup, List.nodup_singleton _, ?_⟩
      intro row hin row' hin' he
      rw [List.mem_singleton.mp hin'] at he
      exact h.alarmIndex_ne hnull hin (he ▸ rfl)
    · rcases (hmem row).mp hin with hold | rfl
      · exact Nat.lt_succ_of_lt (h.address_lt row hold)
      · exact Nat.lt_succ_self t.allocated
    · have hlt := h.address_lt
      rcases (hmem row).mp hin with hold | rfl <;> rcases (hmem row').mp hin' with hold' | rfl
      · exact h.address_inj row hold row' hold' he
      · exact absurd he (hlt row hold).ne
      · exact absurd he.symm (hlt row' hold').ne
      · rfl

theorem Consistent.deleteRow {t : AlarmActiveTable} (h : Consistent t) (d : AlarmTableDef) :
    Consistent (deleteRow d t) := by
  cases hr : t.rowAt d.alarmIndex with
  | none =>
    rw [AlarmActiveTable.deleteRow, hr]
    exact h.touch d.alarmIndex
  | some old =>
    have hrow := rowAt_deleteRow d t
    have hold : old.alarmTableDef.alarmIndex = d.alarmIndex := h.own_index _ old hr
    have hmem (row : ActiveRow) : row ∈ (AlarmActiveTable.deleteRow d t).container ↔
        row ∈ t.container ∧ row.address ≠ old.address := by
      simp [AlarmActiveTable.deleteRow, hr]
    -- the row is taken out by its address, which no other row in the container has
    refine ⟨fun row => ?_, fun j row hj => ?_, ?_, fun row hin => ?_,
      fun row hin row' hin' he => ?_⟩
    · rw [hmem, hrow, h.mem_container]
      split
      · rename_i he
        rw [← he, hr]
        simp only [Option.some.injEq, reduceCtorEq, iff_false, not_and, not_not]
        exact fun hs => congrArg ActiveRow.address hs.symm
      · rename_i he
        refine ⟨And.left, fun hs => ⟨hs, fun hadd => he ?_⟩⟩
        have hsame := h.address_inj row ((h.mem_container row).mpr hs) old
          ((h.mem_container old).mpr (by rw [hold, hr])) hadd
        rw [hsame, hold]
    · rw [hrow] at hj
      split at hj
      · contradiction
      · exact h.own_index j row hj
    · simp only [AlarmActiveTable.deleteRow, hr]
      exact h.nodup.filter _
    · have hal : (AlarmActiveTable.deleteRow d t).allocated = t.allocated := by
        simp only [AlarmActiveTable.deleteRow, hr]
      rw [hal]
      exact h.address_lt row ((hmem row).mp hin).1
    · exact h.address_inj row ((hmem row).mp hin).1 row' ((hmem row').mp hin').1 he

/-- Whatever fails, the map and the container stay in step. -/
theorem Consistent.trapHandler {t : AlarmActiveTable} (h : Consistent t) (creation : RowCreation)
    (d : AlarmTableDef) : Consistent (trapHandler creation d t) := by
  apply trapHandler_invariant h (h.touch d.alarmIndex) (h.deleteRow d)
  intro t' ht' hnull
  exact ht'.createRow creation hnull

/-- An alarm has at most one row in the container, the one in the map. -/
theorem Consistent.filter_container {t : AlarmActiveTable} (h : Consistent t) (i : AlarmIndex) :
    t.container.filter (·.alarmTableDef.alarmIndex = i) = (t.rowAt i).toList := by
  have hmem (row : ActiveRow) : row ∈ t.container.filter (·.alarmTableDef.alarmIndex = i) ↔
      row ∈ (t.rowAt i).toList := by
    simp only [List.mem_filter, decide_eq_true_eq, Option.mem_toList, h.mem_container]
    constructor
    · rintro ⟨hs, rfl⟩
      exact hs
    · intro hs
      have hi := h.own_index i row hs
      exact ⟨by rw [hi]; exact hs, hi⟩
  have hnodup : (t.rowAt i).toList.Nodup := by cases t.rowAt i <;> simp
  have hperm := (List.perm_ext_iff_of_nodup (h.nodup.filter _) hnodup).mpr hmem
  cases hr : t.rowAt i with
  | none => rw [hr] at hperm; exact List.perm_nil.mp hperm
  | some row => rw [hr] at hperm; exact List.perm_singleton.mp hperm

@[simp] theorem myHandler_createRow (creation : RowCreation) (d : AlarmTableDef)
    (t : AlarmActiveTable) : (createRow creation d t).myHandler = t.myHandler := by
  cases creation <;> rfl

@[simp] theorem myHandler_deleteRow (d : AlarmTableDef) (t : AlarmActiveTable) :
    (deleteRow d t).myHandler = t.myHandler := by
  unfold deleteRow
  split <;> rfl

@[simp] theorem myHandler_trapHandler (creation : RowCreation) (d : AlarmTableDef)
    (t : AlarmActiveTable) : (trapHandler creation d t).myHandler = t.myHandler := by
  apply trapHandler_invariant (P := fun t' => t'.myHandler = t.myHandler) rfl rfl
  · exact myHandler_deleteRow d t
  · intro t' ht' _
    rw [myHandler_createRow, ht']

end ClearwaterSnmp.AlarmActiveTable
