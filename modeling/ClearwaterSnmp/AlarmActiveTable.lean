import ClearwaterSnmp.AlarmTableDefs

namespace ClearwaterSnmp
open Std

/-- `alarmActiveTable_SNMPDateTime`, the octets of a DateAndTime. -/
structure SnmpDateTime where
  year : ℕ
  month : ℕ
  day : ℕ
  hour : ℕ
  minute : ℕ
  second : ℕ
  decisecond : ℕ
  direction : ℕ
  timegeozone : ℕ
  mintimezone : ℕ
deriving DecidableEq, Repr

/-- What `alarmActiveTable_index_to_oid` builds the OID of a row from. -/
structure RowIndex where
  listName : String
  dateAndTime : SnmpDateTime
  counter : ℕ
deriving DecidableEq, Repr

/-- `alarmActiveTable_context`. Two rows are one only if they are the same allocation. -/
structure ActiveRow where
  address : ℕ
  index : RowIndex
  alarmTableDef : AlarmTableDef
deriving DecidableEq, Repr

/-- How one row creation goes: `malloc` fails, or building the index OID fails,
or the row gets the time it is issued at. -/
inductive RowCreation
  | mallocFailed
  | indexToOidFailed
  | created (issued : SnmpDateTime)
deriving DecidableEq, Repr

def RowCreation.succeeds : RowCreation → Bool
  | created _ => true
  | _ => false

def uintMax : ℕ := 2 ^ 32 - 1

/-- The state behind alarmActiveTable: the map from alarm indexes to rows, in
which a `none` is a NULL pointer, and the Net-SNMP container of rows. -/
structure AlarmActiveTable where
  myHandler : Bool
  alarmIndexesToRows : ExtTreeMap AlarmIndex (Option ActiveRow)
  container : List ActiveRow
  alarmCounter : ℕ
  allocated : ℕ

namespace AlarmActiveTable

/-- The table after `init_alarmActiveTable`. -/
def initialised : AlarmActiveTable := ⟨true, ∅, [], 0, 0⟩

/-- The pointer `alarm_indexes_to_rows[i]` yields. -/
def rowAt (t : AlarmActiveTable) (i : AlarmIndex) : Option ActiveRow :=
  (t.alarmIndexesToRows[i]?).join

/-- `operator[]` on the map also enters a NULL pointer where there was no entry. -/
def touch (t : AlarmActiveTable) (i : AlarmIndex) : AlarmActiveTable :=
  { t with alarmIndexesToRows := t.alarmIndexesToRows.insertIfNew i none }

/-- `alarmActiveTable_create_row` -/
def createRow (creation : RowCreation) (d : AlarmTableDef) (t : AlarmActiveTable) :
    AlarmActiveTable :=
  match creation with
  | .mallocFailed => t
  | .indexToOidFailed =>
    -- the counter has moved on and is not reset on this path
    { t with alarmCounter := (t.alarmCounter + 1) % 2 ^ 64, allocated := t.allocated + 1 }
  | .created issued =>
    let counter := (t.alarmCounter + 1) % 2 ^ 64
    let ctx : ActiveRow := ⟨t.allocated, ⟨"", issued, counter⟩, d⟩
    { t with
      container := t.container ++ [ctx]
      alarmIndexesToRows := t.alarmIndexesToRows.insert d.alarmIndex (some ctx)
      alarmCounter := if counter = uintMax then 0 else counter
      allocated := t.allocated + 1 }

/-- `alarmActiveTable_delete_row`. It dereferences the row without a check, so
there is no behaviour to model where the pointer is NULL. -/
def deleteRow (d : AlarmTableDef) (t : AlarmActiveTable) : AlarmActiveTable :=
  match t.rowAt d.alarmIndex with
  | none => t.touch d.alarmIndex
  | some row =>
    { t with
      container := t.container.filter (·.address ≠ row.address)
      alarmIndexesToRows := t.alarmIndexesToRows.insert d.alarmIndex none }

/-- `alarmActiveTable_trap_handler` -/
def trapHandler (creation : RowCreation) (d : AlarmTableDef) (t : AlarmActiveTable) :
    AlarmActiveTable :=
  if t.myHandler then
    match t.rowAt d.alarmIndex with
    | none =>
      if d.severity ≠ .cleared then createRow creation d (t.touch d.alarmIndex)
      else t.touch d.alarmIndex
    | some row =>
      if d.severity ≠ .cleared ∧ d.severity ≠ row.alarmTableDef.severity then
        createRow creation d (deleteRow d t)
      else if d.severity = .cleared then deleteRow d t
      else t
  else t

/-- The definition that the row of an alarm shows, if the alarm has a row. -/
def definitionAt (t : AlarmActiveTable) (i : AlarmIndex) : Option AlarmTableDef :=
  (t.rowAt i).map ActiveRow.alarmTableDef

@[simp] theorem rowAt_touch (t : AlarmActiveTable) (i j : AlarmIndex) :
    (t.touch i).rowAt j = t.rowAt j := by
  simp only [rowAt, touch, ExtTreeMap.getElem?_insertIfNew]
  split
  · rename_i h
    obtain rfl := Std.compare_eq_iff_eq.mp h.1
    rw [ExtTreeMap.getElem?_eq_none h.2]
    rfl
  · rfl

theorem rowAt_createRow (creation : RowCreation) (d : AlarmTableDef) (t : AlarmActiveTable)
    (j : AlarmIndex) :
    (createRow creation d t).rowAt j =
      if d.alarmIndex = j then
        match creation with
        | .created issued => some ⟨t.allocated, ⟨"", issued, (t.alarmCounter + 1) % 2 ^ 64⟩, d⟩
        | _ => t.rowAt j
      else t.rowAt j := by
  cases creation with
  | created issued =>
    simp only [createRow, rowAt, ExtTreeMap.getElem?_insert, Std.compare_eq_iff_eq]
    split <;> rfl
  | _ => simp [createRow, rowAt]

theorem rowAt_deleteRow (d : AlarmTableDef) (t : AlarmActiveTable) (j : AlarmIndex) :
    (deleteRow d t).rowAt j = if d.alarmIndex = j then none else t.rowAt j := by
  unfold deleteRow
  split
  · rename_i h
    rw [rowAt_touch]
    split
    · rename_i hj
      rw [← hj, h]
    · rfl
  · simp only [rowAt, ExtTreeMap.getElem?_insert, Std.compare_eq_iff_eq]
    split <;> rfl

/-- A trap may enter a NULL pointer or delete the row of its alarm, and then may create a row. -/
theorem trapHandler_cases (creation : RowCreation) (d : AlarmTableDef) (t : AlarmActiveTable) :
    ∃ t', (t' = t ∨ t' = t.touch d.alarmIndex ∨ t' = deleteRow d t) ∧
      (trapHandler creation d t = t' ∨
        t'.rowAt d.alarmIndex = none ∧ trapHandler creation d t = createRow creation d t') := by
  have hgone : (deleteRow d t).rowAt d.alarmIndex = none := by rw [rowAt_deleteRow, if_pos rfl]
  unfold trapHandler
  split
  · split
    · rename_i hnull
      rw [← rowAt_touch t d.alarmIndex] at hnull
      split
      · exact ⟨_, Or.inr (Or.inl rfl), Or.inr ⟨hnull, rfl⟩⟩
      · exact ⟨_, Or.inr (Or.inl rfl), Or.inl rfl⟩
    · split
      · exact ⟨_, Or.inr (Or.inr rfl), Or.inr ⟨hgone, rfl⟩⟩
      · split
        · exact ⟨_, Or.inr (Or.inr rfl), Or.inl rfl⟩
        · exact ⟨t, Or.inl rfl, Or.inl rfl⟩
  · exact ⟨t, Or.inl rfl, Or.inl rfl⟩

/-- What touching, deleting and creating keep, a trap keeps. -/
theorem trapHandler_invariant {P : AlarmActiveTable → Prop} {creation : RowCreation}
    {d : AlarmTableDef} {t : AlarmActiveTable} (h : P t) (htouch : P (t.touch d.alarmIndex))
    (hdelete : P (deleteRow d t))
    (hcreate : ∀ t', P t' → t'.rowAt d.alarmIndex = none → P (createRow creation d t')) :
    P (trapHandler creation d t) := by
  obtain ⟨t', ht', hend⟩ := trapHandler_cases creation d t
  have hP : P t' := by
    rcases ht' with rfl | rfl | rfl
    · exact h
    · exact htouch
    · exact hdelete
  rcases hend with he | ⟨hnull, he⟩
  · rw [he]
    exact hP
  · rw [he]
    exact hcreate t' hP hnull

/-- What a trap does to the definition shown for its own alarm. -/
def shownAfterTrap (ready : Bool) (creation : RowCreation) (d : AlarmTableDef)
    (shown : Option AlarmTableDef) : Option AlarmTableDef :=
  if ready = false ∨ shown.any (fun old => d.severity ≠ .cleared ∧ d.severity = old.severity) then
    shown
  else if d.severity ≠ .cleared ∧ creation.succeeds then some d
  else none

theorem rowAt_trapHandler_of_ne (creation : RowCreation) (d : AlarmTableDef)
    (t : AlarmActiveTable) {j : AlarmIndex} (hj : d.alarmIndex ≠ j) :
    (trapHandler creation d t).rowAt j = t.rowAt j := by
  apply trapHandler_invariant (P := fun t' => t'.rowAt j = t.rowAt j) rfl
  · exact rowAt_touch t d.alarmIndex j
  · rw [rowAt_deleteRow, if_neg hj]
  · intro t' ht' _
    rw [rowAt_createRow, if_neg hj, ht']

theorem definitionAt_trapHandler_of_ne (creation : RowCreation) (d : AlarmTableDef)
    (t : AlarmActiveTable) {j : AlarmIndex} (hj : d.alarmIndex ≠ j) :
    (trapHandler creation d t).definitionAt j = t.definitionAt j := by
  rw [definitionAt, rowAt_trapHandler_of_ne creation d t hj, definitionAt]

theorem definitionAt_trapHandler_self (creation : RowCreation) (d : AlarmTableDef)
    (t : AlarmActiveTable) :
    (trapHandler creation d t).definitionAt d.alarmIndex =
      shownAfterTrap t.myHandler creation d (t.definitionAt d.alarmIndex) := by
  cases hm : t.myHandler with
  | false => simp [trapHandler, shownAfterTrap, hm]
  | true =>
    cases hr : t.rowAt d.alarmIndex with
    | none =>
      by_cases hc : d.severity = .cleared
      · simp [trapHandler, shownAfterTrap, definitionAt, hm, hr, hc]
      · cases creation <;>
          simp [trapHandler, shownAfterTrap, definitionAt, hm, hr, hc, rowAt_createRow,
            RowCreation.succeeds]
    | some row =>
      by_cases hc : d.severity = .cleared
      · simp [trapHandler, shownAfterTrap, definitionAt, hm, hr, hc, rowAt_deleteRow]
      · by_cases hs : d.severity = row.alarmTableDef.severity
        · simp [trapHandler, shownAfterTrap, definitionAt, hm, hr, hc, ← hs]
        · cases creation <;>
            simp [trapHandler, shownAfterTrap, definitionAt, hm, hr, hc, hs, rowAt_createRow,
              rowAt_deleteRow, RowCreation.succeeds]

end AlarmActiveTable
end ClearwaterSnmp
