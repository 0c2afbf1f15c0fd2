import ClearwaterSnmp.AlarmTimestamps
import ClearwaterSnmp.FailedRowCreation
import ClearwaterSnmp.RowCounters

namespace ClearwaterSnmp

/-- `build_oid` of Net-SNMP on the index of an active row: the OID determines the name, the
octets of the time and a counter of 32 bits. -/
structure RowOidBuilder where
  buildOid : String → List ℕ → ℕ → Oid
  injective : ∀ {name name' : String} {octets octets' : List ℕ} {counter counter' : ℕ},
    counter < 2 ^ 32 → counter' < 2 ^ 32 →
      buildOid name octets counter = buildOid name' octets' counter' →
        name = name' ∧ octets = octets' ∧ counter = counter'

/-- Strings go in with their lengths before them. -/
def RowOidBuilder.standard : RowOidBuilder where
  buildOid name octets counter :=
    name.length :: name.toList.map Char.toNat ++ (octets.length :: octets ++ [counter])
  injective {name name' octets octets' counter counter'} _ _ h := by
    obtain ⟨hname, hrest⟩ := List.append_inj h (by
      have hlength := (List.cons.inj h).1
      simpa [String.length_toList] using hlength)
    obtain ⟨hoctets, hcounter⟩ := List.append_inj hrest (by
      have hlength := (List.cons.inj hrest).1
      simpa using hlength)
    have hchars : name.toList = name'.toList :=
      (List.map_injective_iff.mpr fun a b hab => Char.toNat_inj.mp hab) (List.cons.inj hname).2
    exact ⟨String.toList_injective hchars, (List.cons.inj hoctets).2, (List.cons.inj hcounter).1⟩

namespace AlarmActiveTable

/-- The key of a row in the container. -/
def rowOid (builder : RowOidBuilder) (row : ActiveRow) : Oid :=
  builder.buildOid row.index.listName row.index.dateAndTime.octets row.index.counter

/-- The rows that a call of `alarmActiveTable_trap_handler` puts into the container. -/
def insertedRows (t : AlarmActiveTable) (c : RowCreation × AlarmTableDef) : List ActiveRow :=
  (call t c).container.filter (· ∉ t.container)

/-! ## What a call does to the rows -/

/-- Rows may have gone, and the counters are as they were. -/
structure Shrinks (t t' : AlarmActiveTable) : Prop where
  counter : t'.alarmCounter = t.alarmCounter
  allocated : t'.allocated = t.allocated
  container : ∀ row ∈ t'.container, row ∈ t.container

theorem Shrinks.refl (t : AlarmActiveTable) : Shrinks t t := ⟨rfl, rfl, fun _ => id⟩

theorem shrinks_touch (t : AlarmActiveTable) (i : AlarmIndex) : Shrinks t (t.touch i) :=
  ⟨rfl, rfl, fun _ => id⟩

theorem shrinks_deleteRow (t : AlarmActiveTable) (d : AlarmTableDef) :
    Shrinks t (deleteRow d t) := by
  unfold deleteRow
  split
  · exact shrinks_touch t d.alarmIndex
  · exact ⟨rfl, rfl, fun row hrow => (List.mem_filter.mp hrow).1⟩

/-- Rows may go, and then there may be a new one. -/
theorem trapHandler_shrinks (creation : RowCreation) (d : AlarmTableDef) (t : AlarmActiveTable) :
    ∃ t', Shrinks t t' ∧
      (trapHandler creation d t = t' ∨ trapHandler creation d t = createRow creation d t') := by
  obtain ⟨t', ht', hend⟩ := trapHandler_cases creation d t
  refine ⟨t', ?_, hend.imp_right And.right⟩
  rcases ht' with rfl | rfl | rfl
  · exact .refl t'
  · exact shrinks_touch t d.alarmIndex
  · exact shrinks_deleteRow t d

theorem insertedRows_of_subset {t : AlarmActiveTable} {c : RowCreation × AlarmTableDef}
    (h : ∀ row ∈ (call t c).container, row ∈ t.container) : insertedRows t c = [] := by
  apply List.filter_eq_nil_iff.mpr
  intro row hrow
  simpa using h row hrow

/-- A call whose creation would succeed inserts nothing, or one row with the next value of the
counter. -/
theorem call_cases {t : AlarmActiveTable} (h : Consistent t) {n : ℕ}
    (hn : t.alarmCounter = n % uintMax) {c : RowCreation × AlarmTableDef}
    (hc : c.1.succeeds = true) :
    (insertedRows t c = [] ∧ (call t c).alarmCounter = n % uintMax ∧
      ∀ row ∈ (call t c).container, row ∈ t.container) ∨
    ∃ new : ActiveRow, insertedRows t c = [new] ∧ new.index.counter = n % uintMax + 1 ∧
      (call t c).alarmCounter = (n + 1) % uintMax ∧
      ∀ row ∈ (call t c).container, row ∈ t.container ∨ row = new := by
  obtain ⟨creation, d⟩ := c
  obtain ⟨t', hshrinks, hsame | hcreate⟩ := trapHandler_shrinks creation d t
  · left
    have hcall : call t (creation, d) = t' := hsame
    have hsub : ∀ row ∈ (call t (creation, d)).container, row ∈ t.container := by
      rw [hcall]
      exact hshrinks.container
    exact ⟨insertedRows_of_subset hsub, by rw [hcall, hshrinks.counter, hn], hsub⟩
  · right
    cases creation with
    | mallocFailed => contradiction
    | indexToOidFailed => contradiction
    | created issued =>
      have hcall : call t (.created issued, d) = createRow (.created issued) d t' := hcreate
      have hn' : t'.alarmCounter = n % uintMax := by rw [hshrinks.counter, hn]
      let new : ActiveRow := ⟨t'.allocated, ⟨"", issued, (t'.alarmCounter + 1) % 2 ^ 64⟩, d⟩
      have hcontainer : (call t (.created issued, d)).container = t'.container ++ [new] := by
        rw [hcall]
        rfl
      have hfresh : new ∉ t.container := by
        -- its address is the next one, and those in use are smaller
        intro hin
        have hlt := h.address_lt new hin
        rw [← hshrinks.allocated] at hlt
        exact absurd hlt (Nat.lt_irrefl _)
      refine ⟨new, ?_, ?_, ?_, ?_⟩
      · rw [insertedRows, hcontainer, List.filter_append, List.filter_eq_nil_iff.mpr]
        · simp [hfresh]
        · intro row hrow
          simpa using hshrinks.container row hrow
      · show (t'.alarmCounter + 1) % 2 ^ 64 = n % uintMax + 1
        rw [hn']
        unfold uintMax
        omega
      · rw [hcall]
        exact alarmCounter_createRow_created issued d hn'
      · intro row hrow
        rw [hcontainer] at hrow
        rcases List.mem_append.mp hrow with hold | hnew
        · exact Or.inl (hshrinks.container row hold)
        · exact Or.inr (List.mem_singleton.mp hnew)

/-! ## Runs -/

/-- The table with the rows that were put into it, oldest first. -/
structure Ledger where
  table : AlarmActiveTable
  created : List ActiveRow

namespace Ledger

def initialised : Ledger := ⟨.initialised, []⟩

def step (l : Ledger) (c : RowCreation × AlarmTableDef) : Ledger :=
  ⟨call l.table c, l.created ++ insertedRows l.table c⟩

/-- The ledger follows the table. -/
theorem table_run (l : Ledger) (calls : List (RowCreation × AlarmTableDef)) :
    (Runs.run step l calls).table = Runs.run call l.table calls := by
  have hsim : (Runs.run step l calls).table = Runs.run call l.table (calls.map id) :=
    Runs.run_simulation (I := fun _ => True) Ledger.table id (fun _ _ h => h) (fun _ _ _ => rfl)
      trivial calls
  rwa [List.map_id] at hsim

/-- The counter and the values in the rows are the numbers of the rows, counted round. -/
structure Numbered (l : Ledger) : Prop where
  consistent : Consistent l.table
  counter : l.table.alarmCounter = l.created.length % uintMax
  present : ∀ row ∈ l.table.container, row ∈ l.created
  numbered : ∀ (n : ℕ) (row : ActiveRow), l.created[n]? = some row →
    row.index.counter = n % uintMax + 1

theorem numbered_initialised : Numbered initialised where
  consistent := consistent_initialised
  counter := rfl
  present row hrow := absurd hrow List.not_mem_nil
  numbered n row hrow := absurd hrow (by simp [initialised])

theorem Numbered.step {l : Ledger} (h : Numbered l) {c : RowCreation × AlarmTableDef}
    (hc : c.1.succeeds = true) : Numbered (l.step c) := by
  have hconsistent : Consistent (call l.table c) := h.consistent.trapHandler c.1 c.2
  rcases call_cases h.consistent h.counter hc with ⟨hnone, hcounter, hsub⟩ |
    ⟨new, hnew, hvalue, hcounter, hsub⟩
  · have hcreated : (l.step c).created = l.created := by
      rw [Ledger.step, hnone, List.append_nil]
    refine ⟨hconsistent, ?_, ?_, ?_⟩
    · rw [hcreated]
      exact hcounter
    · rw [hcreated]
      exact fun row hrow => h.present row (hsub row hrow)
    · rw [hcreated]
      exact h.numbered
  · have hcreated : (l.step c).created = l.created ++ [new] := by rw [Ledger.step, hnew]
    refine ⟨hconsistent, ?_, ?_, ?_⟩
    · rw [hcreated, List.length_append, List.length_singleton]
      exact hcounter
    · intro row hrow
      rw [hcreated, List.mem_append, List.mem_singleton]
      exact (hsub row hrow).imp (h.present row) id
    · intro n row hn
      rw [hcreated, List.getElem?_append] at hn
      split_ifs at hn with hold
      · exact h.numbered n row hn
      · rw [List.getElem?_singleton] at hn
        split_ifs at hn with hlast
        cases hn
        rw [hvalue, show n = l.created.length by omega]

/-- A full turn of the counter lies between two rows of the same key. -/
theorem Numbered.rowOid_ne {l : Ledger} (h : Numbered l) (builder : RowOidBuilder) {i j : ℕ}
    {older newer : ActiveRow} (hij : i < j) (hturn : j - i < uintMax)
    (hi : l.created[i]? = some older) (hj : l.created[j]? = some newer) :
    rowOid builder older ≠ rowOid builder newer := by
  have holder := h.numbered i older hi
  have hnewer := h.numbered j newer hj
  intro heq
  unfold uintMax at *
  obtain ⟨-, -, hsame⟩ := builder.injective (by omega) (by omega) heq
  omega

/-- The key of a new row is free, but for rows that are a full turn older. -/
theorem Numbered.key_free {l : Ledger} (h : Numbered l) (builder : RowOidBuilder)
    {c : RowCreation × AlarmTableDef} (hc : c.1.succeeds = true) {new row : ActiveRow}
    (hnew : new ∈ insertedRows l.table c) (hrow : row ∈ (call l.table c).container)
    (hne : row ≠ new) : row ∈ l.created ∧ ∀ n, l.created[n]? = some row →
      l.created.length - n < uintMax → rowOid builder row ≠ rowOid builder new := by
  rcases call_cases h.consistent h.counter hc with ⟨hnone, -, -⟩ | ⟨new', hone, -, -, hsub⟩
  · rw [hnone] at hnew
    exact absurd hnew List.not_mem_nil
  · obtain rfl : new = new' := by
      rw [hone] at hnew
      exact List.mem_singleton.mp hnew
    refine ⟨h.present row ((hsub row hrow).resolve_right hne), ?_⟩
    intro n hn hturn
    have hlt : n < l.created.length := (List.getElem?_eq_some_iff.mp hn).1
    have hcreated : (l.step c).created = l.created ++ [new] := by rw [Ledger.step, hone]
    apply (h.step hc).rowOid_ne builder hlt hturn
    · rw [hcreated, List.getElem?_append_left hlt, hn]
    · rw [hcreated, List.getElem?_concat_length]

end Ledger

/-- Whatever the clock says: the rows that are created get the values 1, 2, ..., `UINT_MAX`, 1,
... in turn; two of them with fewer than `UINT_MAX` creations from the older to the newer have
different keys; and so a row that is put into the container finds no such key there. -/
theorem rows_uniquely_indexed (builder : RowOidBuilder)
    (calls : List (RowCreation × AlarmTableDef)) (hcalls : ∀ c ∈ calls, c.1.succeeds = true) :
    (∀ n row, (Runs.run Ledger.step .initialised calls).created[n]? = some row →
      row.index.counter = n % uintMax + 1 ∧ 1 ≤ row.index.counter ∧
        row.index.counter ≤ uintMax) ∧
      (∀ row ∈ (Runs.run call initialised calls).container,
        row ∈ (Runs.run Ledger.step .initialised calls).created) ∧
      (∀ i j older newer, i < j → j - i < uintMax →
        (Runs.run Ledger.step .initialised calls).created[i]? = some older →
        (Runs.run Ledger.step .initialised calls).created[j]? = some newer →
        rowOid builder older ≠ rowOid builder newer) ∧
      Runs.Along Ledger.step (fun l c => ∀ new ∈ insertedRows l.table c,
        ∀ row ∈ (call l.table c).container, row ≠ new →
          row ∈ l.created ∧ ∀ n, l.created[n]? = some row →
            l.created.length - n < uintMax → rowOid builder row ≠ rowOid builder new)
        .initialised calls := by
  have hsucceeds : Runs.Along Ledger.step (fun _ c => c.1.succeeds = true) .initialised calls :=
    Runs.along_of_forall (fun c hc _ => hcalls c hc) _
  have hrun : Ledger.Numbered (Runs.run Ledger.step .initialised calls) :=
    Runs.run_invariant_along (fun _ _ h hc => h.step hc) Ledger.numbered_initialised hsucceeds
  refine ⟨?_, ?_, ?_, ?_⟩
  · intro n row hn
    have hvalue := hrun.numbered n row hn
    unfold uintMax at *
    omega
  · intro row hrow
    apply hrun.present row
    rwa [Ledger.table_run]
  · intro i j older newer hij hturn hi hj
    exact hrun.rowOid_ne builder hij hturn hi hj
  · apply Runs.Along.mono (fun _ _ h hc => h.step hc) _ Ledger.numbered_initialised hsucceeds
    intro l c h hc new hnew row hrow hne
    exact h.key_free builder hc hnew hrow hne

/-- An alarm becomes critical within the decisecond in which it was raised. -/
def raisedAndChanged : List (RowCreation × AlarmTableDef) :=
  [(.created ⟨2016, 5, 17, 9, 30, 0, 0, 43, 0, 0⟩, processFail .major),
    (.created ⟨2016, 5, 17, 9, 30, 0, 0, 43, 0, 0⟩, processFail .critical)]

theorem rows_uniquely_indexed_sample :
    (Runs.run Ledger.step .initialised raisedAndChanged).created.length = 2 ∧
      ∀ older newer,
        (Runs.run Ledger.step .initialised raisedAndChanged).created[0]? = some older →
        (Runs.run Ledger.step .initialised raisedAndChanged).created[1]? = some newer →
        rowOid .standard older ≠ rowOid .standard newer :=
  ⟨by decide, fun older newer =>
    (rows_uniquely_indexed .standard raisedAndChanged (by decide)).2.2.1 0 1 older newer
      (by decide) (by decide)⟩

end AlarmActiveTable
end ClearwaterSnmp
