import ClearwaterSnmp.AlarmTables
import ClearwaterSnmp.RowOwnership
import ClearwaterSnmp.AlarmAgent

namespace ClearwaterSnmp
open AlarmTrapSender

/-! ## The rows of the model and ITU tables -/

theorem alarmModelTableInsertDefs_eq (builder : OidBuilder) (defs : AlarmTableDefs) :
    alarmModelTableInsertDefs builder defs =
      defs.iterate.map fun d => ⟨[0, d.alarmIndex, d.state], d⟩ := by
  have hrow (d : AlarmTableDef) : alarmModelTableCreateRow builder d =
      some ⟨[0, d.alarmIndex, d.state], d⟩ := by
    simp [alarmModelTableCreateRow, builder.build_empty, builder.build_unsigned, builder.build_nil]
  rw [alarmModelTableInsertDefs, ← List.filterMap_eq_map]
  congr 1
  funext d
  exact hrow d

theorem ituAlarmTableInsertDefs_eq (builder : OidBuilder) (defs : AlarmTableDefs) :
    ituAlarmTableInsertDefs builder defs =
      defs.iterate.map fun d => ⟨[0, d.alarmIndex, d.severity.number], d⟩ := by
  have hrow (d : AlarmTableDef) : ituAlarmTableCreateRow builder d =
      some ⟨[0, d.alarmIndex, d.severity.number], d⟩ := by
    simp [ituAlarmTableCreateRow, builder.build_empty, builder.build_unsigned,
      builder.build_integer, builder.build_nil]
  rw [ituAlarmTableInsertDefs, ← List.filterMap_eq_map]
  congr 1
  funext d
  exact hrow d

/-- Reads the mapping of RFC 3877 backwards. -/
def severityOfState : ℕ → Severity
  | 1 => .cleared
  | 2 => .indeterminate
  | 3 => .warning
  | 4 => .minor
  | 5 => .major
  | 6 => .critical
  | _ => .undefinedSeverity

theorem severityOfState_state {d : AlarmTableDef} (hd : d.severity ≠ .undefinedSeverity) :
    severityOfState d.state = d.severity := by
  cases hs : d.severity with
  | undefinedSeverity => exact absurd hs hd
  | _ => simp [AlarmTableDef.state, hs, Severity.number, severityOfState]

/-- Definitions have different keys, and so do rows whose index tells the keys apart. -/
theorem nodup_map_iterate (defs : AlarmTableDefs) {f : AlarmTableDef → Oid}
    (hf : ∀ d ∈ defs.iterate, ∀ d' ∈ defs.iterate, f d = f d' → d.key = d'.key) :
    (defs.iterate.map f).Nodup := by
  rw [List.Nodup, List.pairwise_map]
  apply (List.Pairwise.and_mem.mp (AlarmTableDefs.pairwise_iterate defs)).imp
  rintro d d' ⟨hd, hd', hlt⟩ he
  rw [hf d hd d' hd' he, Std.compare_self] at hlt
  contradiction

/-- Both tables have one row for each definition, under different keys, and for each
definition the pointers between its two rows, and those in its two INFORMs, are
the OIDs of the rows; the RFC 3877 INFORM has the notification of its model row. -/
structure TablesAgree (builder : OidBuilder) (hostname : String) (defs : AlarmTableDefs) :
    Prop where
  model_rows : (alarmModelTableInsertDefs builder defs).map TableRow.alarmTableDef = defs.iterate
  model_keys : ((alarmModelTableInsertDefs builder defs).map TableRow.index).Nodup
  itu_rows : (ituAlarmTableInsertDefs builder defs).map TableRow.alarmTableDef = defs.iterate
  itu_keys : ((ituAlarmTableInsertDefs builder defs).map TableRow.index).Nodup
  specific_pointer : ∀ m ∈ alarmModelTableInsertDefs builder defs,
    ∀ t ∈ ituAlarmTableInsertDefs builder defs, m.alarmTableDef = t.alarmTableDef →
      alarmModelTableGetValue columnAlarmModelSpecificPointer m =
        some (.objectId (t.columnOid ituAlarmTableOid ituAlarmTableColMin))
  generic_model : ∀ m ∈ alarmModelTableInsertDefs builder defs,
    ∀ t ∈ ituAlarmTableInsertDefs builder defs, m.alarmTableDef = t.alarmTableDef →
      ituAlarmTableGetValue columnItuAlarmGenericModel t =
        some (.objectId (m.columnOid alarmModelTableOid alarmModelTableColMin))
  rfc3877_row : ∀ m ∈ alarmModelTableInsertDefs builder defs,
    (rfc3877Trap m.alarmTableDef).lookup modelPtrOid =
      some (.objectId (m.columnOid alarmModelTableOid alarmModelTableColMin))
  enterprise_row : ∀ m ∈ alarmModelTableInsertDefs builder defs,
    (enterpriseTrap hostname m.alarmTableDef).lookup alarmOidOid =
      some (.objectId (m.columnOid alarmModelTableOid alarmModelTableColMin))
  notification : ∀ m ∈ alarmModelTableInsertDefs builder defs,
    (rfc3877Trap m.alarmTableDef).lookup snmpTrapOid =
      alarmModelTableGetValue columnAlarmModelNotificationId m

theorem eq_of_mem_alarmModelTableInsertDefs {builder : OidBuilder} {defs : AlarmTableDefs}
    {m : TableRow} (hm : m ∈ alarmModelTableInsertDefs builder defs) :
    m = ⟨[0, m.alarmTableDef.alarmIndex, m.alarmTableDef.state], m.alarmTableDef⟩ := by
  rw [alarmModelTableInsertDefs_eq] at hm
  obtain ⟨d, -, rfl⟩ := List.mem_map.mp hm
  rfl

theorem eq_of_mem_ituAlarmTableInsertDefs {builder : OidBuilder} {defs : AlarmTableDefs}
    {t : TableRow} (ht : t ∈ ituAlarmTableInsertDefs builder defs) :
    t = ⟨[0, t.alarmTableDef.alarmIndex, t.alarmTableDef.severity.number], t.alarmTableDef⟩ := by
  rw [ituAlarmTableInsertDefs_eq] at ht
  obtain ⟨d, -, rfl⟩ := List.mem_map.mp ht
  rfl

/-- States tell severities apart, except the undefined one. -/
theorem nodup_model_keys (builder : OidBuilder) {defs : AlarmTableDefs}
    (hsev : ∀ d, defs.Loaded d → d.severity ≠ .undefinedSeverity) :
    ((alarmModelTableInsertDefs builder defs).map TableRow.index).Nodup := by
  rw [alarmModelTableInsertDefs_eq, List.map_map]
  apply nodup_map_iterate
  intro d hd d' hd' he
  have hne := hsev d (AlarmTableDefs.mem_iterate.mp hd)
  have hne' := hsev d' (AlarmTableDefs.mem_iterate.mp hd')
  simp only [Function.comp_apply, List.cons.injEq, true_and, and_true] at he
  rw [AlarmTableDef.key, AlarmTableDef.key, he.1, ← severityOfState_state hne, he.2,
    severityOfState_state hne']

theorem nodup_itu_keys (builder : OidBuilder) (defs : AlarmTableDefs) :
    ((ituAlarmTableInsertDefs builder defs).map TableRow.index).Nodup := by
  rw [ituAlarmTableInsertDefs_eq, List.map_map]
  apply nodup_map_iterate
  intro d _ d' _ he
  simp only [Function.comp_apply, List.cons.injEq, true_and, and_true] at he
  rw [AlarmTableDef.key, AlarmTableDef.key, he.1, he.2]

theorem tables_agree (builder : OidBuilder) (hostname : String) (defs : AlarmTableDefs)
    (hsev : ∀ d, defs.Loaded d → d.severity ≠ .undefinedSeverity) :
    TablesAgree builder hostname defs where
  model_rows := by
    rw [alarmModelTableInsertDefs_eq, List.map_map]
    exact List.map_id _
  model_keys := nodup_model_keys builder hsev
  itu_rows := by
    rw [ituAlarmTableInsertDefs_eq, List.map_map]
    exact List.map_id _
  itu_keys := nodup_itu_keys builder defs
  specific_pointer m hm t ht he := by
    rw [eq_of_mem_ituAlarmTableInsertDefs ht, eq_of_mem_alarmModelTableInsertDefs hm, he]
    rfl
  generic_model m hm t ht he := by
    rw [eq_of_mem_ituAlarmTableInsertDefs ht, eq_of_mem_alarmModelTableInsertDefs hm, he]
    rfl
  rfc3877_row m hm := by
    rw [eq_of_mem_alarmModelTableInsertDefs hm]
    rfl
  enterprise_row m hm := by
    rw [eq_of_mem_alarmModelTableInsertDefs hm]
    rfl
  notification m hm := by
    rw [eq_of_mem_alarmModelTableInsertDefs hm]
    rfl

theorem tables_agree_sample : TablesAgree .standard "hostname1" .sample :=
  tables_agree .standard "hostname1" .sample Setup.sample.severity_defined

/-! ## From alarmActiveTable to the model table -/

/-- The model pointer of an active row is column 3 of the model row of its definition. -/
def PointsAtModelRow (builder : OidBuilder) (localIp : String) (defs : AlarmTableDefs)
    (row : ActiveRow) : Prop :=
  ∃ m ∈ alarmModelTableInsertDefs builder defs, m.alarmTableDef = row.alarmTableDef ∧
    alarmActiveTableGetValue localIp columnAlarmActiveModelPointer row =
      some (.objectId (m.columnOid alarmModelTableOid alarmModelTableColMin))

instance (builder : OidBuilder) (localIp : String) (defs : AlarmTableDefs) (row : ActiveRow) :
    Decidable (PointsAtModelRow builder localIp defs row) :=
  inferInstanceAs (Decidable (∃ m ∈ _, _))

/-- The severities that RFC 3877 maps to states of the same number. -/
def Severity.keepsNumber (s : Severity) : Prop := s = .cleared ∨ s = .indeterminate

theorem state_eq_number_iff (d : AlarmTableDef) :
    d.severity.number = d.state ↔ d.severity.keepsNumber := by
  unfold AlarmTableDef.state Severity.keepsNumber
  cases d.severity <;> decide

theorem pointsAtModelRow_iff {builder : OidBuilder} {localIp : String} {defs : AlarmTableDefs}
    {row : ActiveRow} (hl : defs.Loaded row.alarmTableDef) :
    PointsAtModelRow builder localIp defs row ↔ row.alarmTableDef.severity.keepsNumber := by
  rw [← state_eq_number_iff, PointsAtModelRow, alarmModelTableInsertDefs_eq]
  constructor
  · rintro ⟨m, hm, he, hp⟩
    obtain ⟨d, -, rfl⟩ := List.mem_map.mp hm
    obtain rfl : d = row.alarmTableDef := he
    simpa [alarmActiveTableGetValue, TableRow.columnOid, alarmModelTableOid, entryColumnOid,
      alarmModelTableColMin] using hp
  · intro he
    refine ⟨_, List.mem_map.mpr ⟨_, AlarmTableDefs.mem_iterate.mpr hl, rfl⟩, rfl, ?_⟩
    rw [← he]
    rfl

namespace AlarmActiveTable

variable {defs : AlarmTableDefs} {t : AlarmActiveTable}

/-- A call of `alarmActiveTable_trap_handler` on a loaded definition. -/
def callLoaded (defs : AlarmTableDefs) (t : AlarmActiveTable)
    (c : RowCreation × {d : AlarmTableDef // defs.Loaded d}) : AlarmActiveTable :=
  trapHandler c.1 c.2.1 t

/-- The table is in use, its rows agree with its map, and they show loaded definitions. -/
structure ShowsLoaded (defs : AlarmTableDefs) (t : AlarmActiveTable) : Prop where
  consistent : Consistent t
  in_use : t.myHandler = true
  loaded : ∀ i d, t.definitionAt i = some d → defs.Loaded d

theorem definitionAt_callLoaded (h : ShowsLoaded defs t)
    (c : RowCreation × {d : AlarmTableDef // defs.Loaded d}) (i : AlarmIndex) :
    (callLoaded defs t c).definitionAt i =
      if c.2.1.alarmIndex = i then shownAfterTrap true c.1 c.2.1 (t.definitionAt i)
      else t.definitionAt i := by
  split
  · rename_i hi
    subst hi
    rw [callLoaded, definitionAt_trapHandler_self, h.in_use]
  · rename_i hi
    exact definitionAt_trapHandler_of_ne _ _ t hi

/-- After a call a row shows what it showed before, or the definition of the call. -/
theorem definitionAt_callLoaded_cases (h : ShowsLoaded defs t)
    {c : RowCreation × {d : AlarmTableDef // defs.Loaded d}} {i : AlarmIndex} {d : AlarmTableDef}
    (hd : (callLoaded defs t c).definitionAt i = some d) :
    t.definitionAt i = some d ∨
      d = c.2.1 ∧ c.2.1.severity ≠ .cleared ∧ c.1.succeeds = true := by
  rw [definitionAt_callLoaded h] at hd
  split at hd
  · rw [shownAfterTrap] at hd
    split at hd
    · exact Or.inl hd
    · split at hd
      · rename_i hcreated
        exact Or.inr ⟨(Option.some.inj hd).symm, hcreated⟩
      · contradiction
  · exact Or.inl hd

theorem ShowsLoaded.step (h : ShowsLoaded defs t)
    (c : RowCreation × {d : AlarmTableDef // defs.Loaded d}) :
    ShowsLoaded defs (callLoaded defs t c) where
  consistent := h.consistent.trapHandler c.1 c.2.1
  in_use := (myHandler_trapHandler c.1 c.2.1 t).trans h.in_use
  loaded i d hd := by
    rcases definitionAt_callLoaded_cases h hd with hold | ⟨rfl, -, -⟩
    · exact h.loaded i d hold
    · exact c.2.2

/-- All rows are for severities whose state has the same number. -/
def KeepNumbers (t : AlarmActiveTable) : Prop :=
  ∀ i d, t.definitionAt i = some d → d.severity.keepsNumber

theorem ShowsLoaded.keepNumbers_step_iff (h : ShowsLoaded defs t) (hk : KeepNumbers t)
    (c : RowCreation × {d : AlarmTableDef // defs.Loaded d}) :
    KeepNumbers (callLoaded defs t c) ↔
      (c.2.1.severity = .cleared ∨ c.2.1.severity = .indeterminate ∨ c.1.succeeds = false) := by
  constructor
  · intro hk'
    by_contra hbad
    push Not at hbad
    obtain ⟨hc, hi, hs⟩ := hbad
    -- no row shows the severity of the call yet, so the call makes a row that does
    have hnew : (callLoaded defs t c).definitionAt c.2.1.alarmIndex = some c.2.1 := by
      rw [definitionAt_callLoaded h, if_pos rfl, shownAfterTrap, if_neg,
        if_pos ⟨hc, by simpa using hs⟩]
      rintro (hf | hany)
      · contradiction
      · obtain ⟨old, hold, he⟩ := (Option.any_eq_true _ _).mp hany
        rw [decide_eq_true_eq] at he
        rcases hk _ old hold with ho | ho
        · exact hc (he.2.trans ho)
        · exact hi (he.2.trans ho)
    rcases hk' _ _ hnew with ho | ho
    · exact hc ho
    · exact hi ho
  · intro hgood i d hd
    rcases definitionAt_callLoaded_cases h hd with hold | ⟨rfl, hne, hs⟩
    · exact hk i d hold
    · rcases hgood with ho | ho | ho
      · exact absurd ho hne
      · exact Or.inr ho
      · simp [hs] at ho

theorem ShowsLoaded.keepNumbers_iff (h : ShowsLoaded defs t) (builder : OidBuilder)
    (localIp : String) :
    (∀ row ∈ t.container, PointsAtModelRow builder localIp defs row) ↔ KeepNumbers t := by
  have hshown : ∀ row ∈ t.container,
      t.definitionAt row.alarmTableDef.alarmIndex = some row.alarmTableDef := by
    intro row hrow
    rw [definitionAt, (h.consistent.mem_container row).mp hrow]
    rfl
  constructor
  · intro hp i d hd
    obtain ⟨row, hrow, rfl⟩ := Option.map_eq_some_iff.mp hd
    have hin : row ∈ t.container := by
      rw [h.consistent.mem_container, h.consistent.own_index i row hrow]
      exact hrow
    exact (pointsAtModelRow_iff (h.loaded i _ hd)).mp (hp row hin)
  · intro hk row hrow
    exact (pointsAtModelRow_iff (h.loaded _ _ (hshown row hrow))).mpr (hk _ _ (hshown row hrow))

/-- Every row of every state of a run points at its model row exactly if no call
makes a row for another severity than INDETERMINATE. -/
theorem points_at_model_row_iff (builder : OidBuilder) (localIp : String) (defs : AlarmTableDefs)
    (calls : List (RowCreation × {d : AlarmTableDef // defs.Loaded d})) :
    (∀ p, p <+: calls → ∀ row ∈ (Runs.run (callLoaded defs) initialised p).container,
      PointsAtModelRow builder localIp defs row) ↔
    ∀ c ∈ calls, c.2.1.severity = .cleared ∨ c.2.1.severity = .indeterminate ∨
      c.1.succeeds = false := by
  have hinit : ShowsLoaded defs initialised :=
    ⟨consistent_initialised, rfl, fun i d hd => by simp [initialised, definitionAt, rowAt] at hd⟩
  have hrun := Runs.forall_prefix_iff_along (I := ShowsLoaded defs)
    (Q := fun t => ∀ row ∈ t.container, PointsAtModelRow builder localIp defs row)
    (P := fun _ c => c.2.1.severity = .cleared ∨ c.2.1.severity = .indeterminate ∨
      c.1.succeeds = false) (fun t c h => h.step c)
    (fun t c h hq => by
      rw [(h.step c).keepNumbers_iff, h.keepNumbers_step_iff ((h.keepNumbers_iff _ _).mp hq)])
    hinit (by simp [initialised]) calls
  rw [hrun]
  exact ⟨Runs.forall_of_along, fun h => Runs.along_of_forall (fun c hc _ => h c hc) _⟩

/-- The row of a critical alarm points at the model row of a warning. -/
theorem critical_row_points_elsewhere :
    let raised := AlarmTableDefs.sample.getDefinition 1000 3
    let calls : List (RowCreation × {d : AlarmTableDef // AlarmTableDefs.sample.Loaded d}) :=
      [(RowCreation.sample 1000, ⟨raised, by decide⟩)]
    ¬∀ row ∈ (Runs.run (callLoaded .sample) initialised calls).container,
      PointsAtModelRow .standard "127.0.0.1" .sample row := by
  decide

end AlarmActiveTable
end ClearwaterSnmp
