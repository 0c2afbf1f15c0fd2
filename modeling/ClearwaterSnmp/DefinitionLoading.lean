import ClearwaterSnmp.AlarmTableDefs
import Mathlib.Data.List.Perm.Basic

namespace ClearwaterSnmp
open Std

/-- What `boost::filesystem` says of one entry of a directory. -/
structure DirectoryEntry where
  path : String
  isRegularFile : Bool
  extension : String
deriving DecidableEq, Repr

/-- `JSONAlarms::validate_alarms_from_json`, which is declared outside this repository. -/
abbrev AlarmsValidator := String → Except String (List AlarmDefinition)

/-- What `initialize` fills: the map of definitions, and the alarm indexes it has
seen. -/
structure Loading where
  defs : AlarmTableDefs
  dupCheck : ExtTreeMap AlarmIndex ℕ

namespace AlarmTableDefs

/-- The inner loop of `populate_map`, over the severities of one alarm. -/
def insertAlarm (defs : AlarmTableDefs) (a : AlarmDefinition) : AlarmTableDefs :=
  a.severityDetails.foldl (fun defs details => defs.insertDef a details) defs

/-- The outer loop of `populate_map`, which stops at an alarm that is defined twice. -/
def insertAlarms : List AlarmDefinition → Loading → Bool × Loading
  | [], s => (true, s)
  | a :: alarms, s =>
    if s.dupCheck.contains a.index then (false, s)
    else insertAlarms alarms ⟨s.defs.insertAlarm a, s.dupCheck.insert a.index 1⟩

/-- `populate_map` -/
def populateMap (validate : AlarmsValidator) (path : String) (s : Loading) : Bool × Loading :=
  match validate path with
  | .error _ => (false, s)
  | .ok alarms => insertAlarms alarms s

def isJsonFile (e : DirectoryEntry) : Bool := e.isRegularFile && e.extension = ".json"

/-- The loop of `initialize`, which stops at the first file that fails. -/
def initializeLoop (validate : AlarmsValidator) : List DirectoryEntry → Loading → Bool × Loading
  | [], s => (true, s)
  | e :: entries, s =>
    if isJsonFile e then
      match populateMap validate e.path s with
      | (true, s) => initializeLoop validate entries s
      | (false, s) => (false, s)
    else initializeLoop validate entries s

/-- `AlarmTableDefs::initialize`, for the entries of the directory in the order of
its iterator, or none if the path is not a directory. -/
def initializeDefs (validate : AlarmsValidator) :
    Option (List DirectoryEntry) → Bool × AlarmTableDefs
  | none => (false, empty)
  | some entries =>
    let (rc, s) := initializeLoop validate entries ⟨empty, ∅⟩
    (rc, s.defs)

/-! ## The verdict -/

/-- The alarms that the files of a directory define, file after file. -/
def alarmsOf (validate : AlarmsValidator) (entries : List DirectoryEntry) : List AlarmDefinition :=
  (entries.filter isJsonFile).flatMap fun e => ((validate e.path).toOption).getD []

/-- Every .json file validates and no alarm index is defined twice. -/
structure WellDefined (validate : AlarmsValidator) (entries : List DirectoryEntry) : Prop where
  validates : ∀ e ∈ entries, isJsonFile e = true → (validate e.path).isOk = true
  nodup : ((alarmsOf validate entries).map AlarmDefinition.index).Nodup

theorem insertAlarms_append (as bs : List AlarmDefinition) (s : Loading) :
    insertAlarms (as ++ bs) s =
      if (insertAlarms as s).1 then insertAlarms bs (insertAlarms as s).2
      else (false, (insertAlarms as s).2) := by
  induction as generalizing s with
  | nil => rfl
  | cons a as ih =>
    rw [List.cons_append, insertAlarms, insertAlarms]
    split
    · rfl
    · exact ih _

/-- Files that validate are loaded as if they were one. -/
theorem initializeLoop_eq {validate : AlarmsValidator} {entries : List DirectoryEntry}
    (h : ∀ e ∈ entries, isJsonFile e = true → (validate e.path).isOk = true) (s : Loading) :
    initializeLoop validate entries s = insertAlarms (alarmsOf validate entries) s := by
  induction entries generalizing s with
  | nil => rfl
  | cons e entries ih =>
    have hrest := ih fun e' he' => h e' (List.mem_cons_of_mem e he')
    rw [initializeLoop]
    split
    · rename_i hjson
      have hok := h e List.mem_cons_self hjson
      cases hv : validate e.path with
      | error msg => simp [hv, Except.isOk, Except.toBool] at hok
      | ok alarms =>
        have hof : alarmsOf validate (e :: entries) = alarms ++ alarmsOf validate entries := by
          simp [alarmsOf, hjson, hv, Except.toOption]
        rw [hof, insertAlarms_append, populateMap, hv]
        dsimp only
        -- a duplicate in this file ends both loops
        split
        · rename_i heq
          rw [heq, hrest]
          rfl
        · rename_i heq
          rw [heq]
          rfl
    · rename_i hjson
      have hof : alarmsOf validate (e :: entries) = alarmsOf validate entries := by
        simp [alarmsOf, hjson]
      rw [hof, hrest]

theorem initializeLoop_of_error {validate : AlarmsValidator} {entries : List DirectoryEntry}
    {e : DirectoryEntry} (he : e ∈ entries) (hjson : isJsonFile e = true)
    (herr : (validate e.path).isOk = false) (s : Loading) :
    (initializeLoop validate entries s).1 = false := by
  induction entries generalizing s with
  | nil => simp at he
  | cons e' entries ih =>
    rw [initializeLoop]
    rcases List.mem_cons.mp he with rfl | hrest
    · cases hv : validate e.path with
      | error msg => simp [hjson, populateMap, hv]
      | ok alarms => simp [hv, Except.isOk, Except.toBool] at herr
    · split
      · split
        · exact ih hrest _
        · rfl
      · exact ih hrest s

theorem insertAlarms_eq_true {alarms : List AlarmDefinition} {s : Loading} :
    (insertAlarms alarms s).1 = true ↔
      (alarms.map AlarmDefinition.index).Nodup ∧ ∀ a ∈ alarms, a.index ∉ s.dupCheck := by
  induction alarms generalizing s with
  | nil => simp [insertAlarms]
  | cons a alarms ih =>
    rw [insertAlarms]
    split
    · rename_i hdup
      simp [← ExtTreeMap.contains_iff_mem, hdup]
    · rename_i hnew
      have hnot : a.index ∉ s.dupCheck := by rwa [← ExtTreeMap.contains_iff_mem]
      rw [ih, List.map_cons, List.nodup_cons, List.forall_mem_cons]
      simp only [ExtTreeMap.mem_insert, Std.compare_eq_iff_eq, List.mem_map, not_exists, not_and,
        not_or]
      constructor
      · rintro ⟨hnodup, hall⟩
        exact ⟨⟨fun b hb he => (hall b hb).1 he.symm, hnodup⟩, hnot, fun b hb => (hall b hb).2⟩
      · rintro ⟨⟨hself, hnodup⟩, -, hall⟩
        exact ⟨hnodup, fun b hb => ⟨fun he => hself b hb he.symm, hall b hb⟩⟩

theorem defs_insertAlarms {alarms : List AlarmDefinition} {s : Loading}
    (h : (insertAlarms alarms s).1 = true) :
    (insertAlarms alarms s).2.defs = alarms.foldl insertAlarm s.defs := by
  induction alarms generalizing s with
  | nil => rfl
  | cons a alarms ih =>
    rw [insertAlarms] at h ⊢
    split at h
    · contradiction
    · rename_i hnew
      rw [if_neg hnew, ih h]
      rfl

theorem initializeDefs_eq_true {validate : AlarmsValidator} {entries : List DirectoryEntry} :
    (initializeDefs validate (some entries)).1 = true ↔ WellDefined validate entries := by
  change (initializeLoop validate entries ⟨empty, ∅⟩).1 = true ↔ _
  by_cases hv : ∀ e ∈ entries, isJsonFile e = true → (validate e.path).isOk = true
  · rw [initializeLoop_eq hv, insertAlarms_eq_true]
    constructor
    · exact fun h => ⟨hv, h.1⟩
    · exact fun h => ⟨h.nodup, fun a _ => ExtTreeMap.not_mem_empty⟩
  · constructor
    · intro h
      push Not at hv
      obtain ⟨e, he, hjson, herr⟩ := hv
      rw [initializeLoop_of_error he hjson (by simpa using herr)] at h
      contradiction
    · exact fun h => absurd h.validates hv

theorem initializeDefs_defs {validate : AlarmsValidator} {entries : List DirectoryEntry}
    (h : WellDefined validate entries) :
    (initializeDefs validate (some entries)).2 =
      (alarmsOf validate entries).foldl insertAlarm empty := by
  change (initializeLoop validate entries ⟨empty, ∅⟩).2.defs = _
  have hrc := initializeDefs_eq_true.mpr h
  change (initializeLoop validate entries ⟨empty, ∅⟩).1 = true at hrc
  rw [initializeLoop_eq h.validates] at hrc ⊢
  exact defs_insertAlarms hrc

/-! ## The map -/

/-- What an alarm definition puts under a key: its first details with that severity. -/
def entryAt (k : AlarmTableDefKey) (a : AlarmDefinition) : Option AlarmTableDef :=
  if a.index = k.index then
    (a.severityDetails.find? (·.severity.number = k.severity)).map (AlarmTableDef.ofDetails a)
  else none

theorem getElem?_insertDef (defs : AlarmTableDefs) (a : AlarmDefinition) (x : SeverityDetails)
    (k : AlarmTableDefKey) :
    (defs.insertDef a x).keyToDef[k]? = (defs.keyToDef[k]?).or
      (if a.index = k.index ∧ x.severity.number = k.severity then some (.ofDetails a x)
      else none) := by
  have hkey : (AlarmTableDef.ofDetails a x).key = k ↔
      a.index = k.index ∧ x.severity.number = k.severity := AlarmTableDefKey.ext_iff
  rw [insertDef, ExtTreeMap.getElem?_insertIfNew]
  simp only [Std.compare_eq_iff_eq, ← hkey]
  by_cases hk : (AlarmTableDef.ofDetails a x).key = k
  · subst hk
    by_cases hmem : (AlarmTableDef.ofDetails a x).key ∈ defs.keyToDef <;> simp [hmem]
  · simp [hk]

theorem getElem?_insertAlarm (defs : AlarmTableDefs) (a : AlarmDefinition) (k : AlarmTableDefKey) :
    (defs.insertAlarm a).keyToDef[k]? = (defs.keyToDef[k]?).or (entryAt k a) := by
  rw [insertAlarm, entryAt]
  generalize a.severityDetails = details
  induction details generalizing defs with
  | nil => simp
  | cons x details ih =>
    rw [List.foldl_cons, ih, getElem?_insertDef, Option.or_assoc, List.find?_cons]
    by_cases hi : a.index = k.index
    · by_cases hs : x.severity.number = k.severity
      · simp [hi, hs]
      · simp [hi, hs]
    · simp [hi]

theorem getElem?_foldl_insertAlarm (alarms : List AlarmDefinition) (defs : AlarmTableDefs)
    (k : AlarmTableDefKey) :
    (alarms.foldl insertAlarm defs).keyToDef[k]? =
      (defs.keyToDef[k]?).or (alarms.findSome? (entryAt k)) := by
  induction alarms generalizing defs with
  | nil => simp
  | cons a alarms ih =>
    rw [List.foldl_cons, ih, getElem?_insertAlarm, List.findSome?_cons, Option.or_assoc]
    cases entryAt k a <;> rfl

theorem entryAt_eq_some {k : AlarmTableDefKey} {a : AlarmDefinition} {d : AlarmTableDef} :
    entryAt k a = some d ↔ a.index = k.index ∧ ∃ x,
      a.severityDetails.find? (·.severity.number = k.severity) = some x ∧
        AlarmTableDef.ofDetails a x = d := by
  unfold entryAt
  split
  · rename_i hi
    simp [hi]
  · rename_i hi
    simp [hi]

/-- Alarms of different indexes have no key in common, so their order does not matter. -/
theorem findSome?_entryAt {alarms : List AlarmDefinition}
    (h : (alarms.map AlarmDefinition.index).Nodup) {k : AlarmTableDefKey} {d : AlarmTableDef} :
    alarms.findSome? (entryAt k) = some d ↔ ∃ a ∈ alarms, entryAt k a = some d := by
  constructor
  · exact List.exists_of_findSome?_eq_some
  · rintro ⟨a, ha, hd⟩
    cases hf : alarms.findSome? (entryAt k) with
    | none => exact absurd (List.findSome?_eq_none_iff.mp hf a ha) (by simp [hd])
    | some d' =>
      obtain ⟨b, hb, hd'⟩ := List.exists_of_findSome?_eq_some hf
      have hindex : b.index = a.index :=
        (entryAt_eq_some.mp hd').1.trans (entryAt_eq_some.mp hd).1.symm
      obtain rfl := List.inj_on_of_nodup_map h hb ha hindex
      exact hd'.symm.trans hd

theorem getElem?_initializeDefs {validate : AlarmsValidator} {entries : List DirectoryEntry}
    (h : WellDefined validate entries) {k : AlarmTableDefKey} {d : AlarmTableDef} :
    (initializeDefs validate (some entries)).2.keyToDef[k]? = some d ↔
      ∃ a ∈ alarmsOf validate entries, entryAt k a = some d := by
  rw [initializeDefs_defs h, getElem?_foldl_insertAlarm, empty, ExtTreeMap.getElem?_empty,
    Option.none_or]
  exact findSome?_entryAt h.nodup

theorem alarmsOf_perm {validate : AlarmsValidator} {entries entries' : List DirectoryEntry}
    (hp : entries.Perm entries') : (alarmsOf validate entries).Perm (alarmsOf validate entries') :=
  (hp.filter isJsonFile).flatMap_right _

theorem WellDefined.of_perm {validate : AlarmsValidator} {entries entries' : List DirectoryEntry}
    (h : WellDefined validate entries) (hp : entries.Perm entries') :
    WellDefined validate entries' where
  validates e he := h.validates e (hp.mem_iff.mpr he)
  nodup := ((alarmsOf_perm hp).map _).nodup_iff.mp h.nodup

theorem keyToDef_injective {defs defs' : AlarmTableDefs} (h : defs.keyToDef = defs'.keyToDef) :
    defs = defs' := by
  cases defs
  cases defs'
  cases h
  rfl

/-- What `initialize` makes of a directory: its verdict, then the definition of each
index and severity, which is the first one the file gives for it, and the
definitions from `begin()` to `end()`; none of it depends on the order of the files. -/
structure LoadsExactly (validate : AlarmsValidator) (entries : List DirectoryEntry) : Prop where
  verdict : (initializeDefs validate (some entries)).1 = true ↔ WellDefined validate entries
  valid : (initializeDefs validate (some entries)).1 = true → ∀ i s,
    ((initializeDefs validate (some entries)).2.getDefinition i s).isValid = true ↔
      ∃ a ∈ alarmsOf validate entries, a.index = i ∧ ∃ x ∈ a.severityDetails, x.severity.number = s
  carried : (initializeDefs validate (some entries)).1 = true →
    ∀ a ∈ alarmsOf validate entries, ∀ s x,
      a.severityDetails.find? (·.severity.number = s) = some x →
        (initializeDefs validate (some entries)).2.getDefinition a.index s = .ofDetails a x
  iterated : (initializeDefs validate (some entries)).1 = true → ∀ d,
    d ∈ (initializeDefs validate (some entries)).2.iterate ↔ ∃ a ∈ alarmsOf validate entries,
      ∃ s x, a.severityDetails.find? (·.severity.number = s) = some x ∧ d = .ofDetails a x
  ascending : (initializeDefs validate (some entries)).2.iterate.Pairwise fun d d' =>
    d.alarmIndex < d'.alarmIndex ∨
      d.alarmIndex = d'.alarmIndex ∧ d.severity.number < d'.severity.number
  any_order : ∀ entries', entries.Perm entries' →
    (initializeDefs validate (some entries')).1 = (initializeDefs validate (some entries)).1 ∧
      ((initializeDefs validate (some entries)).1 = true →
        (initializeDefs validate (some entries')).2 = (initializeDefs validate (some entries)).2)

theorem initializeDefs_perm {validate : AlarmsValidator} {entries entries' : List DirectoryEntry}
    (h : WellDefined validate entries) (hp : entries.Perm entries') :
    (initializeDefs validate (some entries')).2 = (initializeDefs validate (some entries)).2 := by
  apply keyToDef_injective
  apply ExtTreeMap.ext_getElem?
  intro k
  ext d
  rw [getElem?_initializeDefs h, getElem?_initializeDefs (h.of_perm hp)]
  simp only [(alarmsOf_perm hp).mem_iff]

theorem loads_exactly (validate : AlarmsValidator) (entries : List DirectoryEntry) :
    LoadsExactly validate entries where
  verdict := initializeDefs_eq_true
  valid hrc i s := by
    have h := initializeDefs_eq_true.mp hrc
    rw [isValid_getDefinition]
    simp only [getElem?_initializeDefs h, entryAt_eq_some]
    constructor
    · rintro ⟨d, a, ha, hi, x, hx, -⟩
      exact ⟨a, ha, hi, x, List.mem_of_find?_eq_some hx, by simpa using List.find?_some hx⟩
    · -- the details found first need not be `x`, but they are for the same severity
      rintro ⟨a, ha, hi, x, hx, hs⟩
      have hfound : (a.severityDetails.find? (·.severity.number = s)).isSome = true :=
        List.find?_isSome.mpr ⟨x, hx, by simpa using hs⟩
      obtain ⟨x', hx'⟩ := Option.isSome_iff_exists.mp hfound
      exact ⟨_, a, ha, hi, x', hx', rfl⟩
  carried hrc a ha s x hx := by
    have h := initializeDefs_eq_true.mp hrc
    have hd := (getElem?_initializeDefs h (k := ⟨a.index, s⟩)).mpr
      ⟨a, ha, entryAt_eq_some.mpr ⟨rfl, x, hx, rfl⟩⟩
    rw [getDefinition, hd, Option.getD_some]
  iterated hrc d := by
    have h := initializeDefs_eq_true.mp hrc
    rw [mem_iterate, Loaded, getElem?_initializeDefs h]
    simp only [entryAt_eq_some]
    constructor
    · rintro ⟨a, ha, -, x, hx, hd⟩
      exact ⟨a, ha, _, x, hx, hd.symm⟩
    · rintro ⟨a, ha, s, x, hx, rfl⟩
      obtain rfl : x.severity.number = s := by simpa using List.find?_some hx
      exact ⟨a, ha, rfl, x, hx, rfl⟩
  ascending := (pairwise_iterate _).imp compare_key_eq_lt.mp
  any_order entries' hp := by
    refine ⟨?_, fun hrc => initializeDefs_perm (initializeDefs_eq_true.mp hrc) hp⟩
    rw [Bool.eq_iff_iff, initializeDefs_eq_true, initializeDefs_eq_true]
    exact ⟨fun h => h.of_perm hp.symm, fun h => h.of_perm hp⟩

end AlarmTableDefs
end ClearwaterSnmp
