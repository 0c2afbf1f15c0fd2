import Mathlib.Data.Finset.Max

namespace ClearwaterSnmp
open Std

abbrev AlarmIndex := ℕ

/-- `AlarmDef::Severity`, in the order of its numbers. -/
inductive Severity
  | undefinedSeverity | cleared | indeterminate | critical | major | minor | warning
deriving DecidableEq, Repr

namespace Severity

def number : Severity → ℕ
  | undefinedSeverity => 0
  | cleared => 1
  | indeterminate => 2
  | critical => 3
  | major => 4
  | minor => 5
  | warning => 6

/-- The cast of a number to the enumeration. Only numbers of loaded definitions
are ever cast, so what a number above 6 becomes does not matter. -/
def ofNumber : ℕ → Severity
  | 1 => cleared
  | 2 => indeterminate
  | 3 => critical
  | 4 => major
  | 5 => minor
  | 6 => warning
  | _ => undefinedSeverity

@[simp] theorem ofNumber_number (s : Severity) : ofNumber s.number = s := by cases s <;> rfl

theorem number_le (s : Severity) : s.number ≤ 6 := by cases s <;> decide

theorem number_injective : Function.Injective number :=
  Function.LeftInverse.injective ofNumber_number

end Severity

/-- `operator>` on severities: a strict linear order in which the undefined
severity is least. It is declared outside this repository. -/
structure SeverityOrder where
  gt : Severity → Severity → Bool
  gt_irrefl : ∀ a, gt a a = false
  gt_trans : ∀ a b c, gt a b = true → gt b c = true → gt a c = true
  gt_total : ∀ a b, a ≠ b → gt a b = true ∨ gt b a = true
  gt_undefined : ∀ a, a ≠ .undefinedSeverity → gt a .undefinedSeverity = true

namespace SeverityOrder

variable (order : SeverityOrder)

theorem gt_asymm {a b : Severity} (h : order.gt a b = true) : order.gt b a = false := by
  by_contra hb
  have haa := order.gt_trans a b a h (by simpa using hb)
  rw [order.gt_irrefl a] at haa
  contradiction

theorem ne_of_gt {a b : Severity} (h : order.gt a b = true) : a ≠ b := by
  rintro rfl
  rw [order.gt_irrefl a] at h
  contradiction

theorem gt_of_not_gt {a b : Severity} (hne : a ≠ b) (h : order.gt a b = false) :
    order.gt b a = true := by
  rcases order.gt_total a b hne with hab | hba
  · rw [hab] at h
    contradiction
  · exact hba

/-- The order of urgency, from undefined and cleared up to critical. -/
def urgency : Severity → ℕ
  | .undefinedSeverity => 0
  | .cleared => 1
  | .indeterminate => 2
  | .warning => 3
  | .minor => 4
  | .major => 5
  | .critical => 6

theorem urgency_injective : Function.Injective urgency := by
  intro a b h
  cases a <;> cases b <;> first | rfl | (simp [urgency] at h)

def byUrgency : SeverityOrder where
  gt a b := urgency b < urgency a
  gt_irrefl a := by simp
  gt_trans a b c hab hbc := by simp only [decide_eq_true_eq] at *; omega
  gt_total a b hne := by
    have hu : urgency a ≠ urgency b := fun h => hne (urgency_injective h)
    simp only [decide_eq_true_eq]
    omega
  gt_undefined a ha := by
    have hu : urgency a ≠ 0 := fun h => ha (urgency_injective h)
    simp only [decide_eq_true_eq]
    exact Nat.pos_of_ne_zero hu

end SeverityOrder

structure SeverityDetails where
  severity : Severity
  description : String
  details : String
  cause : String
  effect : String
  action : String
  extendedDetails : String
  extendedDescription : String
deriving DecidableEq, Repr

/-- `AlarmDef::AlarmDefinition`; the cause is given by its number. -/
structure AlarmDefinition where
  name : String
  index : AlarmIndex
  cause : ℕ
  severityDetails : List SeverityDetails
deriving DecidableEq, Repr

structure AlarmTableDef where
  valid : Bool
  alarmDefinition : AlarmDefinition
  severityDetails : SeverityDetails
deriving DecidableEq, Repr

namespace AlarmTableDef

/-- The default constructor, which makes an invalid definition. -/
def invalid : AlarmTableDef :=
  ⟨false, ⟨"", 0, 0, []⟩, ⟨.undefinedSeverity, "", "", "", "", "", "", ""⟩⟩

/-- The constructor from a definition and one of its severities. -/
def ofDetails (definition : AlarmDefinition) (details : SeverityDetails) : AlarmTableDef :=
  ⟨true, definition, details⟩

def alarmIndex (d : AlarmTableDef) : AlarmIndex := d.alarmDefinition.index
def severity (d : AlarmTableDef) : Severity := d.severityDetails.severity
def isValid (d : AlarmTableDef) : Bool := d.valid

end AlarmTableDef

@[ext] structure AlarmTableDefKey where
  index : ℕ
  severity : ℕ
deriving DecidableEq, Repr

namespace AlarmTableDefKey

/-- `operator<` of the key: by index, then by severity. -/
instance : Ord AlarmTableDefKey := ⟨compareLex (compareOn index) (compareOn severity)⟩

instance : TransOrd AlarmTableDefKey :=
  inferInstanceAs (TransCmp (compareLex (compareOn index) (compareOn severity)))

instance : LawfulEqOrd AlarmTableDefKey where
  eq_of_compare {a b} h := by
    have h' : compareLex (compareOn index) (compareOn severity) a b = .eq := h
    simp only [compareLex_eq_eq, compareOn, Std.compare_eq_iff_eq] at h'
    ext
    · exact h'.1
    · exact h'.2

end AlarmTableDefKey

def AlarmTableDef.key (d : AlarmTableDef) : AlarmTableDefKey := ⟨d.alarmIndex, d.severity.number⟩

/-- The loaded definitions. Each entry is valid and stands under its own key. -/
structure AlarmTableDefs where
  keyToDef : ExtTreeMap AlarmTableDefKey AlarmTableDef
  own_key : ∀ (k : AlarmTableDefKey) (d : AlarmTableDef), keyToDef[k]? = some d →
    d.isValid = true ∧ d.key = k

namespace AlarmTableDefs

def empty : AlarmTableDefs := ⟨∅, by simp⟩

/-- `insert_def`: like `std::map::emplace`, it keeps an entry that is there. -/
def insertDef (defs : AlarmTableDefs) (definition : AlarmDefinition) (details : SeverityDetails) :
    AlarmTableDefs where
  keyToDef := defs.keyToDef.insertIfNew (AlarmTableDef.ofDetails definition details).key
    (AlarmTableDef.ofDetails definition details)
  own_key k d h := by
    rw [ExtTreeMap.getElem?_insertIfNew] at h
    split at h
    · rename_i hk
      cases h
      exact ⟨rfl, Std.compare_eq_iff_eq.mp hk.1⟩
    · exact defs.own_key k d h

def getDefinition (defs : AlarmTableDefs) (index severity : ℕ) : AlarmTableDef :=
  (defs.keyToDef[AlarmTableDefKey.mk index severity]?).getD .invalid

/-- The definitions from `begin()` to `end()`, in the order of their keys. -/
def iterate (defs : AlarmTableDefs) : List AlarmTableDef := defs.keyToDef.toList.map Prod.snd

def Loaded (defs : AlarmTableDefs) (d : AlarmTableDef) : Prop := defs.keyToDef[d.key]? = some d

instance (defs : AlarmTableDefs) (d : AlarmTableDef) : Decidable (defs.Loaded d) :=
  inferInstanceAs (Decidable (_ = _))

theorem getDefinition_of_loaded {defs : AlarmTableDefs} {d : AlarmTableDef} (h : defs.Loaded d) :
    defs.getDefinition d.alarmIndex d.severity.number = d := by
  have hk : defs.keyToDef[AlarmTableDefKey.mk d.alarmIndex d.severity.number]? = some d := h
  rw [getDefinition, hk, Option.getD_some]

theorem isValid_of_loaded {defs : AlarmTableDefs} {d : AlarmTableDef} (h : defs.Loaded d) :
    d.isValid = true := (defs.own_key d.key d h).1

theorem isValid_getDefinition {defs : AlarmTableDefs} {index severity : ℕ} :
    (defs.getDefinition index severity).isValid = true ↔
      ∃ d, defs.keyToDef[AlarmTableDefKey.mk index severity]? = some d := by
  cases hd : defs.keyToDef[AlarmTableDefKey.mk index severity]? with
  | none => simp [getDefinition, hd, AlarmTableDef.invalid, AlarmTableDef.isValid]
  | some d =>
    rw [getDefinition, hd, Option.getD_some]
    exact ⟨fun _ => ⟨d, rfl⟩, fun _ => (defs.own_key _ d hd).1⟩

/-- A definition that `get_definition` reports as valid is loaded, for exactly
the index and severity that were asked for. -/
theorem loaded_of_isValid {defs : AlarmTableDefs} {index severity : ℕ}
    (h : (defs.getDefinition index severity).isValid = true) :
    defs.Loaded (defs.getDefinition index severity) ∧
      (defs.getDefinition index severity).alarmIndex = index ∧
      (defs.getDefinition index severity).severity.number = severity := by
  obtain ⟨d, hd⟩ := isValid_getDefinition.mp h
  have hk : d.key = AlarmTableDefKey.mk index severity := (defs.own_key _ d hd).2
  have hg : defs.getDefinition index severity = d := by rw [getDefinition, hd, Option.getD_some]
  rw [hg, Loaded, hk]
  exact ⟨hd, congrArg AlarmTableDefKey.index hk, congrArg AlarmTableDefKey.severity hk⟩

theorem mem_iterate {defs : AlarmTableDefs} {d : AlarmTableDef} :
    d ∈ defs.iterate ↔ defs.Loaded d := by
  simp only [iterate, List.mem_map, Prod.exists, ExtTreeMap.mem_toList_iff_getElem?_eq_some]
  constructor
  · rintro ⟨k, d', hk, rfl⟩
    rw [Loaded, (defs.own_key k d' hk).2]
    exact hk
  · exact fun h => ⟨d.key, d, h, rfl⟩

theorem pairwise_iterate (defs : AlarmTableDefs) :
    defs.iterate.Pairwise fun d d' => compare d.key d'.key = .lt := by
  rw [iterate, List.pairwise_map]
  apply (List.Pairwise.and_mem.mp ExtTreeMap.ordered_keys_toList).imp
  rintro ⟨k, d⟩ ⟨k', d'⟩ ⟨hk, hk', hlt⟩
  rw [ExtTreeMap.mem_toList_iff_getElem?_eq_some] at hk hk'
  rw [(defs.own_key k d hk).2, (defs.own_key k' d' hk').2]
  exact hlt

theorem compare_key_eq_lt {d d' : AlarmTableDef} : compare d.key d'.key = .lt ↔
    d.alarmIndex < d'.alarmIndex ∨
      d.alarmIndex = d'.alarmIndex ∧ d.severity.number < d'.severity.number := by
  change (compare d.alarmIndex d'.alarmIndex).then
    (compare d.severity.number d'.severity.number) = .lt ↔ _
  rw [Ordering.then_eq_lt, Nat.compare_eq_lt, Nat.compare_eq_eq, Nat.compare_eq_lt]

end AlarmTableDefs
end ClearwaterSnmp
