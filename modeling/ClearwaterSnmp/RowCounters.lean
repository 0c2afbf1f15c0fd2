import ClearwaterSnmp.RowOwnership

namespace ClearwaterSnmp.AlarmActiveTable

theorem alarmCounter_createRow_created (issued : SnmpDateTime) (d : AlarmTableDef)
    {t : AlarmActiveTable} {n : ℕ} (h : t.alarmCounter = n % uintMax) :
    (createRow (.created issued) d t).alarmCounter = (n + 1) % uintMax := by
  have hcounter : (t.alarmCounter + 1) % 2 ^ 64 = n % uintMax + 1 := by
    unfold uintMax at *
    omega
  have hcreate : (createRow (.created issued) d t).alarmCounter =
      if (t.alarmCounter + 1) % 2 ^ 64 = uintMax then 0 else (t.alarmCounter + 1) % 2 ^ 64 := rfl
  rw [hcreate, hcounter]
  unfold uintMax
  split <;> omega

/-! ## Creations that may fail -/

/-- One call of `alarmActiveTable_create_row`. -/
def create (t : AlarmActiveTable) (c : RowCreation × AlarmTableDef) : AlarmActiveTable :=
  createRow c.1 c.2 t

/-- The counter that the call hands to `alarmActiveTable_index_to_oid`, if it comes to that. -/
def handedCounter (t : AlarmActiveTable) (c : RowCreation × AlarmTableDef) : Option ℕ :=
  match c.1 with
  | .mallocFailed => none
  | _ => some ((t.alarmCounter + 1) % 2 ^ 64)

/-- After every call the counter is below `UINT_MAX`, and what is handed on is in the range of
the MIB. -/
structure CounterInRange (t : AlarmActiveTable) (calls : List (RowCreation × AlarmTableDef)) :
    Prop where
  below : ∀ before, before <+: calls → (Runs.run create t before).alarmCounter < uintMax
  handed : Runs.Along create (fun t c => ∀ v ∈ handedCounter t c, 1 ≤ v ∧ v ≤ uintMax) t calls

/-- The calls that get their memory. -/
def attempts (calls : List (RowCreation × AlarmTableDef)) : List (RowCreation × AlarmTableDef) :=
  calls.filter fun c => c.1 ≠ .mallocFailed

/-- With `n` attempts made before, every `UINT_MAX`-th attempt succeeds. -/
def LimitSucceeds (n : ℕ) (calls : List (RowCreation × AlarmTableDef)) : Prop :=
  ∀ k c, (attempts calls)[k]? = some c → (n + k + 1) % uintMax = 0 → c.1.succeeds = true

theorem limitSucceeds_cons_attempt {n : ℕ} {c : RowCreation × AlarmTableDef}
    {calls : List (RowCreation × AlarmTableDef)} (hc : c.1 ≠ .mallocFailed) :
    LimitSucceeds n (c :: calls) ↔
      ((n + 1) % uintMax = 0 → c.1.succeeds = true) ∧ LimitSucceeds (n + 1) calls := by
  have hcons : attempts (c :: calls) = c :: attempts calls :=
    List.filter_cons_of_pos (by simpa using hc)
  constructor
  · intro h
    refine ⟨h 0 c (by rw [hcons]; rfl), ?_⟩
    intro k c' hk hmod
    refine h (k + 1) c' (by rw [hcons]; exact hk) ?_
    rwa [show n + (k + 1) + 1 = n + 1 + k + 1 by omega]
  · rintro ⟨hfirst, hrest⟩ k c' hk hmod
    rw [hcons] at hk
    cases k with
    | zero =>
      obtain rfl : c = c' := Option.some.inj hk
      exact hfirst hmod
    | succ k =>
      refine hrest k c' hk ?_
      rwa [show n + 1 + k + 1 = n + (k + 1) + 1 by omega]

theorem limitSucceeds_cons_mallocFailed {n : ℕ} {d : AlarmTableDef}
    {calls : List (RowCreation × AlarmTableDef)} :
    LimitSucceeds n ((.mallocFailed, d) :: calls) ↔ LimitSucceeds n calls := Iff.rfl

/-- While the counter is below its limit it is the number of attempts, counted round. -/
theorem counter_below_iff {t : AlarmActiveTable} {n : ℕ} (hn : t.alarmCounter = n % uintMax)
    (calls : List (RowCreation × AlarmTableDef)) :
    (∀ before, before <+: calls → (Runs.run create t before).alarmCounter < uintMax) ↔
      LimitSucceeds n calls := by
  have hlt : t.alarmCounter < uintMax := by
    rw [hn]
    exact Nat.mod_lt n (by decide)
  induction calls generalizing t n with
  | nil =>
    refine iff_of_true ?_ (fun k c hk => absurd hk (by simp [attempts]))
    intro before hb
    rwa [List.prefix_nil.mp hb]
  | cons c calls ih =>
    obtain ⟨creation, d⟩ := c
    rw [Runs.forall_prefix_cons (Q := fun t : AlarmActiveTable => t.alarmCounter < uintMax),
      and_iff_right hlt]
    cases creation with
    | mallocFailed =>
      rw [limitSucceeds_cons_mallocFailed]
      exact ih hn hlt
    | created issued =>
      have hnext : (create t (.created issued, d)).alarmCounter = (n + 1) % uintMax :=
        alarmCounter_createRow_created issued d hn
      have hsucceeds : (n + 1) % uintMax = 0 → (RowCreation.created issued).succeeds = true :=
        fun _ => rfl
      rw [limitSucceeds_cons_attempt (by simp), and_iff_right hsucceeds]
      apply ih hnext
      rw [hnext]
      exact Nat.mod_lt _ (by decide)
    | indexToOidFailed =>
      have hkept : (create t (.indexToOidFailed, d)).alarmCounter =
          (t.alarmCounter + 1) % 2 ^ 64 := rfl
      have hnext : (create t (.indexToOidFailed, d)).alarmCounter = n % uintMax + 1 := by
        unfold uintMax at *
        omega
      rw [limitSucceeds_cons_attempt (by simp)]
      by_cases hlimit : (n + 1) % uintMax = 0
      · -- the counter stands at its limit, and is not reset
        refine iff_of_false ?_ (fun h => absurd (h.1 hlimit) Bool.false_ne_true)
        intro h
        have hover := h [] List.nil_prefix
        rw [Runs.run_nil, hnext] at hover
        unfold uintMax at *
        omega
      · have hsame : n % uintMax + 1 = (n + 1) % uintMax := by
          unfold uintMax at *
          omega
        rw [hsame] at hnext
        rw [and_iff_right (absurd · hlimit)]
        apply ih hnext
        rw [hnext]
        exact Nat.mod_lt _ (by decide)

/-- From a counter below its limit, the next value is in the range of the MIB. -/
theorem handedCounter_in_range {t : AlarmActiveTable} (ht : t.alarmCounter < uintMax)
    (c : RowCreation × AlarmTableDef) : ∀ v ∈ handedCounter t c, 1 ≤ v ∧ v ≤ uintMax := by
  intro v hv
  have hvalue : v = (t.alarmCounter + 1) % 2 ^ 64 := by
    unfold handedCounter at hv
    split at hv
    · contradiction
    · exact (Option.some.inj hv).symm
  unfold uintMax at *
  omega

theorem handed_in_range {t : AlarmActiveTable} {calls : List (RowCreation × AlarmTableDef)}
    (h : ∀ before, before <+: calls → (Runs.run create t before).alarmCounter < uintMax) :
    Runs.Along create (fun t c => ∀ v ∈ handedCounter t c, 1 ≤ v ∧ v ≤ uintMax) t calls := by
  induction calls generalizing t with
  | nil => trivial
  | cons c calls ih =>
    obtain ⟨hnow, hrest⟩ :=
      (Runs.forall_prefix_cons (Q := fun t : AlarmActiveTable => t.alarmCounter < uintMax)).mp h
    exact ⟨handedCounter_in_range hnow c, ih hrest⟩

/-- From a counter of 0, the counter stays in its range exactly if every `UINT_MAX`-th creation
that gets its memory succeeds: a creation that fails there leaves the counter at its limit. -/
theorem counter_in_range_iff (t : AlarmActiveTable) (h0 : t.alarmCounter = 0)
    (calls : List (RowCreation × AlarmTableDef)) :
    CounterInRange t calls ↔ ∀ k c, (attempts calls)[k]? = some c → (k + 1) % uintMax = 0 →
      c.1.succeeds = true := by
  have hiff := counter_below_iff (n := 0) h0 calls
  simp only [LimitSucceeds, Nat.zero_add] at hiff
  rw [← hiff]
  exact ⟨CounterInRange.below, fun h => ⟨h, handed_in_range h⟩⟩

theorem counter_in_range_sample :
    CounterInRange initialised [(.indexToOidFailed, .invalid), (.mallocFailed, .invalid)] ↔
      ∀ k c, (attempts [(.indexToOidFailed, .invalid), (.mallocFailed, .invalid)])[k]? = some c →
        (k + 1) % uintMax = 0 → c.1.succeeds = true :=
  counter_in_range_iff initialised rfl _

theorem alarmCounter_run_created {t : AlarmActiveTable} {n : ℕ} (hn : t.alarmCounter = n % uintMax)
    (issued : SnmpDateTime) (d : AlarmTableDef) (k : ℕ) :
    (Runs.run create t (List.replicate k (.created issued, d))).alarmCounter =
      (n + k) % uintMax := by
  induction k generalizing t n with
  | zero => exact hn
  | succ k ih =>
    have hnext : (create t (.created issued, d)).alarmCounter = (n + 1) % uintMax :=
      alarmCounter_createRow_created issued d hn
    rw [List.replicate_succ, Runs.run_cons, ih hnext]
    congr 1
    omega

/-- Some creations that succeed, and then one that fails at the index. -/
def failsAfter (k : ℕ) : List (RowCreation × AlarmTableDef) :=
  List.replicate k (.created ⟨2016, 5, 17, 9, 30, 0, 0, 43, 0, 0⟩, .invalid) ++
    [(.indexToOidFailed, .invalid)]

theorem alarmCounter_run_failsAfter (k : ℕ) :
    (Runs.run create initialised (failsAfter k)).alarmCounter = (k % uintMax + 1) % 2 ^ 64 := by
  have hsucceed := alarmCounter_run_created (t := initialised) (n := 0) rfl
    ⟨2016, 5, 17, 9, 30, 0, 0, 43, 0, 0⟩ .invalid k
  rw [Nat.zero_add] at hsucceed
  rw [failsAfter, Runs.run_append, ← hsucceed]
  rfl

/-- The creation that takes the counter to its limit fails, and none before it does: the counter
is left at its limit, and the next row is given a value beyond 32 bits. -/
theorem counter_runs_past_limit :
    (Runs.run create initialised (failsAfter (uintMax - 1))).alarmCounter = uintMax ∧
      handedCounter (Runs.run create initialised (failsAfter (uintMax - 1)))
        (.created ⟨2016, 5, 17, 9, 30, 0, 0, 43, 0, 0⟩, .invalid) = some (2 ^ 32) ∧
      ¬CounterInRange initialised (failsAfter (uintMax - 1)) := by
  have hlimit : (Runs.run create initialised (failsAfter (uintMax - 1))).alarmCounter =
      uintMax := by
    rw [alarmCounter_run_failsAfter]
    decide
  refine ⟨hlimit, ?_, ?_⟩
  · rw [handedCounter, hlimit]
    decide
  · intro h
    have hbelow := h.below _ List.prefix_rfl
    rw [hlimit] at hbelow
    exact absurd hbelow (Nat.lt_irrefl _)

end ClearwaterSnmp.AlarmActiveTable
