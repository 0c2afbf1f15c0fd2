import Mathlib.Data.Finset.Max

namespace ClearwaterSnmp.OrderedWalk
open Std

variable {α β γ : Type*}

/-- At most the given number of calls of `next`, each with the key that the last one returned:
the entries returned, and whether a call found none. -/
def walk (next : α → Option (α × β)) : ℕ → α → List (α × β) × Bool
  | 0, _ => ([], false)
  | steps + 1, key =>
    match next key with
    | none => ([], true)
    | some entry => ((entry :: (walk next steps entry.1).1), (walk next steps entry.1).2)

/-- A view of the values does not change where a walk goes. -/
theorem walk_map {next : α → Option (α × β)} {next' : α → Option (α × γ)} (f : β → γ)
    (h : ∀ key, next' key = (next key).map fun entry => (entry.1, f entry.2))
    (steps : ℕ) (key : α) :
    walk next' steps key =
      ((walk next steps key).1.map fun entry => (entry.1, f entry.2), (walk next steps key).2) := by
  induction steps generalizing key with
  | zero => rfl
  | succ steps ih =>
    rw [walk, walk, h]
    cases next key with
    | none => rfl
    | some entry => simp [ih]

section Sorted

variable {cmp : α → α → Ordering}

/-- The entries whose key comes after the given one. -/
def after (cmp : α → α → Ordering) (key : α) (l : List (α × β)) : List (α × β) :=
  l.filter fun entry => (cmp entry.1 key).isGT

theorem mem_after {key : α} {l : List (α × β)} {entry : α × β} :
    entry ∈ after cmp key l ↔ entry ∈ l ∧ cmp entry.1 key = .gt := by
  simp [after, Ordering.isGT_iff_eq_gt]

variable [TransCmp cmp]

/-- In a sorted list the entries after the first one that follows a key are the rest of those
that follow it. -/
theorem after_of_after_eq_cons {l rest : List (α × β)} {key : α} {entry : α × β}
    (hl : l.Pairwise fun e e' => cmp e.1 e'.1 = .lt) (h : after cmp key l = entry :: rest) :
    after cmp entry.1 l = rest := by
  have hentry : cmp entry.1 key = .gt := (mem_after.mp (h ▸ List.mem_cons_self)).2
  have hsub : ∀ e : α × β, cmp e.1 entry.1 = .gt → cmp e.1 key = .gt := fun e he =>
    TransCmp.gt_trans he hentry
  have hsorted : (entry :: rest).Pairwise fun e e' => cmp e.1 e'.1 = .lt := h ▸ hl.filter _
  have htwice : after cmp entry.1 l = after cmp entry.1 (after cmp key l) := by
    rw [after, after, after, List.filter_filter]
    apply List.filter_congr
    intro e _
    by_cases he : cmp e.1 entry.1 = .gt
    · simp [he, hsub e he]
    · simp [Ordering.isGT_iff_eq_gt, he]
  have hrest : ∀ e ∈ rest, (cmp e.1 entry.1).isGT = true := by
    intro e he
    rw [Ordering.isGT_iff_eq_gt, OrientedCmp.gt_iff_lt]
    exact List.rel_of_pairwise_cons hsorted he
  rw [htwice, h, after, List.filter_cons_of_neg (by simp [ReflCmp.compare_self]),
    List.filter_eq_self.mpr hrest]

/-- A walk through a sorted list returns what comes after its start, then finds nothing. -/
theorem walk_eq_after {next : α → Option (α × β)} {l : List (α × β)}
    (hl : l.Pairwise fun e e' => cmp e.1 e'.1 = .lt)
    (hnext : ∀ key, next key = l.find? fun entry => (cmp entry.1 key).isGT)
    (steps : ℕ) (key : α) (hsteps : (after cmp key l).length < steps) :
    walk next steps key = (after cmp key l, true) := by
  induction steps generalizing key with
  | zero => omega
  | succ steps ih =>
    have hhead : next key = (after cmp key l).head? := by
      rw [hnext, after, List.head?_filter]
    rw [walk, hhead]
    cases h : after cmp key l with
    | nil => rfl
    | cons entry rest =>
      have hrest := after_of_after_eq_cons hl h
      rw [h, List.length_cons] at hsteps
      have hwalk := ih entry.1 (by rw [hrest]; omega)
      simp only [List.head?_cons, hwalk, hrest]

/-- The entry that `upper_bound` points to. -/
theorem getEntryGT?_eq_find? (m : ExtTreeMap α β cmp) (key : α) :
    m.getEntryGT? key = m.toList.find? fun entry => (cmp entry.1 key).isGT := by
  obtain ⟨m⟩ := m
  show ExtDTreeMap.Const.getEntryGT? m key = (ExtDTreeMap.Const.toList m).find? _
  induction m using ExtDTreeMap.inductionOn with
  | _ m =>
    let _ : Ord α := ⟨cmp⟩
    have _ : TransOrd α := inferInstanceAs (TransCmp cmp)
    show DTreeMap.Internal.Impl.Const.getEntryGT? key m.inner =
      (DTreeMap.Internal.Impl.Const.toList m.inner).find? _
    rw [DTreeMap.Internal.Impl.Const.getEntryGT?_eq_map,
      DTreeMap.Internal.Impl.getEntryGT?_eq_find? m.wf.ordered,
      DTreeMap.Internal.Impl.Const.toList_eq_toListModel_map, List.find?_map]
    rfl

/-- A walk by `upper_bound` through an ordered map. -/
theorem walk_getEntryGT? (m : ExtTreeMap α β cmp) (steps : ℕ) (key : α)
    (hsteps : (after cmp key m.toList).length < steps) :
    walk m.getEntryGT? steps key = (after cmp key m.toList, true) :=
  walk_eq_after ExtTreeMap.ordered_keys_toList (getEntryGT?_eq_find? m) steps key hsteps

theorem length_after_le_size (m : ExtTreeMap α β cmp) (key : α) :
    (after cmp key m.toList).length ≤ m.size := by
  rw [← ExtTreeMap.length_toList]
  exact List.length_filter_le _ _

end Sorted

/-- The comparison of lists orders them lexicographically, a proper prefix first. -/
theorem compare_list_eq_lt {a b : List ℕ} : compare a b = .lt ↔ a < b := by
  induction a generalizing b with
  | nil =>
    cases b with
    | nil => simp
    | cons y b => simp
  | cons x a ih =>
    cases b with
    | nil => simp
    | cons y b =>
      rw [List.compare_eq_compareLex, List.compareLex_cons_cons, Ordering.then_eq_lt,
        Nat.compare_eq_lt, Nat.compare_eq_eq, ← List.compare_eq_compareLex, ih,
        List.cons_lt_cons_iff]

end ClearwaterSnmp.OrderedWalk
