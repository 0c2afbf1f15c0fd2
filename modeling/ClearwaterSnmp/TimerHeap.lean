import Mathlib.Data.Finset.Card
import Mathlib.Data.Finset.Max
import Mathlib.Data.List.MinMax
import Mathlib.Data.List.Dedup

namespace ClearwaterSnmp

/-- A heap of timers that live outside it. Every operation may read the present
pop times; `held` is the set of timers in the heap and `Ordered pop h` says that
`h` is balanced for the pop times `pop`. A timer whose pop time has changed keeps
the heap balanced only if it is rebalanced or removed. -/
structure TimerHeap (ι : Type) [DecidableEq ι] (H : Type) where
  empty : H
  insert : (ι → ℕ) → ι → H → H
  remove : (ι → ℕ) → ι → H → H
  rebalance : (ι → ℕ) → ι → H → H
  getNextTimer : (ι → ℕ) → H → Option ι
  held : H → Finset ι
  Ordered : (ι → ℕ) → H → Prop
  held_empty : held empty = ∅
  held_insert : ∀ pop i h, held (insert pop i h) = Insert.insert i (held h)
  held_remove : ∀ pop i h, held (remove pop i h) = (held h).erase i
  held_rebalance : ∀ pop i h, held (rebalance pop i h) = held h
  ordered_empty : ∀ pop, Ordered pop empty
  ordered_insert : ∀ pop i h, Ordered pop h → Ordered pop (insert pop i h)
  ordered_remove : ∀ pop pop' i h, (∀ j, j ≠ i → pop' j = pop j) → Ordered pop h →
    Ordered pop' (remove pop' i h)
  ordered_rebalance : ∀ pop pop' i h, (∀ j, j ≠ i → pop' j = pop j) → Ordered pop h →
    Ordered pop' (rebalance pop' i h)
  getNextTimer_mem : ∀ pop h i, getNextTimer pop h = some i → i ∈ held h
  getNextTimer_none : ∀ pop h, getNextTimer pop h = none → held h = ∅
  getNextTimer_le : ∀ pop h i j, Ordered pop h → getNextTimer pop h = some i → j ∈ held h →
    pop i ≤ pop j

namespace TimerHeap

variable {ι H : Type} [DecidableEq ι] (heap : TimerHeap ι H)

/-- The smallest pop time in the heap, infinite when the heap is empty. -/
def smallestPopTime (pop : ι → ℕ) (h : H) : WithTop ℕ := ((heap.held h).image pop).min

/-- The next timer if its pop time has come. -/
def nextDue (pop : ι → ℕ) (now : ℕ) (h : H) : Option ι :=
  (heap.getNextTimer pop h).filter fun i => pop i ≤ now

theorem nextDue_eq_some {pop : ι → ℕ} {now : ℕ} {h : H} {i : ι}
    (hi : heap.nextDue pop now h = some i) :
    heap.getNextTimer pop h = some i ∧ i ∈ heap.held h ∧ pop i ≤ now := by
  obtain ⟨hn, hp⟩ := Option.filter_eq_some_iff.mp hi
  exact ⟨hn, heap.getNextTimer_mem pop h i hn, by simpa using hp⟩

theorem nextDue_of_held_empty {pop : ι → ℕ} {now : ℕ} {h : H} (hempty : heap.held h = ∅) :
    heap.nextDue pop now h = none := by
  cases hd : heap.nextDue pop now h with
  | none => rfl
  | some k =>
    have hk := (heap.nextDue_eq_some hd).2.1
    simp [hempty] at hk

theorem lt_of_nextDue_eq_none {pop : ι → ℕ} {now : ℕ} {h : H} (ho : heap.Ordered pop h)
    (hn : heap.nextDue pop now h = none) {j : ι} (hj : j ∈ heap.held h) : now < pop j := by
  cases hg : heap.getNextTimer pop h with
  | none => simp [heap.getNextTimer_none pop h hg] at hj
  | some i =>
    have hi : now < pop i := by simpa [nextDue, hg] using hn
    exact hi.trans_le (heap.getNextTimer_le pop h i j ho hg hj)

theorem smallestPopTime_of_none {pop : ι → ℕ} {h : H} (hn : heap.getNextTimer pop h = none) :
    heap.smallestPopTime pop h = ⊤ := by
  simp [smallestPopTime, heap.getNextTimer_none pop h hn]

theorem smallestPopTime_of_some {pop : ι → ℕ} {h : H} {i : ι} (ho : heap.Ordered pop h)
    (hn : heap.getNextTimer pop h = some i) :
    heap.smallestPopTime pop h = WithTop.some (pop i) := by
  apply le_antisymm
  · exact Finset.min_le (Finset.mem_image_of_mem pop (heap.getNextTimer_mem pop h i hn))
  · apply Finset.le_min
    intro t ht
    obtain ⟨j, hj, rfl⟩ := Finset.mem_image.mp ht
    exact WithTop.coe_le_coe.mpr (heap.getNextTimer_le pop h i j ho hn hj)

/-- A heap that scans the list of held timers for one of smallest pop time. -/
def scanning (ι : Type) [DecidableEq ι] : TimerHeap ι (List ι) where
  empty := []
  insert _ i h := if i ∈ h then h else h ++ [i]
  remove _ i h := h.filter (· ≠ i)
  rebalance _ _ h := h
  getNextTimer pop h := h.argmin pop
  held h := h.toFinset
  Ordered _ _ := True
  held_empty := rfl
  held_insert _ i h := by
    by_cases hi : i ∈ h
    · simp [hi]
    · ext j
      simp [hi]
  held_remove _ i h := by
    ext j
    simp [and_comm]
  held_rebalance _ _ _ := rfl
  ordered_empty _ := trivial
  ordered_insert _ _ _ _ := trivial
  ordered_remove _ _ _ _ _ _ := trivial
  ordered_rebalance _ _ _ _ _ _ := trivial
  getNextTimer_mem pop h i hi := List.mem_toFinset.mpr (List.argmin_mem hi)
  getNextTimer_none pop h hn := by rw [List.argmin_eq_none.mp hn]; rfl
  getNextTimer_le pop h i j _ hi hj := List.le_of_mem_argmin (List.mem_toFinset.mp hj) hi

end TimerHeap
end ClearwaterSnmp
