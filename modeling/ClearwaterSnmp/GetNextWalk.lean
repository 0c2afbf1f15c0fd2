import ClearwaterSnmp.NodeListeners
import ClearwaterSnmp.OrderedWalk

namespace ClearwaterSnmp
open Std OrderedWalk

namespace OidTree

/-- The entries after `start`, in the order of their keys. -/
def entriesAfter (t : OidTree) (start : Oid) : List (Oid × ℤ) := after compare start t.oidmap.toList

variable {t : OidTree} {start : Oid}

theorem mem_entriesAfter {k : Oid} {v : ℤ} :
    (k, v) ∈ t.entriesAfter start ↔ start < k ∧ t.get k = some v := by
  rw [entriesAfter, mem_after, ExtTreeMap.mem_toList_iff_getElem?_eq_some, OrientedCmp.gt_iff_lt,
    compare_list_eq_lt, and_comm]
  rfl

theorem pairwise_entriesAfter : (t.entriesAfter start).Pairwise fun e e' => e.1 < e'.1 := by
  have hsorted : t.oidmap.toList.Pairwise fun e e' => compare e.1 e'.1 = .lt :=
    ExtTreeMap.ordered_keys_toList
  exact (hsorted.filter _).imp compare_list_eq_lt.mp

theorem length_entriesAfter_le : (t.entriesAfter start).length ≤ t.oidmap.size :=
  length_after_le_size t.oidmap start

theorem walk_getNext {steps : ℕ} (h : (t.entriesAfter start).length < steps) :
    walk t.getNext steps start = (t.entriesAfter start, true) :=
  walk_getEntryGT? t.oidmap steps start h

end OidTree

namespace Plugin

variable {ν : Type*}

/-- What `clearwater_handler` answers to a single request in `MODE_GETNEXT`. -/
def answerGetNext (p : Plugin ν) (now : ℤ) (requestedOid : Oid) : Option (Oid × ℕ) :=
  (p.clearwaterHandler now .getNext [(requestedOid, false)]).2.head?.join

theorem answerGetNext_eq {p : Plugin ν} {now : ℤ}
    (hfresh : now - p.lastSeenTime < timeoutThreshold) (requestedOid : Oid) :
    p.answerGetNext now requestedOid =
      (p.tree.getNext requestedOid).map fun out => (out.1, (out.2 % 2 ^ 32).toNat) := by
  rw [answerGetNext, clearwaterHandler_of_fresh hfresh]
  rfl

theorem walk_answerGetNext {p : Plugin ν} {now : ℤ}
    (hfresh : now - p.lastSeenTime < timeoutThreshold) {steps : ℕ} {start : Oid}
    (h : (p.tree.entriesAfter start).length < steps) :
    walk (p.answerGetNext now) steps start =
      ((p.tree.entriesAfter start).map fun e => (e.1, (e.2 % 2 ^ 32).toNat), true) := by
  rw [walk_map (fun v : ℤ => (v % 2 ^ 32).toNat) (answerGetNext_eq hfresh), OidTree.walk_getNext h]

end Plugin

/-- Whatever calls have made the tree, a walk from any OID goes through all the keys after it,
in their order and with their values, and then ends; so does a walk that asks
`clearwater_handler` for each step. -/
theorem OidTree.getNext_walk_complete {ν : Type*} (calls : List TreeCall) (start : Oid) :
    ∃ entries : List (Oid × ℤ),
      entries.length ≤ (calls.foldl TreeCall.apply empty).oidmap.size ∧
      entries.Pairwise (fun e e' => e.1 < e'.1) ∧
      (∀ k v, (k, v) ∈ entries ↔
        start < k ∧ (calls.foldl TreeCall.apply empty).get k = some v) ∧
      (∀ steps, entries.length < steps →
        walk (calls.foldl TreeCall.apply empty).getNext steps start = (entries, true)) ∧
      ∀ (p : Plugin ν) (now : ℤ), p.tree = calls.foldl TreeCall.apply empty →
        now - p.lastSeenTime < Plugin.timeoutThreshold →
        ∀ steps, entries.length < steps →
          walk (p.answerGetNext now) steps start =
            (entries.map fun e => (e.1, (e.2 % 2 ^ 32).toNat), true) := by
  refine ⟨(calls.foldl TreeCall.apply empty).entriesAfter start, length_entriesAfter_le,
    pairwise_entriesAfter, fun k v => mem_entriesAfter, fun steps => walk_getNext, ?_⟩
  intro p now htree hfresh steps h
  rw [← htree] at h ⊢
  exact Plugin.walk_answerGetNext hfresh h

end ClearwaterSnmp
