import ClearwaterSnmp.StatIsolation

namespace ClearwaterSnmp
open Std

theorem KeysBelow.getElem?_eq_none {rootOid k : Oid} {update : OidMap}
    (hu : KeysBelow rootOid update) (h : ¬ rootOid <+: k) : update[k]? = none := by
  cases hv : update[k]? with
  | none => rfl
  | some v => exact absurd (hu k v hv) h

namespace OidTree

/-- `remove_subtree` takes out the keys below the root and leaves the others as they are. -/
structure RemovesExactly (t : OidTree) (rootOid : Oid) : Prop where
  gone : ∀ k, rootOid <+: k → (t.removeSubtree rootOid).get k = none
  kept : ∀ k, ¬ rootOid <+: k → (t.removeSubtree rootOid).get k = t.get k

/-- `replace_subtree` leaves the update below the root and the other keys as they are. -/
structure ReplacesExactly (t : OidTree) (rootOid : Oid) (update : OidMap) : Prop where
  updated : ∀ k v, update[k]? = some v → (t.replaceSubtree rootOid update).get k = some v
  gone : ∀ k, rootOid <+: k → update[k]? = none → (t.replaceSubtree rootOid update).get k = none
  kept : ∀ k, ¬ rootOid <+: k → (t.replaceSubtree rootOid update).get k = t.get k

/-- No key is a proper prefix of the root. -/
def NoKeyAbove (t : OidTree) (rootOid : Oid) : Prop :=
  ∀ k, k <+: rootOid → k ≠ rootOid → t.get k = none

variable {t : OidTree} {rootOid k : Oid} {update : OidMap}

theorem get_removeSubtree_of_prefix (h : rootOid <+: k) :
    (t.removeSubtree rootOid).get k = none := by
  have hc : rootOid.subtreeContains k = true := Oid.subtreeContains_iff.mpr (Or.inl h)
  rw [get_removeSubtree, if_pos hc]

/-- The comparison cannot tell a key above the root from one below it. -/
theorem get_removeSubtree_of_above (h : k <+: rootOid) :
    (t.removeSubtree rootOid).get k = none := by
  have hc : rootOid.subtreeContains k = true := Oid.subtreeContains_iff.mpr (Or.inr h)
  rw [get_removeSubtree, if_pos hc]

theorem get_removeSubtree_of_not_prefix (ht : t.NoKeyAbove rootOid) (h : ¬ rootOid <+: k) :
    (t.removeSubtree rootOid).get k = t.get k := by
  by_cases hk : k <+: rootOid
  · have hne : k ≠ rootOid := fun heq => h (heq ▸ List.prefix_refl k)
    rw [get_removeSubtree_of_above hk, ht k hk hne]
  · have hc : ¬ rootOid.subtreeContains k = true := fun hc =>
      (Oid.subtreeContains_iff.mp hc).elim h hk
    rw [get_removeSubtree, if_neg hc]

theorem removesExactly_iff : t.RemovesExactly rootOid ↔ t.NoKeyAbove rootOid := by
  constructor
  · intro h k hk hne
    have hn : ¬ rootOid <+: k := fun hp => hne (hk.eq_of_length_le hp.length_le)
    rw [← h.kept k hn, get_removeSubtree_of_above hk]
  · intro ht
    exact ⟨fun _ => get_removeSubtree_of_prefix, fun _ => get_removeSubtree_of_not_prefix ht⟩

theorem get_replaceSubtree_eq_or (t : OidTree) (rootOid : Oid) (update : OidMap) (k : Oid) :
    (t.replaceSubtree rootOid update).get k =
      ((t.removeSubtree rootOid).get k).or update[k]? := by
  rw [get_replaceSubtree, get_removeSubtree]

/-- `insert` keeps what it finds, but below the root it finds nothing. -/
theorem replacesExactly_iff (hu : KeysBelow rootOid update) :
    t.ReplacesExactly rootOid update ↔ t.NoKeyAbove rootOid := by
  rw [← removesExactly_iff]
  have hout : ∀ k, ¬ rootOid <+: k →
      (t.replaceSubtree rootOid update).get k = (t.removeSubtree rootOid).get k := by
    intro k hk
    rw [get_replaceSubtree_eq_or, hu.getElem?_eq_none hk, Option.or_none]
  have hin : ∀ k, rootOid <+: k → (t.replaceSubtree rootOid update).get k = update[k]? := by
    intro k hk
    rw [get_replaceSubtree_eq_or, get_removeSubtree_of_prefix hk, Option.none_or]
  constructor
  · intro h
    refine ⟨fun _ => get_removeSubtree_of_prefix, ?_⟩
    intro k hk
    rw [← hout k hk, h.kept k hk]
  · intro h
    refine ⟨?_, ?_, ?_⟩
    · intro k v hv
      rw [hin k (hu k v hv), hv]
    · intro k hk hnone
      rw [hin k hk, hnone]
    · intro k hk
      rw [hout k hk, h.kept k hk]

/-- Removal and replacement of a subtree are exact where no key is a proper prefix of its
root, and nowhere else. -/
theorem subtree_operations_exact_iff (t : OidTree) (rootOid : Oid) :
    (t.RemovesExactly rootOid ↔ t.NoKeyAbove rootOid) ∧
      ∀ update, KeysBelow rootOid update →
        (t.ReplacesExactly rootOid update ↔ t.NoKeyAbove rootOid) :=
  ⟨removesExactly_iff, fun _ => replacesExactly_iff⟩

theorem subtree_operations_exact_iff_sample :
    ((empty.set [1] 5).RemovesExactly [2] ↔ (empty.set [1] 5).NoKeyAbove [2]) ∧
      ((empty.set [1] 5).ReplacesExactly [2] ((∅ : OidMap).insert [2, 0] 7) ↔
        (empty.set [1] 5).NoKeyAbove [2]) :=
  ⟨(subtree_operations_exact_iff _ _).1,
    (subtree_operations_exact_iff _ _).2 _ (KeysBelow.empty.insert ⟨[0], rfl⟩ 7)⟩

/-- The key `1.2`, which is not below `1.2.3`, goes with the subtree `1.2.3`. -/
theorem remove_subtree_takes_parent :
    ¬ [1, 2, 3] <+: [1, 2] ∧ (empty.set [1, 2] 5).get [1, 2] = some 5 ∧
      ((empty.set [1, 2] 5).removeSubtree [1, 2, 3]).get [1, 2] = none ∧
      ¬ (empty.set [1, 2] 5).RemovesExactly [1, 2, 3] ∧
      ¬ (empty.set [1, 2] 5).ReplacesExactly [1, 2, 3] ∅ := by
  have hget : (empty.set [1, 2] 5).get [1, 2] = some 5 := by rw [get_set, if_pos rfl]
  have habove : ¬ (empty.set [1, 2] 5).NoKeyAbove [1, 2, 3] := by
    intro h
    have hnone := h [1, 2] (by decide) (by decide)
    rw [hget] at hnone
    exact absurd hnone (by simp)
  refine ⟨by decide, hget, get_removeSubtree_of_above (by decide), ?_, ?_⟩
  · rwa [removesExactly_iff]
  · rwa [replacesExactly_iff KeysBelow.empty]

end OidTree

/-- What a handler that replaces its subtree leaves there. -/
theorem StatHandler.get_process_replaceSubtree {inet : InetPton} {h : StatHandler} {msgs : Message}
    {t : OidTree} {rootOid k : Oid} {update : OidMap}
    (hcalls : h.handle inet msgs = [.replaceSubtree rootOid update]) (hk : rootOid <+: k) :
    (h.process inet msgs t).get k = update[k]? := by
  rw [process, hcalls]
  show (t.replaceSubtree rootOid update).get k = _
  rw [OidTree.get_replaceSubtree_eq_or, OidTree.get_removeSubtree_of_prefix hk, Option.none_or]

end ClearwaterSnmp
