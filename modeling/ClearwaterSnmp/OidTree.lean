import ClearwaterSnmp.Oid
import Mathlib.Data.Finset.Max

namespace ClearwaterSnmp
open Std

/-- `OIDMap`, ordered by `snmp_oid_compare`: lexicographically, and a proper prefix
comes first. -/
abbrev OidMap := ExtTreeMap Oid ℤ

/-- `OIDTree`. Every operation holds `_map_lock` throughout, so it is one step. -/
structure OidTree where
  oidmap : OidMap
deriving DecidableEq

namespace OidTree

def empty : OidTree := ⟨∅⟩

/-- `get` -/
def get (t : OidTree) (requestedOid : Oid) : Option ℤ := t.oidmap[requestedOid]?

/-- `get_next` -/
def getNext (t : OidTree) (requestedOid : Oid) : Option (Oid × ℤ) :=
  t.oidmap.getEntryGT? requestedOid

/-- `remove` -/
def remove (key : Oid) (t : OidTree) : OidTree := ⟨t.oidmap.erase key⟩

/-- `remove_subtree`, which goes through a copy of the map. -/
def removeSubtree (rootOid : Oid) (t : OidTree) : OidTree :=
  ⟨t.oidmap.keys.foldl
    (fun m thisOid => if rootOid.subtreeContains thisOid then m.erase thisOid else m) t.oidmap⟩

/-- `replace_subtree`: `std::map::insert` keeps an entry that is there. -/
def replaceSubtree (rootOid : Oid) (update : OidMap) (t : OidTree) : OidTree :=
  ⟨update.toList.foldl (fun m entry => m.insertIfNew entry.1 entry.2)
    (t.removeSubtree rootOid).oidmap⟩

/-- `set` -/
def set (key : Oid) (value : ℤ) (t : OidTree) : OidTree := ⟨t.oidmap.insert key value⟩

variable {t : OidTree}

theorem get_ext {t t' : OidTree} (h : ∀ k, t.get k = t'.get k) : t = t' := by
  cases t
  cases t'
  congr 1
  exact ExtTreeMap.ext_getElem? h

@[simp] theorem get_empty (k : Oid) : empty.get k = none := ExtTreeMap.getElem?_empty

theorem get_set (key : Oid) (value : ℤ) (k : Oid) :
    (t.set key value).get k = if key = k then some value else t.get k := by
  simp [set, get, ExtTreeMap.getElem?_insert]

theorem get_remove (key k : Oid) : (t.remove key).get k = if key = k then none else t.get k := by
  simp [remove, get, ExtTreeMap.getElem?_erase]

/-- Erasing the keys that `p` picks from a list. -/
theorem getElem?_foldl_erase (p : Oid → Bool) (ks : List Oid) (m : OidMap) (k : Oid) :
    (ks.foldl (fun m k' => if p k' then m.erase k' else m) m)[k]? =
      if k ∈ ks ∧ p k = true then none else m[k]? := by
  induction ks generalizing m with
  | nil => simp
  | cons k' ks ih =>
    rw [List.foldl_cons, ih]
    by_cases hp : p k' = true
    · by_cases hk : k' = k
      · subst hk
        simp [hp]
      · simp [hp, ExtTreeMap.getElem?_erase, hk, Ne.symm hk]
    · by_cases hk : k' = k
      · subst hk
        simp [hp]
      · simp [hp, Ne.symm hk]

theorem get_removeSubtree (rootOid k : Oid) :
    (t.removeSubtree rootOid).get k =
      if rootOid.subtreeContains k then none else t.get k := by
  rw [removeSubtree, get, getElem?_foldl_erase, get]
  by_cases hc : rootOid.subtreeContains k = true
  · by_cases hk : k ∈ t.oidmap
    · simp [hc, hk]
    · simp [hc, ExtTreeMap.getElem?_eq_none hk]
  · simp [hc]

/-- Inserting what is not there yet, from a list of entries. -/
theorem getElem?_foldl_insertIfNew (entries : List (Oid × ℤ)) (m : OidMap) (k : Oid) :
    (entries.foldl (fun m entry => m.insertIfNew entry.1 entry.2) m)[k]? =
      (m[k]?).or (entries.findSome? fun entry => if entry.1 = k then some entry.2 else none) := by
  induction entries generalizing m with
  | nil => simp
  | cons entry entries ih =>
    rw [List.foldl_cons, ih, ExtTreeMap.getElem?_insertIfNew, List.findSome?_cons]
    simp only [Std.compare_eq_iff_eq]
    by_cases hk : entry.1 = k
    · subst hk
      by_cases hmem : entry.1 ∈ m <;> simp [hmem]
    · simp [hk]

theorem findSome?_toList (m : OidMap) (k : Oid) :
    m.toList.findSome? (fun entry => if entry.1 = k then some entry.2 else none) = m[k]? := by
  ext v
  constructor
  · intro h
    obtain ⟨⟨k', v'⟩, hmem, he⟩ := List.exists_of_findSome?_eq_some h
    simp only [Option.ite_none_right_eq_some, Option.some.injEq] at he
    obtain ⟨rfl, rfl⟩ := he
    exact ExtTreeMap.mem_toList_iff_getElem?_eq_some.mp hmem
  · intro h
    have hmem := ExtTreeMap.mem_toList_iff_getElem?_eq_some.mpr h
    cases hf : m.toList.findSome? (fun entry => if entry.1 = k then some entry.2 else none) with
    | none => simpa using List.findSome?_eq_none_iff.mp hf _ hmem
    | some v' =>
      obtain ⟨⟨k', v''⟩, hmem', he⟩ := List.exists_of_findSome?_eq_some hf
      simp only [Option.ite_none_right_eq_some, Option.some.injEq] at he
      obtain ⟨rfl, rfl⟩ := he
      rw [← ExtTreeMap.mem_toList_iff_getElem?_eq_some.mp hmem', h]

theorem get_replaceSubtree (rootOid : Oid) (update : OidMap) (k : Oid) :
    (t.replaceSubtree rootOid update).get k =
      (if rootOid.subtreeContains k then none else t.get k).or update[k]? := by
  rw [replaceSubtree, get, getElem?_foldl_insertIfNew, findSome?_toList, ← get_removeSubtree]
  rfl

end OidTree
end ClearwaterSnmp
