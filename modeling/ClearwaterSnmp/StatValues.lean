import ClearwaterSnmp.AstaireDecoding
import ClearwaterSnmp.NodeListeners
import ClearwaterSnmp.SubtreeOperations

namespace ClearwaterSnmp
open Std

/-! ## Numbers through an `int` -/

/-- The two conversions cancel: to `int` when a number is read, to `unsigned int` when it is
served. -/
theorem unsigned_atoi_repr {v : ℕ} (hv : v < 2 ^ 32) : (atoi (Nat.repr v) % 2 ^ 32).toNat = v := by
  rw [atoi_repr_of_lt (by omega), toInt32_emod]
  omega

/-! ## Positions -/

namespace HandlerKind

/-- For the handlers of plain numbers: the field that each number is in, and where it goes
below the root. The low-water mark is the fifth field and the high-water mark the sixth. -/
def positions : HandlerKind → List (ℕ × Oid)
  | bare => [(2, [])]
  | singleNumber => [(2, [0])]
  | singleNumberWithScope => [(2, [1, 2])]
  | accumulatedWithCount => [(2, [1, 2]), (3, [1, 3]), (5, [1, 4]), (4, [1, 5]), (6, [1, 6])]
  | _ => []

/-- The length of a message that has all the numbers of its kind. -/
def fullLength (kind : HandlerKind) : ℕ := 2 + kind.positions.length

end HandlerKind

namespace StatHandler

variable {inet : InetPton} {rootOid suffix : Oid} {msgs : Message} {t : OidTree} {i : ℕ}
  {value : String}

theorem get_process_bare (hi : msgs[2]? = some value) :
    (process inet ⟨.bare, rootOid⟩ msgs t).get rootOid = some (atoi value) := by
  match msgs, hi with
  | _ :: _ :: _ :: _, rfl =>
    show (t.set rootOid _).get rootOid = _
    rw [OidTree.get_set, if_pos rfl]

theorem getElem?_singleEntry (rootOid suffix : Oid) (v : ℤ) :
    ((∅ : OidMap).insert (rootOid ++ suffix) v)[rootOid ++ suffix]? = some v :=
  ExtTreeMap.getElem?_insert_self

theorem get_process_singleNumber (hi : msgs[2]? = some value) :
    (process inet ⟨.singleNumber, rootOid⟩ msgs t).get (rootOid ++ [0]) = some (atoi value) := by
  match msgs, hi with
  | _ :: _ :: _ :: _, rfl =>
    exact (get_process_replaceSubtree rfl (List.prefix_append _ _)).trans (getElem?_singleEntry ..)

theorem get_process_singleNumberWithScope (hi : msgs[2]? = some value) :
    (process inet ⟨.singleNumberWithScope, rootOid⟩ msgs t).get (rootOid ++ [1, 2]) =
      some (atoi value) := by
  match msgs, hi with
  | _ :: _ :: _ :: _, rfl =>
    exact (get_process_replaceSubtree rfl (List.prefix_append _ _)).trans (getElem?_singleEntry ..)

theorem getElem?_insertIfNew_or (m : OidMap) (key k : Oid) (v : ℤ) :
    (m.insertIfNew key v)[k]? = m[k]?.or (if key = k then some v else none) := by
  have h := OidTree.getElem?_foldl_insertIfNew [(key, v)] m k
  rw [List.findSome?_cons, List.findSome?_nil] at h
  refine h.trans (congrArg _ ?_)
  split <;> simp_all

theorem get_process_accumulatedWithCount (hlen : 7 ≤ msgs.length)
    (hpos : (i, suffix) ∈ HandlerKind.accumulatedWithCount.positions)
    (hi : msgs[i]? = some value) :
    (process inet ⟨.accumulatedWithCount, rootOid⟩ msgs t).get (rootOid ++ suffix) =
      some (atoi value) := by
  match msgs, hlen with
  | _ :: _ :: average :: variance :: lwm :: hwm :: count :: _, _ =>
    refine (get_process_replaceSubtree rfl (List.prefix_append _ _)).trans ?_
    -- the five keys differ in their last sub-identifier
    simp only [HandlerKind.positions, List.mem_cons, List.not_mem_nil, or_false,
      Prod.mk.injEq] at hpos
    rcases hpos with ⟨rfl, rfl⟩ | ⟨rfl, rfl⟩ | ⟨rfl, rfl⟩ | ⟨rfl, rfl⟩ | ⟨rfl, rfl⟩ <;>
    · cases hi
      simp only [getElem?_insertIfNew_or, List.append_cancel_left_eq]
      rfl

/-- Each number of a message is stored at its own place. -/
theorem get_process_position {h : StatHandler} (hlen : h.kind.fullLength ≤ msgs.length)
    (hpos : (i, suffix) ∈ h.kind.positions) (hi : msgs[i]? = some value) :
    (h.process inet msgs t).get (h.rootOid ++ suffix) = some (atoi value) := by
  obtain ⟨kind, rootOid⟩ := h
  cases kind with
  | bare =>
    cases List.mem_singleton.mp hpos
    rw [List.append_nil]
    exact get_process_bare hi
  | singleNumber =>
    cases List.mem_singleton.mp hpos
    exact get_process_singleNumber hi
  | singleNumberWithScope =>
    cases List.mem_singleton.mp hpos
    exact get_process_singleNumberWithScope hi
  | accumulatedWithCount => exact get_process_accumulatedWithCount hlen hpos hi
  | ipCount => exact absurd hpos List.not_mem_nil
  | astaireGlobal => exact absurd hpos List.not_mem_nil
  | astaireConnection => exact absurd hpos List.not_mem_nil

end StatHandler

namespace Plugin

variable {ν : Type*}

theorem clearwaterHandler_get {p : Plugin ν} {now : ℤ} {requests : List (Oid × Bool)} {j : ℕ}
    {oid : Oid} {v : ℤ} (hfresh : now - p.lastSeenTime < timeoutThreshold)
    (hj : requests[j]? = some (oid, false)) (hv : p.tree.get oid = some v) :
    (p.clearwaterHandler now .get requests).2[j]? = some (some (oid, (v % 2 ^ 32).toNat)) := by
  rw [clearwaterHandler_of_fresh hfresh]
  simp [hj, respond, hv]

end Plugin

/-- A number below `2 ^ 32` that a handler finds in its place of a message is served unchanged
at the OID of that place, whatever else is in the message, the tree and the request. -/
theorem StatHandler.published_number_served {ν : Type*} (inet : InetPton) (h : StatHandler)
    (msgs : Message) (hlen : h.kind.fullLength ≤ msgs.length) (i : ℕ) (suffix : Oid)
    (hpos : (i, suffix) ∈ h.kind.positions) (v : ℕ) (hv : v < 2 ^ 32)
    (hi : msgs[i]? = some (Nat.repr v)) (t : OidTree) (p : Plugin ν)
    (hp : p.tree = h.process inet msgs t) (now : ℤ)
    (hfresh : now - p.lastSeenTime < Plugin.timeoutThreshold) (requests : List (Oid × Bool))
    (j : ℕ) (hj : requests[j]? = some (h.rootOid ++ suffix, false)) :
    (p.clearwaterHandler now .get requests).2[j]? = some (some (h.rootOid ++ suffix, v)) := by
  have hget : p.tree.get (h.rootOid ++ suffix) = some (atoi (Nat.repr v)) := by
    rw [hp, get_process_position hlen hpos hi]
  rw [Plugin.clearwaterHandler_get hfresh hj hget, unsigned_atoi_repr hv]

/-- The low-water mark of an accumulated statistic, in the upper half of its range. -/
theorem StatHandler.published_number_served_sample :
    ((Plugin.mk (StatHandler.process ⟨fun _ => none, fun _ => none⟩ ⟨.accumulatedWithCount, [1, 2]⟩
      ["latency", "OK", "3", "4", Nat.repr 4294967295, "6", "7"] .empty) 100 true none
      [] : Plugin NodeData).clearwaterHandler 110 .get [([1, 2] ++ [1, 5], false)]).2[0]? =
      some (some ([1, 2] ++ [1, 5], 4294967295)) :=
  published_number_served ⟨fun _ => none, fun _ => none⟩ ⟨.accumulatedWithCount, [1, 2]⟩ _
    (by decide) 4 [1, 5] (by decide) _ (by decide) rfl .empty _ rfl 110 (by decide) _ 0 rfl

end ClearwaterSnmp
