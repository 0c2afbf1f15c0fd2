import ClearwaterSnmp.SubtreeOperations

namespace ClearwaterSnmp
open Std

/-- A decimal octet of an address, without leading zeros. -/
def InetPton.octet (digits : List Char) : Option UInt8 :=
  if digits.length ≠ 0 ∧ digits.all Char.isDigit ∧ (digits.head? = some '0' → digits.length = 1) ∧
      digitsValue digits ≤ 255 then
    some (.ofNat (digitsValue digits))
  else none

/-- `inet_pton` for texts without a colon, which are no IPv6 addresses. -/
def InetPton.dottedQuads : InetPton where
  v4 text :=
    match (text.splitOn '.').map octet with
    | [some a, some b, some c, some d] => some #v[a, b, c, d]
    | _ => none
  v6 _ := none

namespace IpCount

variable {inet : InetPton} {rootOid : Oid} {msgs : Message}

/-- The entry that an address and a count make, if the address is valid. -/
def entry (inet : InetPton) (rootOid : Oid) (ip val : String) : Option (Oid × ℤ) :=
  let oidAddr := OidInetAddr.setAddr inet ip
  if oidAddr.isValid then some ((rootOid ++ [1, 3]).appendAddr oidAddr, atoi val) else none

/-- The entries in their order: a later one wins. -/
def insertAll (m : OidMap) (entries : List (Oid × ℤ)) : OidMap :=
  entries.foldl (fun m e => m.insert e.1 e.2) m

theorem isValid_of_entry {ip val : String} {e : Oid × ℤ}
    (h : entry inet rootOid ip val = some e) : (OidInetAddr.setAddr inet ip).isValid = true := by
  by_contra hv
  simp [entry, hv] at h

theorem entry_of_not_isValid {ip : String} (h : ¬(OidInetAddr.setAddr inet ip).isValid = true)
    (val : String) : entry inet rootOid ip val = none := if_neg h

theorem ipCountLoop_cons_cons (ip val : String) (rest : List String) (m : OidMap) :
    ipCountLoop inet rootOid (ip :: val :: rest) m =
      ipCountLoop inet rootOid (val :: rest) (insertAll m (entry inet rootOid ip val).toList) := by
  rw [ipCountLoop, entry]
  by_cases hv : (OidInetAddr.setAddr inet ip).isValid = true
  · rw [if_pos hv, if_pos hv]
    rfl
  · rw [if_neg hv, if_neg hv]
    rfl

/-! ## What the message means -/

/-- The message after its first two fields: an address and its count, and so on. -/
def pairs : List String → List (String × String)
  | ip :: val :: rest => (ip, val) :: pairs rest
  | _ => []

def pairEntries (inet : InetPton) (rootOid : Oid) (fields : List String) : List (Oid × ℤ) :=
  (pairs fields).filterMap fun pair => entry inet rootOid pair.1 pair.2

/-- No count that is followed by another field reads as an address. -/
def CountsAreNotAddresses (inet : InetPton) (fields : List String) : Prop :=
  ∀ i val, i % 2 = 1 → i + 1 < fields.length → fields[i]? = some val →
    ¬(OidInetAddr.setAddr inet val).isValid = true

theorem CountsAreNotAddresses.tail {ip val : String} {rest : List String}
    (h : CountsAreNotAddresses inet (ip :: val :: rest)) : CountsAreNotAddresses inet rest := by
  intro i val' hi hlt hval
  refine h (i + 2) val' (by omega) ?_ (by simpa using hval)
  simp only [List.length_cons]
  omega

/-- Where every second round adds nothing, the loop reads pairs. -/
theorem ipCountLoop_eq_pairs {fields : List String} (h : CountsAreNotAddresses inet fields)
    (m : OidMap) :
    ipCountLoop inet rootOid fields m = insertAll m (pairEntries inet rootOid fields) := by
  fun_induction pairs fields generalizing m with
  | case1 ip val rest ih =>
    have htail := ih h.tail
    have hsplit : pairEntries inet rootOid (ip :: val :: rest) =
        (entry inet rootOid ip val).toList ++ pairEntries inet rootOid rest := by
      rw [pairEntries, pairs, List.filterMap_cons]
      cases entry inet rootOid ip val <;> rfl
    rw [ipCountLoop_cons_cons, hsplit, insertAll, insertAll, List.foldl_append, ← insertAll,
      ← insertAll]
    cases rest with
    | nil => rfl
    | cons ip' rest =>
      have hval := h 1 val (by decide) (by simp) rfl
      rw [ipCountLoop_cons_cons, entry_of_not_isValid hval]
      exact htail _
  | case2 fields hne =>
    rw [ipCountLoop]
    · rw [pairEntries, pairs]
      · rfl
      · exact hne
    · exact hne

/-! ## The iterators -/

/-- `it_ip` and `it_val`, as offsets, at each test of the loop condition, for at most the given
number of rounds. -/
def tests (size : ℕ) : ℕ → ℕ → ℕ → List (ℕ × ℕ)
  | 0, _, _ => []
  | rounds + 1, itIp, itVal =>
    (itIp, itVal) ::
      if itIp ≠ size ∧ itVal ≠ size then tests size rounds (itIp + 1) (itVal + 1) else []

/-- The offset of the field that a round takes as an address, and the entry it makes. -/
def taken (inet : InetPton) (rootOid : Oid) (msgs : Message) (its : ℕ × ℕ) :
    Option (ℕ × Oid × ℤ) := do
  let ip ← msgs[its.1]?
  let val ← msgs[its.2]?
  let e ← entry inet rootOid ip val
  some (its.1, e)

/-- What `handle` takes from a message, round by round. -/
def allTaken (inet : InetPton) (rootOid : Oid) (msgs : Message) : List (ℕ × Oid × ℤ) :=
  (tests msgs.length msgs.length 2 3).filterMap (taken inet rootOid msgs)

theorem taken_eq_some {its : ℕ × ℕ} {x : ℕ × Oid × ℤ} :
    taken inet rootOid msgs its = some x ↔
      ∃ ip val, msgs[its.1]? = some ip ∧ msgs[its.2]? = some val ∧
        entry inet rootOid ip val = some x.2 ∧ its.1 = x.1 := by
  obtain ⟨i, e⟩ := x
  simp only [taken, Option.bind_eq_bind, Option.bind_eq_some_iff, Option.some.injEq,
    Prod.mk.injEq]
  grind

theorem tests_offsets {size rounds k : ℕ} :
    ∀ its ∈ tests size rounds k (k + 1), its.2 = its.1 + 1 ∧ k ≤ its.1 := by
  induction rounds generalizing k with
  | zero => simp [tests]
  | succ rounds ih =>
    rw [tests]
    intro its hits
    rcases List.mem_cons.mp hits with rfl | hits
    · exact ⟨rfl, Nat.le_refl k⟩
    · split at hits
      · have hrest := ih its hits
        omega
      · exact absurd hits List.not_mem_nil

/-- `it_val` stops at the end, and `it_ip` is one field behind. -/
theorem tests_le {size rounds k : ℕ} (hk : k + 1 ≤ size) :
    ∀ its ∈ tests size rounds k (k + 1), its.2 ≤ size := by
  induction rounds generalizing k with
  | zero => simp [tests]
  | succ rounds ih =>
    rw [tests]
    intro its hits
    rcases List.mem_cons.mp hits with rfl | hits
    · exact hk
    · split at hits
      · exact ih (by omega) its hits
      · exact absurd hits List.not_mem_nil

theorem mem_tests {size rounds k i : ℕ} (hki : k ≤ i) (hi : i + 1 < size)
    (hrounds : size ≤ rounds + k) : (i, i + 1) ∈ tests size rounds k (k + 1) := by
  induction rounds generalizing k with
  | zero => omega
  | succ rounds ih =>
    rw [tests, if_pos (by omega)]
    by_cases heq : k = i
    · rw [heq]
      exact List.mem_cons_self
    · exact List.mem_cons_of_mem _ (ih (by omega) (by omega))

theorem taken_of_lt {k : ℕ} (hlt : k + 1 < msgs.length) :
    taken inet rootOid msgs (k, k + 1) =
      (entry inet rootOid msgs[k] msgs[k + 1]).map fun e => (k, e) := by
  have hlt' : k < msgs.length := by omega
  simp [taken, hlt, hlt', Option.map_eq_bind]

theorem taken_of_le {k : ℕ} (hle : msgs.length ≤ k + 1) :
    taken inet rootOid msgs (k, k + 1) = none := by
  have hval : msgs[k + 1]? = none := List.getElem?_eq_none hle
  rw [Option.eq_none_iff_forall_ne_some]
  intro x hx
  obtain ⟨ip, val, -, hsome, -⟩ := taken_eq_some.mp hx
  rw [hval] at hsome
  contradiction

/-- The loop of the model is the loop over the iterators. -/
theorem ipCountLoop_eq_taken (rounds : ℕ) {k : ℕ} (hk : k ≤ msgs.length)
    (hrounds : msgs.length ≤ rounds + k) (m : OidMap) :
    ipCountLoop inet rootOid (msgs.drop k) m =
      insertAll m (((tests msgs.length rounds k (k + 1)).filterMap
        (taken inet rootOid msgs)).map Prod.snd) := by
  induction rounds generalizing k m with
  | zero =>
    rw [List.drop_of_length_le (by omega)]
    rfl
  | succ rounds ih =>
    by_cases hlt : k + 1 < msgs.length
    · have hcons : msgs.drop k = msgs[k] :: msgs[k + 1] :: msgs.drop (k + 2) := by
        rw [List.drop_eq_getElem_cons (by omega), List.drop_eq_getElem_cons hlt]
      have hnext : msgs.drop (k + 1) = msgs[k + 1] :: msgs.drop (k + 2) :=
        List.drop_eq_getElem_cons hlt
      rw [hcons, ipCountLoop_cons_cons, ← hnext, ih (by omega) (by omega), tests,
        if_pos (by omega), List.filterMap_cons, taken_of_lt hlt]
      cases entry inet rootOid msgs[k] msgs[k + 1] <;> rfl
    · -- one of the iterators is at the end
      have hshort : ∀ ip val rest, msgs.drop k ≠ ip :: val :: rest := by
        intro ip val rest hcons
        have hlength := congrArg List.length hcons
        simp only [List.length_drop, List.length_cons] at hlength
        omega
      rw [tests, if_neg (by omega), List.filterMap_cons, taken_of_le (by omega), ipCountLoop]
      · rfl
      · exact hshort

/-! ## Reading pairs -/

/-- `handle` reads its message as pairs: below the root there are the entries of the pairs
and no others, only a field at an even offset is taken as an address, and no iterator goes past
the end, but for the `+ 3` on a message of two fields. -/
structure ReadsPairs (inet : InetPton) (rootOid : Oid) (msgs : Message) : Prop where
  entries : ∀ (t : OidTree) (k : Oid), rootOid <+: k →
    (StatHandler.process inet ⟨.ipCount, rootOid⟩ msgs t).get k =
      (insertAll ∅ (pairEntries inet rootOid (msgs.drop 2)))[k]?
  evenOffset : ∀ x ∈ allTaken inet rootOid msgs, x.1 % 2 = 0
  inBounds : ∀ its ∈ tests msgs.length msgs.length 2 3, its.1 ≤ msgs.length ∧
    (its.2 ≤ msgs.length ∨ msgs.length = 2 ∧ its = (2, 3))

theorem tests_inBounds (hlen : 2 ≤ msgs.length) :
    ∀ its ∈ tests msgs.length msgs.length 2 3, its.1 ≤ msgs.length ∧
      (its.2 ≤ msgs.length ∨ msgs.length = 2 ∧ its = (2, 3)) := by
  intro its hits
  by_cases htwo : msgs.length = 2
  · have hone : its = (2, 3) := by
      rw [htwo, tests, if_neg (by omega)] at hits
      exact List.mem_singleton.mp hits
    rw [hone, htwo]
    exact ⟨Nat.le_refl 2, Or.inr ⟨rfl, rfl⟩⟩
  · have hle : its.2 ≤ msgs.length := tests_le (by omega) its hits
    have hoff := tests_offsets its hits
    exact ⟨by omega, Or.inl hle⟩

theorem get_process_ipCount (t : OidTree) {k : Oid} (hk : rootOid <+: k) :
    (StatHandler.process inet ⟨.ipCount, rootOid⟩ msgs t).get k =
      (ipCountLoop inet rootOid (msgs.drop 2) ∅)[k]? :=
  StatHandler.get_process_replaceSubtree rfl hk

/-- Below the root there is what the rounds took. -/
theorem get_process_eq_taken (hlen : 2 ≤ msgs.length) (t : OidTree) {k : Oid}
    (hk : rootOid <+: k) :
    (StatHandler.process inet ⟨.ipCount, rootOid⟩ msgs t).get k =
      (insertAll ∅ ((allTaken inet rootOid msgs).map Prod.snd))[k]? := by
  rw [get_process_ipCount t hk, ipCountLoop_eq_taken msgs.length hlen (by omega)]
  rfl

theorem evenOffset_iff (hlen : 2 ≤ msgs.length) :
    (∀ x ∈ allTaken inet rootOid msgs, x.1 % 2 = 0) ↔
      CountsAreNotAddresses inet (msgs.drop 2) := by
  constructor
  · intro h i val hi hlt hval hvalid
    rw [List.length_drop] at hlt
    rw [List.getElem?_drop] at hval
    have hnext : 2 + i + 1 < msgs.length := by omega
    have hsome : taken inet rootOid msgs (2 + i, 2 + i + 1) =
        some (2 + i, (rootOid ++ [1, 3]).appendAddr (.setAddr inet val), atoi msgs[2 + i + 1]) :=
      taken_eq_some.mpr ⟨val, msgs[2 + i + 1], hval, List.getElem?_eq_getElem hnext,
        if_pos hvalid, rfl⟩
    have heven := h _ (List.mem_filterMap.mpr
      ⟨_, mem_tests (by omega) hnext (by omega), hsome⟩)
    simp only at heven
    omega
  · intro h x hx
    obtain ⟨its, hits, hsome⟩ := List.mem_filterMap.mp hx
    obtain ⟨ip, val, hip, hval, he, hoff⟩ := taken_eq_some.mp hsome
    have hvalid := isValid_of_entry he
    have hlt : its.2 < msgs.length := (List.getElem?_eq_some_iff.mp hval).1
    have hb := tests_offsets its hits
    by_contra hodd
    refine h (its.1 - 2) ip (by omega) ?_ ?_ hvalid
    · rw [List.length_drop]
      omega
    · rw [List.getElem?_drop, show 2 + (its.1 - 2) = its.1 by omega, hip]

/-- The message is read as pairs exactly if none of its counts, but for one in the last field,
is itself the text of an address. -/
theorem reads_pairs_iff (inet : InetPton) (rootOid : Oid) (msgs : Message)
    (hlen : 2 ≤ msgs.length) :
    ReadsPairs inet rootOid msgs ↔ CountsAreNotAddresses inet (msgs.drop 2) := by
  constructor
  · intro h
    exact (evenOffset_iff hlen).mp h.evenOffset
  · intro h
    refine ⟨?_, (evenOffset_iff hlen).mpr h, tests_inBounds hlen⟩
    intro t k hk
    rw [get_process_ipCount t hk, ipCountLoop_eq_pairs h]

theorem reads_pairs_sample :
    ReadsPairs .dottedQuads [1, 2] ["connected_homers", "OK", "10.0.0.1", "3", "10.0.0.2", "7"] ↔
      CountsAreNotAddresses .dottedQuads ["10.0.0.1", "3", "10.0.0.2", "7"] :=
  reads_pairs_iff .dottedQuads [1, 2] ["connected_homers", "OK", "10.0.0.1", "3", "10.0.0.2", "7"]
    (by decide)

/-- An address in the place of a count makes an entry of its own. -/
theorem count_taken_as_address :
    (StatHandler.process .dottedQuads ⟨.ipCount, [1, 2]⟩
      ["connected_homers", "OK", "10.0.0.1", "10.0.0.2", "7"] .empty).get
        [1, 2, 1, 3, 1, 4, 10, 0, 0, 2] = some 7 ∧
      pairEntries .dottedQuads [1, 2] ["10.0.0.1", "10.0.0.2", "7"] =
        [([1, 2, 1, 3, 1, 4, 10, 0, 0, 1], 10)] ∧
      ¬ReadsPairs .dottedQuads [1, 2]
        ["connected_homers", "OK", "10.0.0.1", "10.0.0.2", "7"] := by
  have htaken : allTaken .dottedQuads [1, 2]
      ["connected_homers", "OK", "10.0.0.1", "10.0.0.2", "7"] =
      [(2, [1, 2, 1, 3, 1, 4, 10, 0, 0, 1], 10), (3, [1, 2, 1, 3, 1, 4, 10, 0, 0, 2], 7)] := by
    decide
  refine ⟨?_, by decide, ?_⟩
  · rw [get_process_eq_taken (by decide) _ (by decide), htaken]
    exact ExtTreeMap.getElem?_insert_self
  · intro h
    have heven := h.evenOffset (3, [1, 2, 1, 3, 1, 4, 10, 0, 0, 2], 7) (by rw [htaken]; simp)
    exact absurd heven (by decide)

end IpCount
end ClearwaterSnmp
