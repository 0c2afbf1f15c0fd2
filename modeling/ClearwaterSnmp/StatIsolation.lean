import ClearwaterSnmp.NodeData
import ClearwaterSnmp.Runs

namespace ClearwaterSnmp
open Std

namespace TreeCall

/-- What a call does to the entry at one key: every call acts on each key by itself. -/
def act (k : Oid) (v : Option ℤ) : TreeCall → Option ℤ
  | set key value => if key = k then some value else v
  | remove key => if key = k then none else v
  | removeSubtree rootOid => if rootOid.subtreeContains k then none else v
  | replaceSubtree rootOid update => (if rootOid.subtreeContains k then none else v).or update[k]?

theorem get_apply (t : OidTree) (c : TreeCall) (k : Oid) :
    (apply t c).get k = c.act k (t.get k) := by
  cases c with
  | set key value => exact OidTree.get_set key value k
  | remove key => exact OidTree.get_remove key k
  | removeSubtree rootOid => exact OidTree.get_removeSubtree rootOid k
  | replaceSubtree rootOid update => exact OidTree.get_replaceSubtree rootOid update k

theorem get_foldl_apply (t : OidTree) (cs : List TreeCall) (k : Oid) :
    (cs.foldl apply t).get k = cs.foldl (act k) (t.get k) := by
  induction cs generalizing t with
  | nil => rfl
  | cons c cs ih => rw [List.foldl_cons, ih, get_apply, List.foldl_cons]

/-- The call names and enters only keys below the prefixes `ps`. -/
def Within (ps : List Oid) : TreeCall → Prop
  | set key _ => ∃ p ∈ ps, p <+: key
  | remove key => ∃ p ∈ ps, p <+: key
  | removeSubtree rootOid => ∃ p ∈ ps, p <+: rootOid
  | replaceSubtree rootOid update =>
    (∃ p ∈ ps, p <+: rootOid) ∧ ∀ k v, update[k]? = some v → ∃ p ∈ ps, p <+: k

variable {ps : List Oid} {c : TreeCall} {k : Oid}

theorem act_of_removed (v : Option ℤ) {rootOid : Oid} (hroot : ∃ p ∈ ps, p <+: rootOid)
    (hk : ∀ p ∈ ps, ¬Oid.Comparable p k) :
    (if rootOid.subtreeContains k then none else v) = v := by
  apply if_neg
  intro hc
  obtain ⟨p, hp, hpr⟩ := hroot
  have hcomp : Oid.Comparable k rootOid := (Oid.subtreeContains_iff.mp hc).symm
  exact hk p hp (Or.symm (hcomp.of_prefix hpr))

/-- Keys that no prefix is comparable with keep their entries. -/
theorem Within.act_of_incomparable (h : c.Within ps) (hk : ∀ p ∈ ps, ¬Oid.Comparable p k)
    (v : Option ℤ) : c.act k v = v := by
  have hne (key : Oid) (hkey : ∃ p ∈ ps, p <+: key) : key ≠ k := by
    rintro rfl
    obtain ⟨p, hp, hpk⟩ := hkey
    exact hk p hp (Or.inl hpk)
  cases c with
  | set key value => exact if_neg (hne key h)
  | remove key => exact if_neg (hne key h)
  | removeSubtree rootOid => exact act_of_removed v h hk
  | replaceSubtree rootOid update =>
    rw [act, act_of_removed v h.1 hk]
    cases hu : update[k]? with
    | none => exact Option.or_none
    | some x =>
      obtain ⟨p, hp, hpk⟩ := h.2 k x hu
      exact absurd (Or.inl hpk) (hk p hp)

/-- Keys below no prefix get no entry. -/
theorem Within.act_none (h : c.Within ps) (hk : ∀ p ∈ ps, ¬p <+: k) : c.act k none = none := by
  have hne (key : Oid) (hkey : ∃ p ∈ ps, p <+: key) : key ≠ k := by
    rintro rfl
    obtain ⟨p, hp, hpk⟩ := hkey
    exact hk p hp hpk
  cases c with
  | set key value => exact if_neg (hne key h)
  | remove key => exact ite_self none
  | removeSubtree rootOid => exact ite_self none
  | replaceSubtree rootOid update =>
    rw [act, ite_self, Option.none_or]
    cases hu : update[k]? with
    | none => rfl
    | some x =>
      obtain ⟨p, hp, hpk⟩ := h.2 k x hu
      exact absurd hpk (hk p hp)

end TreeCall

/-! ## The maps the handlers build -/

/-- Every key of the map is below `p`. -/
def KeysBelow (p : Oid) (m : OidMap) : Prop := ∀ k v, m[k]? = some v → p <+: k

namespace KeysBelow

variable {p k : Oid} {m : OidMap}

theorem empty : KeysBelow p ∅ := by
  intro k v h
  simp at h

theorem insert (hk : p <+: k) (hm : KeysBelow p m) (v : ℤ) : KeysBelow p (m.insert k v) := by
  intro k' v' h
  rw [ExtTreeMap.getElem?_insert] at h
  split at h
  · rename_i heq
    rwa [← Std.compare_eq_iff_eq.mp heq]
  · exact hm k' v' h

theorem insertIfNew (hk : p <+: k) (hm : KeysBelow p m) (v : ℤ) :
    KeysBelow p (m.insertIfNew k v) := by
  intro k' v' h
  rw [ExtTreeMap.getElem?_insertIfNew] at h
  split at h
  · rename_i heq
    rwa [← Std.compare_eq_iff_eq.mp heq.1]
  · exact hm k' v' h

theorem within {ps : List Oid} (hm : KeysBelow p m) (hp : p ∈ ps) :
    (TreeCall.replaceSubtree p m).Within ps :=
  ⟨⟨p, hp, List.prefix_refl p⟩, fun k v hk => ⟨p, hp, hm k v hk⟩⟩

end KeysBelow

theorem ipCountLoop_keysBelow (inet : InetPton) (rootOid : Oid) (fields : List String)
    {m : OidMap} (hm : KeysBelow rootOid m) :
    KeysBelow rootOid (ipCountLoop inet rootOid fields m) := by
  fun_induction ipCountLoop inet rootOid fields m with
  | case1 ip val rest m oidAddr ih =>
    apply ih
    split
    · apply hm.insert
      rw [Oid.appendAddr, List.append_assoc]
      exact List.prefix_append _ _
    · exact hm
  | case2 => exact hm

namespace ConnectionTrees

/-- Each of the three maps keeps to its table. -/
structure BelowTables (rootOid : Oid) (trees : ConnectionTrees) : Prop where
  connections : KeysBelow (rootOid ++ [6, 1]) trees.connectionTree
  buckets : KeysBelow (rootOid ++ [7, 1]) trees.bucketTree
  bandwidths : KeysBelow (rootOid ++ [8, 1]) trees.bucketBandwidthTree

variable {rootOid : Oid} {trees : ConnectionTrees}

theorem belowTables_empty : BelowTables rootOid empty :=
  ⟨KeysBelow.empty, KeysBelow.empty, KeysBelow.empty⟩

theorem prefix_foldl_appendInt (o : Oid) (indices : List ℤ) :
    o <+: indices.foldl Oid.appendInt o := by
  induction indices generalizing o with
  | nil => exact List.prefix_refl o
  | cons i indices ih => exact (List.prefix_append o _).trans (ih _)

theorem prefix_fieldOid (baseOid : Oid) (column : ℕ) (oidAddr : OidInetAddr)
    (indices : List ℤ) : baseOid <+: fieldOid baseOid column oidAddr indices := by
  refine List.IsPrefix.trans ?_ (prefix_foldl_appendInt _ indices)
  rw [Oid.appendAddr, List.append_assoc]
  exact List.prefix_append _ _

theorem BelowTables.setConnection (h : BelowTables rootOid trees) (oidAddr : OidInetAddr)
    (port needing resynchronized : ℤ) :
    BelowTables rootOid (trees.setConnection rootOid oidAddr port needing resynchronized) :=
  { h with
    connections :=
      (h.connections.insert (prefix_fieldOid _ _ _ _) _).insert (prefix_fieldOid _ _ _ _) _ }

theorem BelowTables.setBucket (h : BelowTables rootOid trees) (oidAddr : OidInetAddr)
    (port bucketId entries data bandwidth : ℤ) :
    BelowTables rootOid
      (trees.setBucket rootOid oidAddr port bucketId entries data bandwidth) :=
  { h with
    buckets := (h.buckets.insert (prefix_fieldOid _ _ _ _) _).insert (prefix_fieldOid _ _ _ _) _
    bandwidths := h.bandwidths.insert (prefix_fieldOid _ _ _ _) _ }

theorem BelowTables.bucketLoop (msgs : Message) (oidAddr : OidInetAddr) (port endBuckets : ℤ)
    {rounds : ℕ} {ii ii' : ℤ} {trees' : ConnectionTrees} (h : BelowTables rootOid trees)
    (hl : ClearwaterSnmp.bucketLoop rootOid msgs oidAddr port endBuckets rounds ii trees =
      some (ii', trees')) : BelowTables rootOid trees' := by
  induction rounds generalizing ii trees with
  | zero => cases hl
  | succ rounds ih =>
    rw [ClearwaterSnmp.bucketLoop] at hl
    split at hl
    · simp only [Option.bind_eq_bind, Option.bind_eq_some_iff] at hl
      obtain ⟨_, _, _, _, _, _, _, _, hl⟩ := hl
      exact ih (h.setBucket ..) hl
    · cases hl
      exact h

theorem BelowTables.connectionLoop (inet : InetPton) (msgs : Message) {rounds : ℕ} {ii : ℤ}
    {trees' : ConnectionTrees} (h : BelowTables rootOid trees)
    (hl : ClearwaterSnmp.connectionLoop inet rootOid msgs rounds ii trees = some trees') :
    BelowTables rootOid trees' := by
  induction rounds generalizing ii trees with
  | zero => cases hl
  | succ rounds ih =>
    rw [ClearwaterSnmp.connectionLoop] at hl
    simp only [Option.bind_eq_bind] at hl
    -- only the last of the four checks leads on; the others keep what has been set
    split at hl
    · split at hl
      · simp only [Option.bind_eq_some_iff] at hl
        obtain ⟨_, _, _, _, hl⟩ := hl
        split at hl
        · simp only [Option.bind_eq_some_iff] at hl
          obtain ⟨_, _, _, _, _, _, hl⟩ := hl
          split at hl
          · rw [Option.bind_eq_some_iff] at hl
            obtain ⟨_, hb, hl⟩ := hl
            exact ih (BelowTables.bucketLoop msgs _ _ _ (h.setConnection ..) hb) hl
          · cases hl
            exact h.setConnection ..
        · cases hl
          exact h
      · cases hl
        exact h
    · cases hl
      exact h

end ConnectionTrees

/-! ## Handlers keep to their entries -/

namespace StatHandler

/-- The OIDs below which the entries of a handler are. -/
def owned (h : StatHandler) : List Oid :=
  match h.kind with
  | .astaireGlobal => [[1, 0], [2, 0], [3, 0], [4, 0], [5, 1, 2, 1]].map (h.rootOid ++ ·)
  | .astaireConnection => [[6, 1], [7, 1], [8, 1]].map (h.rootOid ++ ·)
  | _ => [h.rootOid]

/-- The entry at `k` belongs to the handler. -/
def Owns (h : StatHandler) (k : Oid) : Prop := ∃ p ∈ h.owned, p <+: k

theorem singleEntryHandle_within (suffix rootOid : Oid) (msgs : Message) :
    ∀ c ∈ singleEntryHandle suffix rootOid msgs, c.Within [rootOid] := by
  fun_cases singleEntryHandle suffix rootOid msgs with
  | case1 name status value rest =>
    intro c hc
    rw [List.mem_singleton.mp hc]
    exact (KeysBelow.empty.insert (List.prefix_append _ _) _).within List.mem_cons_self
  | case2 =>
    intro c hc
    rw [List.mem_singleton.mp hc]
    exact ⟨rootOid, List.mem_cons_self, List.prefix_refl _⟩

theorem accumulatedWithCountStatHandle_within (rootOid : Oid) (msgs : Message) :
    ∀ c ∈ accumulatedWithCountStatHandle rootOid msgs, c.Within [rootOid] := by
  have hp (suffix : Oid) : rootOid <+: rootOid ++ suffix := List.prefix_append _ _
  fun_cases accumulatedWithCountStatHandle rootOid msgs with
  | case1 name status average variance lwm hwm count rest =>
    intro c hc
    rw [List.mem_singleton.mp hc]
    apply KeysBelow.within _ List.mem_cons_self
    exact ((((KeysBelow.empty.insertIfNew (hp _) _).insertIfNew (hp _) _).insertIfNew
      (hp _) _).insertIfNew (hp _) _).insertIfNew (hp _) _
  | case2 =>
    intro c hc
    rw [List.mem_singleton.mp hc]
    exact ⟨rootOid, List.mem_cons_self, List.prefix_refl _⟩

theorem astaireGlobalStatHandle_within (rootOid : Oid) (msgs : Message) :
    ∀ c ∈ astaireGlobalStatHandle rootOid msgs, c.Within (owned ⟨.astaireGlobal, rootOid⟩) := by
  fun_cases astaireGlobalStatHandle rootOid msgs <;> simp [TreeCall.Within, owned]

theorem astaireConnectionStatHandle_within (inet : InetPton) (rootOid : Oid) (msgs : Message) :
    ∀ c ∈ astaireConnectionStatHandle inet rootOid msgs,
      c.Within (owned ⟨.astaireConnection, rootOid⟩) := by
  rw [astaireConnectionStatHandle]
  cases hl : connectionLoop inet rootOid msgs (msgs.length + 1) 2 .empty with
  | none => simp
  | some trees =>
    have hb : ConnectionTrees.BelowTables rootOid trees :=
      ConnectionTrees.belowTables_empty.connectionLoop inet msgs hl
    simp only [Option.elim_some, ConnectionTrees.calls, List.mem_cons, List.not_mem_nil, or_false,
      forall_eq_or_imp, forall_eq]
    refine ⟨hb.connections.within ?_, hb.buckets.within ?_, hb.bandwidths.within ?_⟩
    all_goals simp [owned]

/-- A handler calls the tree only for its own entries. -/
theorem handle_within (inet : InetPton) (h : StatHandler) (msgs : Message) :
    ∀ c ∈ h.handle inet msgs, c.Within h.owned := by
  obtain ⟨kind, rootOid⟩ := h
  cases kind with
  | ipCount =>
    intro c hc
    rw [List.mem_singleton.mp hc]
    exact (ipCountLoop_keysBelow inet rootOid _ KeysBelow.empty).within List.mem_cons_self
  | bare =>
    rw [handle]
    fun_cases bareStatHandle rootOid msgs with
    | case1 => simp [TreeCall.Within, owned]
    | case2 => simp
  | singleNumber => exact singleEntryHandle_within _ _ _
  | singleNumberWithScope => exact singleEntryHandle_within _ _ _
  | accumulatedWithCount => exact accumulatedWithCountStatHandle_within _ _
  | astaireGlobal => exact astaireGlobalStatHandle_within _ _
  | astaireConnection => exact astaireConnectionStatHandle_within _ _ _

theorem get_process (inet : InetPton) (h : StatHandler) (msgs : Message) (t : OidTree) (k : Oid) :
    (h.process inet msgs t).get k = (h.handle inet msgs).foldl (TreeCall.act k) (t.get k) :=
  TreeCall.get_foldl_apply t _ k

theorem get_process_of_incomparable (inet : InetPton) {h : StatHandler} {k : Oid}
    (hk : ∀ p ∈ h.owned, ¬Oid.Comparable p k) (msgs : Message) (t : OidTree) :
    (h.process inet msgs t).get k = t.get k := by
  rw [get_process]
  apply List.foldlRecOn (motive := (· = t.get k)) _ _ rfl
  rintro v rfl c hc
  exact (handle_within inet h msgs c hc).act_of_incomparable hk _

theorem get_process_none (inet : InetPton) {h : StatHandler} {k : Oid} (hk : ¬h.Owns k)
    (msgs : Message) {t : OidTree} (ht : t.get k = none) :
    (h.process inet msgs t).get k = none := by
  rw [get_process, ht]
  apply List.foldlRecOn (motive := (· = none)) _ _ rfl
  rintro v rfl c hc
  exact (handle_within inet h msgs c hc).act_none fun p hp hpk => hk ⟨p, hp, hpk⟩

end StatHandler

/-! ## Interleaved messages -/

section Interleaving

variable {ι : Type*} (inet : InetPton) (handler : ι → StatHandler)

/-- The tree after the messages, each of them to the handler it comes with. -/
def treeAfter (msgs : List (ι × Message)) : OidTree :=
  Runs.run (fun t m => (handler m.1).process inet m.2 t) .empty msgs

/-- The entries of every handler are those of its own messages, and there are no others. -/
structure NoInterference [DecidableEq ι] : Prop where
  own_entries : ∀ (msgs : List (ι × Message)) (i : ι) (k : Oid), (handler i).Owns k →
    (treeAfter inet handler msgs).get k =
      (treeAfter inet handler (msgs.filter fun m => m.1 = i)).get k
  no_other : ∀ (msgs : List (ι × Message)) (k : Oid), (∀ i, ¬(handler i).Owns k) →
    (treeAfter inet handler msgs).get k = none

variable {inet handler}

theorem get_treeAfter_none {k : Oid} (hk : ∀ i, ¬(handler i).Owns k) (msgs : List (ι × Message)) :
    (treeAfter inet handler msgs).get k = none := by
  refine Runs.run_invariant (I := fun t => OidTree.get t k = none) ?_ (OidTree.get_empty k) msgs
  intro t m ht
  exact StatHandler.get_process_none inet (hk m.1) m.2 ht

theorem noInterference_of_incomparable [DecidableEq ι]
    (hsep : ∀ i j, i ≠ j → ∀ p ∈ (handler i).owned, ∀ q ∈ (handler j).owned,
      ¬Oid.Comparable p q) : NoInterference inet handler where
  own_entries msgs i k := by
    rintro ⟨p, hp, hpk⟩
    -- the other handlers neither write at `k` nor remove it from above or below
    apply Runs.observed_run_filter (I := fun _ => True) (P := fun _ _ => True)
      (fun t : OidTree => t.get k) (fun _ _ _ _ => trivial) _ _ trivial rfl
      (Runs.along_of_forall (fun _ _ _ => trivial) _)
    · intro t t' m _ ht
      simp only [StatHandler.get_process] at ht ⊢
      rw [ht]
    · intro t m _ _ hm
      apply StatHandler.get_process_of_incomparable
      intro q hq hc
      exact hsep m.1 i (of_decide_eq_false hm) q hq p hp (hc.of_prefix hpk)
  no_other msgs k hk := get_treeAfter_none hk msgs

end Interleaving

/-- `global_handler` and `connection_handler`, of which the first is `true`. -/
def astairePair (rootOid : Oid) (global : Bool) : StatHandler :=
  ⟨if global then .astaireGlobal else .astaireConnection, rootOid⟩

theorem astairePair_incomparable (rootOid : Oid) {i j : Bool} (hij : i ≠ j) :
    ∀ p ∈ (astairePair rootOid i).owned, ∀ q ∈ (astairePair rootOid j).owned,
      ¬Oid.Comparable p q := by
  cases i <;> cases j
  · exact absurd rfl hij
  · simp [astairePair, StatHandler.owned, Oid.Comparable, List.prefix_append_right_inj]
  · simp [astairePair, StatHandler.owned, Oid.Comparable, List.prefix_append_right_inj]
  · exact absurd rfl hij

/-- The handlers that are not for Astaire own what is below their root. -/
def HandlerKind.isAstaire : HandlerKind → Bool
  | astaireGlobal => true
  | astaireConnection => true
  | _ => false

theorem StatHandler.owned_of_not_isAstaire {h : StatHandler} (hk : h.kind.isAstaire = false) :
    h.owned = [h.rootOid] := by
  obtain ⟨kind, rootOid⟩ := h
  cases kind <;> first | rfl | cases hk

/-- Handlers with incomparable roots on one tree do not interfere, although they also
remove what is above their roots; neither do the two handlers of Astaire. -/
theorem statistics_do_not_interfere (inet : InetPton) :
    (∀ (ι : Type) [DecidableEq ι] (handler : ι → StatHandler),
      (∀ i, (handler i).kind.isAstaire = false) →
      (∀ i j, i ≠ j → ¬Oid.Comparable (handler i).rootOid (handler j).rootOid) →
        NoInterference inet handler) ∧
    ∀ rootOid, NoInterference inet (astairePair rootOid) := by
  constructor
  · intro ι _ handler hplain hroots
    apply noInterference_of_incomparable
    intro i j hij p hp q hq
    rw [StatHandler.owned_of_not_isAstaire (hplain i), List.mem_singleton] at hp
    rw [StatHandler.owned_of_not_isAstaire (hplain j), List.mem_singleton] at hq
    rw [hp, hq]
    exact hroots i j hij
  · intro rootOid
    exact noInterference_of_incomparable fun i j hij => astairePair_incomparable rootOid hij

/-- `inet_pton` on one address. -/
def sampleInet : InetPton where
  v4 s := if s = "10.0.0.1".toList then some #v[10, 0, 0, 1] else none
  v6 _ := none

/-- The handlers of the plugins for call diversion, Memento and its application server. -/
theorem plugin_statistics_do_not_interfere :
    NoInterference sampleInet NodeData.cdiv.handlers.get ∧
    NoInterference sampleInet
      (NodeData.mementoHttp.handlers ++ NodeData.mementoAuth.handlers).get ∧
    NoInterference sampleInet NodeData.mementoAs.handlers.get :=
  ⟨(statistics_do_not_interfere sampleInet).1 _ _ (by decide) (by decide),
    (statistics_do_not_interfere sampleInet).1 _ _ (by decide) (by decide),
    (statistics_do_not_interfere sampleInet).1 _ _ (by decide) (by decide)⟩

end ClearwaterSnmp
