import ClearwaterSnmp.StatAtomicity
import ClearwaterSnmp.StatDispatch
import Mathlib.Data.List.Pairwise

namespace ClearwaterSnmp

/-! ## Which entries a call rewrites -/

namespace TreeCall

/-- A call on `p` reaches the entry at `p`, or all those `remove_subtree` goes through. -/
def Reaches (single : Bool) (p k : Oid) : Prop := if single then p = k else Oid.Comparable p k

/-- The call gives new values to the entries within reach of `p`, whatever they were, and leaves
the others alone. -/
def Rewrites (single : Bool) (p : Oid) (c : TreeCall) : Prop :=
  ∃ value : Oid → Option ℤ,
    ∀ k, (Reaches single p k → ∀ v, c.act k v = value k) ∧
      (¬Reaches single p k → ∀ v, c.act k v = v)

variable {single : Bool} {p k : Oid}

theorem Reaches.comparable (h : Reaches single p k) : Oid.Comparable p k := by
  cases single with
  | false => exact h
  | true =>
    rw [show p = k from h]
    exact Or.inl (List.prefix_refl k)

theorem rewrites_put (p : Oid) (value : Option ℤ) : Rewrites true p (put p value) := by
  refine ⟨fun _ => value, fun k => ⟨fun h v => ?_, fun h v => ?_⟩⟩
  · rw [act_put]
    exact if_pos h
  · rw [act_put]
    exact if_neg h

theorem rewrites_replaceSubtree {m : OidMap} (hm : KeysBelow p m) :
    Rewrites false p (replaceSubtree p m) := by
  refine ⟨fun k => m[k]?, fun k => ⟨fun h v => ?_, fun h v => ?_⟩⟩
  · rw [act_replaceSubtree hm]
    exact if_pos h
  · rw [act_replaceSubtree hm]
    exact if_neg h

theorem rewrites_removeSubtree (p : Oid) : Rewrites false p (removeSubtree p) := by
  refine ⟨fun _ => none, fun k => ⟨fun h v => ?_, fun h v => ?_⟩⟩
  · exact if_pos (Oid.subtreeContains_iff.mpr h)
  · exact if_neg (mt Oid.subtreeContains_iff.mp h)

theorem foldl_act_of_spared {cs : List TreeCall} {v : Option ℤ} (h : ∀ c ∈ cs, c.act k v = v) :
    cs.foldl (act k) v = v := by
  apply List.foldlRecOn (motive := (· = v)) _ _ rfl
  rintro _ rfl c hc
  exact h c hc

/-- Calls on incomparable OIDs, of which one is on `q`: it stands among others that are not. -/
theorem exists_call_on {ps : List Oid} {cs : List TreeCall} {q : Oid}
    (h : List.Forall₂ (Rewrites single) ps cs)
    (hps : ps.Pairwise fun p p' => ¬Oid.Comparable p p') (hq : q ∈ ps) :
    ∃ pre c post, cs = pre ++ c :: post ∧ Rewrites single q c ∧
      ∀ c' ∈ pre ++ post, ∃ p, ¬Oid.Comparable p q ∧ Rewrites single p c' := by
  induction h with
  | nil => cases hq
  | @cons p c ps cs hc hcs ih =>
    rw [List.pairwise_cons] at hps
    rcases List.mem_cons.mp hq with rfl | hq
    · refine ⟨[], c, cs, rfl, hc, fun c' hc' => ?_⟩
      rw [List.nil_append] at hc'
      obtain ⟨n, hn, rfl⟩ := List.mem_iff_getElem.mp hc'
      have hn' : n < ps.length := hcs.length_eq ▸ hn
      have hmem : ps[n] ∈ ps := List.getElem_mem _
      exact ⟨ps[n], fun h => hps.1 _ hmem h.symm, hcs.get hn' hn⟩
    · obtain ⟨pre, c', post, rfl, hc', hothers⟩ := ih hps.2 hq
      refine ⟨c :: pre, c', post, rfl, hc', fun d hd => ?_⟩
      rcases List.mem_cons.mp hd with rfl | hd
      · exact ⟨p, hps.1 q hq, hc⟩
      · exact hothers d hd

end TreeCall

namespace StatHandler

/-- The handlers that set their entries one by one. -/
def setsEntries (h : StatHandler) : Bool :=
  match h.kind with
  | .bare | .astaireGlobal => true
  | _ => false

variable (inet : InetPton) (h : StatHandler) (msgs : Message)

theorem singleEntryHandle_rewrites (suffix rootOid : Oid) (msgs : Message) :
    List.Forall₂ (TreeCall.Rewrites false) [rootOid] (singleEntryHandle suffix rootOid msgs) := by
  fun_cases singleEntryHandle suffix rootOid msgs with
  | case1 name status value rest =>
    refine .cons (TreeCall.rewrites_replaceSubtree ?_) .nil
    exact KeysBelow.empty.insert (List.prefix_append _ _) _
  | case2 => exact .cons (TreeCall.rewrites_removeSubtree _) .nil

theorem accumulatedWithCountStatHandle_rewrites (rootOid : Oid) (msgs : Message) :
    List.Forall₂ (TreeCall.Rewrites false) [rootOid]
      (accumulatedWithCountStatHandle rootOid msgs) := by
  have hp (suffix : Oid) : rootOid <+: rootOid ++ suffix := List.prefix_append _ _
  fun_cases accumulatedWithCountStatHandle rootOid msgs with
  | case1 name status average variance lwm hwm count rest =>
    refine .cons (TreeCall.rewrites_replaceSubtree ?_) .nil
    exact ((((KeysBelow.empty.insertIfNew (hp _) _).insertIfNew (hp _) _).insertIfNew
      (hp _) _).insertIfNew (hp _) _).insertIfNew (hp _) _
  | case2 => exact .cons (TreeCall.rewrites_removeSubtree _) .nil

theorem astaireGlobalStatHandle_rewrites (rootOid : Oid) (msgs : Message) :
    List.Forall₂ (TreeCall.Rewrites true) (owned ⟨.astaireGlobal, rootOid⟩)
      (astaireGlobalStatHandle rootOid msgs) := by
  rw [astaireGlobalStatHandle_eq]
  have howned : owned ⟨.astaireGlobal, rootOid⟩ =
      (List.finRange 5).map fun i => rootOid ++ globalSuffix i := rfl
  rw [howned, List.forall₂_map_left_iff, List.forall₂_map_right_iff, List.forall₂_same]
  exact fun i _ => TreeCall.rewrites_put _ _

/-- A message that a handler does not pass over makes it call the tree once for each OID it owns,
in order. -/
theorem handle_rewrites : h.handle inet msgs = [] ∨
    List.Forall₂ (TreeCall.Rewrites h.setsEntries) h.owned (h.handle inet msgs) := by
  obtain ⟨kind, rootOid⟩ := h
  cases kind with
  | ipCount =>
    right
    refine .cons (TreeCall.rewrites_replaceSubtree ?_) .nil
    exact ipCountLoop_keysBelow inet rootOid _ KeysBelow.empty
  | bare =>
    rw [handle]
    fun_cases bareStatHandle rootOid msgs with
    | case1 name status value rest => exact .inr (.cons (TreeCall.rewrites_put _ (some _)) .nil)
    | case2 => exact .inl rfl
  | singleNumber => exact .inr (singleEntryHandle_rewrites _ _ _)
  | singleNumberWithScope => exact .inr (singleEntryHandle_rewrites _ _ _)
  | accumulatedWithCount => exact .inr (accumulatedWithCountStatHandle_rewrites _ _)
  | astaireGlobal => exact .inr (astaireGlobalStatHandle_rewrites _ _)
  | astaireConnection =>
    rw [handle, astaireConnectionStatHandle]
    cases hl : connectionLoop inet rootOid msgs (msgs.length + 1) 2 .empty with
    | none => exact .inl rfl
    | some trees =>
      right
      have hb : ConnectionTrees.BelowTables rootOid trees :=
        ConnectionTrees.belowTables_empty.connectionLoop inet msgs hl
      exact .cons (TreeCall.rewrites_replaceSubtree hb.connections)
        (.cons (TreeCall.rewrites_replaceSubtree hb.buckets)
          (.cons (TreeCall.rewrites_replaceSubtree hb.bandwidths) .nil))

theorem owned_incomparable : h.owned.Pairwise fun p p' => ¬Oid.Comparable p p' := by
  obtain ⟨kind, rootOid⟩ := h
  cases kind with
  | astaireGlobal => simp [owned, Oid.Comparable]
  | astaireConnection => simp [owned, Oid.Comparable]
  | _ => exact List.pairwise_singleton _ _

variable {inet h msgs} {k : Oid}

instance : Decidable (h.Owns k) := inferInstanceAs (Decidable (∃ p ∈ h.owned, p <+: k))

/-- Of the calls a handler makes for a message one at most is about a given entry of its own. -/
theorem exists_only_call {q : Oid} (hq : q ∈ h.owned) (hqk : q <+: k)
    (hne : h.handle inet msgs ≠ []) :
    ∃ pre c post, h.handle inet msgs = pre ++ c :: post ∧ c.Rewrites h.setsEntries q ∧
      ∀ c' ∈ pre ++ post, ∀ v, c'.act k v = v := by
  obtain ⟨pre, c, post, hcs, hc, hothers⟩ := TreeCall.exists_call_on
    ((handle_rewrites inet h msgs).resolve_left hne) (owned_incomparable h) hq
  refine ⟨pre, c, post, hcs, hc, fun c' hc' => ?_⟩
  obtain ⟨p, hpq, value, hvalue⟩ := hothers c' hc'
  apply (hvalue k).2
  intro hreach
  exact hpq (hreach.comparable.of_prefix hqk)

/-- What the handling of a message makes of the entry at a key. -/
def rewrite (inet : InetPton) (h : StatHandler) (msgs : Message) (k : Oid) (v : Option ℤ) :
    Option ℤ := (h.handle inet msgs).foldl (TreeCall.act k) v

theorem get_process_empty : (h.process inet msgs .empty).get k = h.rewrite inet msgs k none := by
  rw [get_process, OidTree.get_empty]
  rfl

/-- Between two calls an entry is as it was before the message, or as it is after it. -/
theorem before_or_after {pre post : List TreeCall} (hsplit : h.handle inet msgs = pre ++ post)
    (hk : h.Owns k) (v : Option ℤ) :
    pre.foldl (TreeCall.act k) v = v ∨
      pre.foldl (TreeCall.act k) v = h.rewrite inet msgs k v := by
  obtain ⟨q, hq, hqk⟩ := hk
  cases pre with
  | nil => exact Or.inl rfl
  | cons d pre =>
    have hne : h.handle inet msgs ≠ [] := by simp [hsplit]
    obtain ⟨pre', c, post', hcs, -, hothers⟩ := exists_only_call hq hqk hne
    rw [rewrite, hsplit, List.foldl_append]
    rw [hsplit] at hcs
    rcases List.append_eq_append_iff.mp hcs with ⟨mid, hpre', hpost⟩ | ⟨mid, hpre, hmid⟩
    · left
      apply TreeCall.foldl_act_of_spared
      intro c' hc'
      exact hothers c' (List.mem_append_left _ (hpre' ▸ List.mem_append_left _ hc')) v
    · cases mid with
      | nil =>
        left
        apply TreeCall.foldl_act_of_spared
        intro c' hc'
        rw [List.append_nil] at hpre
        exact hothers c' (List.mem_append_left _ (hpre ▸ hc')) v
      | cons c' mid =>
        right
        obtain ⟨-, rfl⟩ := List.cons.inj hmid
        symm
        apply TreeCall.foldl_act_of_spared
        intro c'' hc''
        exact hothers c'' (List.mem_append_right _ (List.mem_append_right _ hc'')) _

/-- A message that a handler does not pass over leaves nothing of the ones before it. -/
theorem rewrite_rewrite (hk : h.Owns k) (hne : h.handle inet msgs ≠ []) (msgs' : Message) :
    h.rewrite inet msgs k (h.rewrite inet msgs' k none) = h.rewrite inet msgs k none := by
  obtain ⟨q, hq, hqk⟩ := hk
  -- the one call about the entry either fixes it or is not about it after all
  have honly : ∀ msgs, h.handle inet msgs ≠ [] → ∃ value,
      (TreeCall.Reaches h.setsEntries q k → ∀ v, h.rewrite inet msgs k v = value) ∧
        (¬TreeCall.Reaches h.setsEntries q k → ∀ v, h.rewrite inet msgs k v = v) := by
    intro msgs hne
    obtain ⟨pre, c, post, hcs, ⟨value, hvalue⟩, hothers⟩ := exists_only_call hq hqk hne
    have hrewrite : ∀ v, h.rewrite inet msgs k v = c.act k v := by
      intro v
      rw [rewrite, hcs, List.foldl_append, List.foldl_cons,
        TreeCall.foldl_act_of_spared fun c' hc' => hothers c' (List.mem_append_left _ hc') v,
        TreeCall.foldl_act_of_spared fun c' hc' => hothers c' (List.mem_append_right _ hc') _]
    simp only [hrewrite]
    exact ⟨value k, hvalue k⟩
  obtain ⟨value, hin, hout⟩ := honly msgs hne
  by_cases hreach : TreeCall.Reaches h.setsEntries q k
  · rw [hin hreach, hin hreach]
  · rw [hout hreach, hout hreach]
    by_cases hne' : h.handle inet msgs' = []
    · rw [rewrite, hne']
      rfl
    · obtain ⟨_, -, hout'⟩ := honly msgs' hne'
      exact hout' hreach none

end StatHandler

/-! ## What the messages say -/

namespace NodeData

/-- No two statistics share an entry, or have one above an entry of the other. -/
def Separate (node : NodeData) : Prop :=
  node.statToHandler.Pairwise fun e e' =>
    ∀ p ∈ e.2.owned, ∀ q ∈ e'.2.owned, ¬Oid.Comparable p q

instance (node : NodeData) : Decidable node.Separate :=
  inferInstanceAs (Decidable (List.Pairwise _ _))

/-- The handler that gets a message, if it is `OK`. -/
def handlerOf (node : NodeData) (msgs : Message) : Option StatHandler :=
  if msgs[1]? = some "OK" then msgs.head?.bind node.handlerAt else none

/-- What a message says of the entry at `k`: nothing, that there is none, or what it is. -/
def tells (inet : InetPton) (node : NodeData) (k : Oid) (msgs : Message) : Option (Option ℤ) :=
  (node.handlerOf msgs).bind fun h =>
    if h.Owns k ∧ (h.handle inet msgs).isEmpty = false then
      some ((h.process inet msgs .empty).get k)
    else none

/-- What the table should hold at `k` after some messages: what the last of them that says
something about the entry says. -/
def shown (inet : InetPton) (node : NodeData) (ms : List Message) (k : Oid) : Option ℤ :=
  (ms.filterMap (node.tells inet k)).getLast?.join

variable {inet : InetPton} {node : NodeData} {k : Oid}

theorem shown_concat (ms : List Message) (msgs : Message) :
    node.shown inet (ms ++ [msgs]) k = (node.tells inet k msgs).getD (node.shown inet ms k) := by
  rw [shown, List.filterMap_append]
  cases htells : node.tells inet k msgs with
  | none =>
    rw [List.filterMap_cons_none htells, List.filterMap_nil, List.append_nil]
    rfl
  | some v =>
    rw [List.filterMap_cons_some htells, List.filterMap_nil, List.getLast?_concat]
    rfl

theorem tells_of_not_owns {h : StatHandler} {msgs : Message} (hat : node.handlerOf msgs = some h)
    (hk : ¬h.Owns k) : node.tells inet k msgs = none := by
  rw [tells, hat, Option.bind_some]
  exact if_neg fun hc => hk hc.1

theorem tells_of_owns {h : StatHandler} {msgs : Message} (hat : node.handlerOf msgs = some h)
    (hk : h.Owns k) (hne : h.handle inet msgs ≠ []) :
    node.tells inet k msgs = some (h.rewrite inet msgs k none) := by
  rw [tells, hat, Option.bind_some, StatHandler.get_process_empty]
  exact if_pos ⟨hk, by simpa using hne⟩

theorem mem_of_handlerAt {stat : String} {h : StatHandler} (hat : node.handlerAt stat = some h) :
    (stat, h) ∈ node.statToHandler := by
  rw [handlerAt, List.lookup_eq_some_iff] at hat
  obtain ⟨l₁, l₂, heq, -⟩ := hat
  rw [heq]
  simp

theorem exists_mem_of_handlerOf {msgs : Message} {h : StatHandler}
    (hat : node.handlerOf msgs = some h) : ∃ stat, (stat, h) ∈ node.statToHandler := by
  rw [handlerOf] at hat
  split at hat
  · obtain ⟨stat, -, hstat⟩ := Option.bind_eq_some_iff.mp hat
    exact ⟨stat, mem_of_handlerAt hstat⟩
  · cases hat

/-- Handlers of a separate node are the same or own incomparable OIDs. -/
theorem Separate.eq_or_incomparable (hnode : node.Separate) {msgs msgs' : Message}
    {h h' : StatHandler} (hat : node.handlerOf msgs = some h)
    (hat' : node.handlerOf msgs' = some h') :
    h = h' ∨ ∀ p ∈ h.owned, ∀ q ∈ h'.owned, ¬Oid.Comparable p q := by
  obtain ⟨stat, hmem⟩ := exists_mem_of_handlerOf hat
  obtain ⟨stat', hmem'⟩ := exists_mem_of_handlerOf hat'
  by_cases heq : (stat, h) = (stat', h')
  · exact Or.inl (congrArg Prod.snd heq)
  · right
    have hsymm : Std.Symm fun e e' : String × StatHandler =>
        ∀ p ∈ e.2.owned, ∀ q ∈ e'.2.owned, ¬Oid.Comparable p q :=
      ⟨fun e e' he q hq p hp hc => he p hp q hq hc.symm⟩
    exact List.Pairwise.forall hnode hmem hmem' heq

/-- An entry that is shown is one that a message gave. -/
theorem exists_of_shown_ne_none {ms : List Message} (hne : node.shown inet ms k ≠ none) :
    ∃ msgs ∈ ms, ∃ h, node.handlerOf msgs = some h ∧ h.Owns k ∧ h.handle inet msgs ≠ [] ∧
      node.shown inet ms k = h.rewrite inet msgs k none := by
  cases hlast : (ms.filterMap (node.tells inet k)).getLast? with
  | none =>
    rw [shown, hlast] at hne
    exact absurd rfl hne
  | some v =>
    obtain ⟨msgs, hmsgs, htells⟩ := List.mem_filterMap.mp (List.mem_of_getLast? hlast)
    have hv : node.shown inet ms k = v := by
      rw [shown, hlast]
      rfl
    obtain ⟨h, hat, hif⟩ := Option.bind_eq_some_iff.mp htells
    rw [Option.ite_none_right_eq_some] at hif
    obtain ⟨⟨hk, hcalls⟩, hvalue⟩ := hif
    refine ⟨msgs, hmsgs, h, hat, hk, by simpa using hcalls, ?_⟩
    rw [hv, ← StatHandler.get_process_empty]
    exact (Option.some.inj hvalue).symm

/-- The entries of other handlers stay as they are through all calls that a message leads to. -/
theorem Separate.act_shown (hnode : node.Separate) {h : StatHandler} {msgs : Message}
    (hat : node.handlerOf msgs = some h) (hk : ¬h.Owns k) (ms : List Message) :
    ∀ c ∈ h.handle inet msgs, c.act k (node.shown inet ms k) = node.shown inet ms k := by
  intro c hc
  have hwithin := StatHandler.handle_within inet h msgs c hc
  by_cases hshown : node.shown inet ms k = none
  · rw [hshown]
    exact hwithin.act_none fun p hp hpk => hk ⟨p, hp, hpk⟩
  obtain ⟨msgs', -, h', hat', hk', -, -⟩ := exists_of_shown_ne_none hshown
  rcases hnode.eq_or_incomparable hat hat' with rfl | hinc
  · exact absurd hk' hk
  · obtain ⟨q, hq, hqk⟩ := hk'
    refine hwithin.act_of_incomparable (fun p hp hc => ?_) _
    exact hinc p hp q hq (hc.of_prefix hqk)

/-- The handling of a message turns what the messages before it say into what all of them say. -/
theorem Separate.rewrite_shown (hnode : node.Separate) {h : StatHandler} {msgs : Message}
    (hat : node.handlerOf msgs = some h) (ms : List Message) :
    h.rewrite inet msgs k (node.shown inet ms k) = node.shown inet (ms ++ [msgs]) k := by
  rw [shown_concat]
  by_cases hk : h.Owns k
  · by_cases hne : h.handle inet msgs = []
    · have htells : node.tells inet k msgs = none := by
        rw [tells, hat, Option.bind_some]
        exact if_neg (by simp [hne])
      rw [StatHandler.rewrite, hne, htells]
      rfl
    rw [tells_of_owns hat hk hne, Option.getD_some]
    by_cases hshown : node.shown inet ms k = none
    · rw [hshown]
    obtain ⟨msgs', -, h', hat', hk', -, heq⟩ := exists_of_shown_ne_none hshown
    rcases hnode.eq_or_incomparable hat hat' with rfl | hinc
    · rw [heq]
      exact StatHandler.rewrite_rewrite hk hne msgs'
    · obtain ⟨p, hp, hpk⟩ := hk
      obtain ⟨q, hq, hqk⟩ := hk'
      exact absurd (List.prefix_or_prefix_of_prefix hpk hqk) (hinc p hp q hq)
  · rw [tells_of_not_owns hat hk, Option.getD_none]
    exact TreeCall.foldl_act_of_spared (hnode.act_shown hat hk ms)

/-- Part of the calls that a message leads to leave each entry as it was before, or make of it
what all of them do. -/
theorem Separate.foldl_act_shown (hnode : node.Separate) {h : StatHandler} {msgs : Message}
    (hat : node.handlerOf msgs = some h) (ms : List Message) {pre post : List TreeCall}
    (hsplit : h.handle inet msgs = pre ++ post) :
    pre.foldl (TreeCall.act k) (node.shown inet ms k) = node.shown inet ms k ∨
      pre.foldl (TreeCall.act k) (node.shown inet ms k) = node.shown inet (ms ++ [msgs]) k := by
  by_cases hk : h.Owns k
  · rw [← hnode.rewrite_shown hat]
    exact StatHandler.before_or_after hsplit hk _
  · left
    apply TreeCall.foldl_act_of_spared
    intro c hc
    exact hnode.act_shown hat hk ms c (hsplit ▸ List.mem_append_left _ hc)

theorem separate_of_mem
    (h : node ∈ [cdiv, mementoHttp, mementoAuth, mementoAs, astaire]) : node.Separate := by
  simp only [List.mem_cons, List.not_mem_nil, or_false] at h
  rcases h with rfl | rfl | rfl | rfl | rfl <;> decide

end NodeData

/-! ## What the listener makes of them -/

namespace Plugin

variable {ν : Type*} {inet : InetPton} {node : NodeData}

theorem handlerOf_of_ok (messageType : String) (parts : List String) :
    node.handlerOf (messageType :: "OK" :: parts) = node.handlerAt messageType := rfl

theorem handlerOf_of_not_ok {msgs : Message} (hok : ¬IsOk msgs) : node.handlerOf msgs = none :=
  if_neg hok

theorem handlerOf_of_handleRequest {now : ℤ} {msgs : Message} {p p' : Plugin ν}
    (hp : handleRequest inet node now msgs p = some p') :
    p'.lastSeenTime = now ∧ p'.tree =
      (node.handlerOf msgs).elim p.tree fun handler => handler.process inet msgs p.tree := by
  by_cases hok : IsOk msgs
  · obtain ⟨messageType, parts, rfl⟩ := eq_cons_of_isOk hok
    rw [handleRequest_of_ok] at hp
    obtain ⟨handler, hat, rfl⟩ := Option.map_eq_some_iff.mp hp
    rw [handlerOf_of_ok, hat]
    exact ⟨rfl, rfl⟩
  · rw [handleRequest_of_not_ok hok] at hp
    rw [handlerOf_of_not_ok hok, ← Option.some.inj hp]
    exact ⟨rfl, rfl⟩

/-- After any run of the listener the table holds what the last messages say, and nothing else:
for each entry of each statistic what the last `OK` message for it says that its handler did not
pass over. -/
theorem table_of_messages (hnode : node.Separate) {received : List (ℤ × Message)}
    {p p' : Plugin ν} (hempty : p.tree = .empty)
    (hp : handleRequestsForever inet node received p = some p') (k : Oid) :
    p'.tree.get k = node.shown inet (received.map Prod.snd) k := by
  induction received using List.reverseRecOn generalizing p' with
  | nil =>
    cases hp
    rw [hempty]
    exact OidTree.get_empty k
  | append_singleton received r ih =>
    rw [handleRequestsForever, List.foldlM_append] at hp
    obtain ⟨q, hq, hr⟩ := Option.bind_eq_some_iff.mp hp
    rw [List.foldlM_cons] at hr
    obtain ⟨q', hq', hr⟩ := Option.bind_eq_some_iff.mp hr
    cases hr
    have htree := (handlerOf_of_handleRequest hq').2
    rw [List.map_append, List.map_singleton]
    cases hof : node.handlerOf r.2 with
    | none =>
      rw [htree, hof, NodeData.shown_concat, NodeData.tells, hof]
      exact ih hq
    | some handler =>
      rw [htree, hof, ← hnode.rewrite_shown hof, ← ih hq]
      exact StatHandler.get_process inet handler r.2 q.tree k

end Plugin
end ClearwaterSnmp
