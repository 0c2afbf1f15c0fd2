import ClearwaterSnmp.StatIsolation

namespace ClearwaterSnmp
open Std

/-! ## Calls that change nothing -/

namespace TreeCall

/-- Where the second call changes nothing, it changes nothing after the first either. -/
def Compatible (c c' : TreeCall) : Prop :=
  ∀ t, c'.apply t = t → c'.apply (c.apply t) = c.apply t

variable {c c' : TreeCall} {t : OidTree}

theorem apply_eq_iff : c.apply t = t ↔ ∀ k, c.act k (t.get k) = t.get k := by
  constructor
  · intro h k
    rw [← get_apply, h]
  · intro h
    apply OidTree.get_ext
    intro k
    rw [get_apply, h]

theorem compatible_of_act
    (h : ∀ k v, c'.act k v = v → c'.act k (c.act k v) = c.act k v) : Compatible c c' := by
  intro t ht
  rw [apply_eq_iff] at ht ⊢
  intro k
  rw [get_apply]
  exact h k _ (ht k)

theorem foldl_apply_of_forall {cs : List TreeCall} (h : ∀ c ∈ cs, c.apply t = t) :
    cs.foldl apply t = t := by
  apply List.foldlRecOn (motive := (· = t)) _ _ rfl
  rintro _ rfl c hc
  exact h c hc

/-- If no two calls change the tree, then every tree on the way is the first or the last. -/
theorem foldl_apply_of_one_change {pre post : List TreeCall}
    (hcompat : (pre ++ post).Pairwise Compatible)
    (hone : (pre ++ post).Pairwise fun c c' => c.apply t = t ∨ c'.apply t = t) :
    pre.foldl apply t = t ∨ pre.foldl apply t = (pre ++ post).foldl apply t := by
  induction pre with
  | nil => exact Or.inl rfl
  | cons c pre ih =>
    rw [List.cons_append, List.pairwise_cons] at hcompat hone
    by_cases hc : c.apply t = t
    · simp only [List.cons_append, List.foldl_cons, hc]
      exact ih hcompat.2 hone.2
    · right
      have hrest : ∀ c' ∈ pre ++ post, c'.apply (c.apply t) = c.apply t := fun c' hc' =>
        hcompat.1 c' hc' t ((hone.1 c' hc').resolve_left hc)
      rw [List.cons_append, List.foldl_cons, List.foldl_cons, foldl_apply_of_forall hrest]
      exact foldl_apply_of_forall fun c' hc' => hrest c' (List.mem_append_left post hc')

/-- The two calls on a single entry. -/
def put (key : Oid) : Option ℤ → TreeCall
  | some value => set key value
  | none => remove key

theorem act_put (key : Oid) (value : Option ℤ) (k : Oid) (v : Option ℤ) :
    (put key value).act k v = if key = k then value else v := by
  cases value <;> rfl

theorem put_apply_of_get_eq {key : Oid} {value : Option ℤ} (h : t.get key = value) :
    (put key value).apply t = t := by
  rw [apply_eq_iff]
  intro k
  rw [act_put]
  split
  · rename_i hk
    rw [← hk, h]
  · rfl

theorem compatible_put {key key' : Oid} (hne : key ≠ key') (value value' : Option ℤ) :
    Compatible (put key value) (put key' value') := by
  apply compatible_of_act
  intro k v hv
  by_cases hk : key = k
  · rw [act_put, if_neg fun h => hne (hk.trans h.symm)]
  · rw [act_put key, if_neg hk, hv]

/-- The replacement of a subtree by what belongs there. -/
theorem act_replaceSubtree {p : Oid} {m : OidMap} (hm : KeysBelow p m) (k : Oid) (v : Option ℤ) :
    (replaceSubtree p m).act k v = if Oid.Comparable p k then m[k]? else v := by
  rw [act]
  simp only [Oid.subtreeContains_iff]
  split
  · exact Option.none_or
  · rename_i hk
    cases hmk : m[k]? with
    | none => exact Option.or_none
    | some x => exact absurd (Or.inl (hm k x hmk)) hk

theorem compatible_replaceSubtree {p q : Oid} {m m' : OidMap} (hpq : ¬Oid.Comparable p q)
    (hm : KeysBelow p m) (hm' : KeysBelow q m') :
    Compatible (replaceSubtree p m) (replaceSubtree q m') := by
  apply compatible_of_act
  intro k v hv
  rw [act_replaceSubtree hm'] at hv ⊢
  rw [act_replaceSubtree hm]
  by_cases hp : Oid.Comparable p k
  · by_cases hq : Oid.Comparable q k
    · -- The key is above both subtrees, so that neither map has it.
      have hmk : m[k]? = none := Option.eq_none_iff_forall_ne_some.mpr fun x hx =>
        hpq (hq.of_prefix (hm k x hx)).symm
      have hmk' : m'[k]? = none := Option.eq_none_iff_forall_ne_some.mpr fun x hx =>
        hpq (hp.of_prefix (hm' k x hx))
      simp [hp, hmk, hmk']
    · simp [hq]
  · simpa [hp] using hv

end TreeCall

/-! ## What a message changes -/

/-- The OIDs of the five numbers of `AstaireGlobalStatHandler`, below its root. -/
def globalSuffix : Fin 5 → Oid
  | 0 => [1, 0]
  | 1 => [2, 0]
  | 2 => [3, 0]
  | 3 => [4, 0]
  | 4 => [5, 1, 2, 1]

theorem globalSuffix_injective : Function.Injective globalSuffix := by
  unfold Function.Injective
  decide

/-- What a message says of the five numbers: nothing if it is too short. -/
def globalValue (msgs : Message) (i : Fin 5) : Option ℤ :=
  if 7 ≤ msgs.length then msgs[i.val + 2]?.map atoi else none

theorem astaireGlobalStatHandle_eq (rootOid : Oid) (msgs : Message) :
    astaireGlobalStatHandle rootOid msgs = (List.finRange 5).map fun i =>
      .put (rootOid ++ globalSuffix i) (globalValue msgs i) := by
  rcases msgs with _ | ⟨_, _ | ⟨_, _ | ⟨_, _ | ⟨_, _ | ⟨_, _ | ⟨_, _ | ⟨_, _⟩⟩⟩⟩⟩⟩⟩
  case cons.cons.cons.cons.cons.cons.cons => simp [List.finRange_succ, globalValue]; rfl
  all_goals rfl

namespace ConnectionTrees

/-- The OIDs of the three tables of `AstaireConnectionStatHandler`, below its root. -/
def tableSuffix : Fin 3 → Oid
  | 0 => [6, 1]
  | 1 => [7, 1]
  | 2 => [8, 1]

def table (trees : ConnectionTrees) : Fin 3 → OidMap
  | 0 => trees.connectionTree
  | 1 => trees.bucketTree
  | 2 => trees.bucketBandwidthTree

theorem calls_eq (rootOid : Oid) (trees : ConnectionTrees) :
    trees.calls rootOid = (List.finRange 3).map fun i =>
      .replaceSubtree (rootOid ++ tableSuffix i) (trees.table i) := rfl

theorem BelowTables.table {rootOid : Oid} {trees : ConnectionTrees}
    (h : BelowTables rootOid trees) (i : Fin 3) :
    KeysBelow (rootOid ++ tableSuffix i) (trees.table i) :=
  match i with
  | 0 => h.connections
  | 1 => h.buckets
  | 2 => h.bandwidths

theorem tables_incomparable (rootOid : Oid) {i j : Fin 3} (hij : i ≠ j) :
    ¬Oid.Comparable (rootOid ++ tableSuffix i) (rootOid ++ tableSuffix j) := by
  rw [Oid.comparable_append_left]
  revert i j
  decide

end ConnectionTrees

/-- The subtree is not what the map says. -/
def TableDiffers (t : OidTree) (p : Oid) (m : OidMap) : Prop :=
  ∃ k, Oid.Comparable p k ∧ t.get k ≠ m[k]?

theorem replaceSubtree_apply_of_not_differs {t : OidTree} {p : Oid} {m : OidMap}
    (hm : KeysBelow p m) (h : ¬TableDiffers t p m) :
    (TreeCall.replaceSubtree p m).apply t = t := by
  rw [TreeCall.apply_eq_iff]
  intro k
  rw [TreeCall.act_replaceSubtree hm]
  split
  · rename_i hk
    by_contra hne
    exact h ⟨k, hk, Ne.symm hne⟩
  · rfl

namespace StatHandler

/-- Of the parts of the tree that the handler writes one after the other, the message
changes at most one: of the five numbers, or of the three tables. The other
handlers write everything at once. -/
def ChangesAtMostOne (inet : InetPton) (t : OidTree) (h : StatHandler) (msgs : Message) : Prop :=
  match h.kind with
  | .astaireGlobal =>
    {i | t.get (h.rootOid ++ globalSuffix i) ≠ globalValue msgs i}.Subsingleton
  | .astaireConnection =>
    ∀ trees, connectionLoop inet h.rootOid msgs (msgs.length + 1) 2 .empty = some trees →
      {i | TableDiffers t (h.rootOid ++ ConnectionTrees.tableSuffix i)
        (trees.table i)}.Subsingleton
  | _ => True

variable {inet : InetPton} {h : StatHandler} {msgs : Message}

theorem length_handle_le_one (hk : h.kind.isAstaire = false) :
    (h.handle inet msgs).length ≤ 1 := by
  obtain ⟨kind, rootOid⟩ := h
  cases kind with
  | ipCount => exact Nat.le_refl 1
  | bare =>
    change (bareStatHandle rootOid msgs).length ≤ 1
    fun_cases bareStatHandle rootOid msgs <;> simp
  | singleNumber =>
    change (singleEntryHandle [0] rootOid msgs).length ≤ 1
    fun_cases singleEntryHandle [0] rootOid msgs <;> simp
  | singleNumberWithScope =>
    change (singleEntryHandle [1, 2] rootOid msgs).length ≤ 1
    fun_cases singleEntryHandle [1, 2] rootOid msgs <;> simp
  | accumulatedWithCount =>
    change (accumulatedWithCountStatHandle rootOid msgs).length ≤ 1
    fun_cases accumulatedWithCountStatHandle rootOid msgs <;> simp
  | astaireGlobal => cases hk
  | astaireConnection => cases hk

/-- A relation between any two calls of a message, of which only the handlers of Astaire
make several. -/
theorem pairwise_handle {R : TreeCall → TreeCall → Prop}
    (hglobal : h.kind = .astaireGlobal → ∀ i j, i ≠ j →
      R (.put (h.rootOid ++ globalSuffix i) (globalValue msgs i))
        (.put (h.rootOid ++ globalSuffix j) (globalValue msgs j)))
    (hconn : h.kind = .astaireConnection → ∀ trees,
      connectionLoop inet h.rootOid msgs (msgs.length + 1) 2 .empty = some trees →
      ∀ i j, i ≠ j →
        R (.replaceSubtree (h.rootOid ++ ConnectionTrees.tableSuffix i) (trees.table i))
          (.replaceSubtree (h.rootOid ++ ConnectionTrees.tableSuffix j) (trees.table j))) :
    (h.handle inet msgs).Pairwise R := by
  obtain ⟨kind, rootOid⟩ := h
  cases hk : kind.isAstaire with
  | false =>
    -- a single call has none to be related to
    have hlen : (handle inet ⟨kind, rootOid⟩ msgs).length ≤ 1 := length_handle_le_one hk
    match hcs : handle inet ⟨kind, rootOid⟩ msgs, hlen with
    | [], _ => exact List.Pairwise.nil
    | [c], _ => exact List.pairwise_singleton R c
  | true =>
    cases kind with
    | astaireGlobal =>
      change (astaireGlobalStatHandle rootOid msgs).Pairwise R
      rw [astaireGlobalStatHandle_eq, List.pairwise_map]
      exact (List.nodup_finRange 5).imp (hglobal rfl _ _)
    | astaireConnection =>
      change (astaireConnectionStatHandle inet rootOid msgs).Pairwise R
      rw [astaireConnectionStatHandle]
      cases hl : connectionLoop inet rootOid msgs (msgs.length + 1) 2 .empty with
      | none => exact List.Pairwise.nil
      | some trees =>
        rw [Option.elim_some, ConnectionTrees.calls_eq, List.pairwise_map]
        exact (List.nodup_finRange 3).imp (hconn rfl trees hl _ _)
    | _ => cases hk

theorem handle_compatible : (h.handle inet msgs).Pairwise TreeCall.Compatible := by
  apply pairwise_handle
  · intro _ i j hij
    apply TreeCall.compatible_put
    simpa using globalSuffix_injective.ne hij
  · intro _ trees hl i j hij
    have hb : ConnectionTrees.BelowTables h.rootOid trees :=
      ConnectionTrees.belowTables_empty.connectionLoop inet msgs hl
    apply TreeCall.compatible_replaceSubtree _ (hb.table i) (hb.table j)
    exact ConnectionTrees.tables_incomparable h.rootOid hij

theorem ChangesAtMostOne.handle {t : OidTree} (hc : h.ChangesAtMostOne inet t msgs) :
    (h.handle inet msgs).Pairwise fun c c' => c.apply t = t ∨ c'.apply t = t := by
  apply pairwise_handle
  · intro hk i j hij
    simp only [ChangesAtMostOne, hk] at hc
    by_contra hne
    rw [not_or] at hne
    exact hij (hc (fun hi => hne.1 (TreeCall.put_apply_of_get_eq hi))
      (fun hj => hne.2 (TreeCall.put_apply_of_get_eq hj)))
  · intro hk trees hl i j hij
    have hb : ConnectionTrees.BelowTables h.rootOid trees :=
      ConnectionTrees.belowTables_empty.connectionLoop inet msgs hl
    simp only [ChangesAtMostOne, hk] at hc
    by_contra hne
    rw [not_or] at hne
    apply hij (hc trees hl _ _)
    · exact of_not_not fun hi => hne.1 (replaceSubtree_apply_of_not_differs (hb.table i) hi)
    · exact of_not_not fun hj => hne.2 (replaceSubtree_apply_of_not_differs (hb.table j) hj)

end StatHandler

/-! ## The listener and its readers -/

/-- One step of a plugin: the listener goes on to its next message or makes its next call
on the tree, or a request reads the tree. -/
inductive StatEvent
  | listener
  | get (requestedOid : Oid)
  | getNext (requestedOid : Oid)

/-- The tree, what the listener has still to do for the message it is handling, and
the number of messages it has taken. -/
structure StatState where
  tree : OidTree
  calls : List TreeCall
  taken : ℕ

namespace StatState

def initial : StatState := ⟨.empty, [], 0⟩

section Listening

variable (inet : InetPton) (queue : List (StatHandler × Message))

/-- The listener handles the messages of the queue in their order. -/
def step (s : StatState) : StatEvent → StatState
  | .listener =>
    match s.calls, queue[s.taken]? with
    | c :: calls, _ => { s with tree := c.apply s.tree, calls := calls }
    | [], some (h, msgs) => { s with calls := h.handle inet msgs, taken := s.taken + 1 }
    | [], none => s
  | .get _ => s
  | .getNext _ => s

/-- The tree after the first `n` messages. -/
def wholeTree (n : ℕ) : OidTree := treeAfter inet id (queue.take n)

/-- The tree is the one before or the one after the message being handled. -/
def Whole (s : StatState) : Prop :=
  ∃ n, (n = s.taken ∨ n + 1 = s.taken) ∧ s.tree = wholeTree inet queue n

/-- The message the listener goes on to, if it does, changes at most one part of the tree. -/
def Gentle (s : StatState) : StatEvent → Prop
  | .listener => s.calls = [] → ∀ m, queue[s.taken]? = some m →
      m.1.ChangesAtMostOne inet s.tree m.2
  | _ => True

/-- A message that changes at most one part is being handled, or none has come yet. -/
def Handling (s : StatState) : Prop :=
  s = initial ∨ ∃ n m pre, s.taken = n + 1 ∧ queue[n]? = some m ∧
    m.1.handle inet m.2 = pre ++ s.calls ∧
    s.tree = pre.foldl TreeCall.apply (wholeTree inet queue n) ∧
    m.1.ChangesAtMostOne inet (wholeTree inet queue n) m.2

variable {inet queue}

theorem wholeTree_succ {n : ℕ} {m : StatHandler × Message} (hm : queue[n]? = some m) :
    wholeTree inet queue (n + 1) = m.1.process inet m.2 (wholeTree inet queue n) := by
  rw [wholeTree, List.take_add_one, hm, treeAfter, Runs.run_append]
  rfl

theorem Handling.tree_eq_of_idle {s : StatState} (h : Handling inet queue s)
    (hidle : s.calls = []) : s.tree = wholeTree inet queue s.taken := by
  rcases h with rfl | ⟨n, m, pre, hn, hm, hpre, htree, -⟩
  · rfl
  · rw [hidle, List.append_nil] at hpre
    rw [htree, hn, wholeTree_succ hm, StatHandler.process, hpre]

theorem Handling.whole {s : StatState} (h : Handling inet queue s) : Whole inet queue s := by
  rcases h with rfl | ⟨n, m, pre, hn, hm, hpre, htree, hone⟩
  · exact ⟨0, Or.inl rfl, rfl⟩
  · have hcompat : (m.1.handle inet m.2).Pairwise TreeCall.Compatible :=
      StatHandler.handle_compatible
    have hone' := hone.handle
    rw [hpre] at hcompat hone'
    rcases TreeCall.foldl_apply_of_one_change hcompat hone' with hbefore | hafter
    · exact ⟨n, Or.inr hn.symm, htree.trans hbefore⟩
    · refine ⟨n + 1, Or.inl hn.symm, ?_⟩
      rw [htree, hafter, wholeTree_succ hm, StatHandler.process, hpre]

theorem Handling.step {s : StatState} {e : StatEvent} (h : Handling inet queue s)
    (hg : Gentle inet queue s e) : Handling inet queue (step inet queue s e) := by
  cases e with
  | get _ => exact h
  | getNext _ => exact h
  | listener =>
    rw [StatState.step]
    split
    · -- another call for the message being handled
      rename_i c calls hcalls
      rcases h with rfl | ⟨n, m, pre, hn, hm, hpre, htree, hone⟩
      · cases hcalls
      · refine Or.inr ⟨n, m, pre ++ [c], hn, hm, ?_, ?_, hone⟩
        · rw [hpre, hcalls, List.append_assoc, List.singleton_append]
        · rw [List.foldl_append, ← htree]
          rfl
    · -- the next message, from a tree between two messages
      rename_i h' msgs hcalls hm
      refine Or.inr ⟨s.taken, (h', msgs), [], rfl, hm, rfl, h.tree_eq_of_idle hcalls, ?_⟩
      rw [← h.tree_eq_of_idle hcalls]
      exact hg hcalls _ hm
    · exact h

end Listening

/-- A number, and then a message too short for the global handler of Astaire. -/
def sampleMessages : List (StatHandler × Message) :=
  [(⟨.bare, NodeData.astaireOid ++ [10]⟩, ["sample", "OK", "3"]),
    (⟨.astaireGlobal, NodeData.astaireOid⟩, ["astaire_global", "OK"])]

/-- Two messages for the global handler of Astaire. -/
def globalMessages : List (StatHandler × Message) :=
  [(⟨.astaireGlobal, NodeData.astaireOid⟩, ["astaire_global", "OK", "1", "1", "1", "1", "1"]),
    (⟨.astaireGlobal, NodeData.astaireOid⟩, ["astaire_global", "OK", "2", "2", "2", "2", "2"])]

end StatState
end ClearwaterSnmp
