import ClearwaterSnmp.ConcurrentCalls
import ClearwaterSnmp.OidTree
import ClearwaterSnmp.OrderedWalk

namespace ClearwaterSnmp.OidTree
open Locking Std

/-- A method of `OIDTree`, with its arguments. -/
inductive Call
  | get (requestedOid : Oid)
  | getNext (requestedOid : Oid)
  | remove (key : Oid)
  | removeSubtree (rootOid : Oid)
  | replaceSubtree (rootOid : Oid) (update : OidMap)
  | set (key : Oid) (value : ℤ)

/-- What a method returns, with what it writes through its references. -/
inductive Reply
  | value (found : Option ℤ)
  | entry (found : Option (Oid × ℤ))
  | done
deriving DecidableEq

/-- The method as a single step. -/
def Call.effect : Call → OidTree → OidTree × Reply
  | .get requestedOid, t => (t, .value (t.get requestedOid))
  | .getNext requestedOid, t => (t, .entry (t.getNext requestedOid))
  | .remove key, t => (t.remove key, .done)
  | .removeSubtree rootOid, t => (t.removeSubtree rootOid, .done)
  | .replaceSubtree rootOid update, t => (t.replaceSubtree rootOid update, .done)
  | .set key value, t => (t.set key value, .done)

/-! The methods access by access. `_map_lock` is recursive: `replace_subtree` holds it while it
calls `remove_subtree`. An iterator is the key of the node that it points at. -/

/-- The erasures of `remove_subtree`, for the keys in its copy of the map. -/
def eraseKeys (rootOid : Oid) : List Oid → Prog OidMap Unit
  | [] => pure ()
  | thisOid :: rest => do
    if rootOid.subtreeContains thisOid then .write fun m => m.erase thisOid
    eraseKeys rootOid rest

/-- `insert`, of a range of entries -/
def insertEntries : List (Oid × ℤ) → Prog OidMap Unit
  | [] => pure ()
  | entry :: rest => do
    .write fun m => m.insertIfNew entry.1 entry.2
    insertEntries rest

def removeSubtreeBody (rootOid : Oid) : Prog OidMap Unit := do
  let tmpOidmap ← .read
  eraseKeys rootOid tmpOidmap.keys

/-- What a method does between taking the lock and giving it back. -/
def Call.body : Call → Prog OidMap Reply
  | .get requestedOid => do
    match (← .read)[requestedOid]? with
    | none => pure (.value none)
    | some _ => pure (.value (← .read)[requestedOid]?)
  | .getNext requestedOid => do
    match (← .read).getEntryGT? requestedOid with
    | none => pure (.entry none)
    | some (outputOid, _) => pure (.entry ((← .read)[outputOid]?.map fun r => (outputOid, r)))
  | .remove key => do
    .write fun m => m.erase key
    pure .done
  | .removeSubtree rootOid => do
    removeSubtreeBody rootOid
    pure .done
  | .replaceSubtree rootOid update => do
    .locked (removeSubtreeBody rootOid)
    insertEntries update.toList
    pure .done
  | .set key value => do
    -- `operator[]` makes an entry first, if there is none
    .write fun m => m.insertIfNew key 0
    .write fun m => m.insert key value
    pure .done

def Call.program (call : Call) : Prog OidMap Reply := .locked call.body

theorem nested_eraseKeys (rootOid : Oid) (keys : List Oid) :
    (eraseKeys rootOid keys).Nested 0 := by
  induction keys with
  | nil => rfl
  | cons k keys ih =>
    rw [eraseKeys]
    split
    · exact (Prog.nested_write _).seq fun _ => ih
    · exact ih

theorem nested_removeSubtreeBody (rootOid : Oid) : (removeSubtreeBody rootOid).Nested 0 :=
  Prog.nested_read.seq fun m => nested_eraseKeys rootOid m.keys

theorem nested_insertEntries (entries : List (Oid × ℤ)) :
    (insertEntries entries).Nested 0 := by
  induction entries with
  | nil => rfl
  | cons entry entries ih => exact (Prog.nested_write _).seq fun _ => ih

theorem Call.nested_body (call : Call) : call.body.Nested 0 := by
  cases call with
  | get requestedOid =>
    refine Prog.nested_read.seq fun m => ?_
    split
    · exact Prog.nested_pure _
    · exact Prog.nested_read.seq fun _ => Prog.nested_pure _
  | getNext requestedOid =>
    refine Prog.nested_read.seq fun m => ?_
    split
    · exact Prog.nested_pure _
    · exact Prog.nested_read.seq fun _ => Prog.nested_pure _
  | remove key => exact (Prog.nested_write _).seq fun _ => Prog.nested_pure _
  | removeSubtree rootOid =>
    exact (nested_removeSubtreeBody rootOid).seq fun _ => Prog.nested_pure _
  | replaceSubtree rootOid update =>
    refine (nested_removeSubtreeBody rootOid).locked.seq fun _ => ?_
    exact (nested_insertEntries update.toList).seq fun _ => Prog.nested_pure _
  | set key value =>
    refine (Prog.nested_write _).seq fun _ => ?_
    exact (Prog.nested_write _).seq fun _ => Prog.nested_pure _

theorem exec_eraseKeys (rootOid : Oid) (keys : List Oid) (m : OidMap) :
    ((eraseKeys rootOid keys).exec m).1 =
      keys.foldl (fun m k => if rootOid.subtreeContains k then m.erase k else m) m := by
  induction keys generalizing m with
  | nil => rfl
  | cons k keys ih =>
    rw [eraseKeys, List.foldl_cons]
    split
    · exact ih _
    · exact ih m

theorem exec_removeSubtreeBody (rootOid : Oid) (t : OidTree) :
    ((removeSubtreeBody rootOid).exec t.oidmap).1 = (t.removeSubtree rootOid).oidmap :=
  exec_eraseKeys rootOid t.oidmap.keys t.oidmap

theorem exec_insertEntries (entries : List (Oid × ℤ)) (m : OidMap) :
    ((insertEntries entries).exec m).1 =
      entries.foldl (fun m entry => m.insertIfNew entry.1 entry.2) m := by
  induction entries generalizing m with
  | nil => rfl
  | cons entry entries ih => exact ih _

theorem getElem?_of_getEntryGT? {m : OidMap} {k : Oid} {location : Oid × ℤ}
    (h : m.getEntryGT? k = some location) : m[location.1]? = some location.2 := by
  rw [OrderedWalk.getEntryGT?_eq_find?] at h
  exact ExtTreeMap.mem_toList_iff_getElem?_eq_some.mp (List.mem_of_find?_eq_some h)

/-- Without other threads a method does what it does as a single step. -/
theorem Call.exec_body (call : Call) (t : OidTree) :
    call.body.exec t.oidmap = ((call.effect t).1.oidmap, (call.effect t).2) := by
  cases call with
  | get requestedOid =>
    cases h : t.oidmap[requestedOid]? with
    | none => simp [body, effect, OidTree.get, h]
    | some v => simp [body, effect, OidTree.get, h]
  | getNext requestedOid =>
    cases h : t.oidmap.getEntryGT? requestedOid with
    | none => simp [body, effect, OidTree.getNext, h]
    | some location => simp [body, effect, OidTree.getNext, h, getElem?_of_getEntryGT? h]
  | remove key => rfl
  | removeSubtree rootOid =>
    simp only [body, Prog.exec_monad_bind, exec_removeSubtreeBody, Prog.exec_pure]
    rfl
  | replaceSubtree rootOid update =>
    simp only [body, Prog.exec_monad_bind, Prog.exec_locked, exec_removeSubtreeBody,
      Prog.exec_pure, exec_insertEntries]
    rfl
  | set key value =>
    refine Prod.ext (ExtTreeMap.ext_getElem? fun k => ?_) rfl
    change ((t.oidmap.insertIfNew key 0).insert key value)[k]? = (t.oidmap.insert key value)[k]?
    rw [ExtTreeMap.getElem?_insert, ExtTreeMap.getElem?_insert, ExtTreeMap.getElem?_insertIfNew]
    by_cases hk : key = k
    · simp [hk]
    · simp [hk]

theorem Call.isCall_program (call : Call) : call.program.IsCall :=
  .inl ⟨call.body, call.nested_body, rfl⟩

/-! Any number of threads, each with a list of calls to make. -/

variable {ι : Type*} [DecidableEq ι]

/-- The threads before their first call. -/
def threads (t : OidTree) (calls : ι → List Call) : System ι OidMap (List Reply) :=
  Serial.system Call.program ⟨t.oidmap, calls, fun _ => []⟩

/-- The next call of the thread `i`, as a single step on the tree. -/
def nextCall (S : Serial ι OidTree Call Reply) (i : ι) : Serial ι OidTree Call Reply :=
  match S.pending i with
  | [] => S
  | call :: calls =>
    let r := call.effect S.memory
    ⟨r.1, Function.update S.pending i calls, Function.update S.results i (S.results i ++ [r.2])⟩

/-- The calls one at a time, in the given order of threads. -/
def serialRun (t : OidTree) (calls : ι → List Call) (order : List ι) :
    Serial ι OidTree Call Reply :=
  Runs.run nextCall ⟨t, calls, fun _ => []⟩ order

/-- The map in place of the tree. -/
def onMap (S : Serial ι OidTree Call Reply) : Serial ι OidMap Call Reply :=
  ⟨S.memory.oidmap, S.pending, S.results⟩

theorem onMap_nextCall (S : Serial ι OidTree Call Reply) (i : ι) :
    onMap (nextCall S i) = (onMap S).turn Call.program i := by
  cases h : S.pending i with
  | nil =>
    simp only [nextCall, h, Serial.turn, onMap, Prog.serve]
    rw [← h, Function.update_eq_self, Function.update_eq_self]
  | cons call calls =>
    simp only [nextCall, h, Serial.turn, onMap]
    rw [Prog.serve_locked (show call.program = .locked call.body from rfl), call.exec_body]

theorem settle_threads_run (t : OidTree) (calls : ι → List Call) (schedule : List ι) :
    (Runs.run System.turn (threads t calls) schedule).settle =
      (onMap (serialRun t calls ((threads t calls).grants schedule))).system Call.program := by
  rw [threads, Serial.settle_run Call.isCall_program]
  refine congrArg (Serial.system Call.program) ?_
  exact Runs.run_hom onMap (fun S i => (onMap_nextCall S i).symm) ⟨t, calls, fun _ => []⟩ _

/-- At any moment of any interleaving, the tree and what the methods have returned are those of
whole calls, made one at a time in the order in which the lock was taken. Later calls come
after them in that order. -/
theorem interleaved_calls (t : OidTree) (calls : ι → List Call) (schedule : List ι) :
    let c := Runs.run System.turn (threads t calls) schedule
    let S := serialRun t calls ((threads t calls).grants schedule)
    (c.holder = none → c.memory = S.memory.oidmap) ∧
      (∀ i, c.depth i = 0 →
        c.threads i = Prog.session Call.program (S.pending i) (S.results i)) ∧
      ∀ later, (threads t calls).grants schedule <+:
        (threads t calls).grants (schedule ++ later) := by
  intro c S
  have hsettle : c.settle = (onMap S).system Call.program := settle_threads_run t calls schedule
  refine ⟨fun hfree => ?_, fun i hi => ?_, fun later => ?_⟩
  · rw [System.settle_of_free hfree] at hsettle
    rw [hsettle]
    rfl
  · rw [← System.settle_threads hi, hsettle]
    rfl
  · rw [System.grants_append]
    exact List.prefix_append _ _

theorem session_eq_ret {calls : List Call} {results results' : List Reply}
    (h : Prog.session Call.program calls results = .ret results') :
    calls = [] ∧ results' = results := by
  cases calls with
  | nil => exact ⟨rfl, (Prog.ret.inj h).symm⟩
  | cons call calls => exact absurd h (by simp [Prog.session, Call.program, Prog.locked, Prog.bind])

/-- If no thread is passed over for ever then every call returns. The lock is free in the end,
and tree and results are those of all the calls, made one at a time. -/
theorem calls_return [Finite ι] (t : OidTree) (calls : ι → List Call) {turns : ℕ → ι}
    (hfair : ∀ i n, ∃ m, n ≤ m ∧ turns m = i) :
    ∃ n order, let c := Runs.run System.turn (threads t calls) ((List.range n).map turns)
      let S := serialRun t calls order
      c.holder = none ∧ c.memory = S.memory.oidmap ∧
        ∀ i, S.pending i = [] ∧ c.threads i = .ret (S.results i) := by
  obtain ⟨n, hfree, hfin⟩ := System.exists_finished_of_fair
    (Serial.guarded_system Call.isCall_program ⟨t.oidmap, calls, fun _ => []⟩) hfair
  refine ⟨n, (threads t calls).grants ((List.range n).map turns), hfree, ?_⟩
  have hsettle := settle_threads_run t calls ((List.range n).map turns)
  rw [threads, System.settle_of_free hfree] at hsettle
  refine ⟨congrArg System.memory hsettle, fun i => ?_⟩
  obtain ⟨results, hi⟩ := hfin i
  have hthread := congrFun (congrArg System.threads hsettle) i
  obtain ⟨hnil, hres⟩ := session_eq_ret (hthread.symm.trans hi)
  refine ⟨hnil, hi.trans ?_⟩
  rw [hres]
  rfl

/-- A reader and a writer that take turns. -/
theorem calls_return_two :
    (∀ i n, ∃ m, n ≤ m ∧ (m % 2 == 0) = i) ∧
      ∃ n order,
        let calls : Bool → List Call := fun writer =>
          if writer then [.replaceSubtree [1] (∅ : OidMap)] else [.get [1, 2]]
        let c := Runs.run System.turn (threads empty calls) ((List.range n).map (· % 2 == 0))
        let S := serialRun empty calls order
        c.holder = none ∧ c.memory = S.memory.oidmap ∧
          ∀ i, S.pending i = [] ∧ c.threads i = .ret (S.results i) :=
  ⟨System.fair_alternation, calls_return _ _ System.fair_alternation⟩

end ClearwaterSnmp.OidTree
