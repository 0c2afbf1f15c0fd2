import ClearwaterSnmp.NodeData
import ClearwaterSnmp.Runs

namespace ClearwaterSnmp

/-- What `ZMQListener::connect_and_subscribe` asks for: the endpoint it connects to and the
statistics it subscribes to there. -/
def NodeData.subscriptions (node : NodeData) : List (String × List Char) :=
  node.stats.map fun stat => ("ipc:///var/run/clearwater/stats/" ++ node.name, cStr stat)

inductive SnmpMode
  | get
  | getNext
  | other
deriving DecidableEq

/-- The globals of `custom_handler.cpp`, with the argument of every `start_stats` thread.
Node data is known by its pointer. -/
structure Plugin (ν : Type*) where
  tree : OidTree
  lastSeenTime : ℤ
  threadCreated : Bool
  globalNodeData : Option ν
  listeners : List (Option ν)

namespace Plugin

variable {ν : Type*}

def initial : Plugin ν := ⟨.empty, 0, false, none, []⟩

/-- `initialize_handler` -/
def initializeHandler (p : Plugin ν) (nodeData : ν) : Plugin ν :=
  { p with threadCreated := false, lastSeenTime := 0, globalNodeData := some nodeData }

/-- `TIMEOUT_THRESHOLD` -/
def timeoutThreshold : ℤ := 15

/-- The thread that `clearwater_handler` creates on the first request. -/
def createThread (p : Plugin ν) : Plugin ν :=
  if p.threadCreated then p
  else { p with threadCreated := true, listeners := p.listeners ++ [p.globalNodeData] }

/-- The variable that answers a request, if any: its OID and its unsigned value. -/
def respond (tree : OidTree) (mode : SnmpMode) (thisOid : Oid) : Option (Oid × ℕ) :=
  match mode with
  | .get => (tree.get thisOid).map fun outval => (thisOid, (outval % 2 ^ 32).toNat)
  | .getNext => (tree.getNext thisOid).map fun out => (out.1, (out.2 % 2 ^ 32).toNat)
  | .other => none

/-- `clearwater_handler` at the time `now`. A request comes with whether it has been
processed before; old data is not served. -/
def clearwaterHandler (now : ℤ) (mode : SnmpMode) (requests : List (Oid × Bool)) (p : Plugin ν) :
    Plugin ν × List (Option (Oid × ℕ)) :=
  let p := p.createThread
  if now - p.lastSeenTime < timeoutThreshold then
    (p, requests.map fun request => if request.2 then none else respond p.tree mode request.1)
  else (p, requests.map fun _ => none)

/-- What happens once the nodes are registered: SNMP requests, for this plugin or for
others, and messages, with the time and the tree a listener leaves behind. -/
inductive Event
  | clearwater (now : ℤ) (mode : SnmpMode) (requests : List (Oid × Bool))
  | elsewhere
  | message (now : ℤ) (tree : OidTree)

def Event.isClearwater : Event → Bool
  | clearwater .. => true
  | _ => false

def step (p : Plugin ν) : Event → Plugin ν
  | .clearwater now mode requests => (p.clearwaterHandler now mode requests).1
  | .elsewhere => p
  | .message now tree => { p with lastSeenTime := now, tree := tree }

/-- The plugin after its nodes have been registered one by one. -/
def registerAll (registered : List ν) : Plugin ν := registered.foldl initializeHandler initial

/-- The subscriptions of all listeners. -/
def subscriptions (nodes : ν → NodeData) (p : Plugin ν) : List (String × List Char) :=
  p.listeners.flatMap fun nodeData => (nodeData.map fun n => (nodes n).subscriptions).getD []

theorem clearwaterHandler_fst (now : ℤ) (mode : SnmpMode) (requests : List (Oid × Bool))
    (p : Plugin ν) : (p.clearwaterHandler now mode requests).1 = p.createThread := by
  rw [clearwaterHandler]
  split <;> rfl

@[simp] theorem createThread_tree (p : Plugin ν) : p.createThread.tree = p.tree := by
  unfold createThread
  split <;> rfl

@[simp] theorem createThread_lastSeenTime (p : Plugin ν) :
    p.createThread.lastSeenTime = p.lastSeenTime := by
  unfold createThread
  split <;> rfl

theorem clearwaterHandler_of_fresh {p : Plugin ν} {now : ℤ}
    (hfresh : now - p.lastSeenTime < timeoutThreshold) (mode : SnmpMode)
    (requests : List (Oid × Bool)) :
    (p.clearwaterHandler now mode requests).2 =
      requests.map fun request => if request.2 then none else respond p.tree mode request.1 := by
  rw [clearwaterHandler, createThread_lastSeenTime, if_pos hfresh, createThread_tree]

/-- Registration leaves only the last node to be listened to. -/
theorem registerAll_eq (registered : List ν) :
    (registerAll registered).threadCreated = false ∧ (registerAll registered).listeners = [] ∧
      (registerAll registered).globalNodeData = registered.getLast? := by
  -- from the end, since each registration overwrites the one before
  induction registered using List.reverseRecOn with
  | nil => exact ⟨rfl, rfl, rfl⟩
  | append_singleton registered n ih =>
    obtain ⟨-, hlisteners, -⟩ := ih
    rw [registerAll, List.foldl_append]
    refine ⟨rfl, hlisteners, ?_⟩
    rw [List.getLast?_concat]
    rfl

/-- The first request starts one listener, and nothing starts another. -/
theorem listeners_run (p : Plugin ν) (events : List Event) :
    (Runs.run step p events).listeners =
      if p.threadCreated = false ∧ events.any Event.isClearwater then
        p.listeners ++ [p.globalNodeData]
      else p.listeners := by
  induction events generalizing p with
  | nil => simp
  | cons e events ih =>
    rw [Runs.run_cons, ih]
    cases e with
    | clearwater now mode requests =>
      rw [step, clearwaterHandler_fst, createThread]
      cases hp : p.threadCreated <;> simp [hp, Event.isClearwater]
    | elsewhere => simp [step, Event.isClearwater]
    | message now tree => simp [step, Event.isClearwater]

/-- Every registered node has a listener, and with it all its subscriptions, and no node has
two. -/
structure ListenedTo [DecidableEq ν] (nodes : ν → NodeData) (registered : List ν)
    (p : Plugin ν) : Prop where
  listener : ∀ n ∈ registered, some n ∈ p.listeners
  subscribed : ∀ n ∈ registered, ∀ s ∈ (nodes n).subscriptions, s ∈ p.subscriptions nodes
  once : ∀ n ∈ registered, p.listeners.count (some n) ≤ 1

/-- All registered nodes are listened to exactly if they are all the one registered last. -/
theorem listenedTo_iff [DecidableEq ν] (nodes : ν → NodeData) (registered : List ν)
    {events : List Event} (hreq : events.any Event.isClearwater = true) :
    ListenedTo nodes registered (Runs.run step (registerAll registered) events) ↔
      ∀ n ∈ registered, registered.getLast? = some n := by
  obtain ⟨hcreated, hlisteners, hglobal⟩ := registerAll_eq registered
  have hrun : (Runs.run step (registerAll registered) events).listeners =
      [registered.getLast?] := by
    rw [listeners_run, if_pos ⟨hcreated, hreq⟩, hlisteners, hglobal, List.nil_append]
  constructor
  · intro h n hn
    have hmem := h.listener n hn
    rw [hrun, List.mem_singleton] at hmem
    exact hmem.symm
  · intro h
    refine ⟨fun n hn => ?_, fun n hn s hs => ?_, fun n hn => ?_⟩
    · rw [hrun, h n hn]
      exact List.mem_singleton_self _
    · rw [subscriptions, hrun, h n hn]
      simpa using hs
    · rw [hrun]
      exact List.count_le_length

theorem listenedTo_cdiv :
    (∀ n ∈ [()], [()].getLast? = some n) ∧
      ListenedTo (fun _ : Unit => NodeData.cdiv) [()]
        (Runs.run step (registerAll [()]) [.clearwater 0 .get []]) :=
  have h : ∀ n ∈ [()], [()].getLast? = some n := by decide
  ⟨h, (listenedTo_iff (fun _ => NodeData.cdiv) [()] rfl).mpr h⟩

/-- `init_memento_handler` registers two nodes, and the first is never listened to. -/
theorem memento_http_not_listenedTo :
    ¬ListenedTo (fun http => if http then NodeData.mementoHttp else NodeData.mementoAuth)
      [true, false] (Runs.run step (registerAll [true, false]) [.clearwater 0 .get []]) := by
  intro h
  exact absurd (h.listener true (by decide)) (by decide)

end Plugin
end ClearwaterSnmp
