import ClearwaterSnmp.NodeListeners

namespace ClearwaterSnmp

namespace NodeData

/-- The list of statistics is the key set of the map of handlers. -/
def StatsAreKeys (node : NodeData) : Prop :=
  ∀ stat, stat ∈ node.stats ↔ stat ∈ node.statToHandler.map Prod.fst

/-- `stat_to_handler.at`, which throws if there is no such key. -/
def handlerAt (node : NodeData) (messageType : String) : Option StatHandler :=
  node.statToHandler.lookup messageType

/-- The socket delivers what begins with one of the subscribed strings. -/
def Delivers (node : NodeData) (msgs : Message) : Prop :=
  ∃ topic ∈ msgs.head?, ∃ subscription ∈ node.subscriptions, subscription.2 <+: topic.toList

theorem exists_lookup_iff {α : Type*} (entries : List (String × α)) (key : String) :
    (∃ x, entries.lookup key = some x) ↔ key ∈ entries.map Prod.fst := by
  rw [← Option.isSome_iff_exists, List.lookup_isSome_iff, List.mem_map]
  constructor
  · rintro ⟨e, he, hkey⟩
    exact ⟨e, he, (eq_of_beq hkey).symm⟩
  · rintro ⟨e, he, hkey⟩
    exact ⟨e, he, beq_of_eq hkey.symm⟩

theorem exists_handlerAt_iff {node : NodeData} (hnode : node.StatsAreKeys) (messageType : String) :
    (∃ handler, node.handlerAt messageType = some handler) ↔ messageType ∈ node.stats := by
  rw [hnode]
  exact exists_lookup_iff node.statToHandler messageType

theorem statsAreKeys_of_mem {node : NodeData}
    (h : node ∈ [cdiv, mementoHttp, mementoAuth, mementoAs, astaire]) : node.StatsAreKeys := by
  simp only [List.mem_cons, List.not_mem_nil, or_false] at h
  rcases h with rfl | rfl | rfl | rfl | rfl <;> exact fun _ => Iff.rfl

end NodeData

namespace Plugin

variable {ν : Type*} (inet : InetPton) (node : NodeData)

/-- What `handle_requests_forever` does with a message it has read at the time `now`. There is
no result if `at` throws, which nothing catches. -/
def handleRequest (now : ℤ) (msgs : Message) (p : Plugin ν) : Option (Plugin ν) :=
  let p := { p with lastSeenTime := now }
  match msgs with
  | messageType :: status :: _ =>
    if status = "OK" then
      (node.handlerAt messageType).map fun handler =>
        { p with tree := handler.process inet msgs p.tree }
    else some p
  | _ => some p

/-- The loop of `handle_requests_forever`, over the messages with the times they are read at. -/
def handleRequestsForever (received : List (ℤ × Message)) (p : Plugin ν) : Option (Plugin ν) :=
  received.foldlM (fun p r => handleRequest inet node r.1 r.2 p) p

/-- At least two parts, of which the second is `OK`. -/
def IsOk (msgs : Message) : Prop := msgs[1]? = some "OK"

/-- One message is treated as it should be: an `OK` message goes to the handler for its first
part, and any other changes nothing but the time. -/
structure Dispatches (now : ℤ) (msgs : Message) (p : Plugin ν) : Prop where
  ok : IsOk msgs → ∃ messageType ∈ msgs.head?, ∃ handler,
    node.handlerAt messageType = some handler ∧
      handleRequest inet node now msgs p =
        some { p with lastSeenTime := now, tree := handler.process inet msgs p.tree }
  other : ¬IsOk msgs → handleRequest inet node now msgs p = some { p with lastSeenTime := now }

/-- Every message is treated so, and none ends the thread. -/
def DispatchesAll : List (ℤ × Message) → Plugin ν → Prop
  | [], _ => True
  | (now, msgs) :: received, p =>
    Dispatches inet node now msgs p ∧
      ∃ p', handleRequest inet node now msgs p = some p' ∧ DispatchesAll received p'

variable {inet node}

theorem handleRequest_of_ok {messageType : String} {parts : List String} {now : ℤ} {p : Plugin ν} :
    handleRequest inet node now (messageType :: "OK" :: parts) p =
      (node.handlerAt messageType).map fun handler =>
        { p with
          lastSeenTime := now
          tree := handler.process inet (messageType :: "OK" :: parts) p.tree } := by
  rw [handleRequest, if_pos rfl]

theorem eq_cons_of_isOk {msgs : Message} (h : IsOk msgs) :
    ∃ messageType parts, msgs = messageType :: "OK" :: parts := by
  match msgs, h with
  | messageType :: _ :: parts, rfl => exact ⟨messageType, parts, rfl⟩

theorem handleRequest_of_not_ok {msgs : Message} (h : ¬IsOk msgs) (now : ℤ) (p : Plugin ν) :
    handleRequest inet node now msgs p = some { p with lastSeenTime := now } := by
  match msgs with
  | [] => rfl
  | [_] => rfl
  | messageType :: status :: parts =>
    have hne : status ≠ "OK" := fun hs => h (congrArg some hs)
    rw [handleRequest, if_neg hne]

/-- The first part is a statistic of the node. -/
def IsStat (node : NodeData) (msgs : Message) : Prop := ∃ topic ∈ msgs.head?, topic ∈ node.stats

theorem dispatches_iff (inet : InetPton) (hnode : node.StatsAreKeys) (now : ℤ) (msgs : Message)
    (p : Plugin ν) :
    Dispatches inet node now msgs p ↔ (IsOk msgs → IsStat node msgs) := by
  constructor
  · intro h hok
    obtain ⟨messageType, hhead, handler, hat, -⟩ := h.ok hok
    exact ⟨messageType, hhead, (NodeData.exists_handlerAt_iff hnode _).mp ⟨handler, hat⟩⟩
  · intro h
    refine ⟨?_, fun hok => handleRequest_of_not_ok hok now p⟩
    intro hok
    obtain ⟨topic, hhead, hstat⟩ := h hok
    obtain ⟨handler, hat⟩ := (NodeData.exists_handlerAt_iff hnode _).mpr hstat
    obtain ⟨messageType, parts, rfl⟩ := eq_cons_of_isOk hok
    cases hhead
    refine ⟨topic, rfl, handler, hat, ?_⟩
    rw [handleRequest_of_ok, hat]
    rfl

theorem Dispatches.exists_some {now : ℤ} {msgs : Message} {p : Plugin ν}
    (h : Dispatches inet node now msgs p) :
    ∃ p', handleRequest inet node now msgs p = some p' := by
  by_cases hok : IsOk msgs
  · obtain ⟨_, _, _, _, hp'⟩ := h.ok hok
    exact ⟨_, hp'⟩
  · exact ⟨_, h.other hok⟩

/-- A run in which every message is dispatched does not end. -/
theorem DispatchesAll.exists_some {received : List (ℤ × Message)} {p : Plugin ν}
    (h : DispatchesAll inet node received p) :
    ∃ p', handleRequestsForever inet node received p = some p' := by
  induction received generalizing p with
  | nil => exact ⟨p, rfl⟩
  | cons r received ih =>
    obtain ⟨-, p', hp', hrest⟩ := h
    obtain ⟨p'', hp''⟩ := ih hrest
    refine ⟨p'', ?_⟩
    rw [handleRequestsForever, List.foldlM_cons]
    show (handleRequest inet node r.1 r.2 p).bind _ = _
    rw [hp']
    exact hp''

theorem dispatchesAll_iff (inet : InetPton) (hnode : node.StatsAreKeys)
    (received : List (ℤ × Message)) (p : Plugin ν) :
    DispatchesAll inet node received p ↔ ∀ r ∈ received, IsOk r.2 → IsStat node r.2 := by
  induction received generalizing p with
  | nil => simp [DispatchesAll]
  | cons r received ih =>
    rw [List.forall_mem_cons, ← dispatches_iff inet hnode r.1 r.2 p]
    constructor
    · rintro ⟨hstep, p', -, hrest⟩
      exact ⟨hstep, (ih p').mp hrest⟩
    · rintro ⟨hstep, hrest⟩
      obtain ⟨p', hp'⟩ := hstep.exists_some
      exact ⟨hstep, p', hp', (ih p').mpr hrest⟩

/-- The listener of a node treats a sequence of messages as it should, and goes on, exactly if
the first part of every `OK` message is one of the statistics and not only begins with one. -/
theorem every_message_dispatched_iff (inet : InetPton) (node : NodeData)
    (hnode : node.StatsAreKeys) (received : List (ℤ × Message)) (p : Plugin ν) :
    (DispatchesAll inet node received p ∧
      ∃ p', handleRequestsForever inet node received p = some p') ↔
      ∀ r ∈ received, IsOk r.2 → IsStat node r.2 := by
  rw [← dispatchesAll_iff inet hnode received p]
  exact ⟨And.left, fun h => ⟨h, h.exists_some⟩⟩

theorem every_message_dispatched_sample :
    (DispatchesAll ⟨fun _ => none, fun _ => none⟩ .cdiv [(5, ["cdiv_busy", "OK", "3"])]
        (initial : Plugin NodeData) ∧
      ∃ p', handleRequestsForever ⟨fun _ => none, fun _ => none⟩ .cdiv
        [(5, ["cdiv_busy", "OK", "3"])] (initial : Plugin NodeData) = some p') ↔
      ∀ r ∈ [((5 : ℤ), ["cdiv_busy", "OK", "3"])], IsOk r.2 → IsStat .cdiv r.2 :=
  every_message_dispatched_iff _ .cdiv (NodeData.statsAreKeys_of_mem List.mem_cons_self) _ _

/-- A topic that goes on after the name of a statistic is delivered, and ends the listener. -/
theorem longer_topic_ends_listener :
    NodeData.cdiv.StatsAreKeys ∧ NodeData.cdiv.Delivers ["cdiv_total_failed", "OK", "3"] ∧
      NodeData.cdiv.handlerAt "cdiv_total_failed" = none ∧
      handleRequestsForever ⟨fun _ => none, fun _ => none⟩ .cdiv
        [(5, ["cdiv_total_failed", "OK", "3"])] (initial : Plugin NodeData) = none := by
  have hat : NodeData.cdiv.handlerAt "cdiv_total_failed" = none := by decide
  refine ⟨NodeData.statsAreKeys_of_mem List.mem_cons_self,
    ⟨_, rfl, _, List.mem_cons_self, by decide⟩, hat, ?_⟩
  rw [handleRequestsForever, List.foldlM_cons, handleRequest_of_ok, hat]
  rfl

end Plugin
end ClearwaterSnmp
