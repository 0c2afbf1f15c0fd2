import ClearwaterSnmp.AlarmRequests
import ClearwaterSnmp.GetNextWalk
import ClearwaterSnmp.PublishedTable

namespace ClearwaterSnmp
open Multipart

/-- What is in `_ctx` and `_sck`. The constructor sets neither. -/
inductive Pointer
  | unset
  | null
  | live
deriving DecidableEq

/-- What each library call of a `ZMQListener` would return if it were made now: whether it
succeeds, or what it yields. -/
structure StatsAnswers where
  ctxNew : Bool
  socket : Bool
  connect : Bool
  subscribe : Bool
  msgInit : Bool
  msgRecv : Except Errno String
  rcvmore : Except Errno Bool
  time : ℤ

/-- All goes well, and the given part arrives at the time 100. -/
def StatsAnswers.part (part : String) (more : Bool) : StatsAnswers :=
  ⟨true, true, true, true, true, .ok part, .ok more, 100⟩

/-- What a `start_stats` thread does next, with the parts of the message in hand. -/
inductive StatsPhase
  | newContext
  | newSocket
  | connect
  | subscribe (stats : List String)
  | initPart (msgs : Message)
  | recv (msgs : Message)
  | getMore (msgs : Message) (part : String)
  | storeTime (msgs : Message)
  | dispatch (msgs : Message)
  | handling (msgs : Message) (calls : List TreeCall)
  | closeSocket
  | destroyContext
  | ended
  | terminated

namespace StatsPhase

/-- A message that has been read whole and is not handled yet. -/
def inHand : StatsPhase → List Message
  | storeTime msgs | dispatch msgs | handling msgs _ => [msgs]
  | _ => []

/-- The parts read of the next message, as long as the listener is to go on with it. -/
def parts : StatsPhase → Option Message
  | newContext | newSocket | connect | subscribe _ => some []
  | initPart msgs | recv msgs | getMore msgs _ => some msgs
  | storeTime _ | dispatch _ | handling _ _ => some []
  | closeSocket | destroyContext | ended | terminated => none

end StatsPhase

/-- A variable that `clearwater_handler` has looked up, with the time it checked the age of the
data at. -/
structure StatsAnswer where
  now : ℤ
  mode : SnmpMode
  requested : Oid
  response : Option (Oid × ℕ)

/-- A plugin with its listener thread and the SNMP request it is answering. Not in the code are
the subscriptions, the parts that have been read, the messages that have been handled, each with
its time, the answers, and whether a pointer has been used that was never set. -/
structure StatsAgent where
  plugin : Plugin NodeData
  phase : StatsPhase
  ctx : Pointer
  sck : Pointer
  now : ℤ
  mode : SnmpMode
  pending : List (Oid × Bool)
  subscribed : List (String × List Char)
  heard : List (String × Bool)
  handled : List (ℤ × Message)
  answers : List StatsAnswer
  misused : Bool

namespace StatsAgent

variable (inet : InetPton) (node : NodeData)

/-- The end of a round of `handle_requests_forever`. -/
def finish (s : StatsAgent) (msgs : Message) : StatsAgent :=
  { s with
    phase := .initPart []
    handled := s.handled ++ [(s.plugin.lastSeenTime, msgs)] }

/-- The next library call, or the next operation on the globals, in `handle_requests_forever`
and, at its end, in the destructor. An exception that nothing catches ends the process. -/
def resume (a : StatsAnswers) (s : StatsAgent) : StatsAgent :=
  match s.phase with
  | .newContext =>
    if a.ctxNew then { s with phase := .newSocket, ctx := .live }
    else { s with phase := .closeSocket, ctx := .null }
  | .newSocket =>
    if a.socket then { s with phase := .connect, sck := .live }
    else { s with phase := .closeSocket, sck := .null }
  | .connect => { s with phase := if a.connect then .subscribe node.stats else .closeSocket }
  | .subscribe [] => { s with phase := .initPart [] }
  | .subscribe (stat :: stats) =>
    if a.subscribe then
      { s with
        phase := .subscribe stats
        subscribed := s.subscribed ++
          [("ipc:///var/run/clearwater/stats/" ++ node.name, cStr stat)] }
    else { s with phase := .closeSocket }
  | .initPart msgs => { s with phase := if a.msgInit then .recv msgs else .closeSocket }
  | .recv msgs =>
    match a.msgRecv with
    | .error .eintr => s
    | .error _ => { s with phase := .closeSocket }
    | .ok part => { s with phase := .getMore msgs part }
  | .getMore msgs part =>
    match a.rcvmore with
    | .error .eintr => s
    | .error _ => { s with phase := .closeSocket }
    | .ok more =>
      { s with
        phase := if more then .initPart (msgs ++ [part]) else .storeTime (msgs ++ [part])
        heard := s.heard ++ [(part, more)] }
  | .storeTime msgs =>
    { s with phase := .dispatch msgs, plugin := { s.plugin with lastSeenTime := a.time } }
  | .dispatch msgs =>
    match msgs with
    | messageType :: status :: _ =>
      if status = "OK" then
        match node.handlerAt messageType with
        | some handler => { s with phase := .handling msgs (handler.handle inet msgs) }
        | none => { s with phase := .terminated }
      else s.finish msgs
    | _ => s.finish msgs
  | .handling msgs [] => s.finish msgs
  | .handling msgs (call :: calls) =>
    { s with
      phase := .handling msgs calls
      plugin := { s.plugin with tree := call.apply s.plugin.tree } }
  | .closeSocket =>
    { s with phase := .destroyContext, sck := .null, misused := s.misused || s.sck = .unset }
  | .destroyContext => { s with phase := .ended, ctx := .null }
  | .ended | .terminated => s

/-- `clearwater_handler`, up to its loop over the requests. -/
def clearwater (now : ℤ) (mode : SnmpMode) (requests : List (Oid × Bool)) (s : StatsAgent) :
    StatsAgent :=
  { s with
    plugin := s.plugin.createThread
    now := now
    mode := mode
    pending := if now - s.plugin.lastSeenTime < Plugin.timeoutThreshold then requests else [] }

/-- One round of the loop over the requests. -/
def answer (s : StatsAgent) : StatsAgent :=
  match s.pending with
  | [] => s
  | request :: requests =>
    { s with
      pending := requests
      answers := s.answers ++ [⟨s.now, s.mode, request.1,
        if request.2 then none else Plugin.respond s.plugin.tree s.mode request.1⟩] }

/-- The listener goes on, a request comes in, or the next variable of the request is looked up. -/
inductive Turn
  | listener (a : StatsAnswers)
  | clearwater (now : ℤ) (mode : SnmpMode) (requests : List (Oid × Bool))
  | answer

/-- The listener runs once there is a thread for it, and for the node the thread was created
with. SNMP requests are answered one after the other, and none after the process has ended. -/
def step (s : StatsAgent) : Turn → StatsAgent
  | .listener a =>
    match s.plugin.listeners with
    | some node :: _ => s.resume inet node a
    | _ => s
  | .clearwater now mode requests =>
    match s.phase, s.pending with
    | .terminated, _ => s
    | _, _ :: _ => s
    | _, [] => s.clearwater now mode requests
  | .answer =>
    match s.phase with
    | .terminated => s
    | _ => s.answer

/-- The plugin after its nodes have been registered. -/
def start (registered : List NodeData) : StatsAgent where
  plugin := Plugin.registerAll registered
  phase := .newContext
  ctx := .unset
  sck := .unset
  now := 0
  mode := .other
  pending := []
  subscribed := []
  heard := []
  handled := []
  answers := []
  misused := false

def run (registered : List NodeData) (turns : List Turn) : StatsAgent :=
  Runs.run (step inet) (start registered) turns

/-- What a turn of the listener does, call by call. -/
inductive Resumed (inet : InetPton) (node : NodeData) (a : StatsAnswers) (s : StatsAgent) :
    StatsAgent → Prop
  | makesContext (h : s.phase = .newContext) (ha : a.ctxNew = true) :
      Resumed inet node a s { s with phase := .newSocket, ctx := .live }
  | lacksContext (h : s.phase = .newContext) (ha : a.ctxNew = false) :
      Resumed inet node a s { s with phase := .closeSocket, ctx := .null }
  | makesSocket (h : s.phase = .newSocket) :
      Resumed inet node a s { s with phase := .connect, sck := .live }
  | lacksSocket (h : s.phase = .newSocket) :
      Resumed inet node a s { s with phase := .closeSocket, sck := .null }
  | connects (h : s.phase = .connect) :
      Resumed inet node a s { s with phase := .subscribe node.stats }
  | subscribes {stat stats} (h : s.phase = .subscribe (stat :: stats)) :
      Resumed inet node a s { s with
        phase := .subscribe stats
        subscribed :=
          s.subscribed ++ [("ipc:///var/run/clearwater/stats/" ++ node.name, cStr stat)] }
  | listens (h : s.phase = .subscribe []) : Resumed inet node a s { s with phase := .initPart [] }
  | fails (h : s.phase = .connect ∨ (∃ stats, s.phase = .subscribe stats) ∨
      (∃ msgs, s.phase = .initPart msgs) ∨ (∃ msgs, s.phase = .recv msgs) ∨
      ∃ msgs part, s.phase = .getMore msgs part) :
      Resumed inet node a s { s with phase := .closeSocket }
  | interrupted (h : (∃ msgs, s.phase = .recv msgs) ∨ ∃ msgs part, s.phase = .getMore msgs part) :
      Resumed inet node a s s
  | inits {msgs} (h : s.phase = .initPart msgs) :
      Resumed inet node a s { s with phase := .recv msgs }
  | receives {msgs part} (h : s.phase = .recv msgs) :
      Resumed inet node a s { s with phase := .getMore msgs part }
  | hearsMore {msgs part} (h : s.phase = .getMore msgs part) :
      Resumed inet node a s { s with
        phase := .initPart (msgs ++ [part])
        heard := s.heard ++ [(part, true)] }
  | hearsLast {msgs part} (h : s.phase = .getMore msgs part) :
      Resumed inet node a s { s with
        phase := .storeTime (msgs ++ [part])
        heard := s.heard ++ [(part, false)] }
  | stores {msgs} (h : s.phase = .storeTime msgs) :
      Resumed inet node a s { s with
        phase := .dispatch msgs
        plugin := { s.plugin with lastSeenTime := a.time } }
  | dispatches {msgs handler} (h : s.phase = .dispatch msgs)
      (hat : node.handlerOf msgs = some handler) :
      Resumed inet node a s { s with phase := .handling msgs (handler.handle inet msgs) }
  | throws {msgs} (h : s.phase = .dispatch msgs) :
      Resumed inet node a s { s with phase := .terminated }
  | passesOver {msgs} (h : s.phase = .dispatch msgs) (hok : ¬Plugin.IsOk msgs) :
      Resumed inet node a s (s.finish msgs)
  | calls {msgs call calls} (h : s.phase = .handling msgs (call :: calls)) :
      Resumed inet node a s { s with
        phase := .handling msgs calls
        plugin := { s.plugin with tree := call.apply s.plugin.tree } }
  | finishes {msgs} (h : s.phase = .handling msgs []) : Resumed inet node a s (s.finish msgs)
  | closes (h : s.phase = .closeSocket) :
      Resumed inet node a s { s with
        phase := .destroyContext
        sck := .null
        misused := s.misused || s.sck = .unset }
  | destroys (h : s.phase = .destroyContext) :
      Resumed inet node a s { s with phase := .ended, ctx := .null }
  | idles (h : s.phase = .ended ∨ s.phase = .terminated) : Resumed inet node a s s

theorem resumed_dispatch {s : StatsAgent} {msgs : Message} (a : StatsAnswers)
    (h : s.phase = .dispatch msgs) : Resumed inet node a s (s.resume inet node a) := by
  simp only [resume, h]
  split
  case h_1 messageType status parts =>
    split
    case isTrue hok =>
      subst hok
      split
      case h_1 handler hat => exact .dispatches h hat
      case h_2 => exact .throws h
    case isFalse hok =>
      refine .passesOver h fun hk => hok ?_
      exact Option.some.inj hk
  case h_2 hshort =>
    refine .passesOver h fun hk => ?_
    obtain ⟨messageType, parts, rfl⟩ := Plugin.eq_cons_of_isOk hk
    exact hshort messageType "OK" parts rfl

theorem resumed (a : StatsAnswers) (s : StatsAgent) :
    Resumed inet node a s (s.resume inet node a) := by
  cases h : s.phase with
  | newContext =>
    cases ha : a.ctxNew with
    | true => simpa [resume, h, ha] using Resumed.makesContext h ha
    | false => simpa [resume, h, ha] using Resumed.lacksContext h ha
  | newSocket =>
    cases ha : a.socket with
    | true => simpa [resume, h, ha] using Resumed.makesSocket h
    | false => simpa [resume, h, ha] using Resumed.lacksSocket h
  | connect =>
    cases ha : a.connect with
    | true => simpa [resume, h, ha] using Resumed.connects h
    | false => simpa [resume, h, ha] using Resumed.fails (.inl h)
  | subscribe stats =>
    cases stats with
    | nil => simpa [resume, h] using Resumed.listens h
    | cons stat stats =>
      cases ha : a.subscribe with
      | true => simpa [resume, h, ha] using Resumed.subscribes h
      | false => simpa [resume, h, ha] using Resumed.fails (.inr (.inl ⟨_, h⟩))
  | initPart msgs =>
    cases ha : a.msgInit with
    | true => simpa [resume, h, ha] using Resumed.inits h
    | false => simpa [resume, h, ha] using Resumed.fails (.inr (.inr (.inl ⟨_, h⟩)))
  | recv msgs =>
    simp only [resume, h]
    split
    case h_1 => exact .interrupted (.inl ⟨_, h⟩)
    case h_2 => exact .fails (.inr (.inr (.inr (.inl ⟨_, h⟩))))
    case h_3 => exact .receives h
  | getMore msgs part =>
    simp only [resume, h]
    split
    case h_1 => exact .interrupted (.inr ⟨_, _, h⟩)
    case h_2 => exact .fails (.inr (.inr (.inr (.inr ⟨_, _, h⟩))))
    case h_3 more _ =>
      cases more with
      | true => exact .hearsMore h
      | false => exact .hearsLast h
  | storeTime msgs => simpa [resume, h] using Resumed.stores h
  | dispatch msgs => exact resumed_dispatch inet node a h
  | handling msgs calls =>
    cases calls with
    | nil => simpa [resume, h] using Resumed.finishes h
    | cons call calls => simpa [resume, h] using Resumed.calls h
  | closeSocket => simpa [resume, h] using Resumed.closes h
  | destroyContext => simpa [resume, h] using Resumed.destroys h
  | ended => simpa [resume, h] using Resumed.idles (.inl h)
  | terminated => simpa [resume, h] using Resumed.idles (.inr h)

variable {inet node} {registered : List NodeData} {s : StatsAgent}

theorem plugin_resume (inet : InetPton) (node : NodeData) (a : StatsAnswers) (s : StatsAgent) :
    (s.resume inet node a).plugin.globalNodeData = s.plugin.globalNodeData ∧
      (s.resume inet node a).plugin.listeners = s.plugin.listeners ∧
      (s.resume inet node a).plugin.threadCreated = s.plugin.threadCreated := by
  have hr := resumed inet node a s
  generalize s.resume inet node a = s' at hr
  cases hr <;> exact ⟨rfl, rfl, rfl⟩

/-- Every thread listens to the node that was registered last. -/
def Listening (node : NodeData) (s : StatsAgent) : Prop :=
  s.plugin.globalNodeData = some node ∧ ∀ n ∈ s.plugin.listeners, n = some node

theorem Listening.clearwater (h : Listening node s) (now : ℤ) (mode : SnmpMode)
    (requests : List (Oid × Bool)) : Listening node (s.clearwater now mode requests) := by
  unfold Listening StatsAgent.clearwater Plugin.createThread
  split
  · exact h
  · refine ⟨h.1, fun n hn => ?_⟩
    rcases List.mem_append.mp hn with hn | hn
    · exact h.2 n hn
    · rw [List.mem_singleton.mp hn]
      exact h.1

/-- What a turn does to a listening plugin: nothing, or one of three things. -/
theorem step_cases (inet : InetPton) (h : Listening node s) (turn : Turn) :
    step inet s turn = s ∨
      (∃ a, s.plugin.listeners ≠ [] ∧ step inet s turn = s.resume inet node a) ∨
      (∃ now mode requests, s.pending = [] ∧
        step inet s turn = s.clearwater now mode requests) ∨
      step inet s turn = s.answer := by
  cases turn with
  | listener a =>
    simp only [step]
    split
    case h_1 node' listeners heq =>
      have hnode : some node' = some node := h.2 _ (by rw [heq]; exact List.mem_cons_self)
      cases hnode
      exact .inr (.inl ⟨a, by simp [heq], rfl⟩)
    case h_2 => exact .inl rfl
  | clearwater now mode requests =>
    simp only [step]
    split
    case h_1 => exact .inl rfl
    case h_2 => exact .inl rfl
    case h_3 hpending _ => exact .inr (.inr (.inl ⟨now, mode, requests, hpending, rfl⟩))
  | answer =>
    simp only [step]
    split
    case h_1 => exact .inl rfl
    case h_2 => exact .inr (.inr (.inr rfl))

theorem Listening.step (h : Listening node s) (turn : Turn) :
    Listening node (s.step inet turn) := by
  rcases step_cases inet h turn with heq | ⟨a, -, heq⟩ | ⟨now, mode, requests, -, heq⟩ | heq <;>
    rw [heq]
  · exact h
  · obtain ⟨hglobal, hlisteners, -⟩ := plugin_resume inet node a s
    exact ⟨hglobal.trans h.1, by rw [hlisteners]; exact h.2⟩
  · exact h.clearwater now mode requests
  · unfold answer
    split <;> exact h

theorem listening_start (hlast : registered.getLast? = some node) :
    Listening node (start registered) := by
  obtain ⟨-, hlisteners, hglobal⟩ := Plugin.registerAll_eq registered
  refine ⟨hglobal.trans hlast, fun n hn => ?_⟩
  rw [show (start registered).plugin.listeners = [] from hlisteners] at hn
  cases hn

theorem listening_run (inet : InetPton) (hlast : registered.getLast? = some node)
    (turns : List Turn) : Listening node (run inet registered turns) :=
  Runs.run_invariant (fun _ turn h => h.step turn) (listening_start hlast) turns

/-- The rule for invariants: the listener, a request and the lookup of a variable keep it in
every state that some turns lead to. -/
theorem run_keeps {I : StatsAgent → Prop} (hlast : registered.getLast? = some node)
    (hresume : ∀ turns a, (run inet registered turns).plugin.listeners ≠ [] →
      I (run inet registered turns) → I ((run inet registered turns).resume inet node a))
    (hclearwater : ∀ turns now mode requests, (run inet registered turns).pending = [] →
      I (run inet registered turns) → I ((run inet registered turns).clearwater now mode requests))
    (hanswer : ∀ turns, I (run inet registered turns) → I (run inet registered turns).answer)
    (hstart : I (start registered)) (turns : List Turn) : I (run inet registered turns) := by
  induction turns using List.reverseRecOn with
  | nil => exact hstart
  | append_singleton turns turn ih =>
    rw [run, Runs.run_append]
    change I (step inet (run inet registered turns) turn)
    rcases step_cases inet (listening_run inet hlast turns) turn with heq | ⟨a, hl, heq⟩ |
      ⟨now, mode, requests, hp, heq⟩ | heq <;> rw [heq]
    · exact ih
    · exact hresume turns a hl ih
    · exact hclearwater turns now mode requests hp ih
    · exact hanswer turns ih

/-! ## Framing -/

/-- The messages that have been read whole. -/
def whole (s : StatsAgent) : List Message := s.handled.map Prod.snd ++ s.phase.inHand

/-- How they relate to the parts that have been read. -/
structure Framed (s : StatsAgent) : Prop where
  sofar : s.whole <+: (assemble s.heard).whole
  going : ∀ msgs, s.phase.parts = some msgs → assemble s.heard = ⟨s.whole, msgs⟩

/-- A turn that reads no part, and after which the same messages have been read whole. -/
theorem Framed.of_eq {s' : StatsAgent} (h : s.Framed) (hheard : s'.heard = s.heard)
    (hwhole : s'.whole = s.whole)
    (hparts : s'.phase.parts = none ∨ s'.phase.parts = s.phase.parts) : s'.Framed := by
  refine ⟨?_, fun msgs hmsgs => ?_⟩
  · rw [hheard, hwhole]
    exact h.sofar
  · rw [hheard, hwhole]
    rcases hparts with hnone | heq
    · rw [hnone] at hmsgs
      cases hmsgs
    · exact h.going msgs (heq ▸ hmsgs)

theorem whole_eq {s' : StatsAgent} (hhandled : s'.handled = s.handled)
    (hhand : s'.phase.inHand = s.phase.inHand) : s'.whole = s.whole := by
  rw [whole, hhandled, hhand]
  rfl

theorem whole_finish {msgs : Message} (hhand : s.phase.inHand = [msgs]) :
    (s.finish msgs).whole = s.whole := by
  have hs : s.whole = s.handled.map Prod.snd ++ [msgs] := by rw [whole, hhand]
  rw [hs]
  simp [finish, whole, StatsPhase.inHand]

theorem Framed.resume (h : s.Framed) (a : StatsAnswers) : (s.resume inet node a).Framed := by
  have hr := resumed inet node a s
  generalize s.resume inet node a = s' at hr
  cases hr with
  | makesContext hp _ =>
    exact h.of_eq rfl (whole_eq rfl (by rw [hp]; rfl)) (.inr (by rw [hp]; rfl))
  | lacksContext hp _ => exact h.of_eq rfl (whole_eq rfl (by rw [hp]; rfl)) (.inl rfl)
  | makesSocket hp =>
    exact h.of_eq rfl (whole_eq rfl (by rw [hp]; rfl)) (.inr (by rw [hp]; rfl))
  | lacksSocket hp => exact h.of_eq rfl (whole_eq rfl (by rw [hp]; rfl)) (.inl rfl)
  | connects hp =>
    exact h.of_eq rfl (whole_eq rfl (by rw [hp]; rfl)) (.inr (by rw [hp]; rfl))
  | subscribes hp =>
    exact h.of_eq rfl (whole_eq rfl (by rw [hp]; rfl)) (.inr (by rw [hp]; rfl))
  | listens hp =>
    exact h.of_eq rfl (whole_eq rfl (by rw [hp]; rfl)) (.inr (by rw [hp]; rfl))
  | fails hf =>
    refine h.of_eq rfl (whole_eq rfl ?_) (.inl rfl)
    obtain hp | ⟨_, hp⟩ | ⟨_, hp⟩ | ⟨_, hp⟩ | ⟨_, _, hp⟩ := hf <;> rw [hp] <;> rfl
  | interrupted _ => exact h
  | inits hp =>
    exact h.of_eq rfl (whole_eq rfl (by rw [hp]; rfl)) (.inr (by rw [hp]; rfl))
  | receives hp =>
    exact h.of_eq rfl (whole_eq rfl (by rw [hp]; rfl)) (.inr (by rw [hp]; rfl))
  | @hearsMore msgs part hp =>
    have hw : s.whole = s.handled.map Prod.snd ++ [] := by rw [whole, hp]; rfl
    have hnew : assemble (s.heard ++ [(part, true)]) =
        ⟨s.handled.map Prod.snd ++ [], msgs ++ [part]⟩ := by
      rw [assemble_concat, h.going msgs (by rw [hp]; rfl), hw]
      rfl
    refine ⟨?_, fun msgs' hmsgs' => ?_⟩
    · change _ <+: (assemble (s.heard ++ [(part, true)])).whole
      rw [hnew]
      exact List.prefix_refl _
    · cases hmsgs'
      exact hnew
  | @hearsLast msgs part hp =>
    have hw : s.whole = s.handled.map Prod.snd := by
      rw [whole, hp]
      exact List.append_nil _
    have hnew : assemble (s.heard ++ [(part, false)]) =
        ⟨s.handled.map Prod.snd ++ [msgs ++ [part]], []⟩ := by
      rw [assemble_concat, h.going msgs (by rw [hp]; rfl), hw]
      rfl
    refine ⟨?_, fun msgs' hmsgs' => ?_⟩
    · change _ <+: (assemble (s.heard ++ [(part, false)])).whole
      rw [hnew]
      exact List.prefix_refl _
    · cases hmsgs'
      exact hnew
  | stores hp =>
    exact h.of_eq rfl (whole_eq rfl (by rw [hp]; rfl)) (.inr (by rw [hp]; rfl))
  | dispatches hp _ =>
    exact h.of_eq rfl (whole_eq rfl (by rw [hp]; rfl)) (.inr (by rw [hp]; rfl))
  | throws hp =>
    refine ⟨List.IsPrefix.trans ?_ h.sofar, fun msgs hmsgs => by cases hmsgs⟩
    change s.handled.map Prod.snd ++ [] <+: s.whole
    rw [List.append_nil]
    exact List.prefix_append _ _
  | passesOver hp _ =>
    exact h.of_eq rfl (whole_finish (by rw [hp]; rfl)) (.inr (by rw [hp]; rfl))
  | calls hp =>
    exact h.of_eq rfl (whole_eq rfl (by rw [hp]; rfl)) (.inr (by rw [hp]; rfl))
  | finishes hp => exact h.of_eq rfl (whole_finish (by rw [hp]; rfl)) (.inr (by rw [hp]; rfl))
  | closes hp => exact h.of_eq rfl (whole_eq rfl (by rw [hp]; rfl)) (.inl rfl)
  | destroys hp => exact h.of_eq rfl (whole_eq rfl (by rw [hp]; rfl)) (.inl rfl)
  | idles _ => exact h

theorem answer_eq (s : StatsAgent) :
    ∃ pending answers, s.answer = { s with pending := pending, answers := answers } := by
  unfold answer
  split
  · exact ⟨s.pending, s.answers, rfl⟩
  · exact ⟨_, _, rfl⟩

theorem framed_run (inet : InetPton) (hlast : registered.getLast? = some node) (turns : List Turn) :
    (run inet registered turns).Framed := by
  refine run_keeps hlast (fun _ a _ h => h.resume a) (fun _ now mode requests _ h => ?_)
    (fun pre h => ?_) ?_ turns
  · exact ⟨h.sofar, h.going⟩
  · obtain ⟨pending, answers, heq⟩ := (run inet registered pre).answer_eq
    rw [heq]
    exact ⟨h.sofar, h.going⟩
  · refine ⟨List.nil_prefix, fun msgs hmsgs => ?_⟩
    cases hmsgs
    rfl

end StatsAgent
end ClearwaterSnmp
