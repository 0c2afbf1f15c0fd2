import ClearwaterSnmp.AlarmRequests
import ClearwaterSnmp.WakeUp

namespace ClearwaterSnmp
open AlarmScheduler

variable {H : Type} {cfg : Setup H}

/-- Where `main` of the alarms agent is, from the wait on `term_sem` on. `stoppingScheduler`,
`joining` and `freeingScheduler` are the three parts of `~AlarmScheduler`. -/
inductive MainThread
  | waiting
  | deletingListener
  | stoppingScheduler
  | joining
  | freeingScheduler
  | terminatingSnmp
  | deletingDefs
  | exited
deriving DecidableEq, Repr

/-- What `main` deletes. The lock is the one that the scheduler shares with Net-SNMP. -/
inductive Shared
  | alarmReqListener
  | alarmScheduler
  | lock
  | alarmTableDefs
deriving DecidableEq, Repr

/-- What is gone by then. The three parts of the scheduler that its destructor deletes after the
join, and the scheduler itself, count as one. -/
def MainThread.freed : MainThread → Shared → Bool
  | .waiting, _ | .deletingListener, _ => false
  | .stoppingScheduler, x | .joining, x | .freeingScheduler, x => x = .alarmReqListener
  | .terminatingSnmp, x | .deletingDefs, x => x ≠ .alarmTableDefs
  | .exited, _ => true

/-- The threads of the alarms agent, with the semaphore that ends it. `posted` says that the
listener thread is past its `sem_post`. Not in the code is `misused`, which says that something
was used after it had been freed. -/
structure AlarmsAgent (H : Type) where
  listener : AlarmReqListener H
  sender : SenderThread
  terminated : Bool
  main : MainThread
  termSem : ℕ
  posted : Bool
  misused : Bool

namespace AlarmsAgent

/-- Net-SNMP takes a section under the lock, in which it may report an INFORM that was not
answered; a wait of the sender ends by a signal, or because its time has come or for no reason at
all. What takes the lock is one turn, where it gives the lock up. -/
inductive Turn (defs : AlarmTableDefs)
  | main
  | listener (a : Answers)
  | sender (rows : AlarmIndex → RowCreation)
  | signalled
  | wake
  | snmp (failed : Option {d : AlarmTableDef // defs.Loaded d})
  | clock (later : Clock)
  | sigterm

variable (cfg)

/-- The agent as `heap_sender` sees it. -/
def threaded (s : AlarmsAgent H) : ThreadedWorld H := ⟨s.listener.world, s.sender, s.terminated⟩

def setThreaded (s : AlarmsAgent H) (w : ThreadedWorld H) : AlarmsAgent H :=
  { s with
    listener := { s.listener with world := w.toWorld }
    sender := w.thread
    terminated := w.terminated }

/-- The next step of `main`. -/
def mainStep (s : AlarmsAgent H) : AlarmsAgent H :=
  match s.main with
  | .waiting =>
    if s.termSem = 0 then s
    else { s with main := .deletingListener, termSem := s.termSem - 1 }
  -- the listener has no destructor, and is not stopped
  | .deletingListener => { s with main := .stoppingScheduler }
  | .stoppingScheduler =>
    { s.setThreaded (s.threaded.step cfg .terminate) with main := .joining }
  | .joining => if s.sender = .finished then { s with main := .freeingScheduler } else s
  | .freeingScheduler => { s with main := .terminatingSnmp }
  | .terminatingSnmp => { s with main := .deletingDefs }
  | .deletingDefs | .exited => { s with main := .exited }

/-- `listener_thread`, once `listener` has returned. -/
def postSemaphore (s : AlarmsAgent H) : AlarmsAgent H :=
  if s.posted then s else { s with posted := true, termSem := s.termSem + 1 }

/-- The next step of `listener_thread`. -/
def listenerStep (a : Answers) (s : AlarmsAgent H) : AlarmsAgent H :=
  if s.listener.phase = .ended then s.postSemaphore
  else { s with listener := s.listener.resume cfg a }

def act (s : AlarmsAgent H) : Turn cfg.defs → AlarmsAgent H
  | .main => s.mainStep cfg
  | .listener a => s.listenerStep cfg a
  | .sender rows => s.setThreaded (s.threaded.step cfg (.senderLoop rows))
  | .signalled =>
    if s.listener.world.scheduler.condSignalled then s.setThreaded (s.threaded.step cfg .wake)
    else s
  | .wake => s.setThreaded (s.threaded.step cfg .wake)
  | .snmp none => s
  | .snmp (some d) =>
    s.setThreaded (s.threaded.step cfg (.operation (.handleFailedAlarm d.1 d.2) rfl))
  | .clock later => s.setThreaded (s.threaded.step cfg (.operation (.clock later) rfl))
  -- `agent_terminate_handler`
  | .sigterm => { s with termSem := s.termSem + 1 }

/-- What the listener thread reads next. A request goes to the scheduler, which looks the alarm up
in the definitions before it takes the lock. -/
def listenerUses (s : AlarmsAgent H) : List Shared :=
  match s.listener.phase with
  | .ended => if s.posted then [] else [.alarmReqListener]
  | .dispatch msg =>
    match AlarmReqListener.request cfg msg with
    | some (.issueAlarm _) => [.alarmReqListener, .alarmScheduler, .alarmTableDefs, .lock]
    | some _ => [.alarmReqListener, .alarmScheduler, .lock]
    | none => [.alarmReqListener]
  | _ => [.alarmReqListener]

/-- What a turn reads or writes of what `main` deletes. -/
def uses (s : AlarmsAgent H) : Turn cfg.defs → List Shared
  | .main =>
    match s.main with
    | .deletingListener => [.alarmReqListener]
    | .stoppingScheduler | .freeingScheduler => [.alarmScheduler, .lock]
    | .joining => [.alarmScheduler]
    | .deletingDefs => [.alarmTableDefs]
    | .waiting | .terminatingSnmp | .exited => []
  | .listener _ => s.listenerUses cfg
  | .sender _ => if s.sender = .awake then [.alarmScheduler, .alarmTableDefs, .lock] else []
  | .signalled | .wake => if s.sender matches .asleep _ then [.alarmScheduler, .lock] else []
  -- `snmp_terminate` ends the thread of Net-SNMP
  | .snmp failed =>
    if s.main = .deletingDefs then []
    else if failed.isSome then [.alarmScheduler, .lock] else [.lock]
  | .clock _ | .sigterm => []

/-- With `main` the whole process ends. -/
def step (s : AlarmsAgent H) (t : Turn cfg.defs) : AlarmsAgent H :=
  if s.main = .exited then s
  else { s.act cfg t with misused := s.misused || (s.uses cfg t).any s.main.freed }

/-- `main` before the wait, when all threads are there. -/
def start (table : AlarmActiveTable) (now : Clock) : AlarmsAgent H :=
  ⟨.start (World.init cfg table now), .awake, false, .waiting, 0, false, false⟩

def run (table : AlarmActiveTable) (now : Clock) (turns : List (Turn cfg.defs)) : AlarmsAgent H :=
  Runs.run (step cfg) (start cfg table now) turns

end AlarmsAgent

/-! ## What the threads do to the sender -/

namespace ThreadedWorld

variable {w : ThreadedWorld H}

/-- Once the destructor has asked for the end, the thread does not sleep on without a signal. -/
def Told (w : ThreadedWorld H) : Prop :=
  w.terminated = true → ∀ deadline, w.thread = .asleep deadline → w.scheduler.condSignalled = true

theorem Told.step (hw : w.Told) (a : Action cfg.defs) : (w.step cfg a).Told := by
  cases a with
  | operation e he =>
    intro hterminated deadline hasleep
    rcases w.toWorld.step_signals he with hsame | hsignal
    · simp only [ThreadedWorld.step, hsame]
      exact hw hterminated deadline hasleep
    · exact hsignal
  | senderLoop rows =>
    by_cases hawake : w.thread = .awake
    · rw [ThreadedWorld.step, if_pos hawake, senderLoop]
      split
      · intro _ deadline hasleep
        simp at hasleep
      · rename_i hnot
        exact fun hterminated => absurd hterminated hnot
    · rw [ThreadedWorld.step, if_neg hawake]
      exact hw
  | wake =>
    simp only [ThreadedWorld.step]
    split
    · simp [Told]
    · exact hw
  | terminate => exact fun _ _ _ => rfl

theorem finished_step (h : w.thread = .finished) (a : Action cfg.defs) :
    (w.step cfg a).thread = .finished := by
  cases a with
  | operation e he => exact h
  | senderLoop rows => simp [step, h]
  | wake => simp [step, h]
  | terminate => exact h

theorem terminated_step (h : w.terminated = true) (a : Action cfg.defs) :
    (w.step cfg a).terminated = true := by
  cases a with
  | operation e he => exact h
  | senderLoop rows =>
    by_cases hawake : w.thread = .awake
    · rw [step, if_pos hawake, senderLoop, if_pos h]
      exact h
    · rw [step, if_neg hawake]
      exact h
  | wake =>
    simp only [step]
    split <;> exact h
  | terminate => rfl

end ThreadedWorld

theorem AlarmReqListener.world_resume (a : Answers) (l : AlarmReqListener H) :
    (l.resume cfg a).world =
      match l.phase with
      | .dispatch msg => (request cfg msg).elim l.world (World.step cfg l.world)
      | _ => l.world := by
  have hr := resumed cfg a l
  generalize l.resume cfg a = l' at hr
  cases hr with
  | fails hf =>
    obtain ⟨msg, hp, -⟩ | ⟨msg, e, hp, -⟩ | ⟨msg, part, e, hp, -⟩ | ⟨msg, more, hp, -⟩ := hf <;>
      rw [hp]
  | interrupted hi =>
    obtain ⟨msg, hp, -⟩ | ⟨msg, part, hp, -⟩ := hi <;> rw [hp]
  | receives hp _ | hears hp _ => rw [hp]
  | inits hp | goesOn hp | completes hp | dispatches hp | replies hp | closes hp | idles hp =>
    rw [hp]

theorem AlarmReqListener.isPass_of_request {msg : List String} {e : Event cfg.defs}
    (h : request cfg msg = some e) : e.isPass = false := by
  have hrequest := isRequest_of_request h
  cases e with
  | heapSender rows => contradiction
  | _ => rfl

namespace AlarmsAgent

variable {s : AlarmsAgent H}

/-- What a turn is to the agent and the sender. -/
def actions (s : AlarmsAgent H) : Turn cfg.defs → List (Action cfg.defs)
  | .main => if s.main = .stoppingScheduler then [.terminate] else []
  | .listener _ =>
    match s.listener.phase with
    | .dispatch msg =>
      match h : AlarmReqListener.request cfg msg with
      | some e => [.operation e (AlarmReqListener.isPass_of_request h)]
      | none => []
    | _ => []
  | .sender rows => [.senderLoop rows]
  | .signalled => if s.listener.world.scheduler.condSignalled then [.wake] else []
  | .wake => [.wake]
  | .snmp none => []
  | .snmp (some d) => [.operation (.handleFailedAlarm d.1 d.2) rfl]
  | .clock later => [.operation (.clock later) rfl]
  | .sigterm => []

theorem threaded_mainStep (s : AlarmsAgent H) :
    (s.mainStep cfg).threaded =
      if s.main = .stoppingScheduler then s.threaded.step cfg .terminate else s.threaded := by
  unfold mainStep
  cases hm : s.main with
  | waiting =>
    dsimp only
    split <;> rfl
  | joining =>
    dsimp only
    split <;> rfl
  | _ => rfl

theorem threaded_listenerStep (a : Answers) (s : AlarmsAgent H) :
    (s.listenerStep cfg a).threaded =
      Runs.run (ThreadedWorld.step cfg) s.threaded (s.actions (.listener a : Turn cfg.defs)) := by
  unfold listenerStep
  split
  · rename_i hended
    simp only [postSemaphore, actions, hended, Runs.run_nil]
    split <;> rfl
  · simp only [threaded, AlarmReqListener.world_resume, actions]
    cases s.listener.phase with
    | dispatch msg =>
      dsimp only
      split
      · rename_i e he
        simp only [he, Option.elim]
        rfl
      · rename_i he
        simp only [he, Option.elim]
        rfl
    | _ => rfl

/-- Each turn is some actions of the agent and the sender. -/
theorem threaded_act (s : AlarmsAgent H) (t : Turn cfg.defs) :
    (s.act cfg t).threaded = Runs.run (ThreadedWorld.step cfg) s.threaded (s.actions t) := by
  cases t with
  | main =>
    rw [act, threaded_mainStep, actions]
    split <;> rfl
  | listener a => exact threaded_listenerStep a s
  | sender rows => rfl
  | signalled =>
    rw [act, actions]
    split <;> rfl
  | wake => rfl
  | snmp failed => cases failed <;> rfl
  | clock later => rfl
  | sigterm => rfl

/-- Whatever the threads of the process do, the agent and the sender go through a run of theirs. -/
theorem exists_threaded_run (cfg : Setup H) (table : AlarmActiveTable) (now : Clock)
    (turns : List (Turn cfg.defs)) :
    ∃ acts, (run cfg table now turns).threaded = ThreadedWorld.run cfg table now acts := by
  let taken : AlarmsAgent H → Turn cfg.defs → List (Action cfg.defs) := fun s t =>
    if s.main = .exited then [] else s.actions t
  have hstep : ∀ (s : AlarmsAgent H) (t : Turn cfg.defs), True →
      (s.step cfg t).threaded = Runs.run (ThreadedWorld.step cfg) s.threaded (taken s t) := by
    intro s t _
    simp only [step, taken]
    split
    · rfl
    · exact threaded_act s t
  exact ⟨_, Runs.run_simulation_emitted (I := fun _ => True) threaded taken (fun _ _ h => h) hstep
    trivial turns⟩

/-! ## Uses of what has been freed -/

/-- How far `main`, the sender and the listener thread are, in view of each other. -/
structure Sound (s : AlarmsAgent H) : Prop where
  joined : s.main.freed .alarmScheduler = true ∨ s.main = .freeingScheduler → s.sender = .finished
  terminated : s.main = .joining → s.terminated = true
  told : s.threaded.Told
  ended : s.posted = true → s.listener.phase = .ended

theorem sound_start (cfg : Setup H) (table : AlarmActiveTable) (now : Clock) :
    (start cfg table now).Sound where
  joined h := by simp [start, MainThread.freed] at h
  terminated h := by simp [start] at h
  told _ _ h := by simp [threaded, start] at h
  ended h := by simp [start] at h

/-- A turn that leaves `main` and the listener thread where they are. -/
theorem Sound.setThreaded (h : s.Sound) (a : Action cfg.defs) :
    (s.setThreaded (s.threaded.step cfg a)).Sound where
  joined hm := ThreadedWorld.finished_step (w := s.threaded) (h.joined hm) a
  terminated hm := ThreadedWorld.terminated_step (w := s.threaded) (h.terminated hm) a
  told := h.told.step a
  ended := h.ended

theorem Sound.mainStep (h : s.Sound) : (s.mainStep cfg).Sound := by
  unfold AlarmsAgent.mainStep
  cases hm : s.main with
  | waiting =>
    dsimp only
    split
    · exact h
    · exact ⟨by simp [MainThread.freed], by simp, h.told, h.ended⟩
  | deletingListener => exact ⟨by simp [MainThread.freed], by simp, h.told, h.ended⟩
  | stoppingScheduler =>
    exact ⟨by simp [MainThread.freed], fun _ => rfl, h.told.step (.terminate : Action cfg.defs),
      h.ended⟩
  | joining =>
    dsimp only
    split
    · rename_i hfinished
      exact ⟨fun _ => hfinished, by simp, h.told, h.ended⟩
    · exact h
  | freeingScheduler => exact ⟨fun _ => h.joined (.inr hm), by simp, h.told, h.ended⟩
  | terminatingSnmp | deletingDefs | exited =>
    exact ⟨fun _ => h.joined (.inl (by rw [hm]; rfl)), by simp, h.told, h.ended⟩

theorem Sound.listenerStep (h : s.Sound) (a : Answers) : (s.listenerStep cfg a).Sound := by
  have htold : (s.listenerStep cfg a).threaded.Told := by
    rw [threaded_listenerStep]
    exact Runs.run_invariant (fun _ action hw => hw.step action) h.told _
  revert htold
  unfold AlarmsAgent.listenerStep
  split
  · rename_i hended
    unfold postSemaphore
    split
    · exact fun _ => h
    · exact fun htold => ⟨h.joined, h.terminated, htold, fun _ => hended⟩
  · rename_i hgoing
    refine fun htold => ⟨h.joined, h.terminated, htold, fun hposted => ?_⟩
    exact absurd (h.ended hposted) hgoing

theorem Sound.act (h : s.Sound) (t : Turn cfg.defs) : (s.act cfg t).Sound := by
  cases t with
  | main => exact h.mainStep
  | listener a => exact h.listenerStep a
  | sender rows => exact h.setThreaded (.senderLoop rows)
  | signalled =>
    rw [AlarmsAgent.act]
    split
    · exact h.setThreaded .wake
    · exact h
  | wake => exact h.setThreaded .wake
  | snmp failed =>
    cases failed with
    | none => exact h
    | some d => exact h.setThreaded (.operation (.handleFailedAlarm d.1 d.2) rfl)
  | clock later => exact h.setThreaded (.operation (.clock later) rfl)
  | sigterm => exact ⟨h.joined, h.terminated, h.told, h.ended⟩

theorem Sound.step (h : s.Sound) (t : Turn cfg.defs) : (s.step cfg t).Sound := by
  unfold AlarmsAgent.step
  split
  · exact h
  · obtain ⟨hjoined, hterminated, htold, hended⟩ := h.act t
    exact ⟨hjoined, hterminated, htold, hended⟩

/-- The listener thread takes no turn on a listener that has been deleted, unless it is past its
post, and Net-SNMP takes no section between the end of `~AlarmScheduler` and `snmp_terminate`. -/
def Careful (s : AlarmsAgent H) : Turn cfg.defs → Prop
  | .listener _ => s.main.freed .alarmReqListener = true → s.main = .exited ∨ s.posted = true
  | .snmp _ => s.main ≠ .terminatingSnmp
  | _ => True

/-- The listener is the first to go. -/
theorem freed_alarmReqListener {m : MainThread} {x : Shared} (h : m.freed x = true) :
    m.freed .alarmReqListener = true := by
  cases m with
  | waiting | deletingListener => contradiction
  | _ => rfl

theorem exists_listenerUses (cfg : Setup H) (hposted : s.posted = false) :
    ∃ rest, s.listenerUses cfg = .alarmReqListener :: rest := by
  unfold listenerUses
  split
  · rw [hposted]
    exact ⟨[], rfl⟩
  · split <;> exact ⟨_, rfl⟩
  · exact ⟨[], rfl⟩

/-- Up to the post every turn reads the listener, which goes first of all. -/
theorem any_listenerUses (cfg : Setup H) (h : s.Sound) :
    (s.listenerUses cfg).any s.main.freed = (s.main.freed .alarmReqListener && !s.posted) := by
  cases hposted : s.posted with
  | true =>
    rw [listenerUses, h.ended hposted]
    simp [hposted]
  | false =>
    obtain ⟨rest, hrest⟩ := exists_listenerUses cfg hposted
    rw [hrest, List.any_cons, Bool.not_false, Bool.and_true, Bool.or_eq_left_iff_imp]
    intro hany
    obtain ⟨x, -, hx⟩ := List.any_eq_true.mp hany
    exact freed_alarmReqListener hx

/-- As long as the sender runs, `main` is at most joining it. -/
theorem Sound.freed_eq_false (h : s.Sound) (hrunning : s.sender ≠ .finished) {x : Shared}
    (hx : x ≠ .alarmReqListener) : s.main.freed x = false := by
  have hnot : ¬s.main.freed .alarmScheduler = true :=
    fun hfreed => hrunning (h.joined (.inl hfreed))
  cases hm : s.main with
  | waiting | deletingListener => rfl
  | stoppingScheduler | joining | freeingScheduler => simpa [MainThread.freed] using hx
  | terminatingSnmp | deletingDefs | exited =>
    rw [hm] at hnot
    exact absurd rfl hnot

/-- What the sender uses when its wait ends. -/
theorem Sound.any_uses_asleep (h : s.Sound) :
    (if s.sender matches .asleep _ then [Shared.alarmScheduler, .lock] else []).any s.main.freed =
      false := by
  split
  · rename_i hasleep
    have hrunning : s.sender ≠ .finished := by
      intro hfinished
      simp [hfinished] at hasleep
    simp [h.freed_eq_false hrunning]
  · rfl

/-- Only these two can go wrong: what `main` and the sender use is there when they do. -/
theorem any_uses_iff (h : s.Sound) (hmain : s.main ≠ .exited) (t : Turn cfg.defs) :
    (s.uses cfg t).any s.main.freed = false ↔ s.Careful t := by
  cases t with
  | main =>
    refine iff_of_true ?_ trivial
    cases hm : s.main <;> simp [uses, hm, MainThread.freed]
  | listener a =>
    have hany := any_listenerUses cfg h
    simp only [uses, Careful, hany, hmain, false_or]
    cases s.main.freed .alarmReqListener <;> cases s.posted <;> simp
  | sender rows =>
    refine iff_of_true ?_ trivial
    rw [uses]
    split
    · rename_i hawake
      have hrunning : s.sender ≠ .finished := by
        rw [hawake]
        decide
      simp [h.freed_eq_false hrunning]
    · rfl
  | signalled => exact iff_of_true h.any_uses_asleep trivial
  | wake => exact iff_of_true h.any_uses_asleep trivial
  | snmp failed =>
    rw [uses, Careful]
    cases hm : s.main with
    | exited => exact absurd hm hmain
    | _ => cases failed <;> simp [MainThread.freed]
  | clock later => exact iff_of_true rfl trivial
  | sigterm => exact iff_of_true rfl trivial

theorem misused_step (h : s.Sound) (t : Turn cfg.defs) :
    (s.step cfg t).misused = false ↔ s.misused = false ∧ s.Careful t := by
  unfold AlarmsAgent.step
  split
  · rename_i hexited
    have hcareful : s.Careful t := by
      cases t with
      | listener a => exact fun _ => .inl hexited
      | snmp failed =>
        rw [Careful, hexited]
        decide
      | _ => trivial
    exact (and_iff_left hcareful).symm
  · rename_i hmain
    rw [← any_uses_iff h hmain]
    exact Bool.or_eq_false_iff

theorem sound_run (cfg : Setup H) (table : AlarmActiveTable) (now : Clock)
    (turns : List (Turn cfg.defs)) : (run cfg table now turns).Sound :=
  Runs.run_invariant (fun _ t h => h.step t) (sound_start cfg table now) turns

/-- In every interleaving of `main`, the listener thread, the sender, Net-SNMP and signals,
nothing is used after it has been freed exactly if the listener thread and Net-SNMP are careful.
What the sender uses, and what `main` itself does, is never too late. -/
theorem misused_iff (cfg : Setup H) (table : AlarmActiveTable) (now : Clock)
    (turns : List (Turn cfg.defs)) :
    (run cfg table now turns).misused = false ↔
      Runs.Along (step cfg) Careful (start cfg table now) turns := by
  have h : (run cfg table now turns).misused = false ↔
      (start cfg table now).misused = false ∧
        Runs.Along (step cfg) Careful (start cfg table now) turns :=
    Runs.run_iff_along (I := Sound) (Q := fun s => s.misused = false) (fun _ t h => h.step t)
      (fun _ t h => misused_step h t) (sound_start cfg table now) turns
  exact h.trans (and_iff_right rfl)

/-- After SIGTERM a listener that goes on is a listener that has been deleted. -/
example : (run Setup.sample .initialised ⟨0, by decide⟩
    [.sigterm, .main, .main, .listener .poll]).misused = true := rfl

end AlarmsAgent
end ClearwaterSnmp
