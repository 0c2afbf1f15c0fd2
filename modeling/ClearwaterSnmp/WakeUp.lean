import ClearwaterSnmp.AgentSimulation

namespace ClearwaterSnmp
open AlarmScheduler

variable {H : Type} {cfg : Setup H}

/-! ## The thread -/

structure Timespec where
  tvSec : ℕ
  tvNsec : ℕ
deriving DecidableEq, Repr

/-- The absolute time that `heap_sender` hands to `timedwait`. -/
def Timespec.ofPopTime (popTime : ℕ) : Timespec := ⟨popTime / 1000, popTime % 1000 * 1000000⟩

/-- The time a wait ends at by itself, in nanoseconds; `wait` never does. -/
def wakeTime : Option Timespec → WithTop ℕ
  | none => ⊤
  | some time => WithTop.some (time.tvSec * 1000000000 + time.tvNsec)

theorem wakeTime_ofPopTime (popTime : ℕ) :
    wakeTime (some (.ofPopTime popTime)) = WithTop.some (popTime * 1000000) := by
  have h : popTime / 1000 * 1000000000 + popTime % 1000 * 1000000 = popTime * 1000000 := by omega
  rw [wakeTime, Timespec.ofPopTime, h]

/-- What the thread waits for after a pass: until the next timer is due, or for a
signal if there is none. -/
def AlarmScheduler.waitUntil (cfg : Setup H) (s : AlarmScheduler H) : Option Timespec :=
  (cfg.heap.getNextTimer s.popTimes s.alarmHeap).map fun i => .ofPopTime (s.popTimes i)

/-- Where the thread of `heap_sender` is: about to test `_terminated` with the lock
held, waiting on `_cond` without the lock, or past the loop. -/
inductive SenderThread
  | awake
  | asleep (deadline : Option Timespec)
  | finished
deriving DecidableEq, Repr

/-- The agent with the thread of `heap_sender`. -/
structure ThreadedWorld (H : Type) extends World H where
  thread : SenderThread
  terminated : Bool

def Event.isPass {defs : AlarmTableDefs} : Event defs → Bool
  | .heapSender _ => true
  | _ => false

/-- What can happen to the agent and the thread, each with the lock held: an
operation of the scheduler, once round the loop for the thread, the end of its wait,
and the start of the destructor. The end of a wait needs no cause, so it stands for a
signal, for the time having come, and for no reason at all. -/
inductive Action (defs : AlarmTableDefs)
  | operation (e : Event defs) (notPass : e.isPass = false)
  | senderLoop (rows : AlarmIndex → RowCreation)
  | wake
  | terminate

namespace ThreadedWorld

/-- Once round the loop of `heap_sender`, up to and into the wait. A signal that
came before the wait is not remembered by `_cond`. -/
def senderLoop (cfg : Setup H) (rows : AlarmIndex → RowCreation) (w : ThreadedWorld H) :
    ThreadedWorld H :=
  if w.terminated then { w with thread := .finished }
  else
    let a := w.toAgent.heapSenderPass cfg w.now.ms rows
    { w with
      toAgent := { a with scheduler := { a.scheduler with condSignalled := false } }
      thread := .asleep (a.scheduler.waitUntil cfg) }

def step (cfg : Setup H) (w : ThreadedWorld H) : Action cfg.defs → ThreadedWorld H
  | .operation e _ => { w with toWorld := w.toWorld.step cfg e }
  | .senderLoop rows => if w.thread = .awake then w.senderLoop cfg rows else w
  | .wake =>
    match w.thread with
    | .asleep _ => { w with thread := .awake }
    | _ => w
  | .terminate => { w with scheduler := w.scheduler.signal, terminated := true }

def init (cfg : Setup H) (table : AlarmActiveTable) (now : Clock) : ThreadedWorld H :=
  ⟨.init cfg table now, .awake, false⟩

def run (cfg : Setup H) (table : AlarmActiveTable) (now : Clock)
    (actions : List (Action cfg.defs)) : ThreadedWorld H :=
  Runs.run (step cfg) (init cfg table now) actions

end ThreadedWorld

/-! ## No lost wake-up -/

namespace AlarmScheduler

variable {s : AlarmScheduler H}

/-- The wait ends when the timer of smallest pop time is due. -/
theorem wakeTime_waitUntil (h : cfg.heap.Ordered s.popTimes s.alarmHeap) :
    wakeTime (s.waitUntil cfg) =
      (cfg.heap.smallestPopTime s.popTimes s.alarmHeap).map (· * 1000000) := by
  unfold waitUntil
  cases hn : cfg.heap.getNextTimer s.popTimes s.alarmHeap with
  | none =>
    rw [cfg.heap.smallestPopTime_of_none hn]
    rfl
  | some i =>
    rw [cfg.heap.smallestPopTime_of_some h hn]
    exact wakeTime_ofPopTime _

theorem removeOutdatedAlarmFromHeap_signals (i : AlarmIndex) (m : SingleAlarmManager) :
    removeOutdatedAlarmFromHeap cfg i m s = s ∨
      (removeOutdatedAlarmFromHeap cfg i m s).condSignalled = true := by
  unfold removeOutdatedAlarmFromHeap
  split
  · exact Or.inr rfl
  · exact Or.inl rfl

theorem issueAlarm_signals (now : ℕ) (identifier : String) :
    s.issueAlarm cfg now identifier = s ∨
      (s.issueAlarm cfg now identifier).condSignalled = true := by
  unfold issueAlarm
  split
  · exact Or.inl rfl
  · split
    · exact Or.inl rfl
    · dsimp only
      split
      · exact removeOutdatedAlarmFromHeap_signals _ _
      · split <;> exact Or.inr rfl

theorem handleFailedAlarm_signals (now : ℕ) (d : AlarmTableDef) :
    s.handleFailedAlarm cfg now d = s ∨ (s.handleFailedAlarm cfg now d).condSignalled = true := by
  unfold handleFailedAlarm
  split
  · exact Or.inl rfl
  · split
    · exact Or.inr rfl
    · exact Or.inl rfl

end AlarmScheduler

namespace World

/-- An operation leaves the scheduler as it is, or it signals `_cond`. -/
theorem step_signals (w : World H) {e : Event cfg.defs} (he : e.isPass = false) :
    (w.step cfg e).scheduler = w.scheduler ∨
      (w.step cfg e).scheduler.condSignalled = true := by
  cases e with
  | issueAlarm identifier => exact issueAlarm_signals w.now.ms identifier
  | syncAlarms => exact Or.inr rfl
  | handleFailedAlarm d hd => exact handleFailedAlarm_signals w.now.ms d
  | heapSender rows => contradiction
  | clock later => exact Or.inl rfl

end World

namespace ThreadedWorld

/-- A deadline at the smallest pop time in the heap, never if the heap is empty,
in a form that `timedwait` accepts. -/
structure WakesInTime (cfg : Setup H) (s : AlarmScheduler H) (deadline : Option Timespec) :
    Prop where
  smallest : wakeTime deadline =
    (cfg.heap.smallestPopTime s.popTimes s.alarmHeap).map (· * 1000000)
  valid : ∀ time ∈ deadline, time.tvNsec < 1000000000

theorem wakesInTime_waitUntil {s : AlarmScheduler H} (h : WellFormed cfg s) :
    WakesInTime cfg s (s.waitUntil cfg) where
  smallest := wakeTime_waitUntil h.ordered
  valid time ht := by
    obtain ⟨i, -, rfl⟩ := Option.map_eq_some_iff.mp ht
    have h : s.popTimes i % 1000 * 1000000 < 1000000000 := by omega
    exact h

/-- If the thread waits and was not signalled since, it wakes in time. -/
def NoLostWakeUp (cfg : Setup H) (w : ThreadedWorld H) : Prop :=
  ∀ deadline, w.thread = .asleep deadline → w.scheduler.condSignalled = false →
    WakesInTime cfg w.scheduler deadline

variable {ready : Bool} {w : ThreadedWorld H}

theorem sound_step (h : World.Sound cfg ready w.toWorld) (a : Action cfg.defs) :
    World.Sound cfg ready (w.step cfg a).toWorld := by
  cases a with
  | operation e he => exact h.step e
  | senderLoop rows =>
    simp only [step, senderLoop]
    split
    · split
      · exact h
      · have hp := h.step (.heapSender rows)
        exact ⟨hp.wellFormed.setSignalled false, hp.ready_eq⟩
    · exact h
  | wake =>
    simp only [step]
    split <;> exact h
  | terminate => exact ⟨h.wellFormed.signal, h.ready_eq⟩

theorem NoLostWakeUp.step (h : World.Sound cfg ready w.toWorld) (hw : NoLostWakeUp cfg w)
    (a : Action cfg.defs) : NoLostWakeUp cfg (w.step cfg a) := by
  cases a with
  | operation e he =>
    intro deadline ht hn
    -- only an operation that changed nothing has left the thread without a signal
    rcases w.toWorld.step_signals he with hsame | hsignal
    · simp only [ThreadedWorld.step, hsame] at hn ⊢
      exact hw deadline ht hn
    · rw [ThreadedWorld.step, hsignal] at hn
      contradiction
  | senderLoop rows =>
    simp only [ThreadedWorld.step, senderLoop]
    split
    · split
      · intro deadline ht
        simp at ht
      · intro deadline ht _
        obtain rfl := SenderThread.asleep.inj ht
        have hp := wakesInTime_waitUntil (h.step (.heapSender rows)).wellFormed
        exact ⟨hp.smallest, hp.valid⟩
    · exact hw
  | wake =>
    simp only [ThreadedWorld.step]
    split
    · intro deadline ht
      simp at ht
    · exact hw
  | terminate =>
    intro deadline _ hn
    simp [ThreadedWorld.step, signal] at hn

theorem sound_run (cfg : Setup H) (table : AlarmActiveTable) (now : Clock)
    (actions : List (Action cfg.defs)) :
    World.Sound cfg table.myHandler (run cfg table now actions).toWorld :=
  Runs.run_invariant (I := fun w : ThreadedWorld H => World.Sound cfg table.myHandler w.toWorld)
    (fun _ a h => sound_step h a) (World.sound_init table now) actions

theorem no_lost_wake_up (cfg : Setup H) (table : AlarmActiveTable) (now : Clock)
    (actions : List (Action cfg.defs)) : NoLostWakeUp cfg (run cfg table now actions) := by
  have hinit : NoLostWakeUp cfg (init cfg table now) := by
    intro deadline ht
    simp [init] at ht
  have h := Runs.run_invariant
    (I := fun w => World.Sound cfg table.myHandler w.toWorld ∧ NoLostWakeUp cfg w)
    (fun w a hw => ⟨sound_step hw.1 a, hw.2.step hw.1 a⟩)
    ⟨World.sound_init table now, hinit⟩ actions
  exact h.2

/-! ## The thread adds nothing to the passes -/

/-- What an action is to the agent, in the state before it. -/
def events (w : ThreadedWorld H) : Action cfg.defs → List (Event cfg.defs)
  | .operation e _ => [e]
  | .senderLoop rows =>
    if w.thread = .awake ∧ w.terminated = false then [.heapSender rows] else []
  | .wake => []
  | .terminate => []

theorem track_step (h : World.Sound cfg ready w.toWorld) (a : Action cfg.defs) (i : AlarmIndex) :
    (w.step cfg a).toWorld.track cfg i =
      Runs.run (AlarmTrack.step (cfg.alarmConfig ready i)) (w.toWorld.track cfg i)
        ((w.events a).map (Event.inputFor cfg i)) := by
  cases a with
  | operation e he => exact World.track_step h e i
  | senderLoop rows =>
    simp only [step, senderLoop, events]
    by_cases ht : w.thread = .awake
    · rw [if_pos ht]
      cases hd : w.terminated with
      | true => simp
      | false =>
        simp only [ht, and_self, if_true, Bool.false_eq_true, if_false]
        exact World.track_step h (.heapSender rows) i
    · rw [if_neg ht, if_neg fun hc => ht hc.1]
      rfl
  | wake =>
    simp only [step]
    split <;> rfl
  | terminate => rfl

/-- Whatever the thread does, each alarm goes through a run of the agent. -/
theorem exists_world_run (table : AlarmActiveTable) (now : Clock)
    (actions : List (Action cfg.defs)) :
    ∃ es, ∀ i, (run cfg table now actions).toWorld.track cfg i =
      (World.run cfg table now es).track cfg i := by
  -- from the end, since what an action is to the agent depends on the state before it
  induction actions using List.reverseRecOn with
  | nil => exact ⟨[], fun _ => rfl⟩
  | append_singleton actions a ih =>
    obtain ⟨es, hes⟩ := ih
    refine ⟨es ++ (run cfg table now actions).events a, fun i => ?_⟩
    have hrun : run cfg table now (actions ++ [a]) = (run cfg table now actions).step cfg a :=
      Runs.run_append _ _ actions [a]
    rw [hrun, track_step (sound_run cfg table now actions), hes i, World.track_run, World.track_run,
      List.map_append, Runs.run_append]

end ThreadedWorld
end ClearwaterSnmp
