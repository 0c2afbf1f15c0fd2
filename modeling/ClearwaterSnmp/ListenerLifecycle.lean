import ClearwaterSnmp.AlarmRequests

namespace ClearwaterSnmp

/-- Where the thread is that calls `start`, and `stop` after it. `unlock` and what follows it
know whether the listener thread was created. -/
inductive Caller
  | initCtx
  | initSocket
  | removeFile
  | bind
  | chmod
  | initMutex
  | lock
  | create
  | wait
  | waiting (woken : Bool)
  | unlock (created : Bool)
  | destroyCond (created : Bool)
  | destroyMutex (created : Bool)
  | cleanCtx
  | started (result : Bool)
  | stopCtx
  | join
  | stopped
deriving DecidableEq

/-- Where the listener thread is. -/
inductive Worker
  | absent
  | lock
  | signal
  | unlock
  | listening
  | cleanSocket
  | post
  | ended
deriving DecidableEq

/-- `_start_mutex` -/
inductive StartMutex
  | raw
  | free
  | ofCaller
  | ofWorker
  | destroyed
deriving DecidableEq

/-- `_ctx` -/
inductive Context
  | absent
  | opened
  | terminating
  | destroyed
deriving DecidableEq

/-- The two threads and what they share. `condAlive` is about `_start_cond`; `misused` records an
operation on a mutex or a condition variable that is not there, or is destroyed while held. -/
structure Lifecycle where
  caller : Caller
  worker : Worker
  mutex : StartMutex
  condAlive : Bool
  ctx : Context
  socketOpen : Bool
  closes : ℕ
  posts : ℕ
  misused : Bool
deriving DecidableEq

/-- `ENOENT` -/
def Errno.enoent : Errno := .other 2

/-- What the calls of `start` and `stop` would return if they were made now: whether they
succeed, or their error, and whether a signal interrupts `zmq_ctx_destroy`. -/
structure StartAnswers where
  ctxNew : Bool
  socket : Bool
  remove : Option Errno
  bind : Option Errno
  chmod : Bool
  create : Bool
  interrupted : Bool

/-- Calls that all succeed. -/
def StartAnswers.good : StartAnswers := ⟨true, true, none, none, true, true, false⟩

namespace Lifecycle

/-- `zmq_clean_ctx`. The context first makes blocking calls fail with `ETERM`, and is gone once
all its sockets are closed; a signal only ends the wait for that. -/
def zmqCleanCtx (a : StartAnswers) (next : Caller) (s : Lifecycle) : Lifecycle :=
  if s.ctx = .opened then { s with ctx := .terminating }
  else if a.interrupted then { s with caller := next }
  else if s.socketOpen then s
  else { s with caller := next, ctx := .destroyed }

/-- The next call of `start`, or of `stop` once `start` has succeeded. -/
def callerStep (a : StartAnswers) (s : Lifecycle) : Lifecycle :=
  match s.caller with
  | .initCtx =>
    if a.ctxNew then { s with caller := .initSocket, ctx := .opened }
    else { s with caller := .started false }
  | .initSocket =>
    if a.socket then { s with caller := .removeFile, socketOpen := true }
    else { s with caller := .started false }
  | .removeFile =>
    if a.remove = none ∨ a.remove = some .enoent then { s with caller := .bind }
    else { s with caller := .started false }
  | .bind =>
    match a.bind with
    | none => { s with caller := .chmod }
    | some .eintr => s
    | some _ => { s with caller := .started false }
  | .chmod =>
    if a.chmod then { s with caller := .initMutex } else { s with caller := .started false }
  | .initMutex => { s with caller := .lock, mutex := .free, condAlive := true }
  | .lock => if s.mutex = .free then { s with caller := .create, mutex := .ofCaller } else s
  | .create =>
    if a.create then { s with caller := .wait, worker := .lock }
    else { s with caller := .unlock false }
  | .wait => { s with caller := .waiting false, mutex := .free }
  | .waiting woken =>
    if woken ∧ s.mutex = .free then { s with caller := .unlock true, mutex := .ofCaller } else s
  | .unlock created => { s with caller := .destroyCond created, mutex := .free }
  | .destroyCond created => { s with caller := .destroyMutex created, condAlive := false }
  | .destroyMutex created =>
    { s with
      caller := if created then .started true else .cleanCtx
      mutex := .destroyed
      misused := s.misused || s.mutex ≠ .free }
  | .cleanCtx => s.zmqCleanCtx a (.started false)
  | .started true => { s with caller := .stopCtx }
  | .started false => s
  | .stopCtx => s.zmqCleanCtx a .join
  | .join => if s.worker = .ended then { s with caller := .stopped } else s
  | .stopped => s

/-- The next step of `listener_thread`; `failed` says that `next_msg` fails for a reason of its
own. -/
def workerStep (failed : Bool) (s : Lifecycle) : Lifecycle :=
  match s.worker with
  | .absent => s
  | .lock =>
    match s.mutex with
    | .free => { s with worker := .signal, mutex := .ofWorker }
    | .ofCaller | .ofWorker => s
    | .raw | .destroyed => { s with worker := .signal, misused := true }
  | .signal =>
    { s with
      worker := .unlock
      caller := if s.caller = .waiting false then .waiting true else s.caller
      misused := s.misused || !s.condAlive }
  | .unlock =>
    { s with
      worker := .listening
      mutex := if s.mutex = .ofWorker then .free else s.mutex
      misused := s.misused || s.mutex ≠ .ofWorker }
  | .listening =>
    if failed ∨ s.ctx = .terminating then { s with worker := .cleanSocket } else s
  | .cleanSocket => { s with worker := .post, socketOpen := false, closes := s.closes + 1 }
  | .post => { s with worker := .ended, posts := s.posts + 1 }
  | .ended => s

/-- A turn of a thread, or an end of `pthread_cond_wait` that nobody has signalled. -/
inductive Turn
  | caller (a : StartAnswers)
  | worker (failed : Bool)
  | spurious

def step (s : Lifecycle) : Turn → Lifecycle
  | .caller a => s.callerStep a
  | .worker failed => s.workerStep failed
  | .spurious => if s.caller = .waiting false then { s with caller := .waiting true } else s

def initial : Lifecycle := ⟨.initCtx, .absent, .raw, false, .absent, false, 0, 0, false⟩

def run (turns : List Turn) : Lifecycle := Runs.run step initial turns

/-- The listener thread is past the handshake. -/
def Running (s : Lifecycle) : Prop :=
  s.worker = .listening ∨ s.worker = .cleanSocket ∨ s.worker = .post ∨ s.worker = .ended

/-- Who holds the mutex at each point, if nothing wakes the caller but the signal. -/
def Handshake (s : Lifecycle) : Prop :=
  match s.caller with
  | .initCtx | .initSocket | .removeFile | .bind | .chmod | .initMutex => s.worker = .absent
  | .lock => s.worker = .absent ∧ s.mutex = .free ∧ s.condAlive
  | .create => s.worker = .absent ∧ s.mutex = .ofCaller ∧ s.condAlive
  | .wait => s.worker = .lock ∧ s.mutex = .ofCaller ∧ s.condAlive
  | .waiting false =>
    s.condAlive ∧ (s.worker = .lock ∧ s.mutex = .free ∨ s.worker = .signal ∧ s.mutex = .ofWorker)
  | .waiting true => s.worker = .unlock ∧ s.mutex = .ofWorker ∨ s.Running ∧ s.mutex = .free
  | .unlock true => s.Running ∧ s.mutex = .ofCaller
  | .destroyCond true | .destroyMutex true => s.Running ∧ s.mutex = .free
  | .unlock false => s.worker = .absent ∧ s.mutex = .ofCaller
  | .destroyCond false | .destroyMutex false => s.worker = .absent ∧ s.mutex = .free
  | .cleanCtx | .started false => s.worker = .absent
  | .started true | .stopCtx | .join | .stopped => s.Running

/-- The handshake, and nothing has been misused. -/
structure Sound (s : Lifecycle) : Prop where
  handshake : s.Handshake
  unused : s.misused = false

variable {s : Lifecycle}

theorem Sound.zmqCleanCtx (h : s.Sound) (a : StartAnswers) {next : Caller}
    (hnext : ∀ c, Handshake { s with caller := next, ctx := c }) (hstay : ∀ c,
      Handshake { s with ctx := c }) : (s.zmqCleanCtx a next).Sound := by
  unfold Lifecycle.zmqCleanCtx
  split
  · exact ⟨hstay _, h.unused⟩
  · split
    · exact ⟨hnext _, h.unused⟩
    · split
      · exact h
      · exact ⟨hnext _, h.unused⟩

theorem Sound.callerStep (h : s.Sound) (a : StartAnswers) : (s.callerStep a).Sound := by
  have hs := h.handshake
  have hm := h.unused
  unfold Lifecycle.callerStep
  cases hc : s.caller with
  | initCtx =>
    simp only [Handshake, hc] at hs
    simp only
    split <;> exact ⟨hs, hm⟩
  | initSocket =>
    simp only [Handshake, hc] at hs
    simp only
    split <;> exact ⟨hs, hm⟩
  | removeFile =>
    simp only [Handshake, hc] at hs
    simp only
    split <;> exact ⟨hs, hm⟩
  | bind =>
    simp only [Handshake, hc] at hs
    simp only
    split
    · exact ⟨hs, hm⟩
    · exact h
    · exact ⟨hs, hm⟩
  | chmod =>
    simp only [Handshake, hc] at hs
    simp only
    split <;> exact ⟨hs, hm⟩
  | initMutex =>
    simp only [Handshake, hc] at hs
    exact ⟨⟨hs, rfl, rfl⟩, hm⟩
  | lock =>
    simp only [Handshake, hc] at hs
    simp only [hs.2.1, if_pos]
    exact ⟨⟨hs.1, rfl, hs.2.2⟩, hm⟩
  | create =>
    simp only [Handshake, hc] at hs
    simp only
    split
    · exact ⟨⟨rfl, hs.2⟩, hm⟩
    · exact ⟨⟨hs.1, hs.2.1⟩, hm⟩
  | wait =>
    simp only [Handshake, hc] at hs
    exact ⟨⟨hs.2.2, .inl ⟨hs.1, rfl⟩⟩, hm⟩
  | waiting woken =>
    cases woken with
    | false =>
      simp only [Bool.false_eq_true, false_and, if_false]
      exact h
    | true =>
      simp only [Handshake, hc] at hs
      obtain ⟨hw, hx⟩ | ⟨hr, hx⟩ := hs
      · simp only [hx, reduceCtorEq, and_false, if_false]
        exact h
      · simp only [hx, and_self, if_true]
        exact ⟨⟨hr, rfl⟩, hm⟩
  | unlock created =>
    cases created <;> simp only [Handshake, hc] at hs <;> exact ⟨⟨hs.1, rfl⟩, hm⟩
  | destroyCond created =>
    cases created <;> simp only [Handshake, hc] at hs <;> exact ⟨hs, hm⟩
  | destroyMutex created =>
    cases created <;> simp only [Handshake, hc] at hs <;>
      exact ⟨hs.1, by simp [hm, hs.2]⟩
  | cleanCtx =>
    simp only [Handshake, hc] at hs
    refine h.zmqCleanCtx a (fun c => hs) fun c => ?_
    simpa only [Handshake, hc] using hs
  | started result =>
    cases result with
    | true =>
      simp only [Handshake, hc] at hs
      exact ⟨hs, hm⟩
    | false => exact h
  | stopCtx =>
    simp only [Handshake, hc] at hs
    refine h.zmqCleanCtx a (fun c => hs) fun c => ?_
    simp only [Handshake, hc]
    exact hs
  | join =>
    simp only [Handshake, hc] at hs
    simp only
    split
    · exact ⟨hs, hm⟩
    · exact h
  | stopped => exact h

theorem Handshake.of_lock (h : s.Handshake) (hw : s.worker = .lock) :
    s.caller = .wait ∧ s.mutex = .ofCaller ∨
      s.caller = .waiting false ∧ s.mutex = .free ∧ s.condAlive = true := by
  unfold Handshake Running at h
  split at h <;> simp_all

theorem Handshake.of_signal (h : s.Handshake) (hw : s.worker = .signal) :
    s.caller = .waiting false ∧ s.mutex = .ofWorker ∧ s.condAlive = true := by
  unfold Handshake Running at h
  split at h <;> simp_all

theorem Handshake.of_unlock (h : s.Handshake) (hw : s.worker = .unlock) :
    s.caller = .waiting true ∧ s.mutex = .ofWorker := by
  unfold Handshake Running at h
  split at h <;> simp_all

/-- The handshake does not depend on what the listener thread does after it. -/
theorem Handshake.of_running (h : s.Handshake) (hr : s.Running) {s' : Lifecycle}
    (hr' : s'.Running) (hcaller : s'.caller = s.caller) (hmutex : s'.mutex = s.mutex) :
    s'.Handshake := by
  unfold Handshake Running at *
  rw [hcaller, hmutex]
  rcases hr with hr | hr | hr | hr <;> split at h <;> simp_all

theorem Sound.workerStep (h : s.Sound) (failed : Bool) : (s.workerStep failed).Sound := by
  have hs := h.handshake
  have hm := h.unused
  unfold Lifecycle.workerStep
  cases hw : s.worker with
  | absent => exact h
  | lock =>
    obtain ⟨hc, hx⟩ | ⟨hc, hx, hcond⟩ := hs.of_lock hw
    · simp only [hx]
      exact h
    · simp only [hx]
      refine ⟨?_, hm⟩
      simp only [Handshake, hc]
      exact ⟨hcond, .inr ⟨trivial, trivial⟩⟩
  | signal =>
    obtain ⟨hc, hx, hcond⟩ := hs.of_signal hw
    simp only [hc, hm, hcond, if_true]
    exact ⟨.inl ⟨rfl, hx⟩, rfl⟩
  | unlock =>
    obtain ⟨hc, hx⟩ := hs.of_unlock hw
    simp only [hx, hm, if_true]
    refine ⟨?_, rfl⟩
    simp only [Handshake, hc]
    exact .inr ⟨.inl rfl, trivial⟩
  | listening =>
    simp only
    split
    · exact ⟨hs.of_running (.inl hw) (.inr (.inl rfl)) rfl rfl, hm⟩
    · exact h
  | cleanSocket =>
    exact ⟨hs.of_running (.inr (.inl hw)) (.inr (.inr (.inl rfl))) rfl rfl, hm⟩
  | post => exact ⟨hs.of_running (.inr (.inr (.inl hw))) (.inr (.inr (.inr rfl))) rfl rfl, hm⟩
  | ended => exact h

/-- Nothing wakes the caller of `start` but the signal. -/
def Turn.NotSpurious : Turn → Prop
  | .spurious => False
  | _ => True

theorem Sound.step (h : s.Sound) {turn : Turn} (hturn : turn.NotSpurious) :
    (s.step turn).Sound := by
  cases turn with
  | caller a => exact h.callerStep a
  | worker failed => exact h.workerStep failed
  | spurious => exact hturn.elim

theorem sound_initial : initial.Sound := ⟨rfl, rfl⟩

theorem sound_run {turns : List Turn} (hturns : ∀ turn ∈ turns, turn.NotSpurious) :
    (run turns).Sound :=
  Runs.run_invariant_forall (fun _ _ h hturn => h.step hturn) sound_initial hturns

/-- As long as only the signal ends `pthread_cond_wait`, the handshake of `start` is sound however
the two threads are interleaved: the mutex and the condition variable are used only between their
initialisation and their destruction, and not destroyed while in use, and `start` returns success
only when the listener thread is past its part of it. -/
theorem handshake_safe {turns : List Turn} (hturns : ∀ turn ∈ turns, turn.NotSpurious) :
    (run turns).misused = false ∧ ((run turns).caller = .started true → (run turns).Running) := by
  have h := sound_run hturns
  refine ⟨h.unused, fun hc => ?_⟩
  have hs := h.handshake
  simpa only [Handshake, hc] using hs

theorem handshake_safe_good :
    let turns : List Turn := List.replicate 9 (.caller .good) ++ List.replicate 3 (.worker false) ++
      List.replicate 4 (.caller .good)
    (∀ turn ∈ turns, turn.NotSpurious) ∧ (run turns).caller = .started true ∧
      (run turns).misused = false ∧ (run turns).Running := by
  intro turns
  have hturns : ∀ turn ∈ turns, turn.NotSpurious := by
    intro turn hturn
    simp only [turns, List.mem_append, List.mem_replicate] at hturn
    rcases hturn with (hturn | hturn) | hturn <;> rw [hturn.2] <;> trivial
  have h := handshake_safe hturns
  exact ⟨hturns, rfl, h.1, h.2 rfl⟩

-- a wake-up that nobody signalled, before the listener thread has run
example : (run (List.replicate 9 (.caller .good) ++ [.spurious] ++
    List.replicate 4 (.caller .good) ++ [.worker false])).misused = true := by decide

end Lifecycle
end ClearwaterSnmp
