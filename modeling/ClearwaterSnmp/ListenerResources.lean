import ClearwaterSnmp.ListenerLifecycle

namespace ClearwaterSnmp.Lifecycle

variable {s : Lifecycle}

/-- What the listener thread has done with the socket and the semaphore. -/
def WorkerHolds (s : Lifecycle) : Prop :=
  match s.worker with
  | .absent => s.closes = 0 ∧ s.posts = 0
  | .lock | .signal | .unlock | .listening | .cleanSocket =>
    s.socketOpen = true ∧ s.closes = 0 ∧ s.posts = 0
  | .post => s.socketOpen = false ∧ s.closes = 1 ∧ s.posts = 0
  | .ended => s.socketOpen = false ∧ s.closes = 1 ∧ s.posts = 1

/-- What the caller has done with the context, and with the socket before the thread is there. -/
def CallerHolds (s : Lifecycle) : Prop :=
  match s.caller with
  | .initCtx | .started false => True
  | .initSocket => s.ctx = .opened
  | .stopCtx => s.ctx = .opened ∨ s.ctx = .terminating
  | .join => s.ctx = .terminating ∨ s.socketOpen = false
  | .stopped => s.worker = .ended
  | .cleanCtx => s.socketOpen = true
  | .unlock false | .destroyCond false | .destroyMutex false =>
    s.socketOpen = true ∧ s.ctx = .opened
  | _ => s.ctx = .opened ∧ (s.worker = .absent → s.socketOpen = true)

/-- The invariant of a run in which only the signal wakes the caller. -/
structure Tidy (s : Lifecycle) : Prop extends Sound s where
  workerHolds : s.WorkerHolds
  callerHolds : s.CallerHolds

theorem WorkerHolds.congr {s' : Lifecycle} (h : s.WorkerHolds) (hworker : s'.worker = s.worker)
    (hopen : s'.socketOpen = s.socketOpen) (hcloses : s'.closes = s.closes)
    (hposts : s'.posts = s.posts) : s'.WorkerHolds := by
  unfold WorkerHolds at *
  rw [hworker, hopen, hcloses, hposts]
  exact h

theorem Tidy.workerHolds_callerStep (h : s.Tidy) (a : StartAnswers) :
    (s.callerStep a).WorkerHolds := by
  have hw := h.workerHolds
  have hs := h.handshake
  have hk := h.callerHolds
  unfold Lifecycle.callerStep Lifecycle.zmqCleanCtx
  cases hc : s.caller with
  | initSocket =>
    simp only [Handshake, hc] at hs
    simp only [WorkerHolds, hs] at hw
    simp only
    split
    · simpa only [WorkerHolds, hs] using hw
    · simpa only [WorkerHolds, hs] using hw
  | create =>
    simp only [Handshake, hc] at hs
    simp only [CallerHolds, hc] at hk
    simp only [WorkerHolds, hs.1] at hw
    simp only
    split
    · exact ⟨hk.2 hs.1, hw⟩
    · simpa only [WorkerHolds, hs.1] using hw
  | started result => cases result <;> exact hw.congr rfl rfl rfl rfl
  | _ =>
    simp only
    repeat' split
    all_goals exact hw.congr rfl rfl rfl rfl

theorem Tidy.callerHolds_callerStep (h : s.Tidy) (a : StartAnswers) :
    (s.callerStep a).CallerHolds := by
  have hs := h.handshake
  have hk := h.callerHolds
  unfold Lifecycle.callerStep Lifecycle.zmqCleanCtx
  cases hc : s.caller with
  | initCtx =>
    simp only
    split
    · exact rfl
    · exact trivial
  | initSocket =>
    simp only [CallerHolds, hc] at hk
    simp only
    split
    · exact ⟨hk, fun _ => rfl⟩
    · exact trivial
  | removeFile =>
    simp only [CallerHolds, hc] at hk
    simp only
    split
    · exact hk
    · exact trivial
  | bind =>
    simp only
    split
    · simpa only [CallerHolds, hc] using hk
    · exact hk
    · exact trivial
  | chmod =>
    simp only [CallerHolds, hc] at hk
    simp only
    split
    · exact hk
    · exact trivial
  | initMutex => simpa only [CallerHolds, hc] using hk
  | lock =>
    simp only
    split
    · simpa only [CallerHolds, hc] using hk
    · exact hk
  | create =>
    simp only [CallerHolds, hc] at hk
    simp only [Handshake, hc] at hs
    simp only
    split
    · exact ⟨hk.1, fun hw => absurd hw (by simp)⟩
    · exact ⟨hk.2 hs.1, hk.1⟩
  | wait => simpa only [CallerHolds, hc] using hk
  | waiting woken =>
    simp only
    split
    · simpa only [CallerHolds, hc] using hk
    · exact hk
  | unlock created => cases created <;> simpa only [CallerHolds, hc] using hk
  | destroyCond created => cases created <;> simpa only [CallerHolds, hc] using hk
  | destroyMutex created =>
    cases created with
    | true =>
      simp only [CallerHolds, hc] at hk
      exact hk
    | false =>
      simp only [CallerHolds, hc] at hk
      exact hk.1
  | cleanCtx =>
    simp only
    split
    · simpa only [CallerHolds, hc] using hk
    · split
      · exact trivial
      · split
        · exact hk
        · exact trivial
  | started result =>
    cases result with
    | true =>
      simp only [CallerHolds, hc] at hk
      exact .inl hk.1
    | false => exact hk
  | stopCtx =>
    simp only [CallerHolds, hc] at hk
    simp only
    split
    case isTrue =>
      simp only [CallerHolds]
      exact .inr trivial
    case isFalse hopened =>
      split
      · exact .inl (hk.resolve_left hopened)
      · split
        · simp only [CallerHolds, hc]
          exact hk
        case isFalse hclosed => exact .inr (by simpa using hclosed)
  | join =>
    simp only
    split
    case isTrue hended => exact hended
    case isFalse => exact hk
  | stopped => exact hk

theorem Tidy.callerStep (h : s.Tidy) (a : StartAnswers) : (s.callerStep a).Tidy :=
  ⟨h.toSound.callerStep a, h.workerHolds_callerStep a, h.callerHolds_callerStep a⟩

theorem WorkerHolds.workerStep (h : s.WorkerHolds) (failed : Bool) :
    (s.workerStep failed).WorkerHolds := by
  unfold Lifecycle.workerStep
  cases hw : s.worker with
  | absent => exact h
  | lock =>
    simp only [WorkerHolds, hw] at h
    simp only
    split
    · exact h
    · simpa only [WorkerHolds, hw] using h
    · simpa only [WorkerHolds, hw] using h
    · exact h
    · exact h
  | signal => simpa only [WorkerHolds, hw] using h
  | unlock => simpa only [WorkerHolds, hw] using h
  | listening =>
    simp only
    split
    · simpa only [WorkerHolds, hw] using h
    · exact h
  | cleanSocket =>
    simp only [WorkerHolds, hw] at h
    exact ⟨rfl, by simp [h.2.1], h.2.2⟩
  | post =>
    simp only [WorkerHolds, hw] at h
    exact ⟨h.1, h.2.1, by simp [h.2.2]⟩
  | ended => exact h

theorem Running.ne_absent (h : s.Running) : s.worker ≠ .absent := by
  rcases h with h | h | h | h <;> simp [h]

/-- What the caller relies on does not depend on what the listener thread does after the
handshake, except that it closes the socket. -/
theorem CallerHolds.of_running {s' : Lifecycle} (h : s.CallerHolds) (hs : s.Handshake)
    (hr : s.Running) (hr' : s'.Running) (hended : s.worker ≠ .ended)
    (hcaller : s'.caller = s.caller) (hctx : s'.ctx = s.ctx)
    (hopen : s'.socketOpen = s.socketOpen ∨ s'.socketOpen = false) : s'.CallerHolds := by
  have habsent := hr.ne_absent
  have hopened : s.ctx = .opened →
      s'.ctx = .opened ∧ (s'.worker = .absent → s'.socketOpen = true) :=
    fun h => ⟨hctx.trans h, fun hw => absurd hw hr'.ne_absent⟩
  unfold CallerHolds at *
  rw [hcaller]
  cases hc : s.caller with
  | unlock created =>
    cases created with
    | true =>
      simp only [hc] at h
      exact hopened h.1
    | false =>
      simp only [Handshake, hc] at hs
      exact absurd hs.1 habsent
  | destroyCond created =>
    cases created with
    | true =>
      simp only [hc] at h
      exact hopened h.1
    | false =>
      simp only [Handshake, hc] at hs
      exact absurd hs.1 habsent
  | destroyMutex created =>
    cases created with
    | true =>
      simp only [hc] at h
      exact hopened h.1
    | false =>
      simp only [Handshake, hc] at hs
      exact absurd hs.1 habsent
  | started result =>
    cases result with
    | true =>
      simp only [hc] at h
      exact hopened h.1
    | false => exact trivial
  | waiting woken =>
    simp only [hc] at h
    exact hopened h.1
  | cleanCtx =>
    simp only [Handshake, hc] at hs
    exact absurd hs habsent
  | initCtx => exact trivial
  | initSocket =>
    simp only [hc] at h
    exact hctx.trans h
  | stopCtx =>
    simp only [hc] at h
    exact h.imp hctx.trans hctx.trans
  | join =>
    simp only [hc] at h
    rcases h with h | h
    · exact .inl (hctx.trans h)
    · exact .inr (hopen.elim (fun ho => ho.trans h) id)
  | stopped =>
    simp only [hc] at h
    exact absurd h hended
  | _ =>
    simp only [hc] at h
    exact hopened h.1

theorem Tidy.workerStep (h : s.Tidy) (failed : Bool) : (s.workerStep failed).Tidy := by
  refine ⟨h.toSound.workerStep failed, h.workerHolds.workerStep failed, ?_⟩
  have hs := h.handshake
  have hk := h.callerHolds
  unfold Lifecycle.workerStep
  cases hw : s.worker with
  | absent => exact hk
  | lock =>
    obtain ⟨hc, hx⟩ | ⟨hc, hx, -⟩ := hs.of_lock hw
    · simp only [hx]
      exact hk
    · simp only [CallerHolds, hc] at hk
      simp only [hx, CallerHolds, hc]
      exact ⟨hk.1, fun hw => absurd hw (by simp)⟩
  | signal =>
    obtain ⟨hc, hx, -⟩ := hs.of_signal hw
    simp only [CallerHolds, hc] at hk
    simp only [hc, if_true, CallerHolds]
    exact ⟨hk.1, fun hw => absurd hw (by simp)⟩
  | unlock =>
    obtain ⟨hc, hx⟩ := hs.of_unlock hw
    simp only [CallerHolds, hc] at hk
    simp only [CallerHolds, hc]
    exact ⟨hk.1, fun hw => absurd hw (by simp)⟩
  | listening =>
    simp only
    split
    · exact hk.of_running hs (.inl hw) (.inr (.inl rfl)) (by simp [hw]) rfl rfl (.inl rfl)
    · exact hk
  | cleanSocket =>
    exact hk.of_running hs (.inr (.inl hw)) (.inr (.inr (.inl rfl))) (by simp [hw]) rfl rfl
      (.inr rfl)
  | post =>
    exact hk.of_running hs (.inr (.inr (.inl hw))) (.inr (.inr (.inr rfl))) (by simp [hw]) rfl rfl
      (.inl rfl)
  | ended => exact hk

theorem Tidy.step (h : s.Tidy) {turn : Turn} (hturn : turn.NotSpurious) :
    (s.step turn).Tidy := by
  cases turn with
  | caller a => exact h.callerStep a
  | worker failed => exact h.workerStep failed
  | spurious => exact hturn.elim

theorem tidy_initial : initial.Tidy := ⟨sound_initial, ⟨rfl, rfl⟩, trivial⟩

theorem tidy_run {turns : List Turn} (hturns : ∀ turn ∈ turns, turn.NotSpurious) :
    (run turns).Tidy :=
  Runs.run_invariant_forall (fun _ _ h hturn => h.step hturn) tidy_initial hturns

/-! A listener thread that cannot be created. -/

/-- No signal interrupts `zmq_ctx_destroy`. -/
def Turn.Uninterrupted : Turn → Prop
  | .caller a => a.interrupted = false
  | _ => True

/-- `start` cleans up after `pthread_create` has failed. -/
def CreateFailed (s : Lifecycle) : Prop :=
  (s.caller = .unlock false ∨ s.caller = .destroyCond false ∨ s.caller = .destroyMutex false ∨
    s.caller = .cleanCtx) ∧ s.worker = .absent ∧ s.socketOpen = true

theorem CreateFailed.step (h : s.CreateFailed) {turn : Turn} (hturn : turn.Uninterrupted) :
    (s.step turn).CreateFailed := by
  obtain ⟨hc, hw, ho⟩ := h
  cases turn with
  | caller a =>
    change a.interrupted = false at hturn
    unfold Lifecycle.step callerStep
    rcases hc with hc | hc | hc | hc
    · simp only [hc]
      exact ⟨.inr (.inl rfl), hw, ho⟩
    · simp only [hc]
      exact ⟨.inr (.inr (.inl rfl)), hw, ho⟩
    · simp only [hc]
      exact ⟨.inr (.inr (.inr rfl)), hw, ho⟩
    · by_cases hx : s.ctx = .opened
      · simp only [hc, zmqCleanCtx, if_pos hx]
        exact ⟨.inr (.inr (.inr rfl)), hw, ho⟩
      · simp only [hc, zmqCleanCtx, if_neg hx, hturn, Bool.false_eq_true, if_false, ho, if_true]
        exact ⟨.inr (.inr (.inr hc)), hw, ho⟩
  | worker failed =>
    simp only [Lifecycle.step, workerStep, hw]
    exact ⟨hc, hw, ho⟩
  | spurious =>
    have hnot : s.caller ≠ .waiting false := by
      rcases hc with hc | hc | hc | hc <;> simp [hc]
    simp only [Lifecycle.step, if_neg hnot]
    exact ⟨hc, hw, ho⟩

/-- When the listener thread cannot be created, `start` destroys the context while the socket is
open and nobody is there to close it. It does not report the failure: it never returns, unless a
signal interrupts it. -/
theorem failed_create_hangs {turns later : List Turn}
    (hturns : ∀ turn ∈ turns, turn.NotSpurious) (hcaller : (run turns).caller = .unlock false)
    (hlater : ∀ turn ∈ later, turn.Uninterrupted) (result : Bool) :
    (run (turns ++ later)).caller ≠ .started result := by
  have htidy := tidy_run hturns
  have hs := htidy.handshake
  have hk := htidy.callerHolds
  simp only [Handshake, hcaller] at hs
  simp only [CallerHolds, hcaller] at hk
  have hfailed : (run (turns ++ later)).CreateFailed := by
    rw [run, Runs.run_append]
    exact Runs.run_invariant_forall (I := CreateFailed) (P := Turn.Uninterrupted)
      (fun _ _ h hturn => h.step hturn) ⟨.inl hcaller, hs.1, hk.1⟩ hlater
  rcases hfailed.1 with hc | hc | hc | hc <;> simp [hc]

theorem failed_create_hangs_sample :
    let turns : List Turn := List.replicate 7 (.caller .good) ++
      [.caller { StartAnswers.good with create := false }]
    (run turns).caller = .unlock false ∧
      ∀ n, (run (turns ++ List.replicate n (.caller .good))).caller ≠ .started false := by
  intro turns
  have hturns : ∀ turn ∈ turns, turn.NotSpurious := by
    intro turn hturn
    simp only [turns, List.mem_append, List.mem_replicate, List.mem_singleton] at hturn
    rcases hturn with hturn | hturn
    · rw [hturn.2]
      trivial
    · rw [hturn]
      trivial
  refine ⟨rfl, fun n => failed_create_hangs hturns rfl (fun turn hturn => ?_) false⟩
  rw [(List.mem_replicate.mp hturn).2]
  rfl

end ClearwaterSnmp.Lifecycle
