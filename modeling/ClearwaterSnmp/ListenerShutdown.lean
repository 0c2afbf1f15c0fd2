import ClearwaterSnmp.ListenerResources

namespace ClearwaterSnmp.Lifecycle

variable {s : Lifecycle}

/-- The gaps leave room for what a step adds to the other ranks. -/
def callerRank : Caller → ℕ
  | .initCtx => 30
  | .initSocket => 26
  | .removeFile => 25
  | .bind => 24
  | .chmod => 23
  | .initMutex => 22
  | .lock => 21
  | .create => 20
  | .wait => 9
  | .waiting false => 8
  | .waiting true => 7
  | .unlock _ => 6
  | .destroyCond _ => 5
  | .destroyMutex _ => 4
  | .cleanCtx | .started true => 3
  | .stopCtx => 2
  | .join => 1
  | .stopped | .started false => 0

def workerRank : Worker → ℕ
  | .absent => 7
  | .lock => 6
  | .signal => 5
  | .unlock => 4
  | .listening => 3
  | .cleanSocket => 2
  | .post => 1
  | .ended => 0

def ctxRank : Context → ℕ
  | .absent => 2
  | .opened => 1
  | .terminating | .destroyed => 0

/-- How far the threads are from the end. -/
def rank (s : Lifecycle) : ℕ := callerRank s.caller + workerRank s.worker + ctxRank s.ctx

theorem zmqCleanCtx_rank {next : Caller} (hnext : callerRank next < callerRank s.caller)
    (a : StartAnswers) :
    s.zmqCleanCtx a next = s ∨ (s.zmqCleanCtx a next).rank < s.rank := by
  unfold zmqCleanCtx
  split
  case isTrue hopened =>
    right
    simp only [rank, hopened, ctxRank]
    omega
  case isFalse =>
    split
    · right
      simp only [rank]
      omega
    · split
      · exact .inl rfl
      · right
        simp only [rank, ctxRank]
        omega

theorem callerStep_rank (s : Lifecycle) (a : StartAnswers) :
    s.callerStep a = s ∨ (s.callerStep a).rank < s.rank := by
  unfold callerStep
  cases hc : s.caller with
  | cleanCtx => exact zmqCleanCtx_rank (by simp [hc, callerRank]) a
  | stopCtx => exact zmqCleanCtx_rank (by simp [hc, callerRank]) a
  | started result =>
    cases result with
    | true =>
      right
      simp only [rank, hc, callerRank]
      omega
    | false => exact .inl rfl
  | waiting woken =>
    cases woken with
    | true =>
      simp only
      split
      · right
        simp only [rank, hc, callerRank]
        omega
      · exact .inl rfl
    | false => exact .inl (by simp)
  | destroyMutex created =>
    right
    cases created <;> simp [rank, hc, callerRank]
  | _ =>
    simp only
    repeat' split
    all_goals
      first
      | exact .inl rfl
      | exact .inl trivial
      | right
        simp only [rank, hc, callerRank, workerRank, ctxRank]
        omega

theorem workerStep_rank (s : Lifecycle) (failed : Bool) :
    s.workerStep failed = s ∨ (s.workerStep failed).rank < s.rank := by
  unfold workerStep
  cases hw : s.worker with
  | signal =>
    right
    by_cases hc : s.caller = .waiting false
    · simp only [hc, rank, hw, callerRank, workerRank, if_true]
      omega
    · simp only [hc, rank, hw, workerRank, if_false]
      omega
  | _ =>
    simp only
    repeat' split
    all_goals
      first
      | exact .inl rfl
      | exact .inl trivial
      | right
        simp only [rank, hw, workerRank]
        omega

/-- `pthread_create` succeeds, `zmq_bind` is not interrupted, and nothing wakes the caller but the
signal. -/
def Turn.Good : Turn → Prop
  | .caller a => a.create = true ∧ a.bind ≠ some .eintr
  | .worker _ => True
  | .spurious => False

/-- Whose turn it is. -/
def Turn.ofCaller : Turn → Bool
  | .worker _ => false
  | _ => true

/-- The listener thread has not failed to be created. -/
def Created (s : Lifecycle) : Prop :=
  s.caller ≠ .unlock false ∧ s.caller ≠ .destroyCond false ∧ s.caller ≠ .destroyMutex false ∧
    s.caller ≠ .cleanCtx

theorem Created.callerStep (h : s.Created) {a : StartAnswers} (ha : a.create = true) :
    (s.callerStep a).Created := by
  obtain ⟨hunlock, hcond, hmutex, hclean⟩ := h
  unfold Lifecycle.callerStep Lifecycle.zmqCleanCtx
  cases hc : s.caller with
  | cleanCtx => exact absurd hc hclean
  | unlock created =>
    cases created with
    | true => simp [Created]
    | false => exact absurd hc hunlock
  | destroyCond created =>
    cases created with
    | true => simp [Created]
    | false => exact absurd hc hcond
  | destroyMutex created =>
    cases created with
    | true => simp [Created]
    | false => exact absurd hc hmutex
  | started result => cases result <;> simp [Created, hc]
  | create => simp [Created, ha]
  | _ =>
    simp only
    repeat' split
    all_goals simp [Created, hc]

theorem Created.workerStep (h : s.Created) (failed : Bool) : (s.workerStep failed).Created := by
  unfold Lifecycle.workerStep
  cases hw : s.worker with
  | signal =>
    by_cases hc : s.caller = .waiting false
    · simp [Created, hc]
    · simp only [hc, if_false]
      exact h
  | _ =>
    simp only
    repeat' split
    all_goals exact h

/-- A turn of the listener thread that does something. -/
theorem workerStep_ne (h : (s.worker = .lock ∧ s.mutex = .free) ∨ s.worker = .signal ∨
    s.worker = .unlock ∨ (s.worker = .listening ∧ s.ctx = .terminating) ∨
    s.worker = .cleanSocket ∨ s.worker = .post) (failed : Bool) : s.workerStep failed ≠ s := by
  intro heq
  have hne := congrArg Lifecycle.worker heq
  obtain ⟨hw, hx⟩ | hw | hw | ⟨hw, hx⟩ | hw | hw := h
  · simp [workerStep, hw, hx] at hne
  · simp [workerStep, hw] at hne
  · simp [workerStep, hw] at hne
  · simp [workerStep, hw, hx] at hne
  · simp [workerStep, hw] at hne
  · simp [workerStep, hw] at hne

/-- A turn of the caller that does not wait for the listener thread. -/
theorem callerStep_ne {a : StartAnswers} (hbind : a.bind ≠ some .eintr)
    (h : s.caller = .initCtx ∨ s.caller = .initSocket ∨ s.caller = .removeFile ∨ s.caller = .bind ∨
      s.caller = .chmod ∨ s.caller = .initMutex ∨ (s.caller = .lock ∧ s.mutex = .free) ∨
      s.caller = .create ∨ s.caller = .wait ∨ (s.caller = .waiting true ∧ s.mutex = .free) ∨
      (∃ created, s.caller = .unlock created) ∨ (∃ created, s.caller = .destroyCond created) ∨
      s.caller = .destroyMutex true ∨ s.caller = .started true ∨
      (s.caller = .join ∧ s.worker = .ended)) : s.callerStep a ≠ s := by
  intro heq
  have hne := congrArg Lifecycle.caller heq
  unfold callerStep at hne
  obtain hc | hc | hc | hc | hc | hc | ⟨hc, hx⟩ | hc | hc | ⟨hc, hx⟩ | ⟨created, hc⟩ |
    ⟨created, hc⟩ | hc | hc | ⟨hc, hx⟩ := h
  · simp only [hc] at hne
    split at hne <;> cases hne
  · simp only [hc] at hne
    split at hne <;> cases hne
  · simp only [hc] at hne
    split at hne <;> cases hne
  · simp only [hc] at hne
    split at hne
    · cases hne
    · contradiction
    · cases hne
  · simp only [hc] at hne
    split at hne <;> cases hne
  · simp only [hc] at hne
    cases hne
  · simp only [hc, hx, if_true] at hne
    cases hne
  · simp only [hc] at hne
    split at hne <;> cases hne
  · simp only [hc] at hne
    cases hne
  · simp [hc, hx] at hne
  · simp only [hc] at hne
    cases hne
  · simp only [hc] at hne
    cases hne
  · simp [hc] at hne
  · simp only [hc] at hne
    cases hne
  · simp [hc, hx] at hne

/-- While `stop` has not returned, nor `start` with a failure, there is a thread whose turn brings
the end nearer. -/
theorem Tidy.progress (h : s.Tidy) (hcreated : s.Created)
    (hdone : ¬(s.caller = .stopped ∨ s.caller = .started false)) :
    ∃ k, ∀ turn : Turn, turn.Good → turn.ofCaller = k → (s.step turn).rank < s.rank := by
  have hs := h.handshake
  have hk := h.callerHolds
  have hwh := h.workerHolds
  have hcaller : (∀ a : StartAnswers, a.bind ≠ some .eintr → s.callerStep a ≠ s) →
      ∃ k, ∀ turn : Turn, turn.Good → turn.ofCaller = k → (s.step turn).rank < s.rank := by
    intro hmoves
    refine ⟨true, fun turn hgood hkind => ?_⟩
    cases turn with
    | caller a => exact (callerStep_rank s a).resolve_left (hmoves a hgood.2)
    | worker failed => cases hkind
    | spurious => exact hgood.elim
  have hworker : (∀ failed, s.workerStep failed ≠ s) →
      ∃ k, ∀ turn : Turn, turn.Good → turn.ofCaller = k → (s.step turn).rank < s.rank := by
    intro hmoves
    refine ⟨false, fun turn hgood hkind => ?_⟩
    cases turn with
    | caller a => cases hkind
    | worker failed => exact (workerStep_rank s failed).resolve_left (hmoves failed)
    | spurious => exact hgood.elim
  cases hc : s.caller with
  | lock =>
    simp only [Handshake, hc] at hs
    exact hcaller fun a hbind => callerStep_ne hbind (by simp [hc, hs.2.1])
  | waiting woken =>
    cases woken with
    | false =>
      simp only [Handshake, hc] at hs
      exact hworker (workerStep_ne (hs.2.imp id fun hsignal => .inl hsignal.1))
    | true =>
      simp only [Handshake, hc] at hs
      obtain ⟨hw, -⟩ | ⟨-, hx⟩ := hs
      · exact hworker (workerStep_ne (.inr (.inr (.inl hw))))
      · exact hcaller fun a hbind => callerStep_ne hbind (by simp [hc, hx])
  | destroyMutex created =>
    cases created with
    | true => exact hcaller fun a hbind => callerStep_ne hbind (by simp [hc])
    | false => exact absurd hc hcreated.2.2.1
  | cleanCtx => exact absurd hc hcreated.2.2.2
  | started result =>
    cases result with
    | true => exact hcaller fun a hbind => callerStep_ne hbind (by simp [hc])
    | false => exact absurd (.inr hc) hdone
  | stopped => exact absurd (.inl hc) hdone
  | stopCtx =>
    simp only [Handshake, hc] at hs
    simp only [CallerHolds, hc] at hk
    rcases hk with hopened | hterm
    · refine hcaller fun a _ heq => ?_
      have hne := congrArg Lifecycle.ctx heq
      simp [Lifecycle.callerStep, hc, Lifecycle.zmqCleanCtx, hopened] at hne
    · rcases hs with hw | hw | hw
      · exact hworker (workerStep_ne (.inr (.inr (.inr (.inl ⟨hw, hterm⟩)))))
      · exact hworker (workerStep_ne (.inr (.inr (.inr (.inr (.inl hw))))))
      · refine hcaller fun a _ heq => ?_
        have hclosed : s.socketOpen = false := by
          rcases hw with hw | hw <;> simp only [WorkerHolds, hw] at hwh <;> exact hwh.1
        have hne := congrArg Lifecycle.caller heq
        cases hi : a.interrupted <;>
          simp [Lifecycle.callerStep, hc, Lifecycle.zmqCleanCtx, hterm, hclosed, hi] at hne
  | join =>
    simp only [Handshake, hc] at hs
    simp only [CallerHolds, hc] at hk
    rcases hs with hw | hw | hw | hw
    · simp only [WorkerHolds, hw] at hwh
      have hterm : s.ctx = .terminating := hk.resolve_right (by simp [hwh.1])
      exact hworker (workerStep_ne (.inr (.inr (.inr (.inl ⟨hw, hterm⟩)))))
    · exact hworker (workerStep_ne (.inr (.inr (.inr (.inr (.inl hw))))))
    · exact hworker (workerStep_ne (.inr (.inr (.inr (.inr (.inr hw))))))
    · exact hcaller fun a hbind => callerStep_ne hbind (by simp [hc, hw])
  | _ => exact hcaller fun a hbind => callerStep_ne hbind (by simp [hc])

theorem Turn.Good.notSpurious {turn : Turn} (h : turn.Good) : turn.NotSpurious := by
  cases turn with
  | spurious => exact h
  | _ => exact trivial

theorem Created.step (h : s.Created) {turn : Turn} (hgood : turn.Good) :
    (s.step turn).Created := by
  cases turn with
  | caller a => exact h.callerStep hgood.1
  | worker failed => exact h.workerStep failed
  | spurious => exact hgood.elim

theorem step_rank (s : Lifecycle) {turn : Turn} (hgood : turn.Good) :
    s.step turn = s ∨ (s.step turn).rank < s.rank := by
  cases turn with
  | caller a => exact callerStep_rank s a
  | worker failed => exact workerStep_rank s failed
  | spurious => exact hgood.elim

/-- If both threads go on, `start` and then `stop` return, unless `start` has failed before there
was a thread. By then the listener thread has ended, has closed the socket exactly once and has
posted the semaphore exactly once, and nothing has been misused. -/
theorem start_stop_complete {turns : ℕ → Turn} (hgood : ∀ n, (turns n).Good)
    (hfair : ∀ k n, ∃ m, n ≤ m ∧ (turns m).ofCaller = k) :
    ∃ n, let s := run ((List.range n).map turns)
      s.misused = false ∧ (s.caller = .started false ∧ s.worker = .absent ∨
        s.caller = .stopped ∧ s.worker = .ended ∧ s.socketOpen = false ∧ s.closes = 1 ∧
          s.posts = 1) := by
  have htidy : ∀ n, (run ((List.range n).map turns)).Tidy := by
    intro n
    apply tidy_run
    intro turn hturn
    obtain ⟨m, -, rfl⟩ := List.mem_map.mp hturn
    exact (hgood m).notSpurious
  obtain ⟨n, hn⟩ := Runs.exists_of_fair Turn.ofCaller (P := Turn.Good)
    (I := fun s => Tidy s ∧ Created s)
    (Q := fun s => s.caller = .stopped ∨ s.caller = .started false)
    (InvImage.wf rank Nat.lt_wfRel.wf)
    (fun s turn h hturn => ⟨h.1.step hturn.notSpurious, h.2.step hturn⟩)
    (fun s turn _ hturn => step_rank s hturn) (fun s h hdone => h.1.progress h.2 hdone) hgood hfair
    (s := initial) ⟨tidy_initial, by simp [Created, initial]⟩
  refine ⟨n, (htidy n).unused, ?_⟩
  have h := htidy n
  rcases hn with hstopped | hfailed
  · have hk := h.callerHolds
    have hw := h.workerHolds
    unfold CallerHolds WorkerHolds at *
    change (run _).caller = _ at hstopped
    simp only [hstopped] at hk
    simp only [hk] at hw
    exact .inr ⟨hstopped, hk, hw⟩
  · have hs := h.handshake
    change (run _).caller = _ at hfailed
    simp only [Handshake, hfailed] at hs
    exact .inl ⟨hfailed, hs⟩

theorem start_stop_complete_good :
    let turns : ℕ → Turn := fun n => if n % 2 = 0 then .caller .good else .worker false
    (∀ n, (turns n).Good) ∧ (∀ k n, ∃ m, n ≤ m ∧ (turns m).ofCaller = k) ∧
      ∃ n, let s := run ((List.range n).map turns)
        s.misused = false ∧ (s.caller = .started false ∧ s.worker = .absent ∨
          s.caller = .stopped ∧ s.worker = .ended ∧ s.socketOpen = false ∧ s.closes = 1 ∧
            s.posts = 1) := by
  intro turns
  have hgood : ∀ n, (turns n).Good := by
    intro n
    by_cases hn : n % 2 = 0
    · simp only [turns, if_pos hn]
      exact ⟨rfl, by simp [StartAnswers.good]⟩
    · simp only [turns, if_neg hn]
      exact trivial
  have hfair : ∀ k n, ∃ m, n ≤ m ∧ (turns m).ofCaller = k := by
    intro k n
    cases k with
    | true =>
      have heven : 2 * n % 2 = 0 := by omega
      exact ⟨2 * n, by omega, by simp only [turns, if_pos heven]; rfl⟩
    | false =>
      have hodd : ¬(2 * n + 1) % 2 = 0 := by omega
      exact ⟨2 * n + 1, by omega, by simp only [turns, if_neg hodd]; rfl⟩
  exact ⟨hgood, hfair, start_stop_complete hgood hfair⟩

end ClearwaterSnmp.Lifecycle
