import ClearwaterSnmp.LastRequest
import ClearwaterSnmp.WakeUp

namespace ClearwaterSnmp
open AlarmScheduler

/-! ## A single alarm that is asked for nothing new -/

namespace AlarmTrack

variable {c : AlarmConfig} {x : AlarmTrack} {s : Severity} {u : AlarmInput}

/-- A timer that holds a severity is due half a minute from now at the latest, in the heap or
not. -/
def Bounded (x : AlarmTrack) : Prop :=
  x.alarm.pending ≠ .undefinedSeverity → x.alarm.due ≤ x.now.ms + 30000

theorem Bounded.request (h : x.Bounded) (s : Severity) : (x.step c (.request s)).Bounded := by
  unfold Bounded at *
  simp only [step]
  rcases Alarm.request_cases c.order x.now s x.alarm with
      ⟨-, -, he⟩ | ⟨-, -, he⟩ | ⟨-, -, he⟩ | ⟨-, -, he⟩ | ⟨-, -, he⟩ <;> rw [he]
  · exact h
  · exact h
  · exact h
  · exact fun _ => Nat.le_add_right _ _
  · exact fun _ => le_rfl

theorem Bounded.resync (h : x.Bounded) : (x.step c .resync).Bounded := by
  unfold Bounded at *
  simp only [step]
  rcases Alarm.resync_cases x.now x.alarm with ⟨-, he⟩ | ⟨-, -, he⟩ | ⟨-, -, he⟩ <;> rw [he]
  · exact h
  · exact h
  · exact fun _ => Nat.le_add_right _ _

theorem Bounded.failure (h : x.Bounded) (s : Severity) : (x.step c (.failure s)).Bounded := by
  unfold Bounded at *
  simp only [step]
  rcases Alarm.failure_cases x.now s x.alarm with
      ⟨-, he⟩ | ⟨-, -, -, he⟩ | ⟨-, -, -, he⟩ <;> rw [he]
  · exact h
  · exact h
  · exact fun _ => le_rfl

theorem Bounded.step (hset : Settled c x) (h : x.Bounded) (u : AlarmInput) :
    (x.step c u).Bounded := by
  cases u with
  | request s => exact h.request s
  | resync => exact h.resync
  | failure s => exact h.failure s
  | pass creation =>
    rcases hset.pass_cases creation with ⟨-, he⟩ | ⟨-, -, -, he⟩
    · rwa [he]
    · rw [he]
      exact fun hp => absurd rfl hp
  | clock later =>
    intro hp
    have hdue := h hp
    have hle := x.now.le_advance later
    simp only [AlarmTrack.step]
    omega
  | other => exact h

theorem now_step (x : AlarmTrack) (u : AlarmInput) : x.now.ms ≤ (x.step c u).now.ms := by
  cases u with
  | clock later => exact x.now.le_advance later
  | _ => exact le_rfl

/-- What asks for nothing else leaves the last request what it was. -/
theorem lastAccepted_step (hset : Settled c x) (hlast : History.lastAccepted x.history = some s)
    (hu : ∀ s', u = .request s' → s' = s) :
    History.lastAccepted (x.step c u).history = some s := by
  cases u with
  | request s' => exact congrArg some (hu s' rfl)
  | pass creation =>
    rcases hset.pass_cases creation with ⟨-, he⟩ | ⟨-, -, -, he⟩ <;> rw [he]
    · exact hlast
    · exact hlast
  | resync | failure s' | clock later | other => exact hlast

/-- Once the severity requested last has been sent, it stays the one sent last. -/
theorem current_step (hset : Settled c x) (h : Follows c x)
    (hlast : History.lastAccepted x.history = some s) (hcurrent : x.alarm.current = s) :
    (x.step c u).alarm.current = s := by
  cases u with
  | request s' => exact (Alarm.current_request _ _ _ _).trans hcurrent
  | resync => exact (Alarm.current_resync _ _).trans hcurrent
  | failure s => exact (Alarm.current_failure _ _ _).trans hcurrent
  | pass creation =>
    rcases hset.pass_cases creation with ⟨-, he⟩ | ⟨hs, -, -, he⟩ <;> rw [he]
    · exact hcurrent
    · exact Option.some.inj ((h.last_of_scheduled hs).symm.trans hlast)
  | clock later => exact hcurrent
  | other => exact hcurrent

/-- The alarm waits in the heap to be sent with the severity `s` at the time `due`. -/
structure Waits (s : Severity) (due : ℕ) (x : AlarmTrack) : Prop where
  current : x.alarm.current ≠ s
  scheduled : x.alarm.scheduled = true
  pending : x.alarm.pending = s
  due_eq : x.alarm.due = due

/-- An alarm that was not sent with the severity requested last waits for it. -/
theorem Follows.waits (h : Follows c x) (hlast : History.lastAccepted x.history = some s)
    (hcurrent : x.alarm.current ≠ s) : x.Waits s x.alarm.due := by
  have ht := h.requested s hlast
  unfold Alarm.target at ht
  split at ht
  · rename_i hs
    exact ⟨hcurrent, hs, ht, rfl⟩
  · exact absurd ht hcurrent

/-- An alarm that is requested again while it waits goes on waiting, for no longer. -/
theorem Waits.request_eq {due : ℕ} (h : x.Waits s due) (order : SeverityOrder) (now : ℕ) :
    x.alarm.request order now s = x.alarm := by
  have hre : ∀ delay, x.alarm.reschedule now s delay = x.alarm := by
    intro delay
    rw [Alarm.reschedule, if_neg (not_not.mpr h.pending.symm), ← h.scheduled]
  rw [Alarm.request, if_neg h.current.symm, hre, hre, ite_self]

/-- A pass sends the alarm if it is due. Otherwise, if it is asked for nothing else, it goes on
waiting. -/
theorem Waits.step {due : ℕ} (h : x.Waits s due) (hset : Settled c x)
    (hu : ∀ s', u = .request s' → s' = s) (hkeeps : KeepsPending x u) :
    (x.step c u).Waits s due ∨ (x.step c u).alarm.current = s := by
  have hwaits := h
  obtain ⟨hcurrent, hscheduled, hpending, hdue⟩ := h
  cases u with
  | request s' =>
    left
    obtain rfl := hu s' rfl
    simp only [AlarmTrack.step, hwaits.request_eq]
    exact ⟨hcurrent, hscheduled, hpending, hdue⟩
  | resync =>
    left
    have hundefined : x.alarm.current = .undefinedSeverity := by
      by_contra hc
      exact hcurrent ((hkeeps rfl hc hscheduled).symm.trans hpending)
    simp only [AlarmTrack.step, Alarm.resync_of_undefined hundefined]
    exact ⟨hcurrent, hscheduled, hpending, hdue⟩
  | failure s =>
    left
    have hnot : ¬(x.alarm.current = s ∧ x.alarm.scheduled = false) := by simp [hscheduled]
    simp only [AlarmTrack.step, Alarm.failure, if_neg hnot]
    exact ⟨hcurrent, hscheduled, hpending, hdue⟩
  | pass creation =>
    rcases hset.pass_cases creation with ⟨-, he⟩ | ⟨-, -, -, he⟩ <;> rw [he]
    · exact .inl ⟨hcurrent, hscheduled, hpending, hdue⟩
    · exact .inr hpending
  | clock later => exact .inl ⟨hcurrent, hscheduled, hpending, hdue⟩
  | other => exact .inl ⟨hcurrent, hscheduled, hpending, hdue⟩

theorem Waits.current_pass {due : ℕ} (h : x.Waits s due) (hset : Settled c x)
    (hdue : due ≤ x.now.ms) (creation : RowCreation) :
    (x.step c (.pass creation)).alarm.current = s := by
  rcases hset.pass_cases creation with ⟨hnot, -⟩ | ⟨-, -, -, he⟩
  · have hd : x.alarm.isDue x.now.ms = true := by
      simpa [Alarm.isDue, h.scheduled, h.due_eq] using hdue
    simp [hd] at hnot
  · rw [he]
    exact h.pending

end AlarmTrack

/-! ## Runs of the agent with its sender -/

namespace ThreadedWorld

variable {H : Type} {cfg : Setup H} {w : ThreadedWorld H} {ready : Bool} {i : AlarmIndex}

/-- The alarm `i` of the agent. -/
def alarmTrack (cfg : Setup H) (w : ThreadedWorld H) (i : AlarmIndex) : AlarmTrack :=
  w.toWorld.track cfg i

/-- A `sync_alarms` finds no waiting change that it would overwrite. -/
def SyncFindsNoChange (cfg : Setup H) (w : ThreadedWorld H) (a : Action cfg.defs) : Prop :=
  ∀ e ∈ w.events a, World.SyncFindsNoChange cfg w.toWorld e

/-- So it is if there is no `sync_alarms` at all. -/
theorem syncFindsNoChange_of_isSync (w : ThreadedWorld H) {a : Action cfg.defs}
    (h : ∀ e he, a = .operation e he → e.isSync = false) : w.SyncFindsNoChange cfg a := by
  intro e he hs
  cases a with
  | operation e' he' =>
    rw [events, List.mem_singleton] at he
    rw [he, h e' he' rfl] at hs
    contradiction
  | senderLoop rows =>
    rw [events] at he
    split at he
    · rw [List.mem_singleton] at he
      rw [he] at hs
      contradiction
    · contradiction
  | wake => contradiction
  | terminate => contradiction

/-- The alarm `i` is asked for nothing but the severity `s`. -/
def AsksOnly (i : AlarmIndex) (s : Severity) : Action cfg.defs → Prop
  | .operation e _ => ∀ s', e.inputFor cfg i = .request s' → s' = s
  | _ => True

theorem AsksOnly.inputFor {s : Severity} {a : Action cfg.defs} (h : AsksOnly i s a)
    {e : Event cfg.defs} (he : e ∈ w.events a) (s' : Severity) (hs : e.inputFor cfg i = .request s') :
    s' = s := by
  cases a with
  | operation e' he' =>
    rw [events, List.mem_singleton] at he
    rw [he] at hs
    exact h s' hs
  | senderLoop rows =>
    rw [events] at he
    split at he
    · rw [List.mem_singleton] at he
      rw [he] at hs
      cases hs
    · contradiction
  | wake => contradiction
  | terminate => contradiction

theorem events_cases (w : ThreadedWorld H) (a : Action cfg.defs) :
    w.events a = [] ∨ ∃ e, w.events a = [e] := by
  cases a with
  | operation e he => exact .inr ⟨e, rfl⟩
  | senderLoop rows =>
    rw [events]
    split
    · exact .inr ⟨_, rfl⟩
    · exact .inl rfl
  | wake => exact .inl rfl
  | terminate => exact .inl rfl

/-- An action is one input to an alarm, or none. -/
theorem alarmTrack_step (h : World.Sound cfg ready w.toWorld) (a : Action cfg.defs)
    (i : AlarmIndex) :
    (w.step cfg a).alarmTrack cfg i = w.alarmTrack cfg i ∨
      ∃ e ∈ w.events a, (w.step cfg a).alarmTrack cfg i =
        (w.alarmTrack cfg i).step (cfg.alarmConfig ready i) (e.inputFor cfg i) := by
  have htrack := track_step h a i
  rcases events_cases w a with hnone | ⟨e, he⟩
  · rw [hnone] at htrack
    exact .inl htrack
  · rw [he] at htrack
    exact .inr ⟨e, he ▸ List.mem_singleton_self e, htrack⟩

/-- What each alarm and the thread meet at every moment. -/
structure Regular (cfg : Setup H) (ready : Bool) (w : ThreadedWorld H) : Prop where
  sound : World.Sound cfg ready w.toWorld
  settled : ∀ i, (w.alarmTrack cfg i).Settled (cfg.alarmConfig ready i)
  follows : ∀ i, (w.alarmTrack cfg i).Follows (cfg.alarmConfig ready i)
  bounded : ∀ i, (w.alarmTrack cfg i).Bounded
  noLostWakeUp : NoLostWakeUp cfg w
  runs : w.terminated = false
  unfinished : w.thread ≠ .finished

theorem runs_step (hruns : w.terminated = false) (hthread : w.thread ≠ .finished)
    {a : Action cfg.defs} (ha : a ≠ .terminate) :
    (w.step cfg a).terminated = false ∧ (w.step cfg a).thread ≠ .finished := by
  cases a with
  | operation e he => exact ⟨hruns, hthread⟩
  | senderLoop rows =>
    by_cases hawake : w.thread = .awake
    · have hnot : ¬w.terminated = true := by simp [hruns]
      rw [step, if_pos hawake, senderLoop, if_neg hnot]
      exact ⟨hruns, by simp⟩
    · rw [step, if_neg hawake]
      exact ⟨hruns, hthread⟩
  | wake =>
    rw [step]
    split
    · exact ⟨hruns, by simp⟩
    · exact ⟨hruns, hthread⟩
  | terminate => exact absurd rfl ha

theorem Regular.step (h : Regular cfg ready w) {a : Action cfg.defs} (ha : a ≠ .terminate)
    (hsync : w.SyncFindsNoChange cfg a) : Regular cfg ready (w.step cfg a) := by
  obtain ⟨hruns, hthread⟩ := runs_step h.runs h.unfinished ha
  refine ⟨sound_step h.sound a, fun i => ?_, fun i => ?_, fun i => ?_,
    h.noLostWakeUp.step h.sound a, hruns, hthread⟩
  · rcases alarmTrack_step h.sound a i with heq | ⟨e, -, heq⟩ <;> rw [heq]
    · exact h.settled i
    · exact (h.settled i).step (Event.inputFor_admissible ready i e)
  · rcases alarmTrack_step h.sound a i with heq | ⟨e, he, heq⟩ <;> rw [heq]
    · exact h.follows i
    · exact (h.follows i).step (h.settled i) (Event.inputFor_admissible ready i e)
        ((hsync e he).keepsPending i)
  · rcases alarmTrack_step h.sound a i with heq | ⟨e, -, heq⟩ <;> rw [heq]
    · exact h.bounded i
    · exact (h.bounded i).step (h.settled i) _

theorem regular_init (cfg : Setup H) (table : AlarmActiveTable) (now : Clock) :
    Regular cfg table.myHandler (init cfg table now) := by
  have htrack : ∀ i, (init cfg table now).alarmTrack cfg i = World.initialTrack table now i :=
    World.track_init cfg table now
  refine ⟨World.sound_init table now, fun i => ?_, fun i => ?_, fun i => ?_, ?_, rfl,
    by simp [init]⟩
  · rw [htrack]
    exact AlarmTrack.settled_initial now _
  · rw [htrack]
    exact AlarmTrack.follows_initial now _
  · rw [htrack]
    exact fun hp => absurd rfl hp
  · intro deadline hasleep
    simp [init] at hasleep

/-- The alarm waits in the heap to be sent with the severity `s`, and is due. -/
def Due (cfg : Setup H) (i : AlarmIndex) (s : Severity) (w : ThreadedWorld H) : Prop :=
  ∃ due, (w.alarmTrack cfg i).Waits s due ∧ due ≤ w.now.ms

/-- A sender that sleeps while an alarm is due has been signalled, or its time has come. -/
theorem Regular.wakes (h : Regular cfg ready w) {s : Severity} (hdue : w.Due cfg i s)
    {deadline : Option Timespec} (hasleep : w.thread = .asleep deadline) :
    w.scheduler.condSignalled = true ∨ wakeTime deadline ≤ WithTop.some (w.now.ms * 1000000) := by
  cases hsignalled : w.scheduler.condSignalled with
  | true => exact .inl rfl
  | false =>
    right
    obtain ⟨due, hwaits, hle⟩ := hdue
    obtain ⟨m, hm, hheap⟩ := World.manager_of_alarm hwaits.scheduled
    have hpop : w.scheduler.popTimes i = due := (popTimes_eq_due cfg i).trans hwaits.due_eq
    have hheld : i ∈ cfg.heap.held w.scheduler.alarmHeap := by simpa [inHeap] using hheap
    have hsmallest : cfg.heap.smallestPopTime w.scheduler.popTimes w.scheduler.alarmHeap ≤
        WithTop.some due := by
      rw [← hpop]
      exact Finset.min_le (Finset.mem_image_of_mem _ hheld)
    obtain ⟨first, hfirst, hle'⟩ := WithTop.le_coe_iff.mp hsmallest
    rw [(h.noLostWakeUp deadline hasleep hsignalled).smallest, hfirst]
    have hnow : first * 1000000 ≤ w.now.ms * 1000000 := by omega
    exact WithTop.coe_le_coe.mpr hnow

theorem now_le_step (h : World.Sound cfg ready w.toWorld) (a : Action cfg.defs) :
    w.now.ms ≤ (w.step cfg a).now.ms := by
  have hnow : (w.alarmTrack cfg 0).now.ms ≤ ((w.step cfg a).alarmTrack cfg 0).now.ms := by
    rcases alarmTrack_step h a 0 with heq | ⟨e, -, heq⟩ <;> rw [heq]
    exact AlarmTrack.now_step _ _
  exact hnow

section

variable {s : Severity} {a : Action cfg.defs} (h : Regular cfg ready w)
include h

theorem Regular.current_step
    (hlast : History.lastAccepted (w.alarmTrack cfg i).history = some s)
    (hcurrent : (w.alarmTrack cfg i).alarm.current = s) :
    ((w.step cfg a).alarmTrack cfg i).alarm.current = s := by
  rcases alarmTrack_step h.sound a i with heq | ⟨e, he, heq⟩ <;> rw [heq]
  · exact hcurrent
  · exact AlarmTrack.current_step (h.settled i) (h.follows i) hlast hcurrent

variable (ha : AsksOnly i s a)
include ha

theorem Regular.lastAccepted_step
    (hlast : History.lastAccepted (w.alarmTrack cfg i).history = some s) :
    History.lastAccepted ((w.step cfg a).alarmTrack cfg i).history = some s := by
  rcases alarmTrack_step h.sound a i with heq | ⟨e, he, heq⟩ <;> rw [heq]
  · exact hlast
  · exact AlarmTrack.lastAccepted_step (h.settled i) hlast (ha.inputFor he)

theorem Regular.waits_step (hsync : w.SyncFindsNoChange cfg a) {due : ℕ}
    (hwaits : (w.alarmTrack cfg i).Waits s due) :
    ((w.step cfg a).alarmTrack cfg i).Waits s due ∨
      ((w.step cfg a).alarmTrack cfg i).alarm.current = s := by
  rcases alarmTrack_step h.sound a i with heq | ⟨e, he, heq⟩ <;> rw [heq]
  · exact .inl hwaits
  · exact hwaits.step (h.settled i) (ha.inputFor he) ((hsync e he).keepsPending i)

theorem Regular.due_step (hsync : w.SyncFindsNoChange cfg a) (hdue : w.Due cfg i s) :
    (w.step cfg a).Due cfg i s ∨ ((w.step cfg a).alarmTrack cfg i).alarm.current = s := by
  obtain ⟨due, hwaits, hle⟩ := hdue
  rcases h.waits_step ha hsync hwaits with hwaits' | hcurrent
  · exact .inl ⟨due, hwaits', hle.trans (now_le_step h.sound a)⟩
  · exact .inr hcurrent

end

/-- Once round the loop sends every alarm that is due. -/
theorem Regular.current_senderLoop (h : Regular cfg ready w) {s : Severity}
    (hdue : w.Due cfg i s) (hawake : w.thread = .awake) (rows : AlarmIndex → RowCreation) :
    ((w.step cfg (.senderLoop rows)).alarmTrack cfg i).alarm.current = s := by
  obtain ⟨due, hwaits, hle⟩ := hdue
  have htrack := track_step h.sound (.senderLoop rows) i
  rw [events, if_pos ⟨hawake, h.runs⟩] at htrack
  change (w.step cfg (.senderLoop rows)).alarmTrack cfg i = _ at htrack
  rw [htrack]
  exact hwaits.current_pass (h.settled i) hle (rows i)

theorem awake_step (hawake : w.thread = .awake) (a : Action cfg.defs) :
    (w.step cfg a).thread = .awake ∨ ∃ rows, a = .senderLoop rows := by
  cases a with
  | operation e he => exact .inl hawake
  | senderLoop rows => exact .inr ⟨rows, rfl⟩
  | wake =>
    left
    rw [step]
    split
    · rfl
    · exact hawake
  | terminate => exact .inl hawake

/-! ## Schedules that go on for ever -/

/-- The states of the agent and its sender at one moment after the other, with what is done at
each moment, if anything. A thread that is awake goes on, and one that has been signalled, or whose
time has come, wakes up. -/
structure Proceeds (cfg : Setup H) (ready : Bool) (w : ℕ → ThreadedWorld H)
    (acts : ℕ → Option (Action cfg.defs)) : Prop where
  regular : ∀ n, Regular cfg ready (w n)
  next : ∀ n, w (n + 1) = (acts n).elim (w n) ((w n).step cfg)
  syncs : ∀ n, ∀ a ∈ acts n, (w n).SyncFindsNoChange cfg a
  goesOn : ∀ n, (w n).thread = .awake → ∃ m, n ≤ m ∧ ∃ rows, acts m = some (.senderLoop rows)
  wakesUp : ∀ n deadline, (w n).thread = .asleep deadline →
    (w n).scheduler.condSignalled = true ∨
      wakeTime deadline ≤ WithTop.some ((w n).now.ms * 1000000) →
    ∃ m, n ≤ m ∧ acts m = some .wake

namespace Proceeds

variable {w : ℕ → ThreadedWorld H} {acts : ℕ → Option (Action cfg.defs)}
  (h : Proceeds cfg ready w acts) {s : Severity} {n : ℕ}
include h

theorem next_cases (n : ℕ) : acts n = none ∧ w (n + 1) = w n ∨
    ∃ a, acts n = some a ∧ w (n + 1) = (w n).step cfg a := by
  have hnext := h.next n
  cases hn : acts n with
  | none => exact .inl ⟨rfl, by rw [hnext, hn]; rfl⟩
  | some a => exact .inr ⟨a, rfl, by rw [hnext, hn]; rfl⟩

theorem next_eq {a : Action cfg.defs} (ha : acts n = some a) : w (n + 1) = (w n).step cfg a := by
  rw [h.next, ha]
  rfl

/-- Once the severity requested last has been sent, it stays the one sent last. -/
theorem current_succ (hlast : History.lastAccepted ((w n).alarmTrack cfg i).history = some s)
    (hcurrent : ((w n).alarmTrack cfg i).alarm.current = s) :
    ((w (n + 1)).alarmTrack cfg i).alarm.current = s := by
  rcases h.next_cases n with ⟨-, heq⟩ | ⟨a, -, heq⟩ <;> rw [heq]
  · exact hcurrent
  · exact (h.regular n).current_step hlast hcurrent

section

variable (hasks : ∀ a ∈ acts n, AsksOnly i s a)
include hasks

theorem lastAccepted_succ
    (hlast : History.lastAccepted ((w n).alarmTrack cfg i).history = some s) :
    History.lastAccepted ((w (n + 1)).alarmTrack cfg i).history = some s := by
  rcases h.next_cases n with ⟨-, heq⟩ | ⟨a, ha, heq⟩ <;> rw [heq]
  · exact hlast
  · exact (h.regular n).lastAccepted_step (hasks a ha) hlast

theorem waits_succ {due : ℕ} (hwaits : ((w n).alarmTrack cfg i).Waits s due) :
    ((w (n + 1)).alarmTrack cfg i).Waits s due ∨
      ((w (n + 1)).alarmTrack cfg i).alarm.current = s := by
  rcases h.next_cases n with ⟨-, heq⟩ | ⟨a, ha, heq⟩ <;> rw [heq]
  · exact .inl hwaits
  · exact (h.regular n).waits_step (hasks a ha) (h.syncs n a ha) hwaits

theorem due_succ (hdue : (w n).Due cfg i s) :
    (w (n + 1)).Due cfg i s ∨ ((w (n + 1)).alarmTrack cfg i).alarm.current = s := by
  rcases h.next_cases n with ⟨-, heq⟩ | ⟨a, ha, heq⟩ <;> rw [heq]
  · exact .inl hdue
  · exact (h.regular n).due_step (hasks a ha) (h.syncs n a ha) hdue

end

theorem awake_succ (hawake : (w n).thread = .awake) :
    (w (n + 1)).thread = .awake ∨ ∃ rows, acts n = some (.senderLoop rows) := by
  rcases h.next_cases n with ⟨-, heq⟩ | ⟨a, ha, heq⟩
  · rw [heq]
    exact .inl hawake
  · rw [heq, ha]
    refine (awake_step hawake a).imp_right ?_
    rintro ⟨rows, rfl⟩
    exact ⟨rows, rfl⟩

variable (hasks : ∀ m, n ≤ m → ∀ a ∈ acts m, AsksOnly i s a)
include hasks

theorem sent_of_awake (hdue : (w n).Due cfg i s) (hawake : (w n).thread = .awake) :
    ∃ k, n ≤ k ∧ ((w k).alarmTrack cfg i).alarm.current = s := by
  apply Runs.leads_to
    (p := fun k => n ≤ k ∧ (w k).Due cfg i s ∧ (w k).thread = .awake)
    (e := fun k => ∃ rows, acts k = some (.senderLoop rows))
  · rintro k ⟨-, -, hk⟩
    exact h.goesOn k hk
  · rintro k ⟨hnk, hdue, hk⟩
    rcases h.due_succ (hasks k hnk) hdue with hdue' | hcurrent
    · rcases h.awake_succ hk with hk' | ⟨rows, ha⟩
      · exact .inl ⟨by omega, hdue', hk'⟩
      · rw [h.next_eq ha]
        exact .inr ((h.regular k).current_senderLoop hdue hk rows)
    · exact .inr hcurrent
  · rintro k ⟨-, hdue, hk⟩ ⟨rows, ha⟩
    rw [h.next_eq ha]
    exact (h.regular k).current_senderLoop hdue hk rows
  · exact ⟨le_rfl, hdue, hawake⟩

/-- A sender that sleeps while an alarm is due wakes up, if the alarm is not sent before. -/
theorem awake_of_due (hdue : (w n).Due cfg i s) :
    ∃ k, n ≤ k ∧ (n ≤ k ∧ (w k).Due cfg i s ∧ (w k).thread = .awake ∨
      ((w k).alarmTrack cfg i).alarm.current = s) := by
  have hthread : ∀ k, (∃ deadline, (w k).thread = .asleep deadline) ∨ (w k).thread = .awake := by
    intro k
    cases hk : (w k).thread with
    | awake => exact .inr rfl
    | asleep deadline => exact .inl ⟨deadline, rfl⟩
    | finished => exact absurd hk (h.regular k).unfinished
  rcases hthread n with ⟨deadline, hasleep⟩ | hnow
  · apply Runs.leads_to
      (p := fun k => n ≤ k ∧ (w k).Due cfg i s ∧ ∃ deadline, (w k).thread = .asleep deadline)
      (e := fun k => acts k = some .wake)
    · rintro k ⟨-, hdue, deadline, hk⟩
      exact h.wakesUp k deadline hk ((h.regular k).wakes hdue hk)
    · rintro k ⟨hnk, hdue, -⟩
      rcases h.due_succ (hasks k hnk) hdue with hdue' | hcurrent
      · rcases hthread (k + 1) with hk' | hk'
        · exact .inl ⟨by omega, hdue', hk'⟩
        · exact .inr (.inl ⟨by omega, hdue', hk'⟩)
      · exact .inr (.inr hcurrent)
    · rintro k ⟨hnk, hdue, deadline, hk⟩ ha
      have hawake : (w (k + 1)).thread = .awake := by
        rw [h.next_eq ha, step, hk]
      rcases h.due_succ (hasks k hnk) hdue with hdue' | hcurrent
      · exact .inl ⟨by omega, hdue', hawake⟩
      · exact .inr hcurrent
    · exact ⟨le_rfl, hdue, deadline, hasleep⟩
  · exact ⟨n, le_rfl, .inl ⟨le_rfl, hdue, hnow⟩⟩

theorem sent_of_due (hdue : (w n).Due cfg i s) :
    ∃ k, n ≤ k ∧ ((w k).alarmTrack cfg i).alarm.current = s := by
  obtain ⟨m, hm, ⟨-, hdue', hawake⟩ | hcurrent⟩ := h.awake_of_due hasks hdue
  · obtain ⟨k, hk, hcurrent⟩ := h.sent_of_awake (fun j hj => hasks j (hm.trans hj)) hdue' hawake
    exact ⟨k, hm.trans hk, hcurrent⟩
  · exact ⟨m, hm, hcurrent⟩

/-- Half a minute on an alarm that waits is due, if it has not been sent. -/
theorem sent_of_waits {due : ℕ} (hwaits : ((w n).alarmTrack cfg i).Waits s due) {m : ℕ}
    (hm : n ≤ m) (hdue : due ≤ (w m).now.ms) :
    ∃ k, n ≤ k ∧ ((w k).alarmTrack cfg i).alarm.current = s := by
  have hwaiting : ((w m).alarmTrack cfg i).Waits s due ∨
      ∃ k, n ≤ k ∧ ((w k).alarmTrack cfg i).alarm.current = s := by
    clear hdue
    induction m, hm using Nat.le_induction with
    | base => exact .inl hwaits
    | succ m hm ih =>
      rcases ih with hwaits | hsent
      · exact (h.waits_succ (hasks m hm) hwaits).imp_right fun hsent => ⟨m + 1, by omega, hsent⟩
      · exact .inr hsent
  rcases hwaiting with hwaits' | hsent
  · obtain ⟨k, hk, hsent⟩ := h.sent_of_due (fun j hj => hasks j (hm.trans hj)) ⟨due, hwaits', hdue⟩
    exact ⟨k, hm.trans hk, hsent⟩
  · exact hsent

/-- The severity requested last for an alarm becomes the current one, and stays it. -/
theorem current_eventually (hlast : History.lastAccepted ((w n).history i) = some s)
    (hclock : ∃ m, n ≤ m ∧ (w n).now.ms + 30000 ≤ (w m).now.ms) :
    ∃ m, n ≤ m ∧ ∀ k, m ≤ k → ((w k).alarmTrack cfg i).alarm.current = s := by
  have hrequested : ∀ k, n ≤ k →
      History.lastAccepted ((w k).alarmTrack cfg i).history = some s := by
    intro k hk
    induction k, hk using Nat.le_induction with
    | base => exact hlast
    | succ k hk ih => exact h.lastAccepted_succ (hasks k hk) ih
  -- it is enough that it becomes current once
  suffices hsent : ∃ m, n ≤ m ∧ ((w m).alarmTrack cfg i).alarm.current = s by
    obtain ⟨m, hm, hcurrent⟩ := hsent
    refine ⟨m, hm, fun k hk => ?_⟩
    induction k, hk using Nat.le_induction with
    | base => exact hcurrent
    | succ k hk ih => exact h.current_succ (hrequested k (hm.trans hk)) ih
  by_cases hcurrent : ((w n).alarmTrack cfg i).alarm.current = s
  · exact ⟨n, le_rfl, hcurrent⟩
  · have hwaits := ((h.regular n).follows i).waits hlast hcurrent
    have hdue := (h.regular n).bounded i
      (((h.regular n).settled i).alarm.scheduled_pending hwaits.scheduled)
    obtain ⟨m, hm, hlate⟩ := hclock
    exact h.sent_of_waits hasks hwaits hm (le_trans hdue hlate)

end Proceeds

/-- The agent after the first `n` actions of a schedule. -/
def after (cfg : Setup H) (table : AlarmActiveTable) (now : Clock) (f : ℕ → Action cfg.defs)
    (n : ℕ) : ThreadedWorld H :=
  run cfg table now ((List.range n).map f)

theorem after_succ (cfg : Setup H) (table : AlarmActiveTable) (now : Clock)
    (f : ℕ → Action cfg.defs) (n : ℕ) :
    after cfg table now f (n + 1) = (after cfg table now f n).step cfg (f n) :=
  Runs.run_range_succ (step cfg) f (init cfg table now) n

/-- A thread that is awake goes on, and one that has been signalled, or whose time has come, wakes
up. -/
structure Fair (cfg : Setup H) (table : AlarmActiveTable) (now : Clock) (f : ℕ → Action cfg.defs) :
    Prop where
  goesOn : ∀ n, (after cfg table now f n).thread = .awake →
    ∃ m, n ≤ m ∧ ∃ rows, f m = .senderLoop rows
  wakesUp : ∀ n deadline, (after cfg table now f n).thread = .asleep deadline →
    (after cfg table now f n).scheduler.condSignalled = true ∨
      wakeTime deadline ≤ WithTop.some ((after cfg table now f n).now.ms * 1000000) →
    ∃ m, n ≤ m ∧ f m = .wake

section

variable {table : AlarmActiveTable} {now : Clock} {f : ℕ → Action cfg.defs}
  (hruns : ∀ n, f n ≠ .terminate)
  (hsync : ∀ n, (after cfg table now f n).SyncFindsNoChange cfg (f n))
include hruns hsync

theorem regular_after (n : ℕ) : Regular cfg table.myHandler (after cfg table now f n) := by
  induction n with
  | zero => exact regular_init cfg table now
  | succ n ih =>
    rw [after_succ]
    exact ih.step (hruns n) (hsync n)

theorem Fair.proceeds (hfair : Fair cfg table now f) :
    Proceeds cfg table.myHandler (after cfg table now f) fun n => some (f n) where
  regular := regular_after hruns hsync
  next := after_succ cfg table now f
  syncs n a ha := Option.some.inj ha ▸ hsync n
  goesOn n hawake := by
    obtain ⟨m, hm, rows, hf⟩ := hfair.goesOn n hawake
    exact ⟨m, hm, rows, congrArg some hf⟩
  wakesUp n deadline hasleep hready := by
    obtain ⟨m, hm, hf⟩ := hfair.wakesUp n deadline hasleep hready
    exact ⟨m, hm, congrArg some hf⟩

end

end ThreadedWorld
end ClearwaterSnmp
