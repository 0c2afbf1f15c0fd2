import ClearwaterSnmp.LastRequest

namespace ClearwaterSnmp
open AlarmScheduler

namespace History

variable (h : List AlarmEntry) (t : ℕ) (s : Severity)

theorem requestedSince_accepted :
    requestedSince s (.accepted t s :: h) = some ((requestedSince s h).getD t) := by
  simp only [requestedSince, AlarmEntry.acceptance, List.filterMap_cons, List.takeWhile_cons,
    decide_true, if_true, List.getLast?_cons]
  cases ((h.filterMap AlarmEntry.acceptance).takeWhile (·.2 = s)).getLast? <;> rfl

/-- All requests were accepted by the time `now`. -/
def Before (now : ℕ) (h : List AlarmEntry) : Prop :=
  ∀ r ∈ h.filterMap AlarmEntry.acceptance, r.1 ≤ now

/-- At the time `t`, the severity `s` has been requested without interruption for
the whole of the delay for reductions. -/
def RequestedFor (s : Severity) (t : ℕ) (h : List AlarmEntry) : Prop :=
  ∃ t₀, requestedSince s h = some t₀ ∧ t₀ + alarmReducedDelay ≤ t

variable {h t s}

theorem Before.requestedSince_le {t₀ : ℕ} (hb : Before t h) (h0 : requestedSince s h = some t₀) :
    t₀ ≤ t := by
  obtain ⟨r, hr, rfl⟩ := Option.map_eq_some_iff.mp h0
  have hmem := List.mem_of_getLast? hr
  exact hb r ((List.takeWhile_subset _) hmem)

/-- A deadline that a fresh request would get is one that the request gets. -/
theorem requestedFor_accepted {due : ℕ} (hb : Before t h) (hdue : t + alarmReducedDelay ≤ due) :
    RequestedFor s due (.accepted t s :: h) := by
  refine ⟨_, requestedSince_accepted h t s, ?_⟩
  cases h0 : requestedSince s h with
  | none => exact hdue
  | some t₀ =>
    have hle := hb.requestedSince_le h0
    show t₀ + alarmReducedDelay ≤ due
    omega

/-- A repeated request keeps the deadline of the first one. -/
theorem RequestedFor.accepted {due : ℕ} (hf : RequestedFor s due h) :
    RequestedFor s due (.accepted t s :: h) := by
  obtain ⟨t₀, h0, hle⟩ := hf
  exact ⟨t₀, by rw [requestedSince_accepted, h0]; rfl, hle⟩

end History

namespace AlarmTrack

variable {c : AlarmConfig} {x : AlarmTrack}

/-- A reduction in the heap is not due before it has been requested for long
enough, and neither was any that has been sent. -/
structure Damped (c : AlarmConfig) (x : AlarmTrack) : Prop where
  before : History.Before x.now.ms x.history
  waits : x.alarm.scheduled = true → c.order.gt x.alarm.current x.alarm.pending = true →
    History.RequestedFor x.alarm.pending x.alarm.due x.history
  sent : History.AtInforms
    (fun t s p past => c.order.gt p s = true → History.RequestedFor s t past) x.history

/-- A request for a reduction does not find the timer of an earlier, cancelled
one outside the heap, still with that severity and with less time to go than a
new request would get. -/
def FindsNoLeftover (c : AlarmConfig) (x : AlarmTrack) (u : AlarmInput) : Prop :=
  ∀ s, u = .request s → c.order.gt x.alarm.current s = true → x.alarm.scheduled = false →
    x.alarm.pending = s → x.now.ms + alarmReducedDelay ≤ x.alarm.due

theorem damped_initial (now : Clock) (shown : Option AlarmTableDef) :
    Damped c ⟨⟨.idle, shown, []⟩, now⟩ where
  before r hr := by simp at hr
  waits h := by simp [Alarm.idle] at h
  sent := trivial

theorem Damped.request (h : Damped c x) {s : Severity} (hl : FindsNoLeftover c x (.request s)) :
    Damped c (x.step c (.request s)) := by
  have hbefore : History.Before x.now.ms (.accepted x.now.ms s :: x.history) := by
    intro r hr
    rcases List.mem_cons.mp hr with rfl | hr
    · exact le_rfl
    · exact h.before r hr
  refine ⟨hbefore, ?_, by simpa [step] using h.sent⟩
  simp only [step]
  rcases Alarm.request_cases c.order x.now s x.alarm with
      ⟨-, -, he⟩ | ⟨-, hp, he⟩ | ⟨-, hp, he⟩ | ⟨hg, -, he⟩ | ⟨-, -, he⟩
  · rw [he]
    intro hs
    simp at hs
  · rw [he]
    intro _ hg
    exact absurd hp (c.order.ne_of_gt hg)
  · -- the timer keeps its time, from a request that may have been cancelled
    rw [he, ← hp]
    intro _ hg
    cases hs : x.alarm.scheduled with
    | false => exact History.requestedFor_accepted h.before (hl s rfl hg hs hp.symm)
    | true =>
      have hf := h.waits hs (by rwa [← hp])
      rw [← hp] at hf
      exact hf.accepted
  · rw [he]
    intro _ hdown
    rw [c.order.gt_asymm hg] at hdown
    contradiction
  · rw [he]
    intro _ _
    exact History.requestedFor_accepted h.before le_rfl

theorem Damped.resync (h : Damped c x) : Damped c (x.step c .resync) := by
  refine ⟨h.before, ?_, by simpa [step] using h.sent⟩
  simp only [step]
  rcases Alarm.resync_cases x.now x.alarm with ⟨-, he⟩ | ⟨-, hp, he⟩ | ⟨-, -, he⟩
  · rw [he]
    exact h.waits
  · rw [he]
    intro _ hg
    exact absurd hp.symm (c.order.ne_of_gt hg)
  · rw [he]
    intro _ hg
    exact absurd rfl (c.order.ne_of_gt hg)

theorem Damped.failure (h : Damped c x) (s : Severity) : Damped c (x.step c (.failure s)) := by
  refine ⟨h.before, ?_, by simpa [step] using h.sent⟩
  simp only [step]
  rcases Alarm.failure_cases x.now s x.alarm with ⟨-, he⟩ | ⟨hc, -, hp, he⟩ | ⟨hc, -, -, he⟩
  · rw [he]
    exact h.waits
  · rw [he]
    intro _ hg
    exact absurd (hc.trans hp.symm) (c.order.ne_of_gt hg)
  · rw [he]
    intro _ hg
    exact absurd hc (c.order.ne_of_gt hg)

theorem Damped.pass (hset : Settled c x) (h : Damped c x) (creation : RowCreation) :
    Damped c (x.step c (.pass creation)) := by
  rcases hset.pass_cases creation with ⟨-, he⟩ | ⟨hs, hdue, -, he⟩
  · rw [he]
    exact h
  · rw [he]
    refine ⟨h.before, fun hs' => ?_,
      (History.atInforms_inform _ _ _ _ _).mpr ⟨fun hg => ?_, h.sent⟩⟩
    · simp [Alarm.popped, Alarm.idle] at hs'
    · obtain ⟨t₀, h0, hle⟩ := h.waits hs hg
      exact ⟨t₀, h0, by omega⟩

theorem Damped.step (hset : Settled c x) (h : Damped c x) {u : AlarmInput}
    (hl : FindsNoLeftover c x u) : Damped c (x.step c u) := by
  cases u with
  | request s => exact h.request hl
  | resync => exact h.resync
  | failure s => exact h.failure s
  | pass creation => exact h.pass hset creation
  | clock later =>
    exact ⟨fun r hr => (h.before r hr).trans (x.now.le_advance later), h.waits, h.sent⟩
  | other => exact h

end AlarmTrack

variable {H : Type} {cfg : Setup H}

namespace World

/-- Every INFORM for a severity below the one that was current before it comes
when that severity has been requested without interruption for thirty seconds. -/
def DampsFlicker (cfg : Setup H) (w : World H) : Prop :=
  ∀ (i : AlarmIndex) (later past : List AlarmEntry) (t : ℕ) (s p : Severity),
    w.history i = later ++ .inform t s p :: past → cfg.order.gt p s = true →
    ∃ t₀, History.requestedSince s past = some t₀ ∧ t₀ + alarmReducedDelay ≤ t

/-- An accepted request for a severity below the current one does not find its
timer outside the heap, left with that severity by a cancelled request and with a
pop time less than thirty seconds ahead. -/
def ReductionFindsNoLeftover (cfg : Setup H) (w : World H) : Event cfg.defs → Prop
  | .issueAlarm identifier =>
    ∀ r ∈ validateAlarmTrigger cfg.defs identifier, ∀ m ∈ w.scheduler.allAlarmsState[r.1]?,
      cfg.order.gt m.severity (Severity.ofNumber r.2) = true →
      w.scheduler.inHeap cfg r.1 = false → m.alarmTimer.severity = Severity.ofNumber r.2 →
      w.now.ms + alarmReducedDelay ≤ m.alarmTimer.popTime
  | _ => True

instance (w : World H) (e : Event cfg.defs) : Decidable (ReductionFindsNoLeftover cfg w e) :=
  match e with
  | .issueAlarm _ => inferInstanceAs (Decidable (∀ r ∈ _, ∀ m ∈ _, _))
  | .syncAlarms => inferInstanceAs (Decidable True)
  | .handleFailedAlarm _ _ => inferInstanceAs (Decidable True)
  | .heapSender _ => inferInstanceAs (Decidable True)
  | .clock _ => inferInstanceAs (Decidable True)

theorem ReductionFindsNoLeftover.findsNoLeftover {w : World H} {e : Event cfg.defs}
    (h : ReductionFindsNoLeftover cfg w e) (ready : Bool) (i : AlarmIndex) :
    (w.track cfg i).FindsNoLeftover (cfg.alarmConfig ready i) (e.inputFor cfg i) := by
  intro s hu
  obtain ⟨identifier, n, rfl, ha, rfl⟩ := Event.eq_issueAlarm_of_inputFor hu
  rw [track_alarm]
  cases hm : w.scheduler.allAlarmsState[i]? with
  | none =>
    intro hg _ hp
    simp only [alarm, hm] at hg hp
    exact absurd hp (cfg.order.ne_of_gt hg)
  | some m =>
    rw [alarm_of_manager hm]
    exact h (i, n) ha m hm

theorem damps_flicker_of_no_leftover (cfg : Setup H) (table : AlarmActiveTable) (now : Clock)
    (es : List (Event cfg.defs))
    (h : Runs.Along (World.step cfg) (ReductionFindsNoLeftover cfg) (init cfg table now) es) :
    DampsFlicker cfg (run cfg table now es) := by
  intro i later past t s p he hg
  have hinv := settled_invariant_along (i := i) (AlarmTrack.damped_initial _ _)
    (fun _ _ hP _ hset hx => hx.step hset (hP.findsNoLeftover _ i)) h
  exact hinv.2.sent.of_eq_append he hg

/-- An alarm is raised, cleared, and its clearing sent thirty seconds later. -/
theorem damps_flicker_sample :
    DampsFlicker .sample (run .sample .initialised ⟨0, by decide⟩
      [.issueAlarm "1000.3", .heapSender .sample, .issueAlarm "1000.1",
        .clock ⟨30000, by decide⟩, .heapSender .sample]) :=
  damps_flicker_of_no_leftover .sample .initialised ⟨0, by decide⟩ _ (by decide)

/-- The clearing of a critical alarm is requested and cancelled; a hundred seconds
later it is requested again, and sent at once. -/
theorem leftover_defeats_damping :
    ¬ ∀ es : List (Event (Setup.sample).defs),
      DampsFlicker .sample (run .sample .initialised ⟨0, by decide⟩ es) := by
  intro h
  obtain ⟨t₀, h0, hle⟩ := h [.issueAlarm "1000.3", .heapSender .sample, .issueAlarm "1000.1",
      .issueAlarm "1000.3", .clock ⟨100000, by decide⟩, .issueAlarm "1000.1", .heapSender .sample]
    1000 [] [.accepted 100000 .cleared, .accepted 0 .critical, .accepted 0 .cleared,
      .inform 0 .critical .undefinedSeverity, .accepted 0 .critical]
    100000 .cleared .critical (by decide) (by decide)
  have hsince : History.requestedSince .cleared [.accepted 100000 .cleared,
      .accepted 0 .critical, .accepted 0 .cleared, .inform 0 .critical .undefinedSeverity,
      .accepted 0 .critical] = some 100000 := by decide
  obtain rfl : t₀ = 100000 := Option.some.inj (h0.symm.trans hsince)
  exact absurd hle (by decide)

end World
end ClearwaterSnmp
