import ClearwaterSnmp.SingleAlarm

namespace ClearwaterSnmp

theorem Clock.mod_eq (c : Clock) {delay : ℕ} (h : delay ≤ 30000) :
    (c.ms + delay) % 2 ^ 64 = c.ms + delay := by
  have hr := c.in_range
  unfold uint64Max at hr
  omega

theorem Clock.le_advance (c later : Clock) : c.ms ≤ (c.advance later).ms := by
  unfold Clock.advance
  split <;> omega

/-! ## What each input can do to an alarm -/

namespace Alarm

variable {order : SeverityOrder} {now : Clock} {s : Severity} {a : Alarm}

theorem reschedule_of_ne {delay : ℕ} (hd : delay ≤ 30000) (hp : s ≠ a.pending) :
    a.reschedule now.ms s delay = ⟨a.current, s, now.ms + delay, true⟩ := by
  rw [reschedule, if_pos hp, now.mod_eq hd]

theorem reschedule_of_eq {delay : ℕ} (hp : s = a.pending) :
    a.reschedule now.ms s delay = { a with scheduled := true } := by
  rw [reschedule, if_neg (not_not.mpr hp)]

/-- A request for the current severity can only take the timer out of the heap. -/
theorem request_of_eq (order : SeverityOrder) (now : Clock) (hc : s = a.current) :
    (a.current ≠ a.pending ∧ a.request order now.ms s = { a with scheduled := false }) ∨
    (a.current = a.pending ∧ a.request order now.ms s = a) := by
  by_cases hp : a.current = a.pending
  · exact Or.inr ⟨hp, by simp [request, hc, hp]⟩
  · exact Or.inl ⟨hp, by simp [request, hc, hp]⟩

theorem request_cases (order : SeverityOrder) (now : Clock) (s : Severity) (a : Alarm) :
    (s = a.current ∧ a.current ≠ a.pending ∧
      a.request order now.ms s = { a with scheduled := false }) ∨
    (s = a.current ∧ a.current = a.pending ∧ a.request order now.ms s = a) ∨
    (s ≠ a.current ∧ s = a.pending ∧
      a.request order now.ms s = { a with scheduled := true }) ∨
    (order.gt s a.current = true ∧ s ≠ a.pending ∧
      a.request order now.ms s = ⟨a.current, s, now.ms, true⟩) ∨
    (order.gt a.current s = true ∧ s ≠ a.pending ∧
      a.request order now.ms s = ⟨a.current, s, now.ms + alarmReducedDelay, true⟩) := by
  by_cases hc : s = a.current
  · rcases request_of_eq order now hc with ⟨hp, he⟩ | ⟨hp, he⟩
    · exact Or.inl ⟨hc, hp, he⟩
    · exact Or.inr (Or.inl ⟨hc, hp, he⟩)
  · by_cases hp : s = a.pending
    · simp only [request, if_neg hc, reschedule_of_eq hp, ite_self]
      exact Or.inr (Or.inr (Or.inl ⟨hc, hp, trivial⟩))
    · have h0 : a.reschedule now.ms s alarmIncreasedDelay = _ := reschedule_of_ne (by decide) hp
      have h1 : a.reschedule now.ms s alarmReducedDelay = _ := reschedule_of_ne (by decide) hp
      rw [request, if_neg hc, h0, h1]
      cases hg : order.gt s a.current with
      | true => exact Or.inr (Or.inr (Or.inr (Or.inl ⟨rfl, hp, rfl⟩)))
      | false =>
        exact Or.inr (Or.inr (Or.inr (Or.inr ⟨order.gt_of_not_gt hc hg, hp, rfl⟩)))

theorem resync_cases (now : Clock) (a : Alarm) :
    (a.current = .undefinedSeverity ∧ a.resync now.ms = a) ∨
    (a.current ≠ .undefinedSeverity ∧ a.pending = a.current ∧
      a.resync now.ms = { a with scheduled := true }) ∨
    (a.current ≠ .undefinedSeverity ∧ a.pending ≠ a.current ∧
      a.resync now.ms = ⟨a.current, a.current, now.ms, true⟩) := by
  by_cases hc : a.current = .undefinedSeverity
  · exact Or.inl ⟨hc, by rw [resync, if_neg (not_not.mpr hc)]⟩
  · right
    rw [resync, if_pos hc]
    by_cases hp : a.pending = a.current
    · exact Or.inl ⟨hc, hp, reschedule_of_eq hp.symm⟩
    · exact Or.inr ⟨hc, hp, reschedule_of_ne (by decide) (Ne.symm hp)⟩

theorem failure_cases (now : Clock) (s : Severity) (a : Alarm) :
    (¬ (a.current = s ∧ a.scheduled = false) ∧ a.failure now.ms s = a) ∨
    (a.current = s ∧ a.scheduled = false ∧ a.pending = s ∧
      a.failure now.ms s = { a with scheduled := true }) ∨
    (a.current = s ∧ a.scheduled = false ∧ a.pending ≠ s ∧
      a.failure now.ms s = ⟨a.current, s, now.ms + alarmRetryDelay, true⟩) := by
  by_cases hf : a.current = s ∧ a.scheduled = false
  · right
    rw [failure, if_pos hf]
    by_cases hp : a.pending = s
    · exact Or.inl ⟨hf.1, hf.2, hp, reschedule_of_eq hp.symm⟩
    · exact Or.inr ⟨hf.1, hf.2, hp, reschedule_of_ne (by decide) (Ne.symm hp)⟩
  · exact Or.inl ⟨hf, by rw [failure, if_neg hf]⟩

/-- A request for a new severity always leaves the timer in the heap with it. -/
theorem request_of_ne (order : SeverityOrder) (now : Clock) (hne : s ≠ a.current) :
    (a.request order now.ms s).scheduled = true ∧ (a.request order now.ms s).pending = s := by
  rcases request_cases order now s a with
      ⟨hc, -⟩ | ⟨hc, -⟩ | ⟨-, hp, he⟩ | ⟨-, -, he⟩ | ⟨-, -, he⟩
  · exact absurd hc hne
  · exact absurd hc hne
  · rw [he]
    exact ⟨rfl, hp.symm⟩
  · rw [he]
    exact ⟨rfl, rfl⟩
  · rw [he]
    exact ⟨rfl, rfl⟩

theorem current_request (order : SeverityOrder) (now : Clock) (s : Severity) (a : Alarm) :
    (a.request order now.ms s).current = a.current := by
  rcases request_cases order now s a with
      ⟨-, -, he⟩ | ⟨-, -, he⟩ | ⟨-, -, he⟩ | ⟨-, -, he⟩ | ⟨-, -, he⟩ <;> rw [he]

theorem current_resync (now : Clock) (a : Alarm) : (a.resync now.ms).current = a.current := by
  rcases resync_cases now a with ⟨-, he⟩ | ⟨-, -, he⟩ | ⟨-, -, he⟩ <;> rw [he]

theorem current_failure (now : Clock) (s : Severity) (a : Alarm) :
    (a.failure now.ms s).current = a.current := by
  rcases failure_cases now s a with ⟨-, he⟩ | ⟨-, -, -, he⟩ | ⟨-, -, -, he⟩ <;> rw [he]

end Alarm

/-! ## What holds of an alarm in every run -/

/-- A timer that holds the current severity is in the heap. A timer that holds
another one, in the heap or left over from a cancelled request, was set by a
request for it, so its time is bounded by the present. -/
structure Alarm.Settled (c : AlarmConfig) (now : ℕ) (a : Alarm) : Prop where
  pending_valid : a.pending ≠ .undefinedSeverity → (c.definition a.pending).isValid = true
  current_valid : a.current ≠ .undefinedSeverity → (c.definition a.current).isValid = true
  scheduled_pending : a.scheduled = true → a.pending ≠ .undefinedSeverity
  pending_scheduled : a.pending = a.current → a.pending ≠ .undefinedSeverity → a.scheduled = true
  raised_due : c.order.gt a.pending a.current = true → a.due ≤ now
  lowered_due : a.pending ≠ .undefinedSeverity → c.order.gt a.current a.pending = true →
    a.due ≤ now + alarmReducedDelay

namespace Alarm.Settled

variable {c : AlarmConfig} {now : ℕ} {a : Alarm} {s : Severity}

theorem popped (hs : s ≠ .undefinedSeverity → (c.definition s).isValid = true) :
    (Alarm.popped s).Settled c now where
  pending_valid h := absurd rfl h
  current_valid := hs
  scheduled_pending h := by simp [Alarm.popped, Alarm.idle] at h
  pending_scheduled _ h := absurd rfl h
  raised_due h := by
    -- nothing is below the undefined severity that a popped timer holds
    have hne : s ≠ .undefinedSeverity := (c.order.ne_of_gt h).symm
    have hlt := c.order.gt_asymm (c.order.gt_undefined s hne)
    exact absurd h (by simp [Alarm.popped, Alarm.idle, hlt])
  lowered_due h := absurd rfl h

theorem cancelled (h : a.Settled c now) (hp : a.current ≠ a.pending) :
    Settled c now { a with scheduled := false } where
  pending_valid := h.pending_valid
  current_valid := h.current_valid
  scheduled_pending hs := by simp at hs
  pending_scheduled he := absurd he.symm hp
  raised_due := h.raised_due
  lowered_due := h.lowered_due

theorem resumed (h : a.Settled c now) (hp : a.pending ≠ .undefinedSeverity) :
    Settled c now { a with scheduled := true } where
  pending_valid := h.pending_valid
  current_valid := h.current_valid
  scheduled_pending _ := hp
  pending_scheduled _ _ := rfl
  raised_due := h.raised_due
  lowered_due := h.lowered_due

theorem rescheduled (h : a.Settled c now) {due : ℕ} (hs : (c.definition s).isValid = true)
    (hup : c.order.gt s a.current = true → due ≤ now)
    (hdown : c.order.gt a.current s = true → due ≤ now + alarmReducedDelay) :
    Settled c now ⟨a.current, s, due, true⟩ where
  pending_valid _ := hs
  current_valid := h.current_valid
  scheduled_pending _ := c.severity_defined s hs
  pending_scheduled _ _ := rfl
  raised_due := hup
  lowered_due _ := hdown

theorem mono (h : a.Settled c now) {later : ℕ} (hle : now ≤ later) : a.Settled c later where
  pending_valid := h.pending_valid
  current_valid := h.current_valid
  scheduled_pending := h.scheduled_pending
  pending_scheduled := h.pending_scheduled
  raised_due hg := by
    have hdue := h.raised_due hg
    omega
  lowered_due hp hg := by
    have hdue := h.lowered_due hp hg
    omega

variable {clock : Clock}

theorem request (h : a.Settled c clock.ms) (hs : (c.definition s).isValid = true) :
    (a.request c.order clock.ms s).Settled c clock.ms := by
  rcases Alarm.request_cases c.order clock s a with
      ⟨-, hp, he⟩ | ⟨-, -, he⟩ | ⟨-, hp, he⟩ | ⟨hg, -, he⟩ | ⟨hg, -, he⟩
  · rw [he]
    exact h.cancelled hp
  · rw [he]
    exact h
  · rw [he]
    exact h.resumed (hp ▸ c.severity_defined s hs)
  · rw [he]
    exact h.rescheduled hs (fun _ => le_rfl) fun _ => Nat.le_add_right _ _
  · rw [he]
    apply h.rescheduled hs _ fun _ => le_rfl
    intro hup
    rw [c.order.gt_asymm hg] at hup
    contradiction

theorem resync (h : a.Settled c clock.ms) : (a.resync clock.ms).Settled c clock.ms := by
  rcases Alarm.resync_cases clock a with ⟨-, he⟩ | ⟨hc, hp, he⟩ | ⟨hc, -, he⟩
  · rw [he]
    exact h
  · rw [he]
    exact h.resumed (hp.trans_ne hc)
  · rw [he]
    exact h.rescheduled (h.current_valid hc) (fun _ => le_rfl) fun _ => Nat.le_add_right _ _

theorem failure (h : a.Settled c clock.ms) (hs : (c.definition s).isValid = true) :
    (a.failure clock.ms s).Settled c clock.ms := by
  rcases Alarm.failure_cases clock s a with ⟨-, he⟩ | ⟨-, -, hp, he⟩ | ⟨hc, -, -, he⟩
  · rw [he]
    exact h
  · rw [he]
    exact h.resumed (hp ▸ c.severity_defined s hs)
  · -- a retry is of the current severity, which is neither above nor below itself
    subst hc
    rw [he]
    apply h.rescheduled hs
    · intro hup
      exact absurd rfl (c.order.ne_of_gt hup)
    · intro hdown
      exact absurd rfl (c.order.ne_of_gt hdown)

end Alarm.Settled

namespace AlarmTrack

variable {c : AlarmConfig} {x : AlarmTrack}

/-- Moreover the current severity is the one of the last INFORM. -/
structure Settled (c : AlarmConfig) (x : AlarmTrack) : Prop where
  alarm : x.alarm.Settled c x.now.ms
  informed : x.alarm.current = History.lastInformed x.history

theorem settled_initial (now : Clock) (shown : Option AlarmTableDef) :
    Settled c ⟨⟨.idle, shown, []⟩, now⟩ := ⟨.popped (absurd rfl), rfl⟩

/-- A due alarm always has a definition to send. -/
theorem Settled.pass_cases (h : Settled c x) (creation : RowCreation) :
    (x.alarm.isDue x.now.ms = false ∧ x.step c (.pass creation) = x) ∨
    (x.alarm.scheduled = true ∧ x.alarm.due ≤ x.now.ms ∧
      (c.definition x.alarm.pending).isValid = true ∧
      x.step c (.pass creation) =
        ⟨⟨.popped x.alarm.pending,
          AlarmActiveTable.shownAfterTrap c.ready creation (c.definition x.alarm.pending) x.shown,
          .inform x.now.ms x.alarm.pending x.alarm.current :: x.history⟩, x.now⟩) := by
  cases hd : x.alarm.isDue x.now.ms with
  | false =>
    left
    exact ⟨rfl, by rw [step, AlarmState.pass_of_not_due hd]⟩
  | true =>
    right
    have hdue : x.alarm.scheduled = true ∧ x.alarm.due ≤ x.now.ms := by
      simpa [Alarm.isDue] using hd
    have hv := h.alarm.pending_valid (h.alarm.scheduled_pending hdue.1)
    refine ⟨hdue.1, hdue.2, hv, ?_⟩
    simp [step, AlarmState.pass, hd, hv, c.own_severity _ hv]

theorem Settled.step (h : Settled c x) {u : AlarmInput} (hu : u.Admissible c) :
    Settled c (x.step c u) := by
  cases u with
  | request s => exact ⟨h.alarm.request hu, (Alarm.current_request _ _ _ _).trans h.informed⟩
  | resync => exact ⟨h.alarm.resync, (Alarm.current_resync _ _).trans h.informed⟩
  | failure s => exact ⟨h.alarm.failure hu, (Alarm.current_failure _ _ _).trans h.informed⟩
  | pass creation =>
    rcases h.pass_cases creation with ⟨-, he⟩ | ⟨-, -, hv, he⟩
    · rw [he]
      exact h
    · rw [he]
      exact ⟨.popped fun _ => hv, rfl⟩
  | clock later => exact ⟨h.alarm.mono (x.now.le_advance later), h.informed⟩
  | other => exact h

end AlarmTrack
end ClearwaterSnmp
