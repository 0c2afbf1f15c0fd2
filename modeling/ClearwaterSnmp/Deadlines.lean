import ClearwaterSnmp.LastRequest

namespace ClearwaterSnmp
open AlarmScheduler

/-! ## Deadlines are met from above -/

namespace Alarm.Settled

variable {c : AlarmConfig} {clock : Clock} {a : Alarm} {s : Severity}

/-- A request for a new severity is due by its deadline, also where the timer
already held that severity and kept its time. -/
theorem request_due (h : a.Settled c clock.ms) (hs : (c.definition s).isValid = true)
    (hne : s ≠ a.current) :
    (a.request c.order clock.ms s).scheduled = true ∧
      (a.request c.order clock.ms s).pending = s ∧
      (c.order.gt s a.current = true → (a.request c.order clock.ms s).due ≤ clock.ms) ∧
      (c.order.gt a.current s = true →
        (a.request c.order clock.ms s).due ≤ clock.ms + alarmReducedDelay) := by
  have hset := h.request hs
  have hc := Alarm.current_request c.order clock s a
  obtain ⟨hs', hp⟩ := request_of_ne c.order clock hne
  refine ⟨hs', hp, fun hg => ?_, fun hg => ?_⟩
  · apply hset.raised_due
    rwa [hc, hp]
  · apply hset.lowered_due (hset.scheduled_pending hs')
    rwa [hc, hp]

/-- A timer that holds the current severity is in the heap, so a retry that is
admitted always gets a new time. -/
theorem failure_due (h : a.Settled c clock.ms) (hs : (c.definition s).isValid = true)
    (hc : a.current = s) (hn : a.scheduled = false) :
    a.failure clock.ms s = ⟨a.current, s, clock.ms + alarmRetryDelay, true⟩ := by
  rcases failure_cases clock s a with ⟨hf, -⟩ | ⟨-, -, hp, -⟩ | ⟨-, -, -, he⟩
  · exact absurd ⟨hc, hn⟩ hf
  · have hin := h.pending_scheduled (hp.trans hc.symm) (hp.trans_ne (c.severity_defined s hs))
    simp [hn] at hin
  · exact he

end Alarm.Settled

variable {H : Type} {cfg : Setup H}

namespace World

/-- After an accepted request for a severity that is not the current one, and
after a failure report that is admitted, the timer is in the heap with the
severity in question and in time. -/
structure DeadlinesMet (cfg : Setup H) (w : World H) : Prop where
  requested : ∀ (identifier : String) (i : AlarmIndex) (n : ℕ),
    validateAlarmTrigger cfg.defs identifier = some (i, n) →
    ∃ m m', w.scheduler.allAlarmsState[i]? = some m ∧
      (w.step cfg (.issueAlarm identifier)).scheduler.allAlarmsState[i]? = some m' ∧
      (Severity.ofNumber n ≠ m.severity →
        (w.step cfg (.issueAlarm identifier)).scheduler.inHeap cfg i = true ∧
        m'.alarmTimer.severity = Severity.ofNumber n ∧
        (cfg.order.gt (Severity.ofNumber n) m.severity = true →
          m'.alarmTimer.popTime ≤ w.now.ms + alarmIncreasedDelay) ∧
        (cfg.order.gt m.severity (Severity.ofNumber n) = true →
          m'.alarmTimer.popTime ≤ w.now.ms + alarmReducedDelay))
  retried : ∀ (d : AlarmTableDef) (hd : cfg.defs.Loaded d),
    ∃ m m', w.scheduler.allAlarmsState[d.alarmIndex]? = some m ∧
      (w.step cfg (.handleFailedAlarm d hd)).scheduler.allAlarmsState[d.alarmIndex]? = some m' ∧
      (w.scheduler.shouldResendAlarm cfg d.alarmIndex m d.severity = true →
        (w.step cfg (.handleFailedAlarm d hd)).scheduler.inHeap cfg d.alarmIndex = true ∧
        m'.alarmTimer.severity = d.severity ∧
        m'.alarmTimer.popTime = w.now.ms + alarmRetryDelay)

theorem deadlines_met (cfg : Setup H) (table : AlarmActiveTable) (now : Clock)
    (es : List (Event cfg.defs)) : DeadlinesMet cfg (run cfg table now es) := by
  have hw := sound_run cfg table now es
  have hset := settled_run cfg table now es
  set w := run cfg table now es
  constructor
  · -- a request: the managers before and after are those of the accepted index
    intro identifier i n ha
    have hv := isValid_of_accepted table.myHandler ha
    obtain ⟨m, hm⟩ := hw.manager hv
    obtain ⟨m', hm'⟩ := (hw.step (.issueAlarm identifier)).manager hv
    have hal : (w.step cfg (.issueAlarm identifier)).scheduler.alarm cfg i =
        (w.scheduler.alarm cfg i).request cfg.order w.now.ms (Severity.ofNumber n) := by
      have h := alarm_issueAlarm hw.wellFormed w.now.ms ha i
      rwa [if_pos rfl] at h
    have ha' : (w.scheduler.alarm cfg i).Settled _ w.now.ms := (hset i).alarm
    have hreq := ha'.request_due hv
    refine ⟨m, m', hm, hm', fun hne => ?_⟩
    have hdue := hreq (by rwa [alarm_of_manager hm])
    rw [show (cfg.alarmConfig table.myHandler i).order = cfg.order from rfl, ← hal,
      alarm_of_manager hm', alarm_of_manager hm] at hdue
    exact hdue
  · -- a failure report: it asks for a retry only if nothing else is waiting
    intro d hd
    have hv := isValid_of_reported table.myHandler hd
    obtain ⟨m, hm⟩ := hw.manager hv
    obtain ⟨m', hm'⟩ := (hw.step (.handleFailedAlarm d hd)).manager hv
    have hal : (w.step cfg (.handleFailedAlarm d hd)).scheduler.alarm cfg d.alarmIndex =
        (w.scheduler.alarm cfg d.alarmIndex).failure w.now.ms d.severity := by
      have h := alarm_handleFailedAlarm hw.wellFormed w.now.ms hd d.alarmIndex
      rwa [if_pos rfl] at h
    refine ⟨m, m', hm, hm', fun hresend => ?_⟩
    obtain ⟨hc, hn⟩ : m.severity = d.severity ∧ w.scheduler.inHeap cfg d.alarmIndex = false := by
      simpa [shouldResendAlarm] using hresend
    have ha' : (w.scheduler.alarm cfg d.alarmIndex).Settled _ w.now.ms := (hset d.alarmIndex).alarm
    rw [ha'.failure_due hv (by rw [alarm_of_manager hm]; exact hc)
      (by rw [alarm_of_manager hm]; exact hn), alarm_of_manager hm'] at hal
    simp only [Alarm.mk.injEq] at hal
    exact ⟨hal.2.2.2, hal.2.1, hal.2.2.1⟩

end World
end ClearwaterSnmp
