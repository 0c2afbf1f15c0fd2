import ClearwaterSnmp.LastRequest

namespace ClearwaterSnmp
open AlarmScheduler

namespace History

section

variable (h : List AlarmEntry) (t : ℕ) (s p : Severity)

@[simp] theorem sinceInform_accepted :
    sinceInform (.accepted t s :: h) = .accepted t s :: sinceInform h := rfl
@[simp] theorem sinceInform_inform : sinceInform (.inform t s p :: h) = [] := rfl
@[simp] theorem sinceInform_failed :
    sinceInform (.failed t s :: h) = .failed t s :: sinceInform h := rfl
@[simp] theorem sinceInform_synced :
    sinceInform (.synced t :: h) = .synced t :: sinceInform h := rfl

end

variable {between : List AlarmEntry} (hb : ∀ e ∈ between, e.informed = none)
include hb

theorem sinceInform_append (t : ℕ) (s p : Severity) (past : List AlarmEntry) :
    sinceInform (between ++ .inform t s p :: past) = between := by
  rw [sinceInform, List.takeWhile_append_of_pos (by simpa using hb)]
  simp [AlarmEntry.informed]

theorem lastInformed_append (t : ℕ) (s p : Severity) (past : List AlarmEntry) :
    lastInformed (between ++ .inform t s p :: past) = s := by
  rw [lastInformed, List.findSome?_append, List.findSome?_eq_none_iff.mpr hb]
  rfl

end History

/-! ## An alarm is sent twice only if it is asked for again -/

namespace AlarmTrack

variable {c : AlarmConfig} {x : AlarmTrack}

/-- A timer in the heap with the current severity is there because of a resync or
of a failure report since the last INFORM. -/
structure AskedAgain (x : AlarmTrack) : Prop where
  waiting : x.alarm.scheduled = true → x.alarm.pending = x.alarm.current →
    ∃ e ∈ History.sinceInform x.history, e.asksAgain x.alarm.current = true
  previous : History.AtInforms (fun _ _ p past => p = History.lastInformed past) x.history
  sent : History.AtInforms
    (fun _ s p past => s = p → ∃ e ∈ History.sinceInform past, e.asksAgain s = true) x.history

theorem askedAgain_initial (now : Clock) (shown : Option AlarmTableDef) :
    AskedAgain ⟨⟨.idle, shown, []⟩, now⟩ where
  waiting h := by simp [Alarm.idle] at h
  previous := trivial
  sent := trivial

theorem AskedAgain.request (h : AskedAgain x) (s : Severity) :
    AskedAgain (x.step c (.request s)) := by
  refine ⟨?_, by simpa [step] using h.previous, by simpa [step] using h.sent⟩
  simp only [step, History.sinceInform_accepted, Alarm.current_request]
  intro hs hcur
  by_cases hc : s = x.alarm.current
  · -- a request for the current severity puts nothing into the heap
    rcases Alarm.request_of_eq c.order x.now hc with ⟨-, he⟩ | ⟨-, he⟩
    · simp [he] at hs
    · rw [he] at hs hcur
      obtain ⟨e, hmem, hask⟩ := h.waiting hs hcur
      exact ⟨e, List.mem_cons_of_mem _ hmem, hask⟩
  · rw [(Alarm.request_of_ne c.order x.now hc).2] at hcur
    exact absurd hcur hc

theorem AskedAgain.step (hset : Settled c x) (h : AskedAgain x) (u : AlarmInput) :
    AskedAgain (x.step c u) := by
  cases u with
  | request s => exact h.request s
  | resync =>
    refine ⟨fun _ _ => ?_, by simpa [AlarmTrack.step] using h.previous,
      by simpa [AlarmTrack.step] using h.sent⟩
    -- whatever the timer holds afterwards, the resync has asked for it
    exact ⟨.synced x.now.ms, List.mem_cons_self, rfl⟩
  | failure s =>
    refine ⟨?_, by simpa [AlarmTrack.step] using h.previous,
      by simpa [AlarmTrack.step] using h.sent⟩
    simp only [AlarmTrack.step, History.sinceInform_failed]
    rw [Alarm.current_failure]
    by_cases hc : x.alarm.current = s
    · intro _ _
      exact ⟨.failed x.now.ms s, List.mem_cons_self, by simp [AlarmEntry.asksAgain, hc]⟩
    · rw [Alarm.failure_of_ne hc]
      intro hs hcur
      obtain ⟨e, hmem, hask⟩ := h.waiting hs hcur
      exact ⟨e, List.mem_cons_of_mem _ hmem, hask⟩
  | pass creation =>
    rcases hset.pass_cases creation with ⟨-, he⟩ | ⟨hs, -, -, he⟩
    · rw [he]
      exact h
    · rw [he]
      refine ⟨fun hs' => ?_, (History.atInforms_inform _ _ _ _ _).mpr ⟨hset.informed, h.previous⟩,
        (History.atInforms_inform _ _ _ _ _).mpr ⟨fun hcur => ?_, h.sent⟩⟩
      · simp [Alarm.popped, Alarm.idle] at hs'
      · rw [hcur]
        exact h.waiting hs hcur
  | clock later => exact ⟨h.waiting, h.previous, h.sent⟩
  | other => exact h

end AlarmTrack

variable {H : Type} {cfg : Setup H}

namespace World

/-- Between two consecutive INFORMs of one severity for an alarm there was a
`sync_alarms`, or a failure report for that alarm and severity. -/
def NoDuplicateInforms (w : World H) : Prop :=
  ∀ (i : AlarmIndex) (later between past : List AlarmEntry) (t t' : ℕ) (s p p' : Severity),
    w.history i = later ++ .inform t' s p' :: (between ++ .inform t s p :: past) →
    (∀ e ∈ between, e.informed = none) → ∃ e ∈ between, e.asksAgain s = true

theorem no_duplicate_informs (cfg : Setup H) (table : AlarmActiveTable) (now : Clock)
    (es : List (Event cfg.defs)) : NoDuplicateInforms (run cfg table now es) := by
  intro i later between past t t' s p p' he hb
  have halong : Runs.Along (World.step cfg) (fun _ _ => True) (init cfg table now) es :=
    Runs.along_of_forall (fun _ _ _ => trivial) _
  have hinv := settled_invariant_along (i := i) (AlarmTrack.askedAgain_initial _ _)
    (fun _ _ _ _ hset hx => hx.step hset _) halong
  have hp' : p' = s := by
    rw [hinv.2.previous.of_eq_append he, History.lastInformed_append hb]
  have hask := hinv.2.sent.of_eq_append he hp'.symm
  rwa [History.sinceInform_append hb] at hask

end World
end ClearwaterSnmp
