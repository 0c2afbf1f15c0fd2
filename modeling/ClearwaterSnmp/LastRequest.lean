import ClearwaterSnmp.AlarmInvariants
import ClearwaterSnmp.AgentSimulation

namespace ClearwaterSnmp
open AlarmScheduler

/-- The severity the alarm is on its way to: that of its timer if the timer is in
the heap, else the current one. -/
def Alarm.target (a : Alarm) : Severity := if a.scheduled then a.pending else a.current

namespace Alarm

variable {order : SeverityOrder} {now : Clock} {s : Severity} {a : Alarm}

theorem target_request : (a.request order now.ms s).target = s := by
  rcases request_cases order now s a with
      ⟨hc, -, hr⟩ | ⟨hc, hp, hr⟩ | ⟨-, hp, hr⟩ | ⟨-, -, hr⟩ | ⟨-, -, hr⟩
  · rw [hr, hc]
    rfl
  · rw [hr, hc, target, hp, ite_self]
  · rw [hr, hp]
    rfl
  · rw [hr]
    rfl
  · rw [hr]
    rfl

/-- A resync changes the target only if another severity is waiting in the heap. -/
theorem target_resync (hk : a.current ≠ .undefinedSeverity → a.scheduled = true →
    a.pending = a.current) : (a.resync now.ms).target = a.target := by
  rcases resync_cases now a with ⟨-, hr⟩ | ⟨-, hp, hr⟩ | ⟨hc, hp, hr⟩
  · rw [hr]
  · rw [hr, target, target, hp, ite_self, ite_self]
  · have hs : a.scheduled = false := by
      by_contra hs
      exact hp (hk hc (by simpa using hs))
    simp [hr, target, hs]

theorem target_failure : (a.failure now.ms s).target = a.target := by
  rcases failure_cases now s a with ⟨-, hr⟩ | ⟨hc, hs, hp, hr⟩ | ⟨hc, hs, -, hr⟩
  · rw [hr]
  · simp [hr, target, hs, hc, hp]
  · simp [hr, target, hs, hc]

theorem resync_of_undefined (h : a.current = .undefinedSeverity) : a.resync now.ms = a := by
  rw [resync, if_neg (not_not.mpr h)]

theorem failure_of_ne (h : a.current ≠ s) : a.failure now.ms s = a := by
  rw [failure, if_neg fun hf => h hf.1]

end Alarm

namespace AlarmTrack

variable {c : AlarmConfig} {x : AlarmTrack}

/-- The alarm is on its way to the severity requested last. -/
structure Follows (c : AlarmConfig) (x : AlarmTrack) : Prop where
  requested_valid : ∀ s, History.lastAccepted x.history = some s →
    (c.definition s).isValid = true
  requested : ∀ s, History.lastAccepted x.history = some s → x.alarm.target = s
  unrequested : History.lastAccepted x.history = none →
    x.alarm.current = .undefinedSeverity ∧ x.alarm.scheduled = false
  carried : History.AtInforms (fun _ s _ past => History.lastAccepted past = some s) x.history

/-- No change of severity is waiting in the heap when the alarm is resynced. -/
def KeepsPending (x : AlarmTrack) (u : AlarmInput) : Prop :=
  u = .resync → x.alarm.current ≠ .undefinedSeverity → x.alarm.scheduled = true →
    x.alarm.pending = x.alarm.current

theorem follows_initial (now : Clock) (shown : Option AlarmTableDef) :
    Follows c ⟨⟨.idle, shown, []⟩, now⟩ where
  requested_valid s h := by simp [History.lastAccepted] at h
  requested s h := by simp [History.lastAccepted] at h
  unrequested _ := ⟨rfl, rfl⟩
  carried := trivial

theorem Follows.last_of_scheduled (h : Follows c x) (hs : x.alarm.scheduled = true) :
    History.lastAccepted x.history = some x.alarm.pending := by
  cases hl : History.lastAccepted x.history with
  | none => simp [(h.unrequested hl).2] at hs
  | some s =>
    have ht := h.requested s hl
    rw [Alarm.target, if_pos hs] at ht
    rw [ht]

theorem Follows.step (hset : Settled c x) (h : Follows c x) {u : AlarmInput} (hu : u.Admissible c)
    (hk : KeepsPending x u) : Follows c (x.step c u) := by
  cases u with
  | request s =>
    -- whatever the schedule was, the alarm is now on its way to `s`
    refine ⟨fun s' hs' => ?_, fun s' hs' => ?_, fun hn => ?_,
      by simpa [AlarmTrack.step] using h.carried⟩
    · have he : s = s' := Option.some.inj hs'
      exact he ▸ hu
    · have he : s = s' := Option.some.inj hs'
      exact Alarm.target_request.trans he
    · simp [AlarmTrack.step] at hn
  | resync =>
    -- there is no waiting change that the resync would overwrite
    refine ⟨h.requested_valid, fun s hs => ?_, fun hn => ?_,
      by simpa [AlarmTrack.step] using h.carried⟩
    · exact (Alarm.target_resync (hk rfl)).trans (h.requested s hs)
    · obtain ⟨hc, hs⟩ := h.unrequested hn
      simp only [AlarmTrack.step, Alarm.resync_of_undefined hc]
      exact ⟨hc, hs⟩
  | failure s =>
    -- a retry is for the current severity, so that the target stays
    refine ⟨h.requested_valid, fun s' hs' => ?_, fun hn => ?_,
      by simpa [AlarmTrack.step] using h.carried⟩
    · exact Alarm.target_failure.trans (h.requested s' hs')
    · obtain ⟨hc, hs⟩ := h.unrequested hn
      have hne : x.alarm.current ≠ s := hc.trans_ne (c.severity_defined s hu).symm
      simp only [AlarmTrack.step, Alarm.failure_of_ne hne]
      exact ⟨hc, hs⟩
  | pass creation =>
    rcases hset.pass_cases creation with ⟨-, he⟩ | ⟨hs, -, -, he⟩
    · rw [he]
      exact h
    · -- what pops is what was requested last, and becomes current
      have hlast := h.last_of_scheduled hs
      rw [he]
      refine ⟨h.requested_valid, fun s hs => ?_, fun hn => ?_,
        (History.atInforms_inform _ _ _ _ _).mpr ⟨hlast, h.carried⟩⟩
      · exact Option.some.inj (hlast.symm.trans hs)
      · have hnone := hlast.symm.trans hn
        contradiction
  | clock later => exact ⟨h.requested_valid, h.requested, h.unrequested, h.carried⟩
  | other => exact h

end AlarmTrack

variable {H : Type} {cfg : Setup H}

def Event.isSync {defs : AlarmTableDefs} : Event defs → Bool
  | .syncAlarms => true
  | _ => false

theorem Event.eq_syncAlarms {defs : AlarmTableDefs} {e : Event defs} (h : e.isSync = true) :
    e = .syncAlarms := by
  cases e with
  | syncAlarms => rfl
  | _ => contradiction

theorem Event.isSync_of_inputFor {i : AlarmIndex} {e : Event cfg.defs}
    (h : e.inputFor cfg i = .resync) : e.isSync = true := by
  cases e with
  | issueAlarm identifier =>
    simp only [inputFor] at h
    split at h
    · contradiction
    · split at h <;> contradiction
  | handleFailedAlarm d hd =>
    simp only [inputFor] at h
    split at h <;> contradiction
  | syncAlarms => rfl
  | heapSender rows => contradiction
  | clock later => contradiction

namespace World

/-- A `sync_alarms` finds no alarm, among those it resends, for which another
severity is waiting in the heap. -/
def SyncFindsNoChange (cfg : Setup H) (w : World H) (e : Event cfg.defs) : Prop :=
  e.isSync = true → ∀ (i : AlarmIndex) (m : SingleAlarmManager),
    w.scheduler.allAlarmsState[i]? = some m → m.severity ≠ .undefinedSeverity →
    w.scheduler.inHeap cfg i = true → m.alarmTimer.severity = m.severity

theorem SyncFindsNoChange.keepsPending {w : World H} {e : Event cfg.defs}
    (h : SyncFindsNoChange cfg w e) (i : AlarmIndex) :
    (w.track cfg i).KeepsPending (e.inputFor cfg i) := by
  intro hr
  have hw := h (Event.isSync_of_inputFor hr) i
  rw [track_alarm]
  cases hm : w.scheduler.allAlarmsState[i]? with
  | none => simp [alarm, hm, Alarm.idle]
  | some m =>
    rw [alarm_of_manager hm]
    exact hw m hm

theorem manager_of_alarm {s : AlarmScheduler H} {i : AlarmIndex}
    (h : (s.alarm cfg i).scheduled = true) :
    ∃ m, s.allAlarmsState[i]? = some m ∧ s.inHeap cfg i = true := by
  unfold alarm at h
  split at h
  · contradiction
  · rename_i m hm
    exact ⟨m, hm, h⟩

theorem settled_run (cfg : Setup H) (table : AlarmActiveTable) (now : Clock)
    (es : List (Event cfg.defs)) (i : AlarmIndex) : ((run cfg table now es).track cfg i).Settled
      (cfg.alarmConfig table.myHandler i) :=
  track_invariant (AlarmTrack.settled_initial _ _) (fun _ _ hadm hx => hx.step hadm) es

/-- An invariant of the automaton of a single alarm may rely on the alarm being settled. -/
theorem settled_invariant_along {table : AlarmActiveTable} {now : Clock} {i : AlarmIndex}
    {K : AlarmTrack → Prop} {P : World H → Event cfg.defs → Prop}
    (hinit : K (initialTrack table now i))
    (hstep : ∀ w e, P w e → (e.inputFor cfg i).Admissible (cfg.alarmConfig table.myHandler i) →
      (w.track cfg i).Settled (cfg.alarmConfig table.myHandler i) → K (w.track cfg i) →
      K ((w.track cfg i).step (cfg.alarmConfig table.myHandler i) (e.inputFor cfg i)))
    {es : List (Event cfg.defs)} (hP : Runs.Along (World.step cfg) P (init cfg table now) es) :
    ((run cfg table now es).track cfg i).Settled (cfg.alarmConfig table.myHandler i) ∧
      K ((run cfg table now es).track cfg i) :=
  track_invariant_along
    (J := fun x => x.Settled (cfg.alarmConfig table.myHandler i) ∧ K x)
    ⟨AlarmTrack.settled_initial _ _, hinit⟩
    (fun w e hPe hadm hx => ⟨hx.1.step hadm, hstep w e hPe hadm hx.1 hx.2⟩) hP

/-- In a run whose resyncs find no waiting change, every alarm follows its requests. -/
theorem follows_run {table : AlarmActiveTable} {now : Clock} {es : List (Event cfg.defs)}
    (h : Runs.Along (World.step cfg) (SyncFindsNoChange cfg) (init cfg table now) es)
    (i : AlarmIndex) :
    let x := (run cfg table now es).track cfg i
    x.Settled (cfg.alarmConfig table.myHandler i) ∧
      x.Follows (cfg.alarmConfig table.myHandler i) :=
  settled_invariant_along (AlarmTrack.follows_initial _ _)
    (fun _ _ hw hadm hset hx => hx.step hset hadm (hw.keepsPending i)) h

theorem Sound.manager {ready : Bool} {w : World H} (h : Sound cfg ready w) {i : AlarmIndex}
    {s : Severity} (hv : ((cfg.alarmConfig ready i).definition s).isValid = true) :
    ∃ m, w.scheduler.allAlarmsState[i]? = some m := by
  obtain ⟨hl, hi, -⟩ := AlarmTableDefs.loaded_of_isValid hv
  have hm := h.wellFormed.manager hl
  rwa [hi] at hm

/-- The severity requested last for an alarm is the one its timer carries if the
timer is in the heap, and otherwise the current one; the current severity is the
one of the last INFORM; every INFORM carried the severity requested last; and a
rejected identifier changes nothing. -/
structure LastRequestWins (cfg : Setup H) (w : World H) : Prop where
  requested : ∀ (i : AlarmIndex) (s : Severity), History.lastAccepted (w.history i) = some s →
    ∃ m, w.scheduler.allAlarmsState[i]? = some m ∧
      s = if w.scheduler.inHeap cfg i then m.alarmTimer.severity else m.severity
  informed : ∀ (i : AlarmIndex) (m : SingleAlarmManager),
    w.scheduler.allAlarmsState[i]? = some m → m.severity = History.lastInformed (w.history i)
  carried : ∀ (i : AlarmIndex) (later past : List AlarmEntry) (t : ℕ) (s p : Severity),
    w.history i = later ++ .inform t s p :: past → History.lastAccepted past = some s
  rejected : ∀ identifier, validateAlarmTrigger cfg.defs identifier = none →
    w.step cfg (.issueAlarm identifier) = w

theorem last_request_wins (cfg : Setup H) (table : AlarmActiveTable) (now : Clock)
    (es : List (Event cfg.defs)) (hsync : ∀ e ∈ es, e.isSync = false) :
    LastRequestWins cfg (run cfg table now es) := by
  have halong : Runs.Along (World.step cfg) (SyncFindsNoChange cfg) (init cfg table now) es :=
    Runs.along_of_forall (fun e he w hs => by simp [hsync e he] at hs) _
  have hinv := follows_run halong
  have hsound := sound_run cfg table now es
  set w := run cfg table now es
  constructor
  · intro i s hs
    obtain ⟨-, hf⟩ := hinv i
    obtain ⟨m, hm⟩ := hsound.manager (hf.requested_valid s hs)
    have ht : (w.scheduler.alarm cfg i).target = s := hf.requested s hs
    rw [alarm_of_manager hm] at ht
    exact ⟨m, hm, ht.symm⟩
  · intro i m hm
    have hi : (w.scheduler.alarm cfg i).current = History.lastInformed (w.history i) :=
      (hinv i).1.informed
    rwa [alarm_of_manager hm] at hi
  · intro i later past t s p he
    exact (hinv i).2.carried.of_eq_append he
  · intro identifier hr
    simp [World.step, acceptance, hr, issueAlarm_of_rejected]

/-- An alarm is raised and sent, its delivery fails, and it is cleared. -/
theorem last_request_wins_sample :
    LastRequestWins .sample (run .sample .initialised ⟨0, by decide⟩
      [.issueAlarm "1000.3", .heapSender .sample,
        .handleFailedAlarm (AlarmTableDefs.sample.getDefinition 1000 3) (by decide),
        .issueAlarm "1000.1"]) :=
  last_request_wins .sample .initialised ⟨0, by decide⟩ _ (by decide)

end World
end ClearwaterSnmp
