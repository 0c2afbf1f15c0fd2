import ClearwaterSnmp.AlarmTables
import ClearwaterSnmp.FailedDeliveries

namespace ClearwaterSnmp
open AlarmScheduler

/-- The `op` of a callback. -/
inductive CallbackOp
  | receivedMessage
  | sendFailed
  | timedOut
  | other (op : ℤ)
deriving DecidableEq

/-- An INFORM that net-snmp has been given, with the definition that it hands back in the
callback. Not in the code is the number, which counts the sends of the alarm. -/
structure Inform where
  type : NotificationType
  d : AlarmTableDef
  number : ℕ
deriving DecidableEq

/-- The entry is for a send of the alarm `i`. -/
def Entry.informs (i : AlarmIndex) : Entry → Bool
  | .inform _ d _ => d.alarmIndex = i
  | _ => false

/-- How often the alarm `i` has been sent. -/
def sends (i : AlarmIndex) (log : List Entry) : ℕ := log.countP (Entry.informs i)

section

variable (notifications : List NotificationType)

/-- What `send_trap` gives to net-snmp for an entry of the log: one INFORM for each type. -/
def sentFor (past : List Entry) : Entry → List Inform
  | .inform _ d _ => notifications.map fun type => ⟨type, d, sends d.alarmIndex past + 1⟩
  | _ => []

/-- What it gives to net-snmp for several entries, which are newest first. -/
def sentSince (past : List Entry) : List Entry → List Inform
  | [] => []
  | e :: entries => sentSince past entries ++ sentFor notifications (entries ++ past) e

end

/-- The agent with the INFORMs that net-snmp has not reported on. Not in the code are those it has
reported on. -/
structure Delivery (H : Type) where
  world : World H
  inFlight : List Inform
  answered : List (Inform × CallbackOp)

def Event.isFailure {defs : AlarmTableDefs} : Event defs → Bool
  | .handleFailedAlarm _ _ => true
  | _ => false

namespace Delivery

variable {H : Type} (cfg : Setup H) (notifications : List NotificationType)

/-- `alarm_trap_send_callback` -/
def alarmTrapSendCallback (op : CallbackOp) (d : AlarmTableDef) (w : World H) : World H :=
  match op with
  | .timedOut =>
    { w with
      scheduler := w.scheduler.handleFailedAlarm cfg w.now.ms d
      log := .failed w.now.ms d.alarmIndex d.severity :: w.log }
  -- logged and otherwise ignored
  | .receivedMessage | .sendFailed | .other _ => w

/-- Something happens to the agent, but for a report of failure, which comes from net-snmp only,
or net-snmp reports on one of the INFORMs in flight. -/
inductive Turn (defs : AlarmTableDefs)
  | agent (e : Event defs) (h : e.isFailure = false)
  | callback (k : ℕ) (op : CallbackOp)

def step (s : Delivery H) : Turn cfg.defs → Delivery H
  | .agent e _ =>
    let w := s.world.step cfg e
    { s with
      world := w
      inFlight := s.inFlight ++ sentSince notifications s.world.log
        (w.log.take (w.log.length - s.world.log.length)) }
  | .callback k op =>
    match s.inFlight[k]? with
    | none => s
    | some inform =>
      { world := alarmTrapSendCallback cfg op inform.d s.world
        inFlight := s.inFlight.eraseIdx k
        answered := s.answered ++ [(inform, op)] }

def start (table : AlarmActiveTable) (now : Clock) : Delivery H :=
  ⟨World.init cfg table now, [], []⟩

def run (table : AlarmActiveTable) (now : Clock) (turns : List (Turn cfg.defs)) : Delivery H :=
  Runs.run (step cfg notifications) (start cfg table now) turns

end Delivery

/-! ## The ledger of INFORMs -/

section

variable {i : AlarmIndex} {log : List Entry} {e : Entry}

theorem sends_cons (i : AlarmIndex) (e : Entry) (log : List Entry) :
    sends i (e :: log) = sends i log + if e.informs i then 1 else 0 := List.countP_cons

/-- What the log says about one alarm. -/
def historyOf (i : AlarmIndex) (log : List Entry) : List AlarmEntry :=
  log.filterMap (Agent.entryFor i)

/-- An entry that is not for a send of the alarm leaves the last send as it was. -/
theorem historyOf_cons_of_not_informs (h : e.informs i = false) :
    History.lastInformed (historyOf i (e :: log)) = History.lastInformed (historyOf i log) ∧
      History.sinceInform (historyOf i log) ⊆ History.sinceInform (historyOf i (e :: log)) := by
  rw [historyOf, List.filterMap_cons]
  cases hentry : Agent.entryFor i e with
  | none => exact ⟨rfl, List.Subset.refl _⟩
  | some entry =>
    have hinformed : entry.informed = none := by
      cases e with
      | inform t d p =>
        have hd : d.alarmIndex ≠ i := by simpa [Entry.informs] using h
        simp [Agent.entryFor, hd] at hentry
      | accepted t j s =>
        simp only [Agent.entryFor, Option.ite_none_right_eq_some, Option.some.injEq] at hentry
        rw [← hentry.2]
        rfl
      | failed t j s =>
        simp only [Agent.entryFor, Option.ite_none_right_eq_some, Option.some.injEq] at hentry
        rw [← hentry.2]
        rfl
      | synced t =>
        rw [← Option.some.inj hentry]
        rfl
    refine ⟨?_, ?_⟩
    · simp [History.lastInformed, historyOf, hinformed]
    · simp only [History.sinceInform, historyOf]
      rw [List.takeWhile_cons_of_pos (by simpa using hinformed)]
      exact List.subset_cons_self _ _

theorem historyOf_cons_inform (t : ℕ) (d : AlarmTableDef) (p : Severity) (log : List Entry) :
    historyOf d.alarmIndex (.inform t d p :: log) =
      .inform t d.severity p :: historyOf d.alarmIndex log := by
  simp [historyOf, Agent.entryFor]

/-- The INFORM is in flight or has been reported on. -/
def Sent (inFlight : List Inform) (answered : List (Inform × CallbackOp)) (x : Inform) : Prop :=
  x ∈ inFlight ∨ ∃ op, (x, op) ∈ answered

/-- How the INFORMs relate to the log. -/
structure Ledger (defs : AlarmTableDefs) (notifications : List NotificationType)
    (log : List Entry) (inFlight : List Inform) (answered : List (Inform × CallbackOp)) : Prop where
  last : ∀ i, sends i log ≠ 0 → ∀ type ∈ notifications, ∃ x, Sent inFlight answered x ∧
    x.type = type ∧ x.d.alarmIndex = i ∧ x.number = sends i log
  number_le : ∀ x, Sent inFlight answered x → x.number ≤ sends x.d.alarmIndex log
  severity : ∀ x, Sent inFlight answered x → x.number = sends x.d.alarmIndex log →
    x.d.severity = History.lastInformed (historyOf x.d.alarmIndex log)
  loaded : ∀ x ∈ inFlight, defs.Loaded x.d
  reported : ∀ x, (x, .timedOut) ∈ answered → x.number = sends x.d.alarmIndex log →
    ∃ e ∈ History.sinceInform (historyOf x.d.alarmIndex log),
      e.reportsFailure x.d.severity = true

variable {defs : AlarmTableDefs} {notifications : List NotificationType} {inFlight : List Inform}
  {answered : List (Inform × CallbackOp)}

theorem Ledger.empty : Ledger defs notifications [] [] [] where
  last i h := absurd rfl h
  number_le x h := by simp [Sent] at h
  severity x h := by simp [Sent] at h
  loaded x h := by cases h
  reported x h := by cases h

/-- A send of an alarm: the INFORMs for it are the last of that alarm, and those before are not. -/
theorem Ledger.inform (h : Ledger defs notifications log inFlight answered) (t : ℕ)
    {d : AlarmTableDef} (hd : defs.Loaded d) (p : Severity) :
    Ledger defs notifications (.inform t d p :: log)
      (inFlight ++ sentFor notifications log (.inform t d p)) answered := by
  have hsends : ∀ i, sends i (.inform t d p :: log) =
      sends i log + if d.alarmIndex = i then 1 else 0 := by
    intro i
    simp [sends_cons, Entry.informs]
  have hold : ∀ x, Sent (inFlight ++ sentFor notifications log (.inform t d p)) answered x →
      Sent inFlight answered x ∨ x.d = d ∧ x.number = sends d.alarmIndex log + 1 := by
    rintro x (hx | hx)
    · rcases List.mem_append.mp hx with hx | hx
      · exact .inl (.inl hx)
      · obtain ⟨type, -, rfl⟩ := List.mem_map.mp hx
        exact .inr ⟨rfl, rfl⟩
    · exact .inl (.inr hx)
  have hother : ∀ x : Inform, x.d.alarmIndex ≠ d.alarmIndex →
      sends x.d.alarmIndex (.inform t d p :: log) = sends x.d.alarmIndex log ∧
        Entry.informs x.d.alarmIndex (.inform t d p) = false := by
    intro x hne
    exact ⟨by rw [hsends, if_neg (Ne.symm hne), add_zero], decide_eq_false (Ne.symm hne)⟩
  -- an INFORM sent before is not the last one if it is for the same alarm
  have hpast : ∀ x : Inform, x.d.alarmIndex = d.alarmIndex → Sent inFlight answered x →
      x.number ≠ sends x.d.alarmIndex (.inform t d p :: log) := by
    intro x heq hx
    have hle := h.number_le x hx
    rw [hsends, if_pos heq.symm]
    omega
  refine ⟨fun i hi type htype => ?_, fun x hx => ?_, fun x hx hlast => ?_, fun x hx => ?_,
    fun x hx hlast => ?_⟩
  · by_cases hdi : d.alarmIndex = i
    · refine ⟨⟨type, d, sends d.alarmIndex log + 1⟩, .inl (List.mem_append_right _ ?_), rfl, hdi,
        ?_⟩
      · exact List.mem_map.mpr ⟨type, htype, rfl⟩
      · rw [hsends, if_pos hdi, ← hdi]
    · rw [hsends, if_neg hdi, add_zero] at hi ⊢
      obtain ⟨x, hx, hx'⟩ := h.last i hi type htype
      exact ⟨x, hx.imp_left (List.mem_append_left _), hx'⟩
  · rcases hold x hx with hx | ⟨hxd, hnumber⟩
    · rw [hsends]
      exact (h.number_le x hx).trans (Nat.le_add_right _ _)
    · rw [hsends, hxd, if_pos rfl, hnumber]
  · rcases hold x hx with hx | ⟨hxd, -⟩
    · by_cases heq : x.d.alarmIndex = d.alarmIndex
      · exact absurd hlast (hpast x heq hx)
      · obtain ⟨hsame, hnot⟩ := hother x heq
        rw [(historyOf_cons_of_not_informs hnot).1]
        exact h.severity x hx (hlast.trans hsame)
    · rw [hxd, historyOf_cons_inform]
      rfl
  · rcases List.mem_append.mp hx with hx | hx
    · exact h.loaded x hx
    · obtain ⟨type, -, rfl⟩ := List.mem_map.mp hx
      exact hd
  · by_cases heq : x.d.alarmIndex = d.alarmIndex
    · exact absurd hlast (hpast x heq (.inr ⟨_, hx⟩))
    · obtain ⟨hsame, hnot⟩ := hother x heq
      obtain ⟨e, he, hreports⟩ := h.reported x hx (hlast.trans hsame)
      exact ⟨e, (historyOf_cons_of_not_informs hnot).2 he, hreports⟩

/-- Anything else that is logged. -/
theorem Ledger.other (h : Ledger defs notifications log inFlight answered)
    (he : ∀ i, e.informs i = false) :
    Ledger defs notifications (e :: log) inFlight answered := by
  have hsends : ∀ i, sends i (e :: log) = sends i log := by
    intro i
    rw [sends_cons, he i]
    rfl
  refine ⟨fun i hi => ?_, fun x hx => ?_, fun x hx hlast => ?_, h.loaded, fun x hx hlast => ?_⟩
  · rw [hsends] at hi ⊢
    exact h.last i hi
  · rw [hsends]
    exact h.number_le x hx
  · rw [hsends] at hlast
    rw [(historyOf_cons_of_not_informs (he _)).1]
    exact h.severity x hx hlast
  · rw [hsends] at hlast
    obtain ⟨e', he', hreports⟩ := h.reported x hx hlast
    exact ⟨e', (historyOf_cons_of_not_informs (he _)).2 he', hreports⟩

theorem Ledger.append (h : Ledger defs notifications log inFlight answered) {entries : List Entry}
    (hloaded : ∀ t d p, Entry.inform t d p ∈ entries → defs.Loaded d) :
    Ledger defs notifications (entries ++ log)
      (inFlight ++ sentSince notifications log entries) answered := by
  induction entries with
  | nil =>
    rw [sentSince, List.append_nil]
    exact h
  | cons e entries ih =>
    have ih := ih fun t d p hmem => hloaded t d p (List.mem_cons_of_mem e hmem)
    rw [sentSince, ← List.append_assoc]
    cases e with
    | inform t d p => exact ih.inform t (hloaded t d p List.mem_cons_self) p
    | accepted t i severity =>
      simpa [sentFor] using ih.other (e := .accepted t i severity) fun _ => rfl
    | failed t i severity => simpa [sentFor] using ih.other (e := .failed t i severity) fun _ => rfl
    | synced t => simpa [sentFor] using ih.other (e := .synced t) fun _ => rfl

/-- A report on an INFORM in flight. If it is that the INFORM timed out, the log says so. -/
theorem Ledger.callback (h : Ledger defs notifications log inFlight answered) {k : ℕ} {x : Inform}
    (hk : inFlight[k]? = some x) {op : CallbackOp}
    (hop : op = .timedOut → ∃ e ∈ History.sinceInform (historyOf x.d.alarmIndex log),
      e.reportsFailure x.d.severity = true) :
    Ledger defs notifications log (inFlight.eraseIdx k) (answered ++ [(x, op)]) := by
  have hmem : ∀ y, y ∈ inFlight ↔ y = x ∨ y ∈ inFlight.eraseIdx k := by
    intro y
    obtain ⟨hlt, rfl⟩ := List.getElem?_eq_some_iff.mp hk
    rw [← List.mem_cons]
    exact (List.getElem_cons_eraseIdx_perm hlt).symm.mem_iff
  have hsent : ∀ y, Sent (inFlight.eraseIdx k) (answered ++ [(x, op)]) y ↔
      Sent inFlight answered y := by
    intro y
    simp only [Sent, hmem, List.mem_append, List.mem_singleton, Prod.mk.injEq, exists_or,
      exists_and_left, exists_eq, and_true]
    tauto
  refine ⟨fun i hi type htype => ?_, fun y hy => ?_, fun y hy => ?_, fun y hy => ?_,
    fun y hy hlast => ?_⟩
  · obtain ⟨y, hy, hy'⟩ := h.last i hi type htype
    exact ⟨y, (hsent y).mpr hy, hy'⟩
  · exact h.number_le y ((hsent y).mp hy)
  · exact h.severity y ((hsent y).mp hy)
  · exact h.loaded y ((hmem y).mpr (.inr hy))
  · rcases List.mem_append.mp hy with hy | hy
    · exact h.reported y hy hlast
    · obtain ⟨rfl, hout⟩ := Prod.mk.inj (List.mem_singleton.mp hy)
      exact hop hout.symm

end

/-! ## Sends go into the log -/

variable {H : Type} {cfg : Setup H}

namespace Agent

/-- What is logged since, with a loaded definition for each send. -/
def LogGrows (cfg : Setup H) (log log' : List Entry) : Prop :=
  ∃ entries, log' = entries ++ log ∧ ∀ t d p, Entry.inform t d p ∈ entries → cfg.defs.Loaded d

theorem LogGrows.refl (log : List Entry) : LogGrows cfg log log :=
  ⟨[], rfl, fun _ _ _ h => by cases h⟩

theorem LogGrows.trans {log log' log'' : List Entry} (h : LogGrows cfg log log')
    (h' : LogGrows cfg log' log'') : LogGrows cfg log log'' := by
  obtain ⟨entries, rfl, hloaded⟩ := h
  obtain ⟨entries', rfl, hloaded'⟩ := h'
  refine ⟨entries' ++ entries, (List.append_assoc ..).symm, fun t d p hmem => ?_⟩
  rcases List.mem_append.mp hmem with hmem | hmem
  · exact hloaded' t d p hmem
  · exact hloaded t d p hmem

theorem logGrows_popTimer (now : ℕ) (rows : AlarmIndex → RowCreation) (k : AlarmIndex)
    (a : Agent H) : LogGrows cfg a.log (a.popTimer cfg now rows k).log := by
  unfold popTimer
  split
  · exact .refl _
  · rename_i owner howner
    show LogGrows cfg a.log (a.sendAlarm cfg now rows owner.alarmTimer).log
    unfold sendAlarm
    dsimp only
    split
    · rename_i hvalid
      have hsent : ∀ p, LogGrows cfg a.log (.inform now
          (cfg.defs.getDefinition owner.alarmTimer.index owner.alarmTimer.severity.number) p ::
            a.log) := by
        intro p
        refine ⟨[_], rfl, fun t d q hmem => ?_⟩
        obtain ⟨-, rfl, -⟩ := Entry.inform.inj (List.mem_singleton.mp hmem)
        exact (AlarmTableDefs.loaded_of_isValid hvalid).1
      split
      · exact hsent _
      · exact hsent _
    · exact .refl _

theorem logGrows_heapSenderLoop (now : ℕ) (rows : AlarmIndex → RowCreation) (n : ℕ)
    (a : Agent H) : LogGrows cfg a.log (a.heapSenderLoop cfg now rows n).log := by
  induction n generalizing a with
  | zero => exact .refl _
  | succ n ih =>
    unfold heapSenderLoop
    split
    · exact .refl _
    · exact (logGrows_popTimer now rows _ a).trans (ih _)

end Agent

theorem World.logGrows_step (w : World H) (e : Event cfg.defs) :
    Agent.LogGrows cfg w.log (w.step cfg e).log := by
  cases e with
  | issueAlarm identifier =>
    refine ⟨(acceptance cfg w.now.ms identifier).toList, rfl, fun t d p hmem => ?_⟩
    obtain ⟨r, -, hr⟩ := Option.map_eq_some_iff.mp (Option.mem_toList.mp hmem)
    cases hr
  | syncAlarms =>
    refine ⟨[.synced w.now.ms], rfl, fun t d p hmem => ?_⟩
    cases List.mem_singleton.mp hmem
  | handleFailedAlarm d hd =>
    refine ⟨[.failed w.now.ms d.alarmIndex d.severity], rfl, fun t d p hmem => ?_⟩
    cases List.mem_singleton.mp hmem
  | heapSender rows => exact Agent.logGrows_heapSenderLoop _ _ _ _
  | clock later => exact .refl _

namespace Delivery

variable {notifications : List NotificationType} {s : Delivery H}

/-- The INFORMs are accounted for. -/
def Accounted (cfg : Setup H) (notifications : List NotificationType) (s : Delivery H) : Prop :=
  Ledger cfg.defs notifications s.world.log s.inFlight s.answered

theorem Accounted.step (h : Accounted cfg notifications s) (turn : Turn cfg.defs) :
    Accounted cfg notifications (s.step cfg notifications turn) := by
  cases turn with
  | agent e he =>
    obtain ⟨entries, hlog, hloaded⟩ := s.world.logGrows_step e
    have htake : (s.world.step cfg e).log.take
        ((s.world.step cfg e).log.length - s.world.log.length) = entries := by
      rw [hlog, List.length_append, Nat.add_sub_cancel, List.take_left]
    unfold Accounted
    simp only [Delivery.step, htake]
    rw [hlog]
    exact h.append hloaded
  | callback k op =>
    simp only [Delivery.step]
    split
    · exact h
    · rename_i x hx
      cases op with
      | timedOut =>
        refine (h.other fun _ => rfl).callback hx fun _ => ?_
        refine ⟨.failed s.world.now.ms x.d.severity, ?_, by simp [AlarmEntry.reportsFailure]⟩
        simp [historyOf, Agent.entryFor]
      | receivedMessage => exact h.callback hx fun hop => by cases hop
      | sendFailed => exact h.callback hx fun hop => by cases hop
      | other op => exact h.callback hx fun hop => by cases hop

/-! ## What the manager has been told -/

/-- A step that loses neither a failed delivery nor a waiting change. -/
def Careful (cfg : Setup H) (w : World H) (e : Event cfg.defs) : Prop :=
  World.CancelForgetsNoFailure cfg w e ∧ World.SyncFindsNoChange cfg w e

def Good (cfg : Setup H) (s : Delivery H) : Turn cfg.defs → Prop
  | .agent e _ => Careful cfg s.world e
  | .callback _ _ => True

/-- The agent has come to its state by careful steps. -/
def CarefulRun (cfg : Setup H) (table : AlarmActiveTable) (now : Clock) (w : World H) : Prop :=
  ∃ es, w = World.run cfg table now es ∧
    Runs.Along (World.step cfg) (Careful cfg) (World.init cfg table now) es

theorem CarefulRun.step {table : AlarmActiveTable} {now : Clock} {w : World H}
    (h : CarefulRun cfg table now w) {e : Event cfg.defs} (he : Careful cfg w e) :
    CarefulRun cfg table now (w.step cfg e) := by
  obtain ⟨es, rfl, halong⟩ := h
  refine ⟨es ++ [e], ?_, ?_⟩
  · rw [World.run, World.run, Runs.run_append]
    rfl
  · rw [Runs.along_append]
    exact ⟨halong, he, trivial⟩

/-- A callback is a report of failure, which loses nothing, or does nothing. -/
theorem CarefulRun.callback {table : AlarmActiveTable} {now : Clock} {w : World H}
    (h : CarefulRun cfg table now w) {d : AlarmTableDef} (hd : cfg.defs.Loaded d)
    (op : CallbackOp) : CarefulRun cfg table now (alarmTrapSendCallback cfg op d w) := by
  cases op with
  | timedOut => exact h.step (e := .handleFailedAlarm d hd) ⟨trivial, fun hs => by cases hs⟩
  | receivedMessage => exact h
  | sendFailed => exact h
  | other op => exact h

theorem run_accounted {table : AlarmActiveTable} {now : Clock} {turns : List (Turn cfg.defs)}
    (hgood : Runs.Along (step cfg notifications) (Good cfg) (start cfg table now) turns) :
    Accounted cfg notifications (run cfg notifications table now turns) ∧
      CarefulRun cfg table now (run cfg notifications table now turns).world := by
  refine Runs.run_invariant_along (P := Good cfg)
    (I := fun s => Accounted cfg notifications s ∧ CarefulRun cfg table now s.world)
    (fun s turn h hturn => ⟨h.1.step turn, ?_⟩) ⟨Ledger.empty, [], rfl, trivial⟩ hgood
  cases turn with
  | agent e he => exact h.2.step hturn
  | callback k op =>
    simp only [step]
    split
    · exact h.2
    · rename_i x hx
      exact h.2.callback (h.1.loaded x (List.mem_of_getElem? hx)) op

theorem remembersFailures_run {table : AlarmActiveTable} {now : Clock}
    {es : List (Event cfg.defs)}
    (h : Runs.Along (World.step cfg) (Careful cfg) (World.init cfg table now) es) :
    World.RemembersFailures cfg (World.run cfg table now es) := by
  have hinit := World.reported_init cfg table now
  have hremembers : World.RemembersFailures cfg (World.init cfg table now) := by
    rintro i m - ⟨e, he, -⟩
    simp [World.init, Agent.history, History.sinceInform] at he
  exact (Runs.run_invariant_along
    (I := fun w => World.Reported cfg table.myHandler w ∧ World.RemembersFailures cfg w)
    (fun w e hw he => ⟨hw.1.step e, (World.remembersFailures_step hw.1 hw.2 e).mpr he.1⟩)
    ⟨hinit, hremembers⟩ h).2

theorem lastInformed_of_sends_eq_zero {i : AlarmIndex} {log : List Entry} (h : sends i log = 0) :
    History.lastInformed (historyOf i log) = .undefinedSeverity := by
  induction log with
  | nil => rfl
  | cons e log ih =>
    rw [sends_cons] at h
    have hnot : e.informs i = false := by
      by_contra hc
      rw [Bool.not_eq_false] at hc
      simp [hc] at h
    rw [(historyOf_cons_of_not_informs hnot).1]
    exact ih (by omega)

/-- An alarm that does not wait in the heap, and of which no INFORM is in flight, has been
delivered: of the last INFORMs for it, which carry the severity requested last, there is one for
each notification type, and none has timed out. The run must not meet with either of the two ways
in which a failed delivery or a waiting change is lost. -/
theorem quiescent_delivered {table : AlarmActiveTable} {now : Clock} {turns : List (Turn cfg.defs)}
    (hgood : Runs.Along (step cfg notifications) (Good cfg) (start cfg table now) turns)
    {i : AlarmIndex} {severity : Severity}
    (hrequest : History.lastAccepted
      ((run cfg notifications table now turns).world.history i) = some severity)
    (hheap : (run cfg notifications table now turns).world.scheduler.inHeap cfg i = false)
    (hflight : ∀ x ∈ (run cfg notifications table now turns).inFlight, x.d.alarmIndex ≠ i) :
    ∀ type ∈ notifications, ∃ x op,
      (x, op) ∈ (run cfg notifications table now turns).answered ∧ op ≠ .timedOut ∧
        x.type = type ∧ x.d.alarmIndex = i ∧ x.d.severity = severity ∧
          x.number = sends i (run cfg notifications table now turns).world.log := by
  obtain ⟨hledger, es, hworld, hcareful⟩ := run_accounted hgood
  set s := run cfg notifications table now turns
  have hsync : Runs.Along (World.step cfg) (World.SyncFindsNoChange cfg)
      (World.init cfg table now) es :=
    Runs.Along.mono (I := fun _ => True) (fun _ _ _ _ => trivial) (fun _ _ _ he => he.2) trivial
      hcareful
  have hremembers := remembersFailures_run hcareful
  obtain ⟨hset, hfollows⟩ := World.follows_run hsync i
  have hsound := World.sound_run cfg table now es
  rw [← hworld] at hremembers hset hfollows hsound
  -- the last request is what was last sent, for nothing waits
  have hvalid := hfollows.requested_valid severity hrequest
  obtain ⟨m, hm⟩ := hsound.manager hvalid
  have hcurrent : m.severity = severity := by
    have ht := hfollows.requested severity hrequest
    rw [World.track_alarm, alarm_of_manager hm, Alarm.target] at ht
    simpa [hheap] using ht
  have hinformed : severity = History.lastInformed (historyOf i s.world.log) := by
    have hinf := hset.informed
    rw [World.track_alarm, alarm_of_manager hm] at hinf
    exact hcurrent.symm.trans hinf
  have hsent : sends i s.world.log ≠ 0 := by
    intro hzero
    rw [lastInformed_of_sends_eq_zero hzero] at hinformed
    exact AlarmConfig.severity_defined _ severity hvalid hinformed
  intro type htype
  obtain ⟨x, hx, hxtype, hxi, hxnumber⟩ := hledger.last i hsent type htype
  have hxseverity : x.d.severity = severity := by
    rw [hledger.severity x hx (by rw [hxi, hxnumber]), hxi, ← hinformed]
  obtain ⟨op, hop⟩ := hx.resolve_left fun hmem => hflight x hmem hxi
  refine ⟨x, op, hop, ?_, hxtype, hxi, hxseverity, hxnumber⟩
  rintro rfl
  have hreported := hledger.reported x hop (by rw [hxi, hxnumber])
  rw [hxi, hxseverity, ← hcurrent] at hreported
  rw [hremembers i m hm hreported] at hheap
  cases hheap

/-- An alarm is raised and sent; one of its two INFORMs times out, and after half a minute both
are sent again and get through. -/
def retryTurns : List (Turn (Setup.sample).defs) :=
  [.agent (.issueAlarm "1000.3") rfl, .agent (.heapSender .sample) rfl, .callback 0 .timedOut,
    .agent (.clock ⟨30000, by decide⟩) rfl, .agent (.heapSender .sample) rfl,
    .callback 0 .receivedMessage, .callback 0 .receivedMessage, .callback 0 .receivedMessage]

theorem quiescent_delivered_retry :
    let s := run .sample [.rfc3877, .enterprise] .initialised ⟨0, by decide⟩ retryTurns
    (s.inFlight = [] ∧ sends 1000 s.world.log = 2) ∧
      ∃ x op, (x, op) ∈ s.answered ∧ op ≠ .timedOut ∧ x.type = .enterprise ∧
        x.d.alarmIndex = 1000 ∧ x.d.severity = .critical ∧ x.number = 2 := by
  intro s
  have hgood : Runs.Along (step .sample [.rfc3877, .enterprise]) (Good .sample)
      (start .sample .initialised ⟨0, by decide⟩) retryTurns := by
    have hsync : ∀ w (e : Event (Setup.sample).defs), e.isSync = false →
        World.SyncFindsNoChange .sample w e := fun w e he hs => by rw [he] at hs; cases hs
    refine ⟨⟨fun r hr m _ _ hin => ?_, hsync _ _ rfl⟩, ⟨trivial, hsync _ _ rfl⟩, trivial,
      ⟨trivial, hsync _ _ rfl⟩, ⟨trivial, hsync _ _ rfl⟩, trivial, trivial, trivial, trivial⟩
    have hid : validateAlarmTrigger (Setup.sample).defs "1000.3" = some (1000, 3) := by decide
    rw [hid] at hr
    cases hr
    exact absurd hin (by decide)
  have hrequest : History.lastAccepted (s.world.history 1000) = some .critical := by decide
  have hheap : s.world.scheduler.inHeap .sample 1000 = false := by decide
  have hempty : s.inFlight = [] := by decide
  have hflight : ∀ x ∈ s.inFlight, x.d.alarmIndex ≠ 1000 := by
    rw [hempty]
    intro x hx
    cases hx
  have hsends : sends 1000 s.world.log = 2 := by decide
  refine ⟨⟨hempty, hsends⟩, ?_⟩
  rw [← hsends]
  exact quiescent_delivered hgood hrequest hheap hflight .enterprise (by decide)

end Delivery
end ClearwaterSnmp
