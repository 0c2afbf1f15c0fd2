import ClearwaterSnmp.AgentProcess

namespace ClearwaterSnmp.AlarmsAgent

variable {H : Type} {cfg : Setup H} {s : AlarmsAgent H}

/-- There is no SIGTERM, and Net-SNMP takes no section once the scheduler is gone. -/
def Orderly (s : AlarmsAgent H) : Turn cfg.defs → Prop
  | .sigterm => False
  | .snmp _ => s.main ≠ .terminatingSnmp
  | _ => True

/-- `main` is past its wait or the semaphore can be taken, exactly if the listener thread has
posted it. -/
def Counted (s : AlarmsAgent H) : Prop :=
  s.termSem + (if s.main = .waiting then 0 else 1) = if s.posted then 1 else 0

theorem Counted.mainStep (h : s.Counted) : (s.mainStep cfg).Counted := by
  unfold AlarmsAgent.mainStep
  cases hm : s.main with
  | waiting =>
    dsimp only
    split
    · exact h
    · unfold Counted at *
      rw [if_pos hm] at h
      simp only [reduceCtorEq, if_false]
      omega
  | joining =>
    dsimp only
    split
    · unfold Counted at *
      rwa [hm] at h
    · exact h
  | _ =>
    unfold Counted at *
    rwa [hm] at h

theorem Counted.listenerStep (h : s.Counted) (a : Answers) : (s.listenerStep cfg a).Counted := by
  unfold AlarmsAgent.listenerStep
  split
  · unfold postSemaphore
    split
    · exact h
    · rename_i hposted
      unfold Counted at *
      rw [if_neg hposted] at h
      simp only [if_true]
      omega
  · exact h

theorem Counted.step (h : s.Counted) {t : Turn cfg.defs} (ht : t ≠ .sigterm) :
    (s.step cfg t).Counted := by
  unfold AlarmsAgent.step
  split
  · exact h
  · cases t with
    | main => exact h.mainStep
    | listener a => exact h.listenerStep a
    | sender rows => exact h
    | signalled =>
      rw [Counted, AlarmsAgent.act]
      split <;> exact h
    | wake => exact h
    | snmp failed => cases failed <;> exact h
    | clock later => exact h
    | sigterm => exact absurd rfl ht

theorem Orderly.careful (h : s.Counted) {t : Turn cfg.defs} (ht : s.Orderly t) : s.Careful t := by
  cases t with
  | listener a =>
    refine fun hfreed => .inr ?_
    have hmain : s.main ≠ .waiting := by
      intro hm
      simp [hm, MainThread.freed] at hfreed
    unfold Counted at h
    rw [if_neg hmain] at h
    by_contra hposted
    rw [if_neg hposted] at h
    omega
  | snmp failed => exact ht
  | _ => trivial

theorem Orderly.ne_sigterm {t : Turn cfg.defs} (ht : s.Orderly t) : t ≠ .sigterm := by
  rintro rfl
  exact ht

theorem counted_start (cfg : Setup H) (table : AlarmActiveTable) (now : Clock) :
    (start cfg table now).Counted := rfl

/-- Without SIGTERM the listener thread is always done before the listener is deleted. -/
theorem misused_of_orderly {table : AlarmActiveTable} {now : Clock} {turns : List (Turn cfg.defs)}
    (h : Runs.Along (step cfg) Orderly (start cfg table now) turns) :
    (run cfg table now turns).misused = false := by
  rw [misused_iff]
  exact h.mono (fun s t hs ht => hs.step ht.ne_sigterm) (fun s t hs ht => ht.careful hs)
    (counted_start cfg table now)

/-- The listener is on its way out. -/
def GaveUp (s : AlarmsAgent H) : Prop :=
  s.listener.phase = .cleanSocket ∨ s.listener.phase = .ended

/-- Who takes a turn, as far as it matters for the end: the sender also when its wait ends by a
signal. -/
inductive Party
  | main
  | listener
  | sender
  | signal
  | other
deriving DecidableEq

def Turn.party {defs : AlarmTableDefs} : Turn defs → Party
  | .main => .main
  | .listener _ => .listener
  | .sender _ => .sender
  | .signalled => .signal
  | .wake | .snmp _ | .clock _ | .sigterm => .other

/-- The steps that the sender has still to take in its loop. -/
def senderRest : SenderThread → ℕ
  | .asleep _ => 2
  | .awake => 1
  | .finished => 0

theorem senderRest_le (t : SenderThread) : senderRest t ≤ 2 := by
  cases t <;> simp [senderRest]

def mainRest (sender : SenderThread) : MainThread → ℕ
  | .waiting => 9
  | .deletingListener => 8
  | .stoppingScheduler => 7
  | .joining => 4 + senderRest sender
  | .freeingScheduler => 3
  | .terminatingSnmp => 2
  | .deletingDefs => 1
  | .exited => 0

/-- The steps of a listener thread that has given up, down to its post. -/
def listenerRest (s : AlarmsAgent H) : ℕ :=
  if s.posted then 0 else if s.listener.phase = .ended then 1 else 2

/-- The steps that are left to the end. -/
def rest (s : AlarmsAgent H) : ℕ := mainRest s.sender s.main + s.listenerRest

/-- Who brings the sender to its end. -/
def senderNext : SenderThread → Party
  | .asleep _ => .signal
  | .awake => .sender
  | .finished => .main

/-- Who takes the next of these steps. -/
def next (s : AlarmsAgent H) : Party :=
  match s.main with
  | .waiting => if s.posted then .main else .listener
  | .joining => senderNext s.sender
  | _ => .main

/-- A turn of `p` takes one of the steps that are left, or changes nothing about them, and then
it was not for `p` to take the next. -/
def Advances (s s' : AlarmsAgent H) (p : Party) : Prop :=
  s'.rest < s.rest ∨ s'.rest = s.rest ∧ s'.next = s.next ∧ p ≠ s.next

theorem advances_mainStep (h : s.Counted) (hmain : s.main ≠ .exited) :
    s.Advances (s.mainStep cfg) .main := by
  unfold AlarmsAgent.mainStep
  cases hm : s.main with
  | waiting =>
    dsimp only
    split
    · rename_i hzero
      have hposted : s.posted = false := by
        unfold Counted at h
        rw [if_pos hm, hzero] at h
        cases hp : s.posted with
        | false => rfl
        | true => simp [hp] at h
      exact .inr ⟨rfl, rfl, by simp [next, hm, hposted]⟩
    · left
      simp [rest, hm, mainRest, listenerRest]
  | joining =>
    dsimp only
    split
    · rename_i hfinished
      left
      simp [rest, hm, hfinished, mainRest, senderRest, listenerRest]
    · rename_i hrunning
      refine .inr ⟨rfl, rfl, ?_⟩
      cases hs : s.sender with
      | finished => exact absurd hs hrunning
      | _ => simp [next, hm, hs, senderNext]
  | stoppingScheduler =>
    left
    have hle := senderRest_le s.sender
    change 4 + senderRest s.sender + s.listenerRest < s.rest
    rw [rest, hm, mainRest]
    omega
  | exited => exact absurd hm hmain
  | _ =>
    left
    simp [rest, hm, mainRest, listenerRest]

theorem senderNext_ne_listener (t : SenderThread) : senderNext t ≠ .listener := by
  cases t <;> simp [senderNext]

theorem senderNext_ne_other (t : SenderThread) : senderNext t ≠ .other := by
  cases t <;> simp [senderNext]

theorem next_ne_listener (hposted : s.posted = true) : s.next ≠ .listener := by
  unfold next
  cases s.main with
  | waiting => simp [hposted]
  | joining => exact senderNext_ne_listener s.sender
  | _ => simp

theorem advances_listenerStep (h : s.Sound)
    (hphase : s.GaveUp) (a : Answers) :
    s.Advances (s.listenerStep cfg a) .listener := by
  unfold AlarmsAgent.listenerStep
  split
  · rename_i hended
    unfold postSemaphore
    split
    · rename_i hposted
      exact .inr ⟨rfl, rfl, fun hnext => next_ne_listener hposted hnext.symm⟩
    · rename_i hposted
      left
      simp [rest, listenerRest, hposted, hended]
  · rename_i hgoing
    have hclean := hphase.resolve_right hgoing
    have hposted : ¬s.posted = true := fun hposted => hgoing (h.ended hposted)
    left
    simp [rest, listenerRest, hposted, hclean, AlarmReqListener.resume]

/-- Only the join waits for the sender. -/
theorem next_of_ne_joining (hm : s.main ≠ .joining) : s.next = .main ∨ s.next = .listener := by
  unfold next
  cases hs : s.main with
  | waiting => cases s.posted <;> simp
  | joining => exact absurd hs hm
  | _ => exact .inl rfl

theorem next_ne_other : s.next ≠ .other := by
  by_cases hm : s.main = .joining
  · rw [next, hm]
    exact senderNext_ne_other s.sender
  · rcases next_of_ne_joining hm with hnext | hnext <;> simp [hnext]

/-- Unless `main` is joining the sender, nothing is counted of what the sender does. -/
theorem advances_setThreaded {w : ThreadedWorld H} {p : Party} (hmain : p ≠ .main)
    (hlistener : p ≠ .listener)
    (h : s.main = .joining → w.thread = s.sender ∧ p ≠ senderNext s.sender) :
    s.Advances (s.setThreaded w) p := by
  right
  by_cases hm : s.main = .joining
  · obtain ⟨hthread, hp⟩ := h hm
    have hnext : s.next = senderNext s.sender := by rw [next, hm]
    refine ⟨?_, ?_, hnext ▸ hp⟩
    · rw [rest, rest, setThreaded, hthread]
      rfl
    · rw [next, next, setThreaded, hthread]
  · refine ⟨?_, ?_, ?_⟩
    · rw [rest, rest, setThreaded]
      cases hs : s.main with
      | joining => exact absurd hs hm
      | _ => rfl
    · rw [next, next, setThreaded]
      cases hs : s.main with
      | joining => exact absurd hs hm
      | _ => rfl
    · rcases next_of_ne_joining hm with hnext | hnext
      · rwa [hnext]
      · rwa [hnext]

theorem advances_senderLoop (h : s.Sound) (rows : AlarmIndex → RowCreation) :
    s.Advances (s.setThreaded (s.threaded.step cfg (.senderLoop rows))) .sender := by
  by_cases hjoin : s.main = .joining ∧ s.sender = .awake
  · left
    have hthread : (s.threaded.step cfg (.senderLoop rows)).thread = .finished := by
      rw [ThreadedWorld.step, if_pos (show s.threaded.thread = .awake from hjoin.2),
        ThreadedWorld.senderLoop,
        if_pos (show s.threaded.terminated = true from h.terminated hjoin.1)]
    change mainRest (s.threaded.step cfg (.senderLoop rows)).thread s.main + s.listenerRest < s.rest
    rw [hthread, rest, hjoin.1, hjoin.2]
    simp [mainRest, senderRest]
  · apply advances_setThreaded (by decide) (by decide)
    intro hm
    have hasleep : s.sender ≠ .awake := fun hs => hjoin ⟨hm, hs⟩
    refine ⟨?_, ?_⟩
    · rw [ThreadedWorld.step, if_neg (show ¬s.threaded.thread = .awake from hasleep)]
      rfl
    · cases hs : s.sender with
      | awake => exact absurd hs hasleep
      | _ => simp [senderNext]

/-- A wait ends, by a signal or in another way. -/
theorem advances_wake (cfg : Setup H) {p : Party} (hp : p = .signal ∨ p = .other) :
    s.Advances (s.setThreaded (s.threaded.step cfg .wake)) p := by
  have hmain : p ≠ .main := by rcases hp with rfl | rfl <;> decide
  have hlistener : p ≠ .listener := by rcases hp with rfl | rfl <;> decide
  have hsender : p ≠ .sender := by rcases hp with rfl | rfl <;> decide
  by_cases hm : s.main = .joining
  · cases hs : s.sender with
    | asleep deadline =>
      left
      have hthread : (s.threaded.step cfg .wake).thread = .awake := by
        simp [ThreadedWorld.step, threaded, hs]
      change mainRest (s.threaded.step cfg .wake).thread s.main + s.listenerRest < s.rest
      rw [hthread, rest, hm, hs]
      simp [mainRest, senderRest]
    | awake =>
      apply advances_setThreaded hmain hlistener
      exact fun _ => ⟨by simp [ThreadedWorld.step, threaded, hs], by rwa [hs, senderNext]⟩
    | finished =>
      apply advances_setThreaded hmain hlistener
      exact fun _ => ⟨by simp [ThreadedWorld.step, threaded, hs], by rwa [hs, senderNext]⟩
  · exact advances_setThreaded hmain hlistener fun hm' => absurd hm' hm

/-- What leaves the sender where it is. -/
theorem advances_operation (cfg : Setup H) (e : Event cfg.defs) (he : e.isPass = false) :
    s.Advances (s.setThreaded (s.threaded.step cfg (.operation e he))) .other :=
  advances_setThreaded (by decide) (by decide) fun _ =>
    ⟨rfl, (senderNext_ne_other s.sender).symm⟩

theorem advances_rfl (s : AlarmsAgent H) : s.Advances s .other := by
  have h := advances_setThreaded (s := s) (w := s.threaded) (p := .other) (by decide) (by decide)
    fun _ => ⟨rfl, (senderNext_ne_other s.sender).symm⟩
  exact h

theorem advances_act (hsound : s.Sound) (hcounted : s.Counted) (hmain : s.main ≠ .exited)
    (hphase : s.GaveUp) (t : Turn cfg.defs) :
    s.Advances (s.act cfg t) t.party := by
  cases t with
  | main => exact advances_mainStep hcounted hmain
  | listener a => exact advances_listenerStep hsound hphase a
  | sender rows => exact advances_senderLoop hsound rows
  | signalled =>
    rw [act, Turn.party]
    split
    · exact advances_wake cfg (.inl rfl)
    · rename_i hnone
      -- the destructor has signalled a sender that sleeps
      apply advances_setThreaded (w := s.threaded) (by decide) (by decide)
      intro hm
      refine ⟨rfl, ?_⟩
      cases hs : s.sender with
      | asleep deadline => exact absurd (hsound.told (hsound.terminated hm) deadline hs) hnone
      | _ => simp [senderNext]
  | wake => exact advances_wake cfg (.inr rfl)
  | snmp failed =>
    cases failed with
    | none => exact advances_rfl s
    | some d => exact advances_operation cfg _ rfl
  | clock later => exact advances_operation cfg _ rfl
  | sigterm => exact advances_rfl s

theorem GaveUp.mainStep (h : s.GaveUp) : (s.mainStep cfg).GaveUp := by
  unfold AlarmsAgent.mainStep
  cases s.main with
  | waiting | joining =>
    dsimp only
    split <;> exact h
  | _ => exact h

theorem GaveUp.listenerStep (h : s.GaveUp) (a : Answers) : (s.listenerStep cfg a).GaveUp := by
  unfold AlarmsAgent.listenerStep
  split
  · unfold postSemaphore
    split <;> exact h
  · rename_i hgoing
    right
    simp only [AlarmReqListener.resume, h.resolve_right hgoing]

theorem GaveUp.step (h : s.GaveUp) (t : Turn cfg.defs) : (s.step cfg t).GaveUp := by
  unfold AlarmsAgent.step
  split
  · exact h
  · cases t with
    | main => exact h.mainStep
    | listener a => exact h.listenerStep a
    | signalled =>
      rw [GaveUp, AlarmsAgent.act]
      split <;> exact h
    | snmp failed => cases failed <;> exact h
    | sender rows | wake | clock later | sigterm => exact h

theorem advances_step (hsound : s.Sound) (hcounted : s.Counted) (hmain : s.main ≠ .exited)
    (hphase : s.GaveUp) (t : Turn cfg.defs) : s.Advances (s.step cfg t) t.party := by
  rw [step, if_neg hmain]
  exact advances_act hsound hcounted hmain hphase t

/-- Once a call of the listener has failed for good, `main` ends under every schedule in which
each thread goes on and the sender's wait ends when it has been signalled. By then the listener
thread has posted the semaphore, the sender has ended, and nothing was used too late. -/
theorem shutdown_complete (cfg : Setup H) (table : AlarmActiveTable) (now : Clock)
    {f : ℕ → Turn cfg.defs}
    (hfair : ∀ p : Party, p ≠ .other → ∀ n, ∃ m, n ≤ m ∧ (f m).party = p)
    (horderly : ∀ n, Runs.Along (step cfg) Orderly (start cfg table now) ((List.range n).map f))
    (hfail : ∃ n, (run cfg table now ((List.range n).map f)).listener.phase = .cleanSocket) :
    ∃ n, let s := run cfg table now ((List.range n).map f)
      s.main = .exited ∧ s.sender = .finished ∧ s.posted = true ∧ s.misused = false := by
  have hsigterm : ∀ n, f n ≠ .sigterm := by
    intro n
    have h := horderly (n + 1)
    rw [List.range_succ, List.map_append, Runs.along_append] at h
    exact Orderly.ne_sigterm h.2.1
  have hcounted : ∀ n, (run cfg table now ((List.range n).map f)).Counted := by
    intro n
    exact Runs.run_invariant_along (fun s t hs ht => hs.step ht.ne_sigterm)
      (counted_start cfg table now) (horderly n)
  obtain ⟨start, hstart⟩ := hfail
  have hexit : ∃ n, (Runs.run (step cfg) (run cfg table now ((List.range start).map f))
      ((List.range n).map fun n => f (start + n))).main = .exited := by
    refine Runs.exists_of_helpful (I := fun s => s.Sound ∧ s.Counted ∧ s.GaveUp)
      (Q := fun s => s.main = .exited) (P := fun t => t ≠ .sigterm) Turn.party next rest
      Nat.lt_wfRel.wf ?_ ?_ (fun n => hsigterm (start + n)) ?_
      ⟨sound_run cfg table now _, hcounted start, .inl hstart⟩
    · rintro s t ⟨hsound, hcount, hgave⟩ ht
      exact ⟨hsound.step t, hcount.step ht, hgave.step t⟩
    · rintro s t ⟨hsound, hcount, hgave⟩ - hmain
      exact advances_step hsound hcount hmain hgave t
    · intro s n
      obtain ⟨m, hm, hparty⟩ := hfair s.next next_ne_other (start + n)
      refine ⟨m - start, by omega, ?_⟩
      rw [Nat.add_sub_cancel' (by omega), hparty]
  obtain ⟨n, hn⟩ := hexit
  rw [run, ← Runs.run_range_add] at hn
  change (run cfg table now ((List.range (start + n)).map f)).main = _ at hn
  refine ⟨start + n, hn, ?_, ?_, misused_of_orderly (horderly (start + n))⟩
  · exact (sound_run cfg table now _).joined (.inl (by rw [hn]; rfl))
  · have h := hcounted (start + n)
    unfold Counted at h
    rw [hn] at h
    by_contra hposted
    rw [if_neg hposted] at h
    simp at h

theorem shutdown_complete_failing :
    let failing : Answers := { Answers.poll with msgInit := some .eterm }
    let f : ℕ → Turn Setup.sample.defs := fun n =>
      match n % 4 with
      | 0 => .main
      | 1 => .listener failing
      | 2 => .sender RowCreation.sample
      | _ => .signalled
    let start : AlarmActiveTable × Clock := ⟨.initialised, ⟨0, by decide⟩⟩
    (∀ p : Party, p ≠ .other → ∀ n, ∃ m, n ≤ m ∧ (f m).party = p) ∧
      ∃ n, (run Setup.sample start.1 start.2 ((List.range n).map f)).main = .exited := by
  intro failing f start
  have hfair : ∀ p : Party, p ≠ .other → ∀ n, ∃ m, n ≤ m ∧ (f m).party = p := by
    intro p hp n
    have hmod : ∀ k < 4, (4 * n + k) % 4 = k := by omega
    cases p with
    | main => exact ⟨4 * n + 0, by omega, by simp only [f, hmod 0 (by decide), Turn.party]⟩
    | listener => exact ⟨4 * n + 1, by omega, by simp only [f, hmod 1 (by decide), Turn.party]⟩
    | sender => exact ⟨4 * n + 2, by omega, by simp only [f, hmod 2 (by decide), Turn.party]⟩
    | signal => exact ⟨4 * n + 3, by omega, by simp only [f, hmod 3 (by decide), Turn.party]⟩
    | other => exact absurd rfl hp
  have horderly : ∀ n (s : AlarmsAgent (List AlarmIndex)), s.Orderly (f n) := by
    intro n s
    simp only [f]
    split <;> trivial
  have hall : ∀ n, Runs.Along (step Setup.sample) Orderly (AlarmsAgent.start Setup.sample start.1
      start.2) ((List.range n).map f) := by
    intro n
    apply Runs.along_of_forall
    intro t ht s
    obtain ⟨m, -, rfl⟩ := List.mem_map.mp ht
    exact horderly m s
  obtain ⟨n, hn, -⟩ := shutdown_complete Setup.sample start.1 start.2 hfair hall ⟨2, rfl⟩
  exact ⟨hfair, n, hn⟩

end ClearwaterSnmp.AlarmsAgent
