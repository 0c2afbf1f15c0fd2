import ClearwaterSnmp.Locking
import ClearwaterSnmp.NodeListeners

namespace ClearwaterSnmp.Plugin
open Locking Function

variable {ν ι : Type*} [DecidableEq ι]

/-- What a thread does that calls `clearwater_handler` so many times, up to the check that the
data is up to date. `thread_created` is read once without `thread_creation_lock`, and once more
under it. -/
def handlerCalls : ℕ → Prog (Plugin ν) Unit
  | 0 => .ret ()
  | n + 1 => .act id fun p =>
    if p.threadCreated then handlerCalls n
    else .acquire (.act id fun p =>
      if p.threadCreated then .release (handlerCalls n)
      else
        .act (fun p => { p with threadCreated := true }) fun _ =>
        .act (fun p => { p with listeners := p.listeners ++ [p.globalNodeData] }) fun _ =>
        .release (handlerCalls n))

/-- Where a thread is. `n` counts the calls it has still to make, after the current one. -/
inductive Stage
  | idle (n : ℕ)
  | waiting (n : ℕ)
  | checking (n : ℕ)
  | setting (n : ℕ)
  | creating (n : ℕ)
  | leaving (n : ℕ)

namespace Stage

/-- What is left of the program. -/
def program : Stage → Prog (Plugin ν) Unit
  | idle n => handlerCalls n
  | leaving n => .release (handlerCalls n)
  | creating n =>
    .act (fun p => { p with listeners := p.listeners ++ [p.globalNodeData] }) fun _ =>
    .release (handlerCalls n)
  | setting n =>
    .act (fun p => { p with threadCreated := true }) fun _ =>
    .act (fun p => { p with listeners := p.listeners ++ [p.globalNodeData] }) fun _ =>
    .release (handlerCalls n)
  | checking n => .act id fun p =>
    if p.threadCreated then .release (handlerCalls n)
    else
      .act (fun p => { p with threadCreated := true }) fun _ =>
      .act (fun p => { p with listeners := p.listeners ++ [p.globalNodeData] }) fun _ =>
      .release (handlerCalls n)
  | waiting n => .acquire (.act id fun p =>
    if p.threadCreated then .release (handlerCalls n)
    else
      .act (fun p => { p with threadCreated := true }) fun _ =>
      .act (fun p => { p with listeners := p.listeners ++ [p.globalNodeData] }) fun _ =>
      .release (handlerCalls n))

/-- Between taking the lock and giving it back. -/
def Inside : Stage → Prop
  | idle _ | waiting _ => False
  | _ => True

/-- The calls that have not returned. -/
def remaining : Stage → ℕ
  | idle n => n
  | waiting n | checking n | setting n | creating n | leaving n => n + 1

/-- What the thread that holds the lock relies on, and what it leaves for the next one. -/
def Fits (p : Plugin ν) : Stage → Prop
  | setting _ => p.threadCreated = false ∧ p.listeners = []
  | creating _ => p.threadCreated = true ∧ p.listeners = []
  | leaving _ => p.threadCreated = true ∧ p.listeners = [p.globalNodeData]
  | _ => p.listeners = if p.threadCreated then [p.globalNodeData] else []

end Stage

/-- How the threads, the lock and the globals fit together, for threads that were to make
`calls` calls. -/
structure Consistent (calls : ι → ℕ) (node : Option ν) (c : System ι (Plugin ν) Unit)
    (stage : ι → Stage) : Prop where
  program : ∀ i, c.threads i = (stage i).program
  inside : ∀ i, (stage i).Inside ↔ ∃ n, c.holder = some (i, n)
  once : ∀ i n, c.holder = some (i, n) → n = 0
  fits : ∀ i, (stage i).Inside → (stage i).Fits c.memory
  free : c.holder = none → (Stage.idle 0).Fits c.memory
  remaining : ∀ i, (stage i).remaining ≤ calls i
  returned : ∀ i, (stage i).remaining < calls i → c.memory.threadCreated = true
  node : c.memory.globalNodeData = node

variable {calls : ι → ℕ} {node : Option ν} {c : System ι (Plugin ν) Unit} {stage : ι → Stage}

/-- A turn that takes the thread `i` to the stage `s`. -/
theorem Consistent.update (h : Consistent calls node c stage) {i : ι} {s : Stage}
    {c' : System ι (Plugin ν) Unit} (hthreads : c'.threads = update c.threads i s.program)
    (hinside : s.Inside ↔ ∃ n, c'.holder = some (i, n))
    (hholder : ∀ j, j ≠ i → ∀ n, c'.holder = some (j, n) ↔ c.holder = some (j, n))
    (honce : ∀ n, c'.holder = some (i, n) → n = 0)
    (hfits : s.Inside → s.Fits c'.memory)
    (hmem : c'.memory = c.memory ∨ (stage i).Inside)
    (hfree : c'.holder = none → (Stage.idle 0).Fits c'.memory)
    (hflag : c.memory.threadCreated = true → c'.memory.threadCreated = true)
    (hremaining : s.remaining ≤ (stage i).remaining)
    (hreturned : s.remaining < (stage i).remaining → c'.memory.threadCreated = true)
    (hnode : c'.memory.globalNodeData = c.memory.globalNodeData) :
    Consistent calls node c' (Function.update stage i s) := by
  refine ⟨fun j => ?_, fun j => ?_, fun j n hj => ?_, fun j hj => ?_, hfree, fun j => ?_,
    fun j hj => ?_, hnode.trans h.node⟩
  · rw [hthreads]
    by_cases hji : j = i
    · subst hji
      rw [update_self, update_self]
    · rw [update_of_ne hji, update_of_ne hji]
      exact h.program j
  · by_cases hji : j = i
    · subst hji
      rw [update_self]
      exact hinside
    · rw [update_of_ne hji, h.inside j]
      exact exists_congr fun n => (hholder j hji n).symm
  · by_cases hji : j = i
    · subst hji
      exact honce n hj
    · exact h.once j n ((hholder j hji n).mp hj)
  · by_cases hji : j = i
    · subst hji
      rw [update_self] at hj ⊢
      exact hfits hj
    · rw [update_of_ne hji] at hj ⊢
      rcases hmem with hmem | hi
      · rw [hmem]
        exact h.fits j hj
      · -- two threads would hold the lock
        obtain ⟨n, hn⟩ := (h.inside j).mp hj
        obtain ⟨m, hm⟩ := (h.inside i).mp hi
        rw [hn] at hm
        exact absurd (congrArg Prod.fst (Option.some.inj hm)) hji
  · by_cases hji : j = i
    · subst hji
      rw [update_self]
      exact hremaining.trans (h.remaining j)
    · rw [update_of_ne hji]
      exact h.remaining j
  · by_cases hji : j = i
    · subst hji
      rw [update_self] at hj
      rcases Nat.lt_or_ge s.remaining (stage j).remaining with hlt | hge
      · exact hreturned hlt
      · exact hflag (h.returned j (by omega))
    · rw [update_of_ne hji] at hj
      exact hflag (h.returned j hj)

/-- A turn that takes the thread `i` from one stage to another without touching the lock or the
globals. -/
theorem Consistent.advance (h : Consistent calls node c stage) {i : ι} {s : Stage}
    (hinside : s.Inside ↔ (stage i).Inside) (hfits : s.Inside → s.Fits c.memory)
    (hremaining : s.remaining ≤ (stage i).remaining)
    (hreturned : s.remaining < (stage i).remaining → c.memory.threadCreated = true) :
    Consistent calls node ⟨c.memory, c.holder, Function.update c.threads i s.program⟩
      (Function.update stage i s) :=
  h.update rfl (hinside.trans (h.inside i)) (fun _ _ _ => Iff.rfl) (h.once i) hfits (.inl rfl)
    h.free id hremaining hreturned rfl

omit [DecidableEq ι] in
theorem Consistent.holder_of_inside (h : Consistent calls node c stage) {i : ι}
    (hi : (stage i).Inside) : c.holder = some (i, 0) := by
  obtain ⟨n, hn⟩ := (h.inside i).mp hi
  rw [hn, h.once i n hn]

/-- A write of the thread that holds the lock. -/
theorem Consistent.write (h : Consistent calls node c stage) {i : ι} (hi : (stage i).Inside)
    {s : Stage} (hs : s.Inside) {p : Plugin ν} (hfits : s.Fits p)
    (hflag : c.memory.threadCreated = true → p.threadCreated = true)
    (hremaining : s.remaining = (stage i).remaining)
    (hnode : p.globalNodeData = c.memory.globalNodeData) :
    Consistent calls node ⟨p, c.holder, Function.update c.threads i s.program⟩
      (Function.update stage i s) := by
  have hholder := h.holder_of_inside hi
  refine h.update rfl ⟨fun _ => ⟨0, hholder⟩, fun _ => hs⟩ (fun _ _ _ => Iff.rfl) (h.once i)
    (fun _ => hfits) (.inr hi) (fun hfree => ?_) hflag hremaining.le (fun hlt => ?_) hnode
  · exact absurd (hholder.symm.trans hfree) (Option.some_ne_none _)
  · omega

theorem Consistent.turn (h : Consistent calls node c stage) (i : ι) :
    ∃ stage', Consistent calls node (c.turn i) stage' := by
  have hp := h.program i
  cases hs : stage i with
  | idle n =>
    rw [hs] at hp
    cases n with
    | zero =>
      refine ⟨stage, ?_⟩
      change c.threads i = .ret () at hp
      rw [System.turn, hp]
      exact h
    | succ n =>
      rw [← (System.Move.act hp).eq_turn]
      cases hflag : c.memory.threadCreated with
      | true => exact ⟨_, h.advance (s := .idle n) (by rw [hs]; rfl) False.elim
          (by rw [hs]; exact Nat.le_succ n) fun _ => hflag⟩
      | false => exact ⟨_, h.advance (s := .waiting n) (by rw [hs]; rfl) False.elim
          (by rw [hs]; exact le_rfl) fun hlt => by rw [hs] at hlt; exact absurd hlt (lt_irrefl _)⟩
  | waiting n =>
    rw [hs] at hp
    cases hh : c.holder with
    | none =>
      have hzero := System.depth_of_free hh i
      rw [← (System.Move.acquire hp (by rw [hzero, hh]; rfl)).eq_turn, hzero]
      refine ⟨_, h.update (s := .checking n) rfl ⟨fun _ => ⟨0, rfl⟩, fun _ => trivial⟩
        (fun j hj m => ?_) (fun m hm => ?_) (fun _ => h.free hh) (.inl rfl)
        (fun hfree => absurd hfree (Option.some_ne_none _)) id (by rw [hs]; exact le_rfl)
        (fun hlt => by rw [hs] at hlt; exact absurd hlt (lt_irrefl _)) rfl⟩
      · rw [hh]
        simp [System.held, Ne.symm hj]
      · exact (congrArg Prod.snd (Option.some.inj hm)).symm
    | some holder =>
      obtain ⟨j, m⟩ := holder
      have hj : j ≠ i := by
        rintro rfl
        have hin := (h.inside j).mpr ⟨m, hh⟩
        rw [hs] at hin
        exact hin
      refine ⟨stage, ?_⟩
      change c.threads i = .acquire _ at hp
      simp only [System.turn, hp, hh, if_neg hj]
      exact h
  | checking n =>
    rw [hs] at hp
    have hi : (stage i).Inside := by rw [hs]; trivial
    have hfit := h.fits i hi
    rw [hs] at hfit
    rw [← (System.Move.act hp).eq_turn]
    cases hflag : c.memory.threadCreated with
    | true =>
      refine ⟨_, h.advance (s := .leaving n) (by rw [hs]; rfl) (fun _ => ⟨hflag, ?_⟩)
        (by rw [hs]; exact le_rfl) fun _ => hflag⟩
      simpa [Stage.Fits, hflag] using hfit
    | false =>
      refine ⟨_, h.advance (s := .setting n) (by rw [hs]; rfl) (fun _ => ⟨hflag, ?_⟩)
        (by rw [hs]; exact le_rfl) fun hlt => by rw [hs] at hlt; exact absurd hlt (lt_irrefl _)⟩
      simpa [Stage.Fits, hflag] using hfit
  | setting n =>
    rw [hs] at hp
    have hi : (stage i).Inside := by rw [hs]; trivial
    have hfit := h.fits i hi
    rw [hs] at hfit
    rw [← (System.Move.act hp).eq_turn]
    exact ⟨_, h.write hi (s := .creating n) trivial ⟨rfl, hfit.2⟩ (fun _ => rfl)
      (by rw [hs]; rfl) rfl⟩
  | creating n =>
    rw [hs] at hp
    have hi : (stage i).Inside := by rw [hs]; trivial
    have hfit := h.fits i hi
    rw [hs] at hfit
    rw [← (System.Move.act hp).eq_turn]
    refine ⟨_, h.write hi (s := .leaving n) trivial ⟨hfit.1, ?_⟩ (fun _ => hfit.1)
      (by rw [hs]; rfl) rfl⟩
    change c.memory.listeners ++ [c.memory.globalNodeData] = _
    rw [hfit.2]
    rfl
  | leaving n =>
    rw [hs] at hp
    have hi : (stage i).Inside := by rw [hs]; trivial
    have hfit := h.fits i hi
    rw [hs] at hfit
    have hholder := h.holder_of_inside hi
    have hone : c.depth i = 0 + 1 := by simp [System.depth, hholder]
    rw [← (System.Move.release hp hone).eq_turn]
    refine ⟨_, h.update (s := .idle n) rfl ⟨False.elim, fun hin => ?_⟩ (fun j hj m => ?_)
      (fun m hm => ?_) False.elim (.inl rfl) (fun _ => ?_) id (by rw [hs]; exact Nat.le_succ n)
      (fun _ => hfit.1) rfl⟩
    · obtain ⟨m, hm⟩ := hin
      exact absurd hm (Option.some_ne_none _).symm
    · rw [hholder]
      simp [System.held, Ne.symm hj]
    · exact absurd hm (Option.some_ne_none _).symm
    · simp only [Stage.Fits, hfit.1, if_true]
      exact hfit.2

/-- The threads before their first call. -/
def callers (p : Plugin ν) (calls : ι → ℕ) : System ι (Plugin ν) Unit :=
  ⟨p, none, fun i => handlerCalls (calls i)⟩

theorem consistent_run {p : Plugin ν} (hflag : p.threadCreated = false)
    (hlisteners : p.listeners = []) (calls : ι → ℕ) (schedule : List ι) :
    ∃ stage, Consistent calls p.globalNodeData
      (Runs.run System.turn (callers p calls) schedule) stage := by
  refine Runs.run_invariant (I := fun c => ∃ stage, Consistent calls p.globalNodeData c stage)
    (fun c i ⟨stage, h⟩ => h.turn i) ⟨fun i => .idle (calls i), ?_⟩ schedule
  have hidle : (Stage.idle 0).Fits p := by
    simp only [Stage.Fits, hflag, hlisteners]
    rfl
  refine ⟨fun _ => rfl, fun i => ⟨False.elim, fun ⟨n, hn⟩ => ?_⟩, fun i n hn => ?_,
    fun _ => False.elim, fun _ => hidle, fun _ => le_rfl, fun i hi => ?_, rfl⟩
  · exact absurd hn (Option.some_ne_none _).symm
  · exact absurd hn (Option.some_ne_none _).symm
  · exact absurd hi (lt_irrefl _)

omit [DecidableEq ι] in
theorem Consistent.listeners (h : Consistent calls node c stage) :
    c.memory.listeners = [] ∨ c.memory.listeners = [node] := by
  have hidle : (Stage.idle 0).Fits c.memory →
      c.memory.listeners = [] ∨ c.memory.listeners = [node] := by
    intro hfit
    simp only [Stage.Fits, h.node] at hfit
    cases hflag : c.memory.threadCreated with
    | true => exact .inr (by simpa [hflag] using hfit)
    | false => exact .inl (by simpa [hflag] using hfit)
  cases hh : c.holder with
  | none => exact hidle (h.free hh)
  | some holder =>
    have hi := (h.inside holder.1).mpr ⟨holder.2, hh⟩
    have hfit := h.fits holder.1 hi
    cases hs : stage holder.1 with
    | idle n =>
      rw [hs] at hi
      exact hi.elim
    | waiting n =>
      rw [hs] at hi
      exact hi.elim
    | checking n =>
      rw [hs] at hfit
      exact hidle hfit
    | setting n =>
      rw [hs] at hfit
      exact .inl hfit.2
    | creating n =>
      rw [hs] at hfit
      exact .inl hfit.2
    | leaving n =>
      rw [hs] at hfit
      exact .inr (hfit.2.trans (by rw [h.node]))

omit [DecidableEq ι] in
theorem Consistent.stage_of_finished (h : Consistent calls node c stage) {i : ι}
    (hfin : c.Finished i) : stage i = .idle 0 := by
  obtain ⟨a, ha⟩ := hfin
  have hp := (h.program i).symm.trans ha
  cases hs : stage i with
  | idle n =>
    cases n with
    | zero => rfl
    | succ n => simp [hs, Stage.program, handlerCalls] at hp
  | waiting n => simp [hs, Stage.program] at hp
  | checking n => simp [hs, Stage.program] at hp
  | setting n => simp [hs, Stage.program] at hp
  | creating n => simp [hs, Stage.program] at hp
  | leaving n => simp [hs, Stage.program] at hp

end ClearwaterSnmp.Plugin
