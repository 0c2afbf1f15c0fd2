import ClearwaterSnmp.Runs
import Mathlib.Data.DFinsupp.WellFounded

namespace ClearwaterSnmp.Locking

/-- What one thread does, over memory that it shares with other threads under one recursive
lock. An access changes the memory and goes on with what it found there. -/
inductive Prog (σ α : Type*)
  | ret (result : α)
  | acquire (next : Prog σ α)
  | release (next : Prog σ α)
  | act (update : σ → σ) (next : σ → Prog σ α)

namespace Prog

variable {σ α β : Type*}

def bind : Prog σ α → (α → Prog σ β) → Prog σ β
  | ret a, k => k a
  | acquire p, k => acquire (p.bind k)
  | release p, k => release (p.bind k)
  | act f p, k => act f fun s => (p s).bind k

/-- What the program does to the memory, and returns, if nobody else runs. -/
def exec : Prog σ α → σ → σ × α
  | ret a, s => (s, a)
  | acquire p, s => p.exec s
  | release p, s => p.exec s
  | act f p, s => (p s).exec (f s)

/-- From `d` locks of its own on, the program gives back what it took and no more. -/
def Nested : Prog σ α → ℕ → Prop
  | ret _, d => d = 0
  | acquire p, d => p.Nested (d + 1)
  | release _, 0 => False
  | release p, d + 1 => p.Nested d
  | act _ p, d => ∀ s, (p s).Nested d

/-- With `d` locks held, the program accesses the memory only under the lock, and it ends
without it. -/
def Guarded : Prog σ α → ℕ → Prop
  | ret _, d => d = 0
  | acquire p, d => p.Guarded (d + 1)
  | release _, 0 => False
  | release p, d + 1 => p.Guarded d
  | act _ p, d => 0 < d ∧ ∀ s, (p s).Guarded d

/-- Runs the program until it holds none of its `d` locks any more. -/
def toRelease : Prog σ α → ℕ → σ → σ × Prog σ α
  | p, 0, s => (s, p)
  | ret a, _ + 1, s => (s, ret a)
  | acquire p, d + 1, s => p.toRelease (d + 2) s
  | release p, d + 1, s => p.toRelease d s
  | act f p, d + 1, s => (p s).toRelease (d + 1) (f s)

/-- A program that takes the lock first runs until it has given it back; any other stays. -/
def leap : Prog σ α → σ → σ × Prog σ α
  | acquire p, s => p.toRelease 1 s
  | p, s => (s, p)

/-- The body under the lock. -/
def locked (body : Prog σ α) : Prog σ α := acquire (body.bind fun a => release (ret a))

@[simp] theorem toRelease_zero (p : Prog σ α) (s : σ) : p.toRelease 0 s = (s, p) := by
  cases p <;> rfl

@[simp] theorem leap_ret (a : α) (s : σ) : (ret a).leap s = (s, ret a) := rfl

@[simp] theorem exec_bind (p : Prog σ α) (k : α → Prog σ β) (s : σ) :
    (p.bind k).exec s = (k (p.exec s).2).exec (p.exec s).1 := by
  induction p generalizing s with
  | ret a => rfl
  | acquire p ih => exact ih s
  | release p ih => exact ih s
  | act f p ih => exact ih s (f s)

@[simp] theorem exec_locked (body : Prog σ α) (s : σ) : (locked body).exec s = body.exec s := by
  change (body.bind fun a => release (ret a)).exec s = body.exec s
  rw [exec_bind]
  rfl

theorem bind_assoc {γ : Type*} (p : Prog σ α) (k : α → Prog σ β) (k' : β → Prog σ γ) :
    (p.bind k).bind k' = p.bind fun a => (k a).bind k' := by
  induction p with
  | ret a => rfl
  | acquire p ih => exact congrArg acquire ih
  | release p ih => exact congrArg release ih
  | act f p ih => exact congrArg (act f) (funext ih)

theorem locked_bind (body : Prog σ α) (k : α → Prog σ β) :
    (locked body).bind k = acquire (body.bind fun a => release (k a)) :=
  congrArg acquire (bind_assoc body _ k)

theorem Nested.bind {p : Prog σ α} {k : α → Prog σ β} {d e : ℕ} (hp : p.Nested d)
    (hk : ∀ a, (k a).Nested e) : (p.bind k).Nested (d + e) := by
  induction p generalizing d with
  | ret a =>
    obtain rfl : d = 0 := hp
    rw [Nat.zero_add]
    exact hk a
  | acquire p ih =>
    have h : (p.bind k).Nested (d + 1 + e) := ih hp
    rw [Nat.add_right_comm] at h
    exact h
  | release p ih =>
    cases d with
    | zero => exact hp.elim
    | succ d =>
      rw [Nat.add_right_comm]
      exact ih hp
  | act f p ih => exact fun s => ih s (hp s)

theorem Nested.locked {body : Prog σ α} (h : body.Nested 0) : body.locked.Nested 0 := by
  have hr : ∀ a : α, (release (ret a) : Prog σ α).Nested 1 := fun a => rfl
  exact h.bind hr

instance : Monad (Prog σ) where
  pure := ret
  bind := bind

/-- Looks at the memory. -/
def read : Prog σ σ := act id ret

/-- Changes the memory. -/
def write (f : σ → σ) : Prog σ Unit := act f fun _ => ret ()

section Monadic

universe u v

variable {σ : Type u} {α β : Type v}

@[simp] theorem exec_pure (a : α) (s : σ) : (pure a : Prog σ α).exec s = (s, a) := rfl

@[simp] theorem exec_monad_bind (p : Prog σ α) (k : α → Prog σ β) (s : σ) :
    (p >>= k).exec s = (k (p.exec s).2).exec (p.exec s).1 := exec_bind p k s

@[simp] theorem exec_read (s : σ) : (read : Prog σ σ).exec s = (s, s) := rfl

@[simp] theorem exec_write (f : σ → σ) (s : σ) : (write f).exec s = (f s, ()) := rfl

theorem nested_pure (a : α) : (pure a : Prog σ α).Nested 0 := rfl

theorem nested_read : (read : Prog σ σ).Nested 0 := fun _ => rfl

theorem nested_write (f : σ → σ) : (write f).Nested 0 := fun _ => rfl

theorem Nested.seq {p : Prog σ α} {k : α → Prog σ β} (hp : p.Nested 0)
    (hk : ∀ a, (k a).Nested 0) : (p >>= k).Nested 0 := Nested.bind hp hk

end Monadic

/-- Under a lock that is held already, `p` runs to its end before the lock is given back. -/
theorem toRelease_bind {p : Prog σ α} {d m : ℕ} (hp : p.Nested d) (hm : 0 < m)
    (k : α → Prog σ β) (s : σ) :
    (p.bind k).toRelease (m + d) s = (k (p.exec s).2).toRelease m (p.exec s).1 := by
  induction p generalizing d s with
  | ret a =>
    obtain rfl : d = 0 := hp
    rfl
  | acquire p ih =>
    obtain ⟨m, rfl⟩ := Nat.exists_eq_add_of_lt hm
    have h := ih (d := d + 1) hp s
    rw [show 0 + m + 1 + d = (m + d) + 1 by omega]
    rw [show 0 + m + 1 + (d + 1) = (m + d) + 2 by omega] at h
    exact h
  | release p ih =>
    cases d with
    | zero => exact hp.elim
    | succ d => exact ih (d := d) hp s
  | act f p ih =>
    have h := ih s (hp s) (f s)
    obtain ⟨m, rfl⟩ := Nat.exists_eq_add_of_lt hm
    rw [show 0 + m + 1 + d = (m + d) + 1 by omega] at h ⊢
    exact h

theorem Guarded.bind {p : Prog σ α} {k : α → Prog σ β} {d m : ℕ} (hp : p.Nested d) (hm : 0 < m)
    (hk : ∀ a, (k a).Guarded m) : (p.bind k).Guarded (m + d) := by
  induction p generalizing d with
  | ret a =>
    obtain rfl : d = 0 := hp
    exact hk a
  | acquire p ih => exact ih (d := d + 1) hp
  | release p ih =>
    cases d with
    | zero => exact hp.elim
    | succ d => exact ih (d := d) hp
  | act f p ih => exact ⟨Nat.add_pos_left hm d, fun s => ih s (hp s)⟩

theorem guarded_locked_bind {body : Prog σ α} (h : body.Nested 0) {k : α → Prog σ β}
    (hk : ∀ a, (k a).Guarded 0) : (body.locked.bind k).Guarded 0 := by
  rw [locked_bind]
  exact Guarded.bind (d := 0) (m := 1) h Nat.one_pos hk

end Prog

/-- Threads, the memory they share, and the thread that holds the lock, with how often it
has taken it again. -/
structure System (ι σ α : Type*) where
  memory : σ
  holder : Option (ι × ℕ)
  threads : ι → Prog σ α

namespace System

open Function

variable {ι σ α : Type*} [DecidableEq ι]

/-- One step of the thread `i`. A thread that waits for the lock, or has ended, stays where it
is; so does one that gives back a lock it does not hold, which `Guarded` excludes. -/
def turn (c : System ι σ α) (i : ι) : System ι σ α :=
  match c.threads i with
  | .ret _ => c
  | .acquire p =>
    match c.holder with
    | none => ⟨c.memory, some (i, 0), update c.threads i p⟩
    | some (j, n) => if j = i then ⟨c.memory, some (i, n + 1), update c.threads i p⟩ else c
  | .release p =>
    match c.holder with
    | none => c
    | some (j, 0) => if j = i then ⟨c.memory, none, update c.threads i p⟩ else c
    | some (j, n + 1) => if j = i then ⟨c.memory, some (i, n), update c.threads i p⟩ else c
  | .act f p => ⟨f c.memory, c.holder, update c.threads i (p c.memory)⟩

/-- How many times the thread `i` has to give the lock back. -/
def depth (c : System ι σ α) (i : ι) : ℕ :=
  match c.holder with
  | none => 0
  | some (j, n) => if j = i then n + 1 else 0

/-- Every thread keeps to the lock, from where it is. -/
def Guarded (c : System ι σ α) : Prop := ∀ i, (c.threads i).Guarded (c.depth i)

/-- The lock, taken `d` times by the thread `i`. -/
def held (i : ι) : ℕ → Option (ι × ℕ)
  | 0 => none
  | n + 1 => some (i, n)

/-- What a turn of the thread `i` does when it does something. -/
inductive Move (c : System ι σ α) (i : ι) : System ι σ α → Prop
  | acquire {p} (hp : c.threads i = .acquire p) (hfree : c.holder = held i (c.depth i)) :
      Move c i ⟨c.memory, held i (c.depth i + 1), update c.threads i p⟩
  | release {p d} (hp : c.threads i = .release p) (hd : c.depth i = d + 1) :
      Move c i ⟨c.memory, held i d, update c.threads i p⟩
  | act {f p} (hp : c.threads i = .act f p) :
      Move c i ⟨f c.memory, c.holder, update c.threads i (p c.memory)⟩

/-- The thread `i` can do something. -/
def Ready (c : System ι σ α) (i : ι) : Prop := ∃ c', Move c i c'

/-- The thread has returned. -/
def Finished (c : System ι σ α) (i : ι) : Prop := ∃ a, c.threads i = .ret a

variable {c c' : System ι σ α} {i j : ι}

theorem depth_held (m : σ) (t : ι → Prog σ α) (i : ι) (d : ℕ) (j : ι) :
    depth ⟨m, held i d, t⟩ j = if i = j then d else 0 := by
  cases d with
  | zero => exact (ite_self _).symm
  | succ d => rfl

theorem holder_of_depth_pos (h : 0 < c.depth i) : c.holder = held i (c.depth i) := by
  obtain ⟨m, _ | ⟨j, n⟩, t⟩ := c
  · exact absurd h (lt_irrefl 0)
  · by_cases hj : j = i
    · subst hj
      simp only [depth, if_pos]
      rfl
    · simp [depth, hj] at h

theorem depth_of_free (h : c.holder = none) (i : ι) : c.depth i = 0 := by
  rw [depth, h]

theorem Move.eq_turn (h : Move c i c') : c' = c.turn i := by
  obtain ⟨m, holder, t⟩ := c
  cases h with
  | @acquire p hp hfree =>
    change t i = .acquire p at hp
    obtain _ | ⟨j, n⟩ := holder
    · simp only [turn, hp]
      rfl
    · by_cases hj : j = i
      · subst hj
        simp only [turn, hp, if_pos, depth]
        rfl
      · simp [depth, held, hj] at hfree
  | @release p d hp hd =>
    change t i = .release p at hp
    have hh := holder_of_depth_pos (c := ⟨m, holder, t⟩) (i := i) (by omega)
    rw [hd] at hh
    obtain rfl : holder = some (i, d) := hh
    cases d <;> simp only [turn, hp, if_pos] <;> rfl
  | @act f p hp =>
    change t i = .act f p at hp
    simp only [turn, hp]

/-- A thread that cannot move waits for a lock that another thread holds, or has returned. -/
theorem stuck (hc : c.Guarded) (h : ¬c.Ready i) :
    c.turn i = c ∧ (c.Finished i ∨ ∃ j n, c.holder = some (j, n) ∧ j ≠ i) := by
  have hi := hc i
  cases hp : c.threads i with
  | ret a => exact ⟨by simp only [turn, hp], .inl ⟨a, hp⟩⟩
  | acquire p =>
    cases hh : c.holder with
    | none =>
      refine absurd ⟨_, Move.acquire hp ?_⟩ h
      rw [hh, depth_of_free hh]
      rfl
    | some holder =>
      obtain ⟨j, n⟩ := holder
      by_cases hj : j = i
      · subst hj
        refine absurd ⟨_, Move.acquire hp ?_⟩ h
        apply holder_of_depth_pos
        simp [depth, hh]
      · exact ⟨by simp only [turn, hp, hh, if_neg hj], .inr ⟨j, n, rfl, hj⟩⟩
  | release p =>
    rw [hp] at hi
    cases hd : c.depth i with
    | zero =>
      rw [hd] at hi
      exact hi.elim
    | succ d => exact absurd ⟨_, Move.release hp hd⟩ h
  | act f p => exact absurd ⟨_, Move.act hp⟩ h

theorem turn_of_not_ready (hc : c.Guarded) (h : ¬c.Ready i) : c.turn i = c := (stuck hc h).1

theorem turn_of_ready (h : c.Ready i) : Move c i (c.turn i) := by
  obtain ⟨c', hm⟩ := h
  have he := hm.eq_turn
  subst he
  exact hm

/-- A move of one thread takes no lock from another. -/
theorem Move.depth_of_ne (h : Move c i c') (hj : i ≠ j) : c'.depth j = c.depth j := by
  cases h with
  | acquire hp hfree =>
    rw [depth_held, if_neg hj]
    have hc := depth_held c.memory c.threads i (c.depth i) j
    rw [← hfree, if_neg hj] at hc
    exact hc.symm
  | release hp hd =>
    rw [depth_held, if_neg hj]
    have hc := depth_held c.memory c.threads i (c.depth i) j
    rw [← holder_of_depth_pos (by omega), if_neg hj] at hc
    exact hc.symm
  | act hp => rfl

theorem Move.threads_of_ne (h : Move c i c') (hj : i ≠ j) : c'.threads j = c.threads j := by
  cases h <;> exact update_of_ne hj.symm _ _

theorem Move.guarded (h : Move c i c') (hc : c.Guarded) : c'.Guarded := by
  intro j
  by_cases hj : i = j
  · subst hj
    have hi := hc i
    cases h with
    | acquire hp hfree =>
      rw [hp] at hi
      rw [depth_held, if_pos rfl]
      change (update c.threads i _ i).Guarded _
      rw [update_self]
      exact hi
    | release hp hd =>
      rw [hp, hd] at hi
      rw [depth_held, if_pos rfl]
      change (update c.threads i _ i).Guarded _
      rw [update_self]
      exact hi
    | act hp =>
      rw [hp] at hi
      change (update c.threads i _ i).Guarded (c.depth i)
      rw [update_self]
      exact hi.2 c.memory
  · rw [h.depth_of_ne hj, h.threads_of_ne hj]
    exact hc j

theorem guarded_turn (hc : c.Guarded) (i : ι) : (c.turn i).Guarded := by
  by_cases h : c.Ready i
  · exact (turn_of_ready h).guarded hc
  · rw [turn_of_not_ready hc h]
    exact hc

/-! Sections under the lock as single steps, taken when the lock is. -/

/-- The thread that holds the lock is run until it gives it back. -/
def settle (c : System ι σ α) : System ι σ α :=
  match c.holder with
  | none => c
  | some (i, n) =>
    let r := (c.threads i).toRelease (n + 1) c.memory
    ⟨r.1, none, update c.threads i r.2⟩

/-- The thread `i` takes the lock and runs until it gives it back, as one step. -/
def criticalSection (c : System ι σ α) (i : ι) : System ι σ α :=
  let r := (c.threads i).leap c.memory
  ⟨r.1, none, update c.threads i r.2⟩

/-- The thread that a turn brings into its section, if the lock is free. -/
def entry (c : System ι σ α) (i : ι) : List ι := if c.holder = none then [i] else []

theorem settle_of_free (h : c.holder = none) : c.settle = c := by
  rw [settle, h]

theorem settle_held (m : σ) (t : ι → Prog σ α) (i : ι) (p : Prog σ α) (d : ℕ) :
    settle ⟨m, held i d, update t i p⟩ =
      ⟨(p.toRelease d m).1, none, update t i (p.toRelease d m).2⟩ := by
  cases d with
  | zero =>
    rw [Prog.toRelease_zero]
    rfl
  | succ d =>
    change (⟨((update t i p i).toRelease (d + 1) m).1, none,
      update (update t i p) i ((update t i p i).toRelease (d + 1) m).2⟩ : System ι σ α) = _
    rw [update_self, update_idem]

/-- A turn that finds the lock taken is already part of what `settle` runs. -/
theorem Move.settle_eq (h : Move c i c') (hd : 0 < c.depth i) : c'.settle = c.settle := by
  obtain ⟨d, hd'⟩ : ∃ d, c.depth i = d + 1 := Nat.exists_eq_succ_of_ne_zero hd.ne'
  have hc : c = ⟨c.memory, held i (d + 1), update c.threads i (c.threads i)⟩ := by
    rw [update_eq_self, ← hd', ← holder_of_depth_pos hd]
  have hs : c.settle = _ := (congrArg settle hc).trans (settle_held _ _ _ _ _)
  rw [hs]
  cases h with
  | acquire hp hfree => rw [settle_held, hp, hd']; rfl
  | release hp hd'' =>
    obtain rfl := Nat.succ.inj (hd'.symm.trans hd'')
    rw [settle_held, hp]
    rfl
  | act hp =>
    rw [holder_of_depth_pos hd, hd', settle_held, hp]
    rfl

/-- A turn that finds the lock free is the whole section that it begins. -/
theorem Move.settle_eq_criticalSection (h : Move c i c') (hc : c.Guarded)
    (hfree : c.holder = none) : c'.settle = c.criticalSection i := by
  have hi := hc i
  rw [depth_of_free hfree] at hi
  cases h with
  | acquire hp _ =>
    rw [depth_of_free hfree, settle_held, criticalSection, hp]
    rfl
  | release hp hd => simp [depth_of_free hfree] at hd
  | act hp =>
    rw [hp] at hi
    exact absurd hi.1 (lt_irrefl 0)

theorem settle_turn (hc : c.Guarded) (i : ι) :
    (c.turn i).settle = Runs.run criticalSection c.settle (c.entry i) := by
  by_cases hfree : c.holder = none
  · rw [entry, if_pos hfree, settle_of_free hfree, Runs.run_cons, Runs.run_nil]
    by_cases h : c.Ready i
    · exact (turn_of_ready h).settle_eq_criticalSection hc hfree
    · obtain ⟨hturn, ⟨a, ha⟩ | ⟨j, n, hj, -⟩⟩ := stuck hc h
      · obtain ⟨m, holder, t⟩ := c
        obtain rfl : holder = none := hfree
        change t i = .ret a at ha
        rw [hturn]
        change (⟨m, none, t⟩ : System ι σ α) =
          ⟨((t i).leap m).1, none, update t i ((t i).leap m).2⟩
        rw [ha, Prog.leap_ret, ← ha, update_eq_self]
      · simp [hfree] at hj
  · rw [entry, if_neg hfree, Runs.run_nil]
    by_cases h : c.Ready i
    · apply (turn_of_ready h).settle_eq
      by_contra hd
      have hi := hc i
      have hzero : c.depth i = 0 := Nat.eq_zero_of_not_pos hd
      rw [hzero] at hi
      obtain ⟨c', hm⟩ := h
      cases hm with
      | acquire hp hh =>
        rw [hzero] at hh
        exact hfree hh
      | release hp hd' => omega
      | act hp =>
        rw [hp] at hi
        exact absurd hi.1 (lt_irrefl 0)
    · rw [turn_of_not_ready hc h]

/-- The threads that take the free lock along a schedule, in that order. -/
def grants (c : System ι σ α) (schedule : List ι) : List ι := Runs.emitted turn entry c schedule

theorem grants_append (c : System ι σ α) (schedule later : List ι) :
    c.grants (schedule ++ later) = c.grants schedule ++ (Runs.run turn c schedule).grants later :=
  Runs.emitted_append turn entry c schedule later

/-- Whatever the threads do in between, the state is the one after whole sections, in the order
in which the lock was taken. -/
theorem settle_run (hc : c.Guarded) (schedule : List ι) :
    (Runs.run turn c schedule).settle = Runs.run criticalSection c.settle (c.grants schedule) :=
  Runs.run_simulation_emitted (I := Guarded) settle entry (fun _ i h => guarded_turn h i)
    (fun _ i h => settle_turn h i) hc schedule

/-- What `settle` does not touch: the threads without the lock. -/
theorem settle_threads (h : c.depth i = 0) : c.settle.threads i = c.threads i := by
  obtain ⟨m, _ | ⟨j, n⟩, t⟩ := c
  · rfl
  · have hj : j ≠ i := by
      rintro rfl
      simp [depth] at h
    exact update_of_ne hj.symm _ _

/-! Progress. -/

/-- If no thread can move then all have returned, and the lock is free. -/
theorem no_deadlock (hc : c.Guarded) (h : ∀ i, ¬c.Ready i) :
    c.holder = none ∧ ∀ i, c.Finished i := by
  have hfree : c.holder = none := by
    cases hh : c.holder with
    | none => rfl
    | some holder =>
      obtain ⟨j, n⟩ := holder
      -- the holder itself is not blocked, and it may not return with the lock
      obtain ⟨-, ⟨a, ha⟩ | ⟨k, n', hk, hkj⟩⟩ := stuck hc (h j)
      · have hj := hc j
        rw [ha] at hj
        simp [Prog.Guarded, depth, hh] at hj
      · rw [hh] at hk
        exact absurd (congrArg Prod.fst (Option.some.inj hk)).symm hkj
  refine ⟨hfree, fun i => ?_⟩
  obtain ⟨-, hfin | ⟨j, n, hj, -⟩⟩ := stuck hc (h i)
  · exact hfin
  · simp [hfree] at hj

end System

/-- `q` is what is left of `p` after one step. -/
inductive Prog.Left {σ α : Type*} : Prog σ α → Prog σ α → Prop
  | acquire (p) : Left p (.acquire p)
  | release (p) : Left p (.release p)
  | act (f p) (s : σ) : Left (p s) (.act f p)

theorem Prog.left_wellFounded {σ α : Type*} : WellFounded (@Prog.Left σ α) := by
  refine ⟨fun p => ?_⟩
  induction p with
  | ret a => exact ⟨_, fun q hq => by cases hq⟩
  | acquire p ih => exact ⟨_, fun q hq => by cases hq; exact ih⟩
  | release p ih => exact ⟨_, fun q hq => by cases hq; exact ih⟩
  | act f p ih => exact ⟨_, fun q hq => by cases hq; exact ih _⟩

namespace System

open Function

variable {ι σ α : Type*} [DecidableEq ι] {c c' : System ι σ α}

theorem moves_wellFounded [Finite ι] :
    WellFounded fun c' c : System ι σ α => ∃ i, Move c i c' := by
  have hlex : WellFounded (Pi.Lex (β := fun _ : ι => Prog σ α) WellOrderingRel Prog.Left) :=
    Pi.Lex.wellFounded _ fun _ => Prog.left_wellFounded
  refine Subrelation.wf (fun {c' c} => ?_) (InvImage.wf threads hlex)
  rintro ⟨i, h⟩
  refine ⟨i, fun j hj => h.threads_of_ne fun hij => ?_, ?_⟩
  · subst hij
    exact irrefl i hj
  · cases h with
    | acquire hp _ => simpa [hp] using Prog.Left.acquire _
    | release hp _ => simpa [hp] using Prog.Left.release _
    | act hp => simpa [hp] using Prog.Left.act _ _ _

/-- Under a schedule that passes over no thread for ever, every thread returns. -/
theorem exists_finished_of_fair [Finite ι] (hc : c.Guarded) {f : ℕ → ι}
    (hf : ∀ i n, ∃ m, n ≤ m ∧ f m = i) :
    ∃ n, (Runs.run turn c ((List.range n).map f)).holder = none ∧
      ∀ i, (Runs.run turn c ((List.range n).map f)).Finished i := by
  refine Runs.exists_of_fair id (P := fun _ => True) (I := Guarded)
    (Q := fun c => c.holder = none ∧ ∀ i, c.Finished i)
    (moves_wellFounded (ι := ι) (σ := σ) (α := α)) (fun c i h _ => guarded_turn h i)
    (fun c i h _ => ?_) (fun c h hdone => ?_) (fun _ => trivial) hf hc
  · by_cases hready : c.Ready i
    · exact .inr ⟨i, turn_of_ready hready⟩
    · exact .inl (turn_of_not_ready h hready)
  · by_contra hnone
    refine hdone (no_deadlock h fun i hi => hnone ⟨i, fun j _ hj => ?_⟩)
    obtain rfl : j = i := hj
    exact ⟨j, turn_of_ready hi⟩

/-- Two threads that take turns. -/
theorem fair_alternation (i : Bool) (n : ℕ) : ∃ m, n ≤ m ∧ (m % 2 == 0) = i := by
  cases i with
  | false => exact ⟨2 * n + 1, by omega, by simp [Nat.add_mod]⟩
  | true => exact ⟨2 * n, by omega, by simp⟩

end System

end ClearwaterSnmp.Locking
