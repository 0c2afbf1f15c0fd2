import ClearwaterSnmp.Locking

namespace ClearwaterSnmp.Locking

namespace Prog

variable {σ β κ : Type*}

/-- A call holds the lock from its start to its end, or does not touch the memory. -/
def IsCall (p : Prog σ β) : Prop :=
  (∃ body : Prog σ β, body.Nested 0 ∧ p = locked body) ∨ ∃ b, p = ret b

/-- Calls one after the other, with their results. -/
def session (program : κ → Prog σ β) : List κ → List β → Prog σ (List β)
  | [], results => ret results
  | k :: ks, results => (program k).bind fun b => session program ks (results ++ [b])

/-- The calls of one thread up to the first that takes the lock: what they do to the memory,
the calls that remain, and the results so far. -/
def serve (program : κ → Prog σ β) : List κ → List β → σ → σ × List κ × List β
  | [], results, s => (s, [], results)
  | k :: ks, results, s =>
    match program k with
    | ret b => serve program ks (results ++ [b]) s
    | p => ((p.exec s).1, ks, results ++ [(p.exec s).2])

variable {program : κ → Prog σ β}

theorem session_guarded (h : ∀ k, (program k).IsCall) (ks : List κ) (results : List β) :
    (session program ks results).Guarded 0 := by
  induction ks generalizing results with
  | nil => rfl
  | cons k ks ih =>
    rw [session]
    obtain ⟨body, hbody, hk⟩ | ⟨b, hk⟩ := h k
    · rw [hk]
      exact guarded_locked_bind hbody fun b => ih _
    · rw [hk]
      exact ih _

theorem serve_locked {k : κ} {body : Prog σ β} (hk : program k = locked body) (ks : List κ)
    (results : List β) (s : σ) :
    serve program (k :: ks) results s =
      ((body.exec s).1, ks, results ++ [(body.exec s).2]) := by
  rw [serve, hk, ← exec_locked]
  rfl

theorem session_leap (h : ∀ k, (program k).IsCall) (ks : List κ) (results : List β) (s : σ) :
    (session program ks results).leap s =
      ((serve program ks results s).1,
        session program (serve program ks results s).2.1 (serve program ks results s).2.2) := by
  induction ks generalizing results with
  | nil => rfl
  | cons k ks ih =>
    obtain ⟨body, hbody, hk⟩ | ⟨b, hk⟩ := h k
    · rw [serve_locked hk, session, hk, locked_bind]
      exact (toRelease_bind (d := 0) (m := 1) hbody Nat.one_pos _ s).trans (toRelease_zero _ _)
    · rw [session, serve, hk]
      exact ih _

end Prog

/-- Calls that are made one at a time: the memory, and for each thread the calls it has still to
make and the results of those it has made. -/
structure Serial (ι σ κ β : Type*) where
  memory : σ
  pending : ι → List κ
  results : ι → List β

namespace Serial

open Function

variable {ι σ κ β : Type*} [DecidableEq ι] (program : κ → Prog σ β)

/-- The thread `i` makes its next call. -/
def turn (S : Serial ι σ κ β) (i : ι) : Serial ι σ κ β :=
  let r := Prog.serve program (S.pending i) (S.results i) S.memory
  ⟨r.1, update S.pending i r.2.1, update S.results i r.2.2⟩

/-- The threads between two calls. -/
def system (S : Serial ι σ κ β) : System ι σ (List β) :=
  ⟨S.memory, none, fun i => Prog.session program (S.pending i) (S.results i)⟩

variable {program}

theorem criticalSection_system (h : ∀ k, (program k).IsCall) (S : Serial ι σ κ β) (i : ι) :
    (S.system program).criticalSection i = (S.turn program i).system program := by
  unfold System.criticalSection system
  rw [Prog.session_leap h]
  refine congrArg (System.mk _ none) (funext fun j => ?_)
  by_cases hj : j = i
  · subst hj
    simp only [turn, update_self]
  · simp only [turn, update_of_ne hj]

theorem guarded_system (h : ∀ k, (program k).IsCall) (S : Serial ι σ κ β) :
    (S.system program).Guarded :=
  fun _ => Prog.session_guarded h _ _

/-- Calls made concurrently do, and return, what they do one at a time, in the order in which
they take the lock. -/
theorem settle_run (h : ∀ k, (program k).IsCall) (S : Serial ι σ κ β) (schedule : List ι) :
    (Runs.run System.turn (S.system program) schedule).settle =
      (Runs.run (turn program) S ((S.system program).grants schedule)).system program := by
  rw [System.settle_run (guarded_system h S)]
  exact Runs.run_hom (system program) (criticalSection_system h) S _

/-- The calls of the thread `i` in a history of calls. -/
def callsOf (i : ι) (made : List (ι × κ)) : List κ :=
  made.filterMap fun m => if m.1 = i then some m.2 else none

/-- The memory after a history of calls. -/
def memoryAfter (program : κ → Prog σ β) (s : σ) (made : List (ι × κ)) : σ :=
  made.foldl (fun s m => ((program m.2).exec s).1) s

omit [DecidableEq ι] in
theorem exists_served (h : ∀ k, (program k).IsCall) (i : ι) (ks : List κ) (results : List β)
    (s : σ) :
    ∃ served, served ++ (Prog.serve program ks results s).2.1 = ks ∧
      (Prog.serve program ks results s).1 = memoryAfter program s (served.map (i, ·)) := by
  induction ks generalizing results with
  | nil => exact ⟨[], rfl, rfl⟩
  | cons k ks ih =>
    obtain ⟨body, -, hk⟩ | ⟨b, hk⟩ := h k
    · refine ⟨[k], ?_, ?_⟩
      · rw [Prog.serve_locked hk]
        rfl
      · rw [Prog.serve_locked hk, ← Prog.exec_locked, ← hk]
        rfl
    · obtain ⟨served, hks, hs⟩ := ih (results ++ [b])
      refine ⟨k :: served, ?_, ?_⟩
      · rw [Prog.serve, hk]
        exact congrArg (k :: ·) hks
      · rw [Prog.serve, hk]
        refine hs.trans ?_
        rw [List.map_cons, memoryAfter, memoryAfter, List.foldl_cons, hk]
        rfl

theorem callsOf_map (i j : ι) (ks : List κ) :
    callsOf j (ks.map (i, ·)) = if i = j then ks else [] := by
  rw [callsOf, List.filterMap_map]
  by_cases hij : i = j
  · simp [hij]
  · simp [hij]

/-- A run of whole calls as a history, in which each thread makes its calls in their order. -/
theorem exists_history (h : ∀ k, (program k).IsCall) (S : Serial ι σ κ β) (order : List ι) :
    ∃ made : List (ι × κ),
      (∀ i, callsOf i made ++ (Runs.run (turn program) S order).pending i = S.pending i) ∧
        (Runs.run (turn program) S order).memory = memoryAfter program S.memory made := by
  induction order generalizing S with
  | nil => exact ⟨[], fun i => rfl, rfl⟩
  | cons i order ih =>
    obtain ⟨served, hserved, hmem⟩ := exists_served h i (S.pending i) (S.results i) S.memory
    obtain ⟨made, hmade, hmem'⟩ := ih (S.turn program i)
    refine ⟨served.map (i, ·) ++ made, fun j => ?_, ?_⟩
    · rw [Runs.run_cons, callsOf, List.filterMap_append, List.append_assoc]
      refine (congrArg (_ ++ ·) (hmade j)).trans ?_
      change callsOf j (served.map (i, ·)) ++ _ = _
      rw [callsOf_map]
      by_cases hij : i = j
      · subst hij
        simp only [turn, update_self, if_pos]
        exact hserved
      · simp only [turn, update_of_ne (Ne.symm hij), if_neg hij, List.nil_append]
    · rw [Runs.run_cons, hmem', memoryAfter, memoryAfter, List.foldl_append]
      exact congrArg (List.foldl _ · made) hmem

end Serial
end ClearwaterSnmp.Locking
