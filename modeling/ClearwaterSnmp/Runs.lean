import Mathlib.Data.List.Infix
import Mathlib.Data.List.Nodup
import Mathlib.Data.Nat.Find
import Mathlib.Order.WellFounded

namespace ClearwaterSnmp.Runs

variable {σ τ ε δ κ ν : Type*}

/-- The state a deterministic system reaches from `s` on the events `es`. -/
def run (step : σ → ε → σ) (s : σ) (es : List ε) : σ := es.foldl step s

@[simp] theorem run_nil (step : σ → ε → σ) (s : σ) : run step s [] = s := rfl

@[simp] theorem run_cons (step : σ → ε → σ) (s : σ) (e : ε) (es : List ε) :
    run step s (e :: es) = run step (step s e) es := rfl

theorem run_append (step : σ → ε → σ) (s : σ) (es fs : List ε) :
    run step s (es ++ fs) = run step (run step s es) fs := List.foldl_append

theorem run_range_succ (step : σ → ε → σ) (f : ℕ → ε) (s : σ) (n : ℕ) :
    run step s ((List.range (n + 1)).map f) = step (run step s ((List.range n).map f)) (f n) := by
  rw [List.range_succ, List.map_append, run_append]
  rfl

theorem run_range_add (step : σ → ε → σ) (f : ℕ → ε) (s : σ) (m n : ℕ) :
    run step s ((List.range (m + n)).map f) =
      run step (run step s ((List.range m).map f)) ((List.range n).map fun k => f (m + k)) := by
  rw [List.range_add, List.map_append, run_append, List.map_map]
  rfl

theorem run_map (step : σ → ε → σ) (g : δ → ε) (s : σ) (ds : List δ) :
    run step s (ds.map g) = run (fun s d => step s (g d)) s ds := List.foldl_map

/-- A projection that turns each step into the step of a second system for the same event. -/
theorem run_hom {step : σ → ε → σ} {step' : τ → ε → τ} (f : σ → τ)
    (h : ∀ s e, step' (f s) e = f (step s e)) (s : σ) (es : List ε) :
    run step' (f s) es = f (run step s es) := List.foldl_hom f h

/-- Every step of the run meets `P` in the state before it. -/
def Along (step : σ → ε → σ) (P : σ → ε → Prop) : σ → List ε → Prop
  | _, [] => True
  | s, e :: es => P s e ∧ Along step P (step s e) es

instance decidableAlong {step : σ → ε → σ} {P : σ → ε → Prop} [∀ s e, Decidable (P s e)] :
    ∀ s es, Decidable (Along step P s es)
  | _, [] => inferInstanceAs (Decidable True)
  | s, e :: es => @instDecidableAnd _ _ inferInstance (decidableAlong (step s e) es)

theorem along_of_forall {step : σ → ε → σ} {P : σ → ε → Prop} {es : List ε}
    (h : ∀ e ∈ es, ∀ s, P s e) (s : σ) : Along step P s es := by
  induction es generalizing s with
  | nil => trivial
  | cons e es ih =>
    exact ⟨h e List.mem_cons_self s, ih (fun e' he' => h e' (List.mem_cons_of_mem e he')) _⟩

theorem forall_of_along {step : σ → ε → σ} {P : ε → Prop} {s : σ} {es : List ε}
    (h : Along step (fun _ e => P e) s es) : ∀ e ∈ es, P e := by
  induction es generalizing s with
  | nil => simp
  | cons e es ih => exact List.forall_mem_cons.mpr ⟨h.1, ih h.2⟩

theorem Along.mono {step : σ → ε → σ} {I : σ → Prop} {P Q : σ → ε → Prop}
    (hinv : ∀ s e, I s → P s e → I (step s e)) (hPQ : ∀ s e, I s → P s e → Q s e) {s : σ}
    {es : List ε} (hs : I s) (h : Along step P s es) : Along step Q s es := by
  induction es generalizing s with
  | nil => trivial
  | cons e es ih => exact ⟨hPQ s e hs h.1, ih (hinv s e hs h.1) h.2⟩

/-- What holds of every step from a state that meets an invariant holds along every run. -/
theorem along_of_invariant {step : σ → ε → σ} {I : σ → Prop} {Q : σ → ε → Prop}
    (hinv : ∀ s e, I s → I (step s e)) (hQ : ∀ s e, I s → Q s e) {s : σ} (hs : I s)
    (es : List ε) : Along step Q s es :=
  Along.mono (P := fun _ _ => True) (fun s e h _ => hinv s e h) (fun s e h _ => hQ s e h) hs
    (along_of_forall (fun _ _ _ => trivial) s)

theorem Along.and {step : σ → ε → σ} {P Q : σ → ε → Prop} {s : σ} {es : List ε}
    (hP : Along step P s es) (hQ : Along step Q s es) :
    Along step (fun s e => P s e ∧ Q s e) s es := by
  induction es generalizing s with
  | nil => trivial
  | cons e es ih => exact ⟨⟨hP.1, hQ.1⟩, ih hP.2 hQ.2⟩

theorem along_append {step : σ → ε → σ} {P : σ → ε → Prop} {s : σ} {es fs : List ε} :
    Along step P s (es ++ fs) ↔ Along step P s es ∧ Along step P (run step s es) fs := by
  induction es generalizing s with
  | nil => simp [Along]
  | cons e es ih => rw [List.cons_append, Along, Along, ih, run_cons, and_assoc]

theorem Along.of_isPrefix {step : σ → ε → σ} {P : σ → ε → Prop} {s : σ} {p es : List ε}
    (hp : p <+: es) (h : Along step P s es) : Along step P s p := by
  induction p generalizing s es with
  | nil => trivial
  | cons e p ih =>
    obtain ⟨rest, rfl⟩ := hp
    exact ⟨h.1, ih (List.prefix_append p rest) h.2⟩

theorem run_invariant_along {step : σ → ε → σ} {I : σ → Prop} {P : σ → ε → Prop}
    (hstep : ∀ s e, I s → P s e → I (step s e)) {s : σ} {es : List ε}
    (hs : I s) (hP : Along step P s es) : I (run step s es) := by
  induction es generalizing s with
  | nil => exact hs
  | cons e es ih => exact ih (hstep s e hs hP.1) hP.2

/-- What each step keeps exactly when it meets `P`, a run keeps exactly when every step does. -/
theorem run_iff_along {step : σ → ε → σ} {I Q : σ → Prop} {P : σ → ε → Prop}
    (hinv : ∀ s e, I s → I (step s e)) (hstep : ∀ s e, I s → (Q (step s e) ↔ Q s ∧ P s e))
    {s : σ} (hs : I s) (es : List ε) : Q (run step s es) ↔ Q s ∧ Along step P s es := by
  induction es generalizing s with
  | nil => exact (and_iff_left trivial).symm
  | cons e es ih => rw [run_cons, ih (hinv s e hs), hstep s e hs, Along, and_assoc]

theorem run_invariant_forall {step : σ → ε → σ} {I : σ → Prop} {P : ε → Prop}
    (hstep : ∀ s e, I s → P e → I (step s e)) {s : σ} {es : List ε} (hs : I s)
    (hP : ∀ e ∈ es, P e) : I (run step s es) :=
  run_invariant_along (P := fun _ e => P e) hstep hs (along_of_forall (fun e he _ => hP e he) s)

theorem run_invariant {step : σ → ε → σ} {I : σ → Prop}
    (hstep : ∀ s e, I s → I (step s e)) {s : σ} (hs : I s) (es : List ε) :
    I (run step s es) :=
  run_invariant_along (P := fun _ _ => True) (fun s e h _ => hstep s e h) hs
    (along_of_forall (fun _ _ _ => trivial) s)

/-- A projection `f` that turns each step into a step of a second system turns
each run into a run of it; `I` is what the projection may rely on. -/
theorem run_simulation {step : σ → ε → σ} {step' : τ → δ → τ} {I : σ → Prop}
    (f : σ → τ) (g : ε → δ) (hinv : ∀ s e, I s → I (step s e))
    (hsim : ∀ s e, I s → f (step s e) = step' (f s) (g e)) {s : σ} (hs : I s) (es : List ε) :
    f (run step s es) = run step' (f s) (es.map g) := by
  induction es generalizing s with
  | nil => rfl
  | cons e es ih =>
    rw [run_cons, ih (hinv s e hs), hsim s e hs]
    rfl

/-- What the steps of a run give rise to, in order. -/
def emitted (step : σ → ε → σ) (g : σ → ε → List δ) : σ → List ε → List δ
  | _, [] => []
  | s, e :: es => g s e ++ emitted step g (step s e) es

theorem emitted_append (step : σ → ε → σ) (g : σ → ε → List δ) (s : σ) (es fs : List ε) :
    emitted step g s (es ++ fs) = emitted step g s es ++ emitted step g (run step s es) fs := by
  induction es generalizing s with
  | nil => rfl
  | cons e es ih => simp only [List.cons_append, emitted, ih, run_cons, List.append_assoc]

/-- A projection `f` under which each step is some steps of a second system, or none, turns
each run into a run of it. -/
theorem run_simulation_emitted {step : σ → ε → σ} {step' : τ → δ → τ} {I : σ → Prop}
    (f : σ → τ) (g : σ → ε → List δ) (hinv : ∀ s e, I s → I (step s e))
    (hsim : ∀ s e, I s → f (step s e) = run step' (f s) (g s e)) {s : σ} (hs : I s)
    (es : List ε) : f (run step s es) = run step' (f s) (emitted step g s es) := by
  induction es generalizing s with
  | nil => rfl
  | cons e es ih => rw [run_cons, ih (hinv s e hs), hsim s e hs, emitted, run_append]

/-- Steps that leave the state alone can be dropped from a run. -/
theorem run_filter {step : σ → ε → σ} {keep : ε → Bool}
    (hdrop : ∀ s e, keep e = false → step s e = s) (s : σ) (es : List ε) :
    run step s (es.filter keep) = run step s es := by
  induction es generalizing s with
  | nil => rfl
  | cons e es ih =>
    cases hk : keep e with
    | false => rw [List.filter_cons_of_neg (by simp [hk]), ih, run_cons, hdrop s e hk]
    | true => rw [List.filter_cons_of_pos hk, run_cons, run_cons, ih]

/-- Steps that leave what is observed of the state alone can be dropped from a
run, if what is observed after a step depends only on what is observed before it. -/
theorem observed_run_filter {step : σ → ε → σ} {I : σ → Prop} {P : σ → ε → Prop} (f : σ → τ)
    {keep : ε → Bool} (hinv : ∀ s e, I s → P s e → I (step s e))
    (hcongr : ∀ s s' e, P s e → f s = f s' → f (step s e) = f (step s' e))
    (hdrop : ∀ s e, I s → P s e → keep e = false → f (step s e) = f s) {s s' : σ} {es : List ε}
    (hs : I s) (hf : f s = f s') (hP : Along step P s es) :
    f (run step s es) = f (run step s' (es.filter keep)) := by
  induction es generalizing s s' with
  | nil => exact hf
  | cons e es ih =>
    have hs' : I (step s e) := hinv s e hs hP.1
    cases hk : keep e with
    | false =>
      rw [List.filter_cons_of_neg (by simp [hk]), run_cons]
      exact ih hs' ((hdrop s e hs hP.1 hk).trans hf) hP.2
    | true =>
      rw [List.filter_cons_of_pos hk, run_cons, run_cons]
      exact ih hs' (hcongr s s' e hP.1 hf) hP.2

/-- What holds after every prefix of a run holds at its start and after every prefix of what
follows the first step. -/
theorem forall_prefix_cons {step : σ → ε → σ} {Q : σ → Prop} {s : σ} {e : ε} {es : List ε} :
    (∀ p, p <+: e :: es → Q (run step s p)) ↔
      Q s ∧ ∀ p, p <+: es → Q (run step (step s e) p) := by
  constructor
  · intro h
    refine ⟨h [] List.nil_prefix, ?_⟩
    intro p hp
    exact h (e :: p) (List.cons_prefix_cons.mpr ⟨rfl, hp⟩)
  · rintro ⟨hq, hrest⟩ p hp
    cases p with
    | nil => exact hq
    | cons e' p =>
      obtain ⟨rfl, hp'⟩ := List.cons_prefix_cons.mp hp
      exact hrest p hp'

/-- If, where `Q` holds, a step keeps `Q` exactly when it meets `P`, then `Q`
holds after every prefix of a run exactly when every step of the run meets `P`. -/
theorem forall_prefix_iff_along {step : σ → ε → σ} {I Q : σ → Prop} {P : σ → ε → Prop}
    (hinv : ∀ s e, I s → I (step s e))
    (hstep : ∀ s e, I s → Q s → (Q (step s e) ↔ P s e)) {s : σ} (hs : I s) (hq : Q s)
    (es : List ε) : (∀ p, p <+: es → Q (run step s p)) ↔ Along step P s es := by
  induction es generalizing s with
  | nil =>
    refine ⟨fun _ => trivial, fun _ p hp => ?_⟩
    rw [List.prefix_nil.mp hp]
    exact hq
  | cons e es ih =>
    rw [forall_prefix_cons, and_iff_right hq]
    constructor
    · intro h
      have hq' : Q (step s e) := h [] List.nil_prefix
      exact ⟨(hstep s e hs hq).mp hq', (ih (hinv s e hs) hq').mp h⟩
    · rintro ⟨hP, hrest⟩
      exact (ih (hinv s e hs) ((hstep s e hs hq).mpr hP)).mpr hrest

/-- Every step either brings a rank down a well-founded order or leaves the rank alone, and with
it the kind of event that is waited for; then it is not of that kind. A schedule that always comes
back to what is waited for leads to a state in which the system is done. -/
theorem exists_of_helpful {α : Type*} {step : σ → ε → σ} (kind : ε → κ) (helpful : σ → κ)
    (rank : σ → α) {I Q : σ → Prop} {P : ε → Prop} {r : α → α → Prop} (hwf : WellFounded r)
    (hinv : ∀ s e, I s → P e → I (step s e))
    (hstep : ∀ s e, I s → P e → ¬Q s → r (rank (step s e)) (rank s) ∨
      rank (step s e) = rank s ∧ helpful (step s e) = helpful s ∧ kind e ≠ helpful s)
    {f : ℕ → ε} (hP : ∀ n, P (f n)) (hfair : ∀ s n, ∃ m, n ≤ m ∧ kind (f m) = helpful s) {s : σ}
    (hs : I s) : ∃ n, Q (run step s ((List.range n).map f)) := by
  induction hr : rank s using hwf.induction generalizing s f with
  | h a ih =>
    subst hr
    have hinvariant : ∀ n, I (run step s ((List.range n).map f)) := by
      intro n
      apply run_invariant_forall hinv hs
      intro e he
      obtain ⟨m, -, rfl⟩ := List.mem_map.mp he
      exact hP m
    have hnext := run_range_succ step f s
    by_contra hnever
    have hnot : ∀ n, ¬Q (run step s ((List.range n).map f)) := not_exists.mp hnever
    -- from a state of smaller rank the system would be done some time
    have hsame : ∀ n, rank (run step s ((List.range n).map f)) = rank s ∧
        helpful (run step s ((List.range n).map f)) = helpful s ∨
        ∃ n, r (rank (run step s ((List.range n).map f))) (rank s) := by
      intro n
      induction n with
      | zero => exact .inl ⟨rfl, rfl⟩
      | succ n ihn =>
        rcases ihn with ⟨hrank, hhelpful⟩ | hdown
        · rcases hstep _ (f n) (hinvariant n) (hP n) (hnot n) with hdown | ⟨hrank', hhelpful', -⟩
          · rw [← hnext, hrank] at hdown
            exact .inr ⟨n + 1, hdown⟩
          · rw [hnext]
            exact .inl ⟨hrank'.trans hrank, hhelpful'.trans hhelpful⟩
        · exact .inr hdown
    have hdown : ∃ n, r (rank (run step s ((List.range n).map f))) (rank s) := by
      obtain ⟨m, -, hm⟩ := hfair s 0
      rcases hsame m with ⟨hrank, hhelpful⟩ | hdown
      · rcases hstep _ (f m) (hinvariant m) (hP m) (hnot m) with hdown | ⟨-, -, hother⟩
        · rw [← hnext, hrank] at hdown
          exact ⟨m + 1, hdown⟩
        · exact absurd (hm.trans hhelpful.symm) hother
      · exact hdown
    obtain ⟨n, hn⟩ := hdown
    have hlater : ∀ s k, ∃ m, k ≤ m ∧ kind (f (n + m)) = helpful s := by
      intro s k
      obtain ⟨m, hm, hkind⟩ := hfair s (n + k)
      refine ⟨m - n, by omega, ?_⟩
      rw [Nat.add_sub_cancel' (by omega), hkind]
    obtain ⟨m, hm⟩ := ih _ hn (fun m => hP (n + m)) hlater (hinvariant n) rfl
    apply hnot (n + m)
    rwa [run_range_add]

/-- A schedule that gives every kind of event its turn again and again leads to a state in which
the system is done, if each step leaves the state alone or brings it down a well-founded order,
and if while the system is not done there is a kind of event that brings it down. -/
theorem exists_of_fair {step : σ → ε → σ} (kind : ε → κ) {I Q : σ → Prop} {P : ε → Prop}
    {r : σ → σ → Prop} (hwf : WellFounded r) (hinv : ∀ s e, I s → P e → I (step s e))
    (hstep : ∀ s e, I s → P e → step s e = s ∨ r (step s e) s)
    (hprogress : ∀ s, I s → ¬Q s → ∃ k, ∀ e, P e → kind e = k → r (step s e) s)
    {f : ℕ → ε} (hP : ∀ n, P (f n)) (hfair : ∀ k n, ∃ m, n ≤ m ∧ kind (f m) = k) {s : σ}
    (hs : I s) : ∃ n, Q (run step s ((List.range n).map f)) := by
  classical
  let helpful : σ → κ := fun s =>
    if h : I s ∧ ¬Q s then (hprogress s h.1 h.2).choose else kind (f 0)
  refine exists_of_helpful kind helpful id hwf hinv ?_ hP (fun s => hfair (helpful s)) hs
  intro s e hI hPe hQ
  rcases hstep s e hI hPe with heq | hdown
  · refine or_iff_not_imp_left.mpr fun hnot => ⟨heq, congrArg helpful heq, fun hkind => hnot ?_⟩
    rw [show helpful s = (hprogress s hI hQ).choose from dif_pos ⟨hI, hQ⟩] at hkind
    exact (hprogress s hI hQ).choose_spec e hPe hkind
  · exact .inl hdown

/-- What lasts until `q`, and is ended by an event that always comes, leads to `q`. -/
theorem leads_to {p q e : ℕ → Prop} (hfair : ∀ n, p n → ∃ m, n ≤ m ∧ e m)
    (hlasts : ∀ n, p n → p (n + 1) ∨ q (n + 1)) (heffect : ∀ n, p n → e n → q (n + 1)) {n : ℕ}
    (hp : p n) : ∃ m, n ≤ m ∧ q m := by
  by_contra hnever
  have hnot : ∀ m, n ≤ m → ¬q m := fun m hm hq => hnever ⟨m, hm, hq⟩
  have hall : ∀ m, n ≤ m → p m := by
    intro m hm
    induction m, hm using Nat.le_induction with
    | base => exact hp
    | succ m hm ih => exact (hlasts m ih).resolve_right (hnot (m + 1) (by omega))
  obtain ⟨m, hm, he⟩ := hfair n hp
  exact hnot (m + 1) (by omega) (heffect m (hall m hm) he)

/-- A loop over distinct keys whose body rewrites only the part of the state
that belongs to its own key rewrites each such part exactly once. -/
theorem foldl_frame (body : σ → κ → σ) (part : σ → κ → ν) (upd : ν → ν) {I : σ → Prop}
    [DecidableEq κ] (hinv : ∀ s k, I s → I (body s k))
    (hself : ∀ s k, I s → part (body s k) k = upd (part s k))
    (hother : ∀ s k j, I s → j ≠ k → part (body s k) j = part s j)
    {ks : List κ} (hks : ks.Nodup) {s : σ} (hs : I s) (j : κ) :
    part (ks.foldl body s) j = if j ∈ ks then upd (part s j) else part s j := by
  induction ks generalizing s with
  | nil => simp
  | cons k ks ih =>
    obtain ⟨hk, hks'⟩ := List.nodup_cons.mp hks
    rw [List.foldl_cons, ih hks' (hinv s k hs)]
    by_cases hjk : j = k
    · subst hjk
      simp [hk, hself s j hs]
    · simp [hjk, hother s k j hs hjk]

/-- Every entry of a history, which is newest first, meets `Q` with its past. -/
def AtEach (Q : ε → List ε → Prop) : List ε → Prop
  | [] => True
  | e :: past => Q e past ∧ AtEach Q past

theorem AtEach.of_eq_append {Q : ε → List ε → Prop} {h later past : List ε} {e : ε}
    (hQ : AtEach Q h) (he : h = later ++ e :: past) : Q e past := by
  subst he
  induction later with
  | nil => exact hQ.1
  | cons e' later ih => exact ih hQ.2

end ClearwaterSnmp.Runs
