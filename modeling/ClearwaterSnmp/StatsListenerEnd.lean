import ClearwaterSnmp.StatsPublication

namespace ClearwaterSnmp.StatsAgent
open Multipart

variable {inet : InetPton} {node : NodeData} {registered : List NodeData} {s : StatsAgent}

/-! ## After the listener has ended -/

/-- A thread is created before anything is listened to. -/
theorem created_run (inet : InetPton) (hlast : registered.getLast? = some node)
    (turns : List Turn) : (run inet registered turns).plugin.threadCreated = true ∨
      (run inet registered turns).plugin.listeners = [] ∧
        (run inet registered turns).phase = .newContext := by
  refine run_keeps (I := fun s => s.plugin.threadCreated = true ∨
    s.plugin.listeners = [] ∧ s.phase = .newContext) hlast (fun pre a hl h => ?_)
    (fun pre now mode requests _ h => .inl ?_) (fun pre h => ?_) ?_ turns
  · obtain ⟨-, -, hcreated⟩ := plugin_resume inet node a (run inet registered pre)
    rw [hcreated]
    exact .inl (h.resolve_right fun h => hl h.1)
  · show (run inet registered pre).plugin.createThread.threadCreated = true
    unfold Plugin.createThread
    split
    · assumption
    · rfl
  · obtain ⟨pending, answers, heq⟩ := (run inet registered pre).answer_eq
    rw [heq]
    exact h
  · exact .inr ⟨(Plugin.registerAll_eq registered).2.1, rfl⟩

/-- The plugin as it was in the state `s`, with no answers since to requests made too late. -/
structure Silent (s s' : StatsAgent) : Prop where
  phase : s'.phase = .ended
  plugin : s'.plugin = s.plugin
  pending : s'.pending ≠ [] → s'.now - s.plugin.lastSeenTime < Plugin.timeoutThreshold
  answers : ∃ later, s'.answers = s.answers ++ later ∧
    ∀ a ∈ later, a.now - s.plugin.lastSeenTime < Plugin.timeoutThreshold

theorem Silent.clearwater {s s' : StatsAgent} (h : Silent s s')
    (hcreated : s.plugin.threadCreated = true) (now : ℤ) (mode : SnmpMode)
    (requests : List (Oid × Bool)) : Silent s (s'.clearwater now mode requests) := by
  refine ⟨h.phase, ?_, fun hpending => ?_, h.answers⟩
  · show s'.plugin.createThread = s.plugin
    rw [h.plugin, Plugin.createThread, if_pos hcreated]
  · by_contra hstale
    rw [← h.plugin] at hstale
    exact hpending (if_neg hstale)

theorem Silent.answer {s s' : StatsAgent} (h : Silent s s') : Silent s s'.answer := by
  unfold StatsAgent.answer
  split
  · exact h
  · rename_i request requests hpending
    have hfresh := h.pending (by simp [hpending])
    obtain ⟨later, heq, hlater⟩ := h.answers
    let response := if request.2 then none else Plugin.respond s'.plugin.tree s'.mode request.1
    refine ⟨h.phase, h.plugin, fun _ => hfresh,
      later ++ [⟨s'.now, s'.mode, request.1, response⟩], ?_, fun a ha => ?_⟩
    · rw [← List.append_assoc, ← heq]
    · rcases List.mem_append.mp ha with ha | ha
      · exact hlater a ha
      · rw [List.mem_singleton.mp ha]
        exact hfresh

/-- Once the listener has ended no other takes its place: the table and the time of the last
message stay as they are for ever, and requests that come `TIMEOUT_THRESHOLD` seconds after it or
later are not answered. -/
theorem silent_after_end (hlast : registered.getLast? = some node) {turns : List Turn}
    (hended : (run inet registered turns).phase = .ended)
    (hidle : (run inet registered turns).pending = []) (later : List Turn) :
    let s := run inet registered turns
    let s' := run inet registered (turns ++ later)
    s'.plugin = s.plugin ∧ ∃ answers, s'.answers = s.answers ++ answers ∧
      ∀ a ∈ answers, a.now - s.plugin.lastSeenTime < Plugin.timeoutThreshold := by
  intro s s'
  have hcreated : s.plugin.threadCreated = true := by
    refine (created_run inet hlast turns).resolve_right fun h => ?_
    rw [h.2] at hended
    cases hended
  have hstep : ∀ t turn, Listening node t ∧ Silent s t →
      Listening node (step inet t turn) ∧ Silent s (step inet t turn) := by
    rintro t turn ⟨hl, hs⟩
    refine ⟨hl.step turn, ?_⟩
    rcases step_cases inet hl turn with heq | ⟨a, -, heq⟩ | ⟨now, mode, requests, -, heq⟩ | heq <;>
      rw [heq]
    · exact hs
    · rwa [resume, hs.phase]
    · exact hs.clearwater hcreated now mode requests
    · exact hs.answer
  have hsilent : Silent s s' := by
    rw [show s' = Runs.run (step inet) s later from Runs.run_append _ _ _ _]
    refine (Runs.run_invariant hstep ⟨listening_run inet hlast turns, hended, rfl, ?_, [], ?_, ?_⟩
      later).2
    · exact fun h => absurd hidle h
    · exact (List.append_nil _).symm
    · intro a ha
      cases ha
  exact ⟨hsilent.plugin, hsilent.answers⟩

/-- No context: the listener ends at once. -/
def noContextTurns : List Turn :=
  .clearwater 100 .get [] ::
    List.replicate 3 (.listener { StatsAnswers.part "" false with ctxNew := false })

theorem silent_after_end_cdiv :
    let later : List Turn := [.clearwater 200 .get [([1, 2], false)], .answer]
    (run sampleInet [.cdiv] noContextTurns).phase = .ended ∧
      ∀ a ∈ (run sampleInet [.cdiv] (noContextTurns ++ later)).answers, a.now < 15 := by
  intro later
  have hlast : [NodeData.cdiv].getLast? = some .cdiv := rfl
  have hended : (run sampleInet [.cdiv] noContextTurns).phase = .ended := rfl
  have hidle : (run sampleInet [.cdiv] noContextTurns).pending = [] := rfl
  obtain ⟨-, answers, heq, hanswers⟩ := silent_after_end hlast hended hidle later
  refine ⟨hended, fun a ha => ?_⟩
  have hlate := hanswers a (by rwa [heq] at ha)
  have hzero : (run sampleInet [.cdiv] noContextTurns).plugin.lastSeenTime = 0 := rfl
  rw [hzero, sub_zero] at hlate
  exact hlate

/-! ## The context and the socket -/

/-- Both are there, and have been used as they should. -/
def Open (failed : Prop) (s : StatsAgent) : Prop :=
  s.ctx = .live ∧ s.sck = .live ∧ s.misused = false ∧ ¬failed

/-- What the listener has made and asked for so far; `failed` says that it got no context. -/
def Resources (node : NodeData) (failed : Prop) (s : StatsAgent) : Prop :=
  match s.phase with
  | .newContext => s.sck = .unset ∧ s.misused = false ∧ ¬failed ∧ s.subscribed = []
  | .newSocket => s.ctx = .live ∧ s.sck = .unset ∧ s.misused = false ∧ ¬failed ∧ s.subscribed = []
  | .connect => s.Open failed ∧ s.subscribed = []
  | .subscribe stats => s.Open failed ∧ node.subscriptions = s.subscribed ++
      stats.map fun stat => ("ipc:///var/run/clearwater/stats/" ++ node.name, cStr stat)
  | .closeSocket => s.misused = false ∧ (s.sck = .unset ↔ failed)
  | .destroyContext | .ended => s.misused = true ↔ failed
  | _ => s.Open failed ∧ s.subscribed = node.subscriptions

theorem Open.closing {failed : Prop} (h : s.Open failed) :
    s.misused = false ∧ (s.sck = .unset ↔ failed) := by
  obtain ⟨-, hsck, hmisused, hfailed⟩ := h
  exact ⟨hmisused, iff_of_false (by simp [hsck]) hfailed⟩

theorem Resources.resume {failed : Prop} (h : Resources node failed s) (a : StatsAnswers) :
    Resources node (failed ∨ s.phase = .newContext ∧ a.ctxNew = false)
      (s.resume inet node a) := by
  by_cases hnew : s.phase = .newContext
  · simp only [Resources, hnew] at h
    obtain ⟨hsck, hmisused, hfailed, hsubscribed⟩ := h
    cases ha : a.ctxNew with
    | true => simp [Resources, StatsAgent.resume, hnew, ha, hsck, hmisused, hfailed, hsubscribed]
    | false => simp [Resources, StatsAgent.resume, hnew, ha, hsck, hmisused]
  · have hfailed : (failed ∨ s.phase = .newContext ∧ a.ctxNew = false) = failed := by simp [hnew]
    rw [hfailed]
    have hr := resumed inet node a s
    generalize s.resume inet node a = s' at hr
    cases hr with
    | makesContext hp _ => exact absurd hp hnew
    | lacksContext hp _ => exact absurd hp hnew
    | makesSocket hp =>
      simp only [Resources, hp] at h
      exact ⟨⟨h.1, rfl, h.2.2.1, h.2.2.2.1⟩, h.2.2.2.2⟩
    | lacksSocket hp =>
      simp only [Resources, hp] at h
      exact ⟨h.2.2.1, iff_of_false (by simp) h.2.2.2.1⟩
    | connects hp =>
      simp only [Resources, hp] at h
      refine ⟨h.1, ?_⟩
      rw [h.2]
      rfl
    | @subscribes stat stats hp =>
      simp only [Resources, hp] at h
      refine ⟨h.1, ?_⟩
      rw [h.2, List.map_cons, List.append_assoc]
      rfl
    | listens hp =>
      simp only [Resources, hp] at h
      refine ⟨h.1, ?_⟩
      rw [h.2]
      exact (List.append_nil _).symm
    | fails hf =>
      obtain hp | ⟨_, hp⟩ | ⟨_, hp⟩ | ⟨_, hp⟩ | ⟨_, _, hp⟩ := hf <;>
      · simp only [Resources, hp] at h
        exact h.1.closing
    | interrupted _ => exact h
    | closes hp =>
      simp only [Resources, hp] at h
      simp [Resources, h.1, h.2]
    | destroys hp => simpa only [Resources, hp] using h
    | idles _ => exact h
    | inits hp => simpa only [Resources, Open, hp] using h
    | receives hp => simpa only [Resources, Open, hp] using h
    | hearsMore hp => simpa only [Resources, Open, hp] using h
    | hearsLast hp => simpa only [Resources, Open, hp] using h
    | stores hp => simpa only [Resources, Open, hp] using h
    | dispatches hp _ => simpa only [Resources, Open, hp] using h
    | throws hp => simpa only [Resources, Open, hp] using h
    | passesOver hp _ =>
      simp only [Resources, hp] at h
      exact h
    | calls hp => simpa only [Resources, Open, hp] using h
    | finishes hp =>
      simp only [Resources, hp] at h
      exact h

/-- `zmq_ctx_new` succeeds when it is called. -/
def MakesContext (s : StatsAgent) : Turn → Prop
  | .listener a => s.plugin.listeners ≠ [] → s.phase = .newContext → a.ctxNew = true
  | _ => True

theorem Resources.step {failed : Prop} (inet : InetPton) (h : Resources node failed s)
    (hl : Listening node s) (turn : Turn) :
    Resources node (failed ∨ ¬s.MakesContext turn) (s.step inet turn) := by
  cases turn with
  | listener a =>
    by_cases hlisteners : s.plugin.listeners = []
    · simpa [StatsAgent.step, MakesContext, hlisteners] using h
    · have hstep : s.step inet (.listener a) = s.resume inet node a := by
        obtain ⟨n, rest, hcons⟩ := List.exists_cons_of_ne_nil hlisteners
        have hn : n = some node := hl.2 n (by simp [hcons])
        simp [StatsAgent.step, hcons, hn]
      rw [hstep]
      simpa [MakesContext, hlisteners] using h.resume a
  | clearwater now mode requests =>
    simp only [StatsAgent.step, MakesContext, not_true_eq_false, or_false]
    split
    · exact h
    · exact h
    · exact h
  | answer =>
    simp only [StatsAgent.step, MakesContext, not_true_eq_false, or_false]
    split
    · exact h
    · obtain ⟨pending, answers, heq⟩ := s.answer_eq
      rw [heq]
      exact h

theorem resources_run (inet : InetPton) (hlast : registered.getLast? = some node)
    (turns : List Turn) :
    Resources node (¬Runs.Along (step inet) MakesContext (start registered) turns)
      (run inet registered turns) := by
  induction turns using List.reverseRecOn with
  | nil => exact ⟨rfl, rfl, not_not_intro trivial, rfl⟩
  | append_singleton turns turn ih =>
    have h := ih.step inet (listening_run inet hlast turns) turn
    rw [← not_and_or] at h
    rw [run, Runs.run_append, Runs.along_append, Runs.Along, Runs.Along, and_true]
    exact h

/-- The listener asks for messages only with a context and a socket that are there and once it
has subscribed to all statistics of its node. In the end it closes a socket that was never set
exactly if it could not make a context. -/
theorem socket_use (inet : InetPton) (hlast : registered.getLast? = some node)
    (turns : List Turn) :
    let s := run inet registered turns
    (∀ msgs, s.phase = .recv msgs →
      s.ctx = .live ∧ s.sck = .live ∧ s.subscribed = node.subscriptions) ∧
    (s.misused = true ↔ ¬Runs.Along (step inet) MakesContext (start registered) turns ∧
      (s.phase = .destroyContext ∨ s.phase = .ended)) := by
  intro s
  have h := resources_run inet hlast turns
  cases hp : s.phase with
  | newContext =>
    simp only [Resources, show (run inet registered turns).phase = _ from hp] at h
    simp [s, h.2.1]
  | newSocket =>
    simp only [Resources, show (run inet registered turns).phase = _ from hp] at h
    simp [s, h.2.2.1]
  | closeSocket =>
    simp only [Resources, show (run inet registered turns).phase = _ from hp] at h
    simp [s, h.1]
  | destroyContext =>
    simp only [Resources, show (run inet registered turns).phase = _ from hp] at h
    simpa [s] using h
  | ended =>
    simp only [Resources, show (run inet registered turns).phase = _ from hp] at h
    simpa [s] using h
  | recv msgs =>
    simp only [Resources, show (run inet registered turns).phase = _ from hp] at h
    simp [s, h.1.1, h.1.2.1, h.1.2.2.1, h.2]
  | _ =>
    simp only [Resources, show (run inet registered turns).phase = _ from hp] at h
    simp [s, h.1.2.2.1]

theorem socket_use_without_context :
    (run sampleInet [.cdiv] noContextTurns).misused = true ∧
      ¬Runs.Along (step sampleInet) MakesContext (start [.cdiv]) noContextTurns := by
  have hlast : [NodeData.cdiv].getLast? = some .cdiv := rfl
  have hmisused : (run sampleInet [.cdiv] noContextTurns).misused = true := rfl
  exact ⟨hmisused, ((socket_use sampleInet hlast noContextTurns).2.mp hmisused).1⟩

end ClearwaterSnmp.StatsAgent
