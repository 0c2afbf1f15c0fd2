import ClearwaterSnmp.StatsListener

namespace ClearwaterSnmp.StatsAgent
open Multipart

variable {inet : InetPton} {node : NodeData} {registered : List NodeData} {s : StatsAgent}

/-! ## One message at a time -/

/-- The plugin is where the handling of one message after the other leads, but for what has been
done about the one in hand. -/
def Follows (inet : InetPton) (node : NodeData) (q : Plugin NodeData) (s : StatsAgent) : Prop :=
  match s.phase with
  | .handling msgs calls =>
    ∃ handler done, node.handlerOf msgs = some handler ∧
      handler.handle inet msgs = done ++ calls ∧ s.plugin.tree = done.foldl TreeCall.apply q.tree
  | .dispatch _ | .terminated => s.plugin.tree = q.tree
  | _ => s.plugin.tree = q.tree ∧ s.plugin.lastSeenTime = q.lastSeenTime

/-- The messages that have been handled lead somewhere if they are handled one by one, and the
plugin follows. -/
def Refines (inet : InetPton) (node : NodeData) (p : Plugin NodeData) (s : StatsAgent) : Prop :=
  ∃ q, Plugin.handleRequestsForever inet node s.handled p = some q ∧ Follows inet node q s

theorem handleRequestsForever_concat {received : List (ℤ × Message)} {p q : Plugin NodeData}
    (h : Plugin.handleRequestsForever inet node received p = some q) (r : ℤ × Message) :
    Plugin.handleRequestsForever inet node (received ++ [r]) p =
      Plugin.handleRequest inet node r.1 r.2 q := by
  rw [Plugin.handleRequestsForever] at h ⊢
  rw [List.foldlM_append, h]
  show (Plugin.handleRequest inet node r.1 r.2 q).bind some = _
  exact Option.bind_fun_some _

theorem handleRequest_of_handlerOf {msgs : Message} {handler : StatHandler}
    (hat : node.handlerOf msgs = some handler) (now : ℤ) (q : Plugin NodeData) :
    Plugin.handleRequest inet node now msgs q =
      some { q with lastSeenTime := now, tree := handler.process inet msgs q.tree } := by
  by_cases hok : Plugin.IsOk msgs
  · obtain ⟨messageType, parts, rfl⟩ := Plugin.eq_cons_of_isOk hok
    rw [Plugin.handleRequest_of_ok, ← Plugin.handlerOf_of_ok messageType parts, hat]
    rfl
  · rw [Plugin.handlerOf_of_not_ok hok] at hat
    cases hat

theorem Refines.resume {p : Plugin NodeData} (h : Refines inet node p s) (a : StatsAnswers) :
    Refines inet node p (s.resume inet node a) := by
  obtain ⟨q, hq, hf⟩ := h
  have hr := resumed inet node a s
  generalize s.resume inet node a = s' at hr
  cases hr with
  | makesContext hp _ => exact ⟨q, hq, by simpa only [Follows, hp] using hf⟩
  | lacksContext hp _ => exact ⟨q, hq, by simpa only [Follows, hp] using hf⟩
  | makesSocket hp => exact ⟨q, hq, by simpa only [Follows, hp] using hf⟩
  | lacksSocket hp => exact ⟨q, hq, by simpa only [Follows, hp] using hf⟩
  | connects hp => exact ⟨q, hq, by simpa only [Follows, hp] using hf⟩
  | subscribes hp => exact ⟨q, hq, by simpa only [Follows, hp] using hf⟩
  | listens hp => exact ⟨q, hq, by simpa only [Follows, hp] using hf⟩
  | fails hfails =>
    obtain hp | ⟨_, hp⟩ | ⟨_, hp⟩ | ⟨_, hp⟩ | ⟨_, _, hp⟩ := hfails <;>
      exact ⟨q, hq, by simpa only [Follows, hp] using hf⟩
  | interrupted _ => exact ⟨q, hq, hf⟩
  | inits hp => exact ⟨q, hq, by simpa only [Follows, hp] using hf⟩
  | receives hp => exact ⟨q, hq, by simpa only [Follows, hp] using hf⟩
  | hearsMore hp => exact ⟨q, hq, by simpa only [Follows, hp] using hf⟩
  | hearsLast hp => exact ⟨q, hq, by simpa only [Follows, hp] using hf⟩
  | stores hp =>
    simp only [Follows, hp] at hf
    exact ⟨q, hq, hf.1⟩
  | dispatches hp hat =>
    simp only [Follows, hp] at hf
    exact ⟨q, hq, _, [], hat, rfl, hf⟩
  | throws hp =>
    simp only [Follows, hp] at hf
    exact ⟨q, hq, hf⟩
  | @passesOver msgs hp hok =>
    simp only [Follows, hp] at hf
    refine ⟨{ q with lastSeenTime := s.plugin.lastSeenTime }, ?_, hf, rfl⟩
    exact (handleRequestsForever_concat hq _).trans (Plugin.handleRequest_of_not_ok hok _ q)
  | @calls msgs call calls hp =>
    simp only [Follows, hp] at hf
    obtain ⟨handler, done, hat, hsplit, htree⟩ := hf
    refine ⟨q, hq, handler, done ++ [call], hat, by simp [hsplit], ?_⟩
    rw [List.foldl_append, ← htree]
    rfl
  | @finishes msgs hp =>
    simp only [Follows, hp] at hf
    obtain ⟨handler, done, hat, hsplit, htree⟩ := hf
    rw [List.append_nil] at hsplit
    refine ⟨_, (handleRequestsForever_concat hq _).trans (handleRequest_of_handlerOf hat _ q), ?_,
      rfl⟩
    rw [StatHandler.process, hsplit]
    exact htree
  | closes hp => exact ⟨q, hq, by simpa only [Follows, hp] using hf⟩
  | destroys hp => exact ⟨q, hq, by simpa only [Follows, hp] using hf⟩
  | idles _ => exact ⟨q, hq, hf⟩

theorem Refines.of_eq {p : Plugin NodeData} {s' : StatsAgent} (h : Refines inet node p s)
    (hphase : s'.phase = s.phase) (hhandled : s'.handled = s.handled)
    (htree : s'.plugin.tree = s.plugin.tree)
    (htime : s'.plugin.lastSeenTime = s.plugin.lastSeenTime) : Refines inet node p s' := by
  obtain ⟨q, hq, hf⟩ := h
  refine ⟨q, hhandled ▸ hq, ?_⟩
  unfold Follows at hf ⊢
  rw [hphase, htree, htime]
  exact hf

theorem refines_run (inet : InetPton) (hlast : registered.getLast? = some node)
    (turns : List Turn) :
    Refines inet node (Plugin.registerAll registered) (run inet registered turns) := by
  refine run_keeps hlast (fun _ a _ h => h.resume a) (fun _ now mode requests _ h => ?_)
    (fun pre h => ?_) ⟨_, rfl, rfl, rfl⟩ turns
  · exact h.of_eq rfl rfl (Plugin.createThread_tree _) (Plugin.createThread_lastSeenTime _)
  · obtain ⟨pending, answers, heq⟩ := (run inet registered pre).answer_eq
    rw [heq]
    exact h.of_eq rfl rfl rfl rfl

theorem registerAll_tree (registered : List NodeData) :
    (Plugin.registerAll registered).tree = .empty := by
  apply List.foldlRecOn (motive := fun p : Plugin NodeData => p.tree = .empty) _ _ rfl
  intro p hp n _
  exact hp

/-- An entry is what the messages say that have been handled, or these and the one in hand. -/
theorem Refines.get_cases (hnode : node.Separate)
    (h : Refines inet node (Plugin.registerAll registered) s) (k : Oid) :
    s.plugin.tree.get k = node.shown inet (s.handled.map Prod.snd) k ∨
      ∃ msgs calls, s.phase = .handling msgs calls ∧
        s.plugin.tree.get k = node.shown inet (s.handled.map Prod.snd ++ [msgs]) k := by
  obtain ⟨q, hq, hf⟩ := h
  have hshown := Plugin.table_of_messages hnode (registerAll_tree registered) hq k
  cases hp : s.phase with
  | handling msgs calls =>
    simp only [Follows, hp] at hf
    obtain ⟨handler, done, hat, hsplit, htree⟩ := hf
    have hget : s.plugin.tree.get k =
        done.foldl (TreeCall.act k) (node.shown inet (s.handled.map Prod.snd) k) := by
      rw [htree, TreeCall.get_foldl_apply, hshown]
    rw [hget]
    exact (hnode.foldl_act_shown hat _ hsplit).imp_right fun h => ⟨msgs, calls, rfl, h⟩
  | dispatch msgs =>
    simp only [Follows, hp] at hf
    rw [hf]
    exact .inl hshown
  | terminated =>
    simp only [Follows, hp] at hf
    rw [hf]
    exact .inl hshown
  | _ =>
    simp only [Follows, hp] at hf
    rw [hf.1]
    exact .inl hshown

/-- The turns in which a listener reads a message of three parts. -/
def messageTurns (messageType status value : String) : List Turn :=
  List.replicate 3 (.listener (.part messageType true)) ++
    List.replicate 3 (.listener (.part status true)) ++
    List.replicate 3 (.listener (.part value false))

/-- The listener for call diversion is started, subscribes to its six statistics, and reads and
handles one message. Then the statistic is asked for. -/
def cdivTurns : List Turn :=
  .clearwater 0 .get [] :: List.replicate 10 (.listener (.part "" false)) ++
    messageTurns "cdiv_busy" "OK" "4" ++ List.replicate 5 (.listener (.part "" false)) ++
    [.clearwater 101 .get [(NodeData.clearwaterOid ++ [7, 1, 1, 4], false)], .answer]

theorem exists_tells_of_shown {ms : List Message} {k : Oid} {x : ℤ}
    (h : node.shown inet ms k = some x) : ∃ msgs ∈ ms, node.tells inet k msgs = some (some x) := by
  rw [NodeData.shown, Option.join_eq_some_iff] at h
  obtain ⟨msgs, hmsgs, htells⟩ := List.mem_filterMap.mp (List.mem_of_getLast? h)
  exact ⟨msgs, hmsgs, htells⟩

theorem getNext_eq_some {t : OidTree} {requested o : Oid} {x : ℤ}
    (h : t.getNext requested = some (o, x)) : requested < o ∧ t.get o = some x := by
  rw [OidTree.getNext, OrderedWalk.getEntryGT?_eq_find?] at h
  apply OidTree.mem_entriesAfter.mp
  rw [OidTree.entriesAfter, OrderedWalk.after]
  have hgt : (compare o requested).isGT := by simpa using List.find?_some h
  exact List.mem_filter.mpr ⟨List.mem_of_find?_eq_some h, hgt⟩

/-- An answer is for the OID that was asked for, or for one after it, and its value is one that
one of the messages gives for that OID. -/
def Told (inet : InetPton) (node : NodeData) (ms : List Message) (a : StatsAnswer) : Prop :=
  ∀ o v, a.response = some (o, v) →
    (a.mode = .get ∧ o = a.requested ∨ a.mode = .getNext ∧ a.requested < o) ∧
      ∃ msgs ∈ ms, ∃ x, node.tells inet o msgs = some (some x) ∧ v = (x % 2 ^ 32).toNat

theorem Told.mono {ms ms' : List Message} {a : StatsAnswer} (h : Told inet node ms a)
    (hms : ms <+: ms') : Told inet node ms' a := by
  intro o v hv
  obtain ⟨hoid, msgs, hmsgs, hx⟩ := h o v hv
  exact ⟨hoid, msgs, hms.subset hmsgs, hx⟩

/-- What is looked up in a table is told by the messages that tell all its entries. -/
theorem told_respond {t : OidTree} {ms : List Message} {now : ℤ} {mode : SnmpMode}
    {requested : Oid} {processed : Bool}
    (ht : ∀ k x, t.get k = some x → ∃ msgs ∈ ms, node.tells inet k msgs = some (some x)) :
    Told inet node ms ⟨now, mode, requested,
      if processed then none else Plugin.respond t mode requested⟩ := by
  intro o v hv
  cases processed with
  | true => cases hv
  | false =>
    cases mode with
    | other => cases hv
    | get =>
      obtain ⟨x, hx, heq⟩ := Option.map_eq_some_iff.mp hv
      cases heq
      obtain ⟨msgs, hmsgs, htells⟩ := ht _ x hx
      exact ⟨.inl ⟨rfl, rfl⟩, msgs, hmsgs, x, htells, rfl⟩
    | getNext =>
      obtain ⟨⟨o', x⟩, hx, heq⟩ := Option.map_eq_some_iff.mp hv
      cases heq
      obtain ⟨hlt, hget⟩ := getNext_eq_some hx
      obtain ⟨msgs, hmsgs, htells⟩ := ht _ x hget
      exact ⟨.inr ⟨rfl, hlt⟩, msgs, hmsgs, x, htells, rfl⟩

theorem heard_resume (inet : InetPton) (node : NodeData) (a : StatsAnswers) (s : StatsAgent) :
    s.heard <+: (s.resume inet node a).heard ∧ (s.resume inet node a).answers = s.answers := by
  have hr := resumed inet node a s
  generalize s.resume inet node a = s' at hr
  cases hr with
  | hearsMore _ => exact ⟨List.prefix_append _ _, rfl⟩
  | hearsLast _ => exact ⟨List.prefix_append _ _, rfl⟩
  | _ => exact ⟨List.prefix_refl _, rfl⟩

/-- Every answer is told by the messages that have been read. -/
def AllTold (inet : InetPton) (node : NodeData) (s : StatsAgent) : Prop :=
  ∀ a ∈ s.answers, Told inet node (assemble s.heard).whole a

theorem AllTold.answer (hnode : node.Separate) (hframed : s.Framed)
    (hrefines : Refines inet node (Plugin.registerAll registered) s) (h : AllTold inet node s) :
    AllTold inet node s.answer := by
  unfold StatsAgent.answer
  split
  · exact h
  · intro a ha
    rcases List.mem_append.mp ha with ha | ha
    · exact h a ha
    · rw [List.mem_singleton.mp ha]
      refine told_respond fun k x hx => ?_
      rcases hrefines.get_cases hnode k with hget | ⟨msgs, calls, hphase, hget⟩
      · obtain ⟨m, hm, htells⟩ := exists_tells_of_shown (hget ▸ hx)
        exact ⟨m, hframed.sofar.subset (List.mem_append_left _ hm), htells⟩
      · obtain ⟨m, hm, htells⟩ := exists_tells_of_shown (hget ▸ hx)
        refine ⟨m, hframed.sofar.subset ?_, htells⟩
        rwa [whole, hphase]

theorem told_run (hnode : node.Separate) (hlast : registered.getLast? = some node)
    (turns : List Turn) : AllTold inet node (run inet registered turns) := by
  refine run_keeps hlast (fun pre a _ h => ?_) (fun _ _ _ _ _ h => h) (fun pre h => ?_) ?_ turns
  · obtain ⟨hheard, hanswers⟩ := heard_resume inet node a (run inet registered pre)
    intro b hb
    exact (h b (hanswers ▸ hb)).mono (whole_isPrefix hheard)
  · exact h.answer hnode (framed_run inet hlast pre) (refines_run inet hlast pre)
  · intro b hb
    cases hb

end ClearwaterSnmp.StatsAgent
