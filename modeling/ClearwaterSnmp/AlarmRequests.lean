import ClearwaterSnmp.AlarmAgent
import ClearwaterSnmp.Multipart

namespace ClearwaterSnmp
open Multipart

/-- `errno`, as far as the listener tells errors apart. `ETERM` differs from others in what is
logged. -/
inductive Errno
  | eintr
  | eterm
  | other (code : ℕ)
deriving DecidableEq

/-- What each library call would return if it were made now: its error, if any, or what it
yields. -/
structure Answers where
  msgInit : Option Errno
  msgRecv : Except Errno String
  rcvmore : Except Errno Bool
  msgClose : Option Errno
  send : Option Errno

/-- All goes well, and the only part of a `poll` arrives. -/
def Answers.poll : Answers := ⟨none, .ok "poll", .ok false, none, none⟩

/-- What `listener` does next, with the parts of the message in hand. -/
inductive Phase
  | initPart (msg : List String)
  | recv (msg : List String)
  | getMore (msg : List String) (part : String)
  | closePart (msg : List String) (more : Bool)
  | dispatch (msg : List String)
  | reply
  | cleanSocket
  | ended
deriving DecidableEq

/-- The listener thread and the agent it works for. Not in the code are the parts that have been
read, the messages that have been dispatched, how each reply fared, whether the peer waits for
one, and how often the socket has been closed. -/
structure AlarmReqListener (H : Type) where
  phase : Phase
  world : World H
  heard : List (String × Bool)
  handled : List (List String)
  replies : List (Option Errno)
  owed : Bool
  closes : ℕ

namespace AlarmReqListener

variable {H : Type} (cfg : Setup H)

/-- What a message asks of the scheduler. A `poll`, like a message that is not understood, asks
nothing. -/
def request (msg : List String) : Option (Event cfg.defs) :=
  if msg[0]? = some "issue-alarm" ∧ msg.length = 3 then some (.issueAlarm (msg.getD 2 ""))
  else if msg[0]? = some "sync-alarms" ∧ msg.length = 1 then some .syncAlarms
  else none

/-- The next library call, or the dispatch of a message, in `listener` and `next_msg`. -/
def resume (a : Answers) (l : AlarmReqListener H) : AlarmReqListener H :=
  match l.phase with
  | .initPart msg =>
    match a.msgInit with
    | some _ => { l with phase := .cleanSocket }
    | none => { l with phase := .recv msg }
  | .recv msg =>
    match a.msgRecv with
    | .error .eintr => l
    | .error _ => { l with phase := .cleanSocket }
    | .ok part => { l with phase := .getMore msg part }
  | .getMore msg part =>
    match a.rcvmore with
    | .error .eintr => l
    | .error _ => { l with phase := .cleanSocket }
    | .ok more =>
      { l with
        phase := .closePart (msg ++ [part]) more
        heard := l.heard ++ [(part, more)]
        owed := !more }
  | .closePart msg more =>
    match a.msgClose with
    | some _ => { l with phase := .cleanSocket }
    | none => { l with phase := if more then .initPart msg else .dispatch msg }
  | .dispatch msg =>
    { l with
      phase := .reply
      world := (request cfg msg).elim l.world (World.step cfg l.world)
      handled := l.handled ++ [msg] }
  -- a failure to reply is only logged
  | .reply =>
    { l with
      phase := .initPart []
      replies := l.replies ++ [a.send]
      owed := l.owed && a.send.isSome }
  | .cleanSocket => { l with phase := .ended, closes := l.closes + 1 }
  | .ended => l

/-- The listener goes on, or something else happens to the agent. -/
inductive Turn (defs : AlarmTableDefs)
  | listener (a : Answers)
  | agent (e : Event defs)

def step (l : AlarmReqListener H) : Turn cfg.defs → AlarmReqListener H
  | .listener a => l.resume cfg a
  | .agent e => { l with world := World.step cfg l.world e }

/-- The listener when its thread starts. -/
def start (w : World H) : AlarmReqListener H := ⟨.initPart [], w, [], [], [], false, 0⟩

/-- The listener after some turns. -/
def run (w : World H) (turns : List (Turn cfg.defs)) : AlarmReqListener H :=
  Runs.run (step cfg) (start w) turns

/-- What a turn of the listener does, call by call. -/
inductive Resumed (cfg : Setup H) (a : Answers) (l : AlarmReqListener H) : AlarmReqListener H → Prop
  | fails (h : (∃ msg, l.phase = .initPart msg ∧ a.msgInit.isSome) ∨
      (∃ msg e, l.phase = .recv msg ∧ a.msgRecv = .error e ∧ e ≠ .eintr) ∨
      (∃ msg part e, l.phase = .getMore msg part ∧ a.rcvmore = .error e ∧ e ≠ .eintr) ∨
      ∃ msg more, l.phase = .closePart msg more ∧ a.msgClose.isSome) :
      Resumed cfg a l { l with phase := .cleanSocket }
  | interrupted (h : (∃ msg, l.phase = .recv msg ∧ a.msgRecv = .error .eintr) ∨
      ∃ msg part, l.phase = .getMore msg part ∧ a.rcvmore = .error .eintr) : Resumed cfg a l l
  | inits {msg} (h : l.phase = .initPart msg) : Resumed cfg a l { l with phase := .recv msg }
  | receives {msg part} (h : l.phase = .recv msg) (ha : a.msgRecv = .ok part) :
      Resumed cfg a l { l with phase := .getMore msg part }
  | hears {msg part more} (h : l.phase = .getMore msg part) (ha : a.rcvmore = .ok more) :
      Resumed cfg a l { l with
        phase := .closePart (msg ++ [part]) more
        heard := l.heard ++ [(part, more)]
        owed := !more }
  | goesOn {msg} (h : l.phase = .closePart msg true) :
      Resumed cfg a l { l with phase := .initPart msg }
  | completes {msg} (h : l.phase = .closePart msg false) :
      Resumed cfg a l { l with phase := .dispatch msg }
  | dispatches {msg} (h : l.phase = .dispatch msg) :
      Resumed cfg a l { l with
        phase := .reply
        world := (request cfg msg).elim l.world (World.step cfg l.world)
        handled := l.handled ++ [msg] }
  | replies (h : l.phase = .reply) :
      Resumed cfg a l { l with
        phase := .initPart []
        replies := l.replies ++ [a.send]
        owed := l.owed && a.send.isSome }
  | closes (h : l.phase = .cleanSocket) :
      Resumed cfg a l { l with phase := .ended, closes := l.closes + 1 }
  | idles (h : l.phase = .ended) : Resumed cfg a l l

theorem resumed (a : Answers) (l : AlarmReqListener H) : Resumed cfg a l (l.resume cfg a) := by
  unfold resume
  split
  case h_1 msg hphase =>
    cases ha : a.msgInit with
    | none => exact .inits hphase
    | some e => exact .fails (.inl ⟨msg, hphase, by rw [ha]; rfl⟩)
  case h_2 msg hphase =>
    split
    case h_1 ha => exact .interrupted (.inl ⟨msg, hphase, ha⟩)
    case h_2 e hne ha => exact .fails (.inr (.inl ⟨msg, e, hphase, ha, hne⟩))
    case h_3 part ha => exact .receives hphase ha
  case h_3 msg part hphase =>
    split
    case h_1 ha => exact .interrupted (.inr ⟨msg, part, hphase, ha⟩)
    case h_2 e hne ha =>
      exact .fails (.inr (.inr (.inl ⟨msg, part, e, hphase, ha, hne⟩)))
    case h_3 more ha => exact .hears hphase ha
  case h_4 msg more hphase =>
    cases ha : a.msgClose with
    | none =>
      cases more with
      | true => exact .goesOn hphase
      | false => exact .completes hphase
    | some e => exact .fails (.inr (.inr (.inr ⟨msg, more, hphase, by rw [ha]; rfl⟩)))
  case h_5 msg hphase => exact .dispatches hphase
  case h_6 hphase => exact .replies hphase
  case h_7 hphase => exact .closes hphase
  case h_8 hphase => exact .idles hphase

/-! Framing. -/

/-- How the parts read so far relate to the messages dispatched and the one in hand. -/
def Framed (l : AlarmReqListener H) : Prop :=
  match l.phase with
  | .initPart msg | .recv msg | .getMore msg _ => assemble l.heard = ⟨l.handled, msg⟩
  | .closePart msg true => assemble l.heard = ⟨l.handled, msg⟩
  | .closePart msg false | .dispatch msg => assemble l.heard = ⟨l.handled ++ [msg], []⟩
  | .reply => assemble l.heard = ⟨l.handled, []⟩
  | .cleanSocket | .ended => l.handled <+: (assemble l.heard).whole

variable {cfg} {l : AlarmReqListener H}

theorem Framed.handled_isPrefix (h : l.Framed) : l.handled <+: (assemble l.heard).whole := by
  cases hp : l.phase with
  | initPart msg =>
    simp only [Framed, hp] at h
    rw [h]
  | recv msg =>
    simp only [Framed, hp] at h
    rw [h]
  | getMore msg part =>
    simp only [Framed, hp] at h
    rw [h]
  | closePart msg more =>
    cases more with
    | true =>
      simp only [Framed, hp] at h
      rw [h]
    | false =>
      simp only [Framed, hp] at h
      rw [h]
      exact List.prefix_append _ _
  | dispatch msg =>
    simp only [Framed, hp] at h
    rw [h]
    exact List.prefix_append _ _
  | reply =>
    simp only [Framed, hp] at h
    rw [h]
  | cleanSocket => simpa only [Framed, hp] using h
  | ended => simpa only [Framed, hp] using h

theorem Framed.resume (h : l.Framed) (a : Answers) : (l.resume cfg a).Framed := by
  have hprefix := h.handled_isPrefix
  have hr := resumed cfg a l
  generalize l.resume cfg a = l' at hr
  cases hr with
  | fails _ => exact hprefix
  | interrupted _ => exact h
  | inits hp => simpa only [Framed, hp] using h
  | receives hp _ => simpa only [Framed, hp] using h
  | @hears msg part more hp _ =>
    simp only [Framed, hp] at h
    cases more with
    | true => simp [Framed, assemble_concat, h, push]
    | false => simp [Framed, assemble_concat, h, push]
  | goesOn hp => simpa only [Framed, hp] using h
  | completes hp => simpa only [Framed, hp] using h
  | dispatches hp => simpa only [Framed, hp] using h
  | replies hp => simpa only [Framed, hp] using h
  | closes hp => exact hprefix
  | idles _ => exact h

theorem framed_run (w : World H) (turns : List (Turn cfg.defs)) : (run cfg w turns).Framed := by
  have hstart : (start w).Framed := by
    change assemble [] = _
    rfl
  refine Runs.run_invariant (I := Framed) (fun l turn h => ?_) hstart turns
  cases turn with
  | listener a => exact h.resume a
  | agent e => exact h

/-- If the parts that have been read are those of the messages `ms`, as far as they go, then the
messages dispatched are these, in order and as they were sent, and they are all of them once the
listener waits for another part. -/
theorem requests_framed (w : World H) {ms : List (List String)} (hms : ∀ m ∈ ms, m ≠ [])
    {turns : List (Turn cfg.defs)}
    (hheard : (run cfg w turns).heard <+: ms.flatMap encode) :
    (run cfg w turns).handled <+: ms ∧
      ∀ msg, (run cfg w turns).phase = .recv msg →
        (run cfg w turns).heard = ms.flatMap encode →
          msg = [] ∧ (run cfg w turns).handled = ms := by
  have h := framed_run w turns
  have hwhole := whole_isPrefix hheard
  rw [assemble_flatMap_encode hms] at hwhole
  refine ⟨h.handled_isPrefix.trans hwhole, fun msg hphase hall => ?_⟩
  simp only [Framed, hphase] at h
  rw [hall, assemble_flatMap_encode hms] at h
  obtain ⟨hmsgs, hmsg⟩ := Assembly.mk.inj h
  exact ⟨hmsg.symm, hmsgs.symm⟩

theorem requests_framed_poll :
    let turns : List (Turn Setup.sample.defs) := List.replicate 7 (.listener .poll)
    let l := run Setup.sample (World.init Setup.sample .initialised ⟨0, by decide⟩) turns
    (l.heard <+: [["poll"]].flatMap encode ∧ l.handled <+: [["poll"]]) ∧
      l.handled = [["poll"]] := by
  intro turns l
  have hms : ∀ m ∈ [["poll"]], m ≠ [] := by decide
  have hheard : l.heard <+: [["poll"]].flatMap encode := ⟨[], rfl⟩
  have h := requests_framed _ hms hheard
  exact ⟨⟨hheard, h.1⟩, (h.2 [] rfl rfl).2⟩

/-! Replies. -/

/-- Every message has been replied to once it has been dispatched, and the socket is closed at
the end only. -/
structure Answered (l : AlarmReqListener H) : Prop where
  replies : l.handled.length = l.replies.length + if l.phase = .reply then 1 else 0
  closes : l.closes = if l.phase = .ended then 1 else 0

theorem Answered.resume (h : l.Answered) (a : Answers) : (l.resume cfg a).Answered := by
  obtain ⟨hreplies, hcloses⟩ := h
  have hr := resumed cfg a l
  generalize l.resume cfg a = l' at hr
  cases hr with
  | fails hf =>
    obtain ⟨msg, hp, -⟩ | ⟨msg, e, hp, -⟩ | ⟨msg, part, e, hp, -⟩ | ⟨msg, more, hp, -⟩ := hf <;>
      exact ⟨by simpa [hp] using hreplies, by simpa [hp] using hcloses⟩
  | interrupted _ => exact ⟨hreplies, hcloses⟩
  | inits hp => exact ⟨by simpa [hp] using hreplies, by simpa [hp] using hcloses⟩
  | receives hp _ => exact ⟨by simpa [hp] using hreplies, by simpa [hp] using hcloses⟩
  | hears hp _ => exact ⟨by simpa [hp] using hreplies, by simpa [hp] using hcloses⟩
  | goesOn hp => exact ⟨by simpa [hp] using hreplies, by simpa [hp] using hcloses⟩
  | completes hp => exact ⟨by simpa [hp] using hreplies, by simpa [hp] using hcloses⟩
  | dispatches hp => exact ⟨by simpa [hp] using hreplies, by simpa [hp] using hcloses⟩
  | replies hp => exact ⟨by simpa [hp] using hreplies, by simpa [hp] using hcloses⟩
  | closes hp => exact ⟨by simpa [hp] using hreplies, by simpa [hp] using hcloses⟩
  | idles hp => exact ⟨hreplies, hcloses⟩

/-- The listener and its client are in step: at every moment each message dispatched has had
exactly one reply, but for the one in hand, which gets it before another part is asked for. No
message without parts is dispatched, so its first part can be looked at, and the socket is closed
exactly once, when the listener ends. -/
theorem one_reply_each (w : World H) (turns : List (Turn cfg.defs)) :
    let l := run cfg w turns
    (l.handled.length = l.replies.length + if l.phase = .reply then 1 else 0) ∧
      (∀ m ∈ l.handled, m ≠ []) ∧ l.closes = if l.phase = .ended then 1 else 0 := by
  intro l
  have hanswered : l.Answered := by
    refine Runs.run_invariant (I := Answered) (fun l turn h => ?_) ⟨rfl, rfl⟩ turns
    cases turn with
    | listener a => exact h.resume a
    | agent e => exact ⟨h.replies, h.closes⟩
  refine ⟨hanswered.replies, fun m hm => ?_, hanswered.closes⟩
  exact whole_ne_nil _ m ((framed_run w turns).handled_isPrefix.subset hm)

/-- A REP socket does not receive while its peer waits for a reply. -/
def Documented (cfg : Setup H) (l : AlarmReqListener H) : Turn cfg.defs → Prop
  | .listener a => match l.phase, a.msgRecv with
    | .recv _, .ok _ => l.owed = false
    | _, _ => True
  | .agent _ => True

/-- How the replies so far have fared, on a socket that works as documented. -/
def InTurn (l : AlarmReqListener H) : Prop :=
  let allSent := ∀ r ∈ l.replies, r = none
  let lastFailed := (∀ r ∈ l.replies.dropLast, r = none) ∧ ∃ e, l.replies.getLast? = some (some e)
  match l.phase with
  | .initPart _ | .recv _ => l.owed = false ∧ allSent ∨ l.owed = true ∧ lastFailed
  | .getMore _ _ => l.owed = false ∧ allSent
  | .closePart _ more => l.owed = !more ∧ allSent
  | .dispatch _ | .reply => l.owed = true ∧ allSent
  | .cleanSocket | .ended => allSent ∨ lastFailed

theorem InTurn.replies (h : l.InTurn) :
    (∀ r ∈ l.replies, r = none) ∨
      (∀ r ∈ l.replies.dropLast, r = none) ∧ ∃ e, l.replies.getLast? = some (some e) := by
  cases hp : l.phase with
  | initPart msg =>
    simp only [InTurn, hp] at h
    exact h.imp And.right And.right
  | recv msg =>
    simp only [InTurn, hp] at h
    exact h.imp And.right And.right
  | getMore msg part =>
    simp only [InTurn, hp] at h
    exact .inl h.2
  | closePart msg more =>
    simp only [InTurn, hp] at h
    exact .inl h.2
  | dispatch msg =>
    simp only [InTurn, hp] at h
    exact .inl h.2
  | reply =>
    simp only [InTurn, hp] at h
    exact .inl h.2
  | cleanSocket => simpa only [InTurn, hp] using h
  | ended => simpa only [InTurn, hp] using h

theorem InTurn.resume (h : l.InTurn) {a : Answers}
    (hdoc : Documented cfg l (.listener a)) : (l.resume cfg a).InTurn := by
  have hreplies := h.replies
  have hr := resumed cfg a l
  generalize l.resume cfg a = l' at hr
  cases hr with
  | fails _ => exact hreplies
  | interrupted _ => exact h
  | inits hp => simpa only [InTurn, hp] using h
  | receives hp ha =>
    simp only [Documented, hp, ha] at hdoc
    simp only [InTurn, hp, hdoc] at h ⊢
    simpa using h
  | hears hp _ =>
    simp only [InTurn, hp] at h
    exact ⟨rfl, h.2⟩
  | goesOn hp =>
    simp only [InTurn, hp] at h
    exact .inl h
  | completes hp =>
    simp only [InTurn, hp] at h
    exact h
  | dispatches hp => simpa only [InTurn, hp] using h
  | replies hp =>
    simp only [InTurn, hp] at h
    obtain ⟨howed, hsent⟩ := h
    cases hs : a.send with
    | none =>
      refine .inl ⟨by simp, fun r hr => ?_⟩
      rcases List.mem_append.mp hr with hr | hr
      · exact hsent r hr
      · exact List.mem_singleton.mp hr
    | some e =>
      refine .inr ⟨by simp [howed], ?_, e, by simp⟩
      rw [List.dropLast_concat]
      exact hsent
  | closes _ => exact hreplies
  | idles _ => exact h

/-- On a socket that works as documented, only the last of all replies can have failed: a reply
that cannot be sent, if only because of a signal, leaves the listener unable to receive, and no
other request is ever dispatched. -/
theorem failed_reply_is_last (w : World H) {turns : List (Turn cfg.defs)}
    (hdoc : Runs.Along (step cfg) (Documented cfg) (start w) turns) :
    let l := run cfg w turns
    (∀ r ∈ l.replies.dropLast, r = none) ∧
      ∀ e, l.replies.getLast? = some (some e) → ∀ msg, l.phase ≠ .dispatch msg := by
  intro l
  have h : l.InTurn := by
    refine Runs.run_invariant_along (I := InTurn) (fun l turn h hturn => ?_)
      (.inl ⟨rfl, by simp [start]⟩) hdoc
    cases turn with
    | listener a => exact h.resume hturn
    | agent e => exact h
  constructor
  · rcases h.replies with hsent | hlast
    · exact fun r hr => hsent r (List.dropLast_subset _ hr)
    · exact hlast.1
  · intro e he msg hp
    simp only [InTurn, hp] at h
    have hnone := h.2 _ (List.mem_of_getLast? he)
    simp at hnone

/-- A `poll` whose reply a signal interrupts. -/
theorem failed_reply_is_last_poll :
    let turns : List (Turn Setup.sample.defs) :=
      List.replicate 5 (.listener .poll) ++
        [.listener { Answers.poll with send := some .eintr }, .listener .poll,
          .listener { Answers.poll with msgRecv := .error (.other 156384763) }, .listener .poll]
    let w := World.init Setup.sample .initialised ⟨0, by decide⟩
    Runs.Along (step Setup.sample) (Documented Setup.sample) (start w) turns ∧
      (∀ r ∈ (run Setup.sample w turns).replies.dropLast, r = none) ∧
      (run Setup.sample w turns).phase = .ended := by
  intro turns w
  have hdoc : Runs.Along (step Setup.sample) (Documented Setup.sample) (start w) turns :=
    ⟨trivial, rfl, trivial, trivial, trivial, trivial, trivial, trivial, trivial, trivial⟩
  exact ⟨hdoc, (failed_reply_is_last w hdoc).1, rfl⟩

/-! The end of the listener. -/

/-- The call that is made ends the listener. An interrupted receive is made again, and whether a
reply is sent does not matter. -/
def fatal (l : AlarmReqListener H) (a : Answers) : Bool :=
  match l.phase with
  | .initPart _ => a.msgInit.isSome
  | .recv _ => match a.msgRecv with
    | .error .eintr | .ok _ => false
    | .error _ => true
  | .getMore _ _ => match a.rcvmore with
    | .error .eintr | .ok _ => false
    | .error _ => true
  | .closePart _ _ => a.msgClose.isSome
  | _ => false

/-- The listener has not been told to stop. -/
def Alive (l : AlarmReqListener H) : Prop := l.phase ≠ .cleanSocket ∧ l.phase ≠ .ended

theorem alive_resume (h : l.Alive) (a : Answers) :
    (l.resume cfg a).Alive ↔ l.fatal a = false := by
  unfold Alive resume fatal at *
  cases hp : l.phase with
  | initPart msg => cases a.msgInit <;> simp
  | recv msg =>
    cases a.msgRecv with
    | error e => cases e <;> simp [hp]
    | ok part => simp
  | getMore msg part =>
    cases a.rcvmore with
    | error e => cases e <;> simp [hp]
    | ok more => simp
  | closePart msg more => cases a.msgClose <;> cases more <;> simp
  | dispatch msg => simp
  | reply => simp
  | cleanSocket => exact absurd hp h.1
  | ended => exact absurd hp h.2

/-- No call ends the listener in this turn. -/
def Survives (cfg : Setup H) (l : AlarmReqListener H) : Turn cfg.defs → Prop
  | .listener a => l.fatal a = false
  | .agent _ => True

/-- The listener lasts as long as no call fails that is fatal where it is made. -/
theorem listener_lasts_iff (w : World H) (turns : List (Turn cfg.defs)) :
    (∀ p, p <+: turns → (run cfg w p).Alive) ↔
      Runs.Along (step cfg) (Survives cfg) (start w) turns := by
  refine Runs.forall_prefix_iff_along (I := fun _ => True) (Q := Alive) (fun _ _ _ => trivial)
    (fun l turn _ h => ?_) trivial ⟨by simp [start], by simp [start]⟩ turns
  cases turn with
  | listener a => exact alive_resume h a
  | agent e => exact iff_of_true h trivial

/-! What the scheduler is asked for. -/

def isRequest {defs : AlarmTableDefs} : Event defs → Bool
  | .issueAlarm _ | .syncAlarms => true
  | _ => false

theorem isRequest_of_request {msg : List String} {e : Event cfg.defs}
    (h : request cfg msg = some e) : isRequest e = true := by
  unfold request at h
  split at h
  · cases h
    rfl
  · split at h
    · cases h
      rfl
    · cases h

/-- The agent is one that some events have led to, with the requests of the messages dispatched
among them. -/
def Asked (cfg : Setup H) (w : World H) (l : AlarmReqListener H) : Prop :=
  ∃ es : List (Event cfg.defs), l.world = Runs.run (World.step cfg) w es ∧
    es.filter isRequest = l.handled.filterMap (request cfg)

theorem Asked.resume {w : World H} (h : Asked cfg w l) (a : Answers) :
    Asked cfg w (l.resume cfg a) := by
  have hr := resumed cfg a l
  generalize l.resume cfg a = l' at hr
  cases hr with
  | @dispatches msg hp =>
    obtain ⟨es, hworld, hes⟩ := h
    cases hreq : request cfg msg with
    | none => exact ⟨es, hworld, by simp [hes, hreq]⟩
    | some e =>
      refine ⟨es ++ [e], ?_, ?_⟩
      · rw [Runs.run_append, ← hworld]
        rfl
      · simp [hes, hreq, isRequest_of_request hreq]
  | fails _ => exact h
  | interrupted _ => exact h
  | inits _ => exact h
  | receives _ _ => exact h
  | hears _ _ => exact h
  | goesOn _ => exact h
  | completes _ => exact h
  | replies _ => exact h
  | closes _ => exact h
  | idles _ => exact h

end AlarmReqListener
end ClearwaterSnmp
