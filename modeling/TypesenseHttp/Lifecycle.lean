import Mathlib.Data.Multiset.OrderedMonoid
import Mathlib.Logic.Hydra
import Mathlib.Tactic.Abel
import TypesenseHttp.Relay

/-!
# Stopping the server

`HttpServer::run` ends in `while(!exit_loop) h2o_evloop_run(ctx.loop, INT32_MAX);`. Each call of
`h2o_evloop_run` polls once, waiting up to `INT32_MAX` milliseconds (almost 25 days) for an event,
handles what it found and returns. `HttpServer::stop` runs on another thread. It sets `exit_loop`,
then sends `STOP_SERVER_MESSAGE` through the message queue "to activate the idle event loop".
`on_stop_server`, the handler `run` registered for that message, does nothing: the message is there
only to wake the loop.

The model interleaves the event loop's thread, the thread calling `stop`, and other threads that
`send_message`, over one shared state. The message queue is the relay of `Relay`. When the inbox
holds a message, h2o's `queue_cb` detaches it for `on_message` (`wake`), and it detaches again, in
the same call of `h2o_evloop_run`, as long as the receiver has messages when `on_message` has
emptied its list: a handler's own `send_message` is drained in the same call. Only with the inbox
empty does the call return (`finish`). Any other event (a socket, a timer, the end of the wait)
makes a poll return without a message (`io`). Steps are sequentially consistent; the queue's mutex
orders the store to `exit_loop` before the loop's read of the message sent after it. `stop`'s
calls on the listener socket, and `run`'s setup before the loop, are left out.

**The laws.**
- `serverRun_relay`: in every interleaving, the queue goes through a run of `Relay`, so
  everything proved there about runs holds of the server's queue.
- `stop_wakes_loop`: once `stop` has returned, a loop waiting in its poll always has the stop
  message in its inbox, so the poll returns at once. `run` returns only after `stop` set the flag.
- `stop_returns`: once `stop` has returned, the loop's thread running alone (`soloRun`) reaches
  `return 0`, provided no chain of messages whose handlers re-post one another goes on without end.
- `stop_blocked_by_repost`: and when such a chain is queued, the loop's thread never returns from
  `run`, however long it runs alone: `queue_cb` keeps draining while the receiver has messages.
-/

namespace TypesenseHttp

/-- Where the event loop's thread is in `HttpServer::run`. -/
inductive LoopPc where
  /-- At the test `!exit_loop` of the `while`. -/
  | test
  /-- In `h2o_evloop_run`, polling for an event. -/
  | polling
  /-- In `h2o_evloop_run`, running `on_message` over the list it detached. -/
  | draining
  /-- Past the loop: `run` returns `0`. -/
  | returned
  deriving DecidableEq, Repr

/-- Where the thread calling `HttpServer::stop` is. -/
inductive StopPc where
  /-- `stop` has not been called. -/
  | idle
  /-- Past `exit_loop = true`. -/
  | flagged
  /-- Past `send_message(STOP_SERVER_MESSAGE, nullptr)`: `stop` has returned. -/
  | done
  deriving DecidableEq, Repr

/-- The server once `run` has entered its loop: the message queue, `exit_loop`, and where the two
threads are. -/
structure Server (H D : Type) where
  relay : Relay H D
  exitLoop : Bool
  loop : LoopPc
  stopper : StopPc

/-- What one thread does in one step. -/
inductive Event (D : Type) where
  /-- `send_message` from any other thread. -/
  | send (m : Message D)
  /-- `stop`: `exit_loop = true`. -/
  | setFlag
  /-- `stop`: `send_message(STOP_SERVER_MESSAGE, nullptr)`. -/
  | sendStop
  /-- `run`: the test of the `while`. -/
  | test
  /-- `queue_cb`: the receiver has messages, and the inbox is detached for `on_message`, when the
  loop polls or once `on_message` has emptied the list it detached. -/
  | wake
  /-- `h2o_evloop_run` returns after any other event, or at the end of its wait. -/
  | io
  /-- One turn of `on_message`, its handler sending `sends`. -/
  | dispatch (sends : List (Message D))
  /-- `queue_cb` finds the inbox empty once `on_message` has emptied its list, and
  `h2o_evloop_run` returns. -/
  | finish

section Server

variable {H D : Type} (handlers : StrMap H) (stopMessage : Message D)

/-- The server as `run` enters its loop: nothing sent, `exit_loop` false, `stop` not called. -/
def Server.init : Server H D := ⟨.init, false, .test, .idle⟩

/-- The server's step, with `stopMessage` the message `stop` sends: `none` when the event cannot
happen in the state. Queue events are the relay's steps. -/
def serverStep (x : Server H D) : Event D → Option (Server H D)
  | .send m => (step handlers x.relay (.send m)).map fun r => { x with relay := r }
  | .setFlag => if x.stopper = .idle then some { x with exitLoop := true, stopper := .flagged } else none
  | .sendStop =>
    if x.stopper = .flagged then
      (step handlers x.relay (.send stopMessage)).map fun r => { x with relay := r, stopper := .done }
    else none
  | .test =>
    if x.loop = .test then some { x with loop := if x.exitLoop then .returned else .polling } else none
  | .wake =>
    if (x.loop = .polling ∨ x.loop = .draining ∧ x.relay.detached.length = 0) ∧
        0 < x.relay.inbox.length then
      (step handlers x.relay .wakeup).map fun r => { x with relay := r, loop := .draining }
    else none
  | .io => if x.loop = .polling then some { x with loop := .test } else none
  | .dispatch sends =>
    if x.loop = .draining ∧ 0 < x.relay.detached.length then
      (step handlers x.relay (.dispatch sends)).map fun r => { x with relay := r }
    else none
  | .finish =>
    if x.loop = .draining ∧ x.relay.detached.length = 0 ∧ x.relay.inbox.length = 0 then
      some { x with loop := .test }
    else none

/-- A run of events, in any interleaving of the threads. -/
def serverRun : List (Event D) → Server H D → Option (Server H D)
  | [], x => some x
  | e :: events, x => (serverStep handlers stopMessage x e).bind (serverRun events)

/-- The queue's part of an event: the relay action it takes, if any. -/
def Event.toAction : Event D → Option (Action D)
  | .send m => some (.send m)
  | .sendStop => some (.send stopMessage)
  | .wake => some .wakeup
  | .dispatch sends => some (.dispatch sends)
  | _ => none

/-! ## The queue is a relay -/

/-- One server step moves the queue by the relay's step of its action, or leaves it alone. -/
theorem serverStep_relay {x y : Server H D} {e : Event D} (h : serverStep handlers stopMessage x e = some y) :
    (match e.toAction stopMessage with
      | some a => step handlers x.relay a
      | none => some x.relay) = some y.relay := by
  cases e <;> simp only [serverStep] at h <;> (try split at h) <;>
    first
    | (obtain ⟨r, hr, rfl⟩ := Option.map_eq_some'.mp h; exact hr)
    | (cases h; rfl)
    | cases h

/-- **The server's queue runs the relay**: every interleaving of the loop, `stop` and other
senders drives the queue through a run of `Relay`, of the events' actions in order. -/
theorem serverRun_relay {events : List (Event D)} {x y : Server H D}
    (h : serverRun handlers stopMessage events x = some y) :
    run handlers (events.filterMap (Event.toAction stopMessage)) x.relay = some y.relay := by
  induction events generalizing x with
  | nil => cases h; rfl
  | cons e events ih =>
    obtain ⟨x', hstep, hrun⟩ := Option.bind_eq_some.mp h
    have hrel := serverStep_relay handlers stopMessage hstep
    rw [List.filterMap_cons]
    cases ha : e.toAction stopMessage <;> rw [ha] at hrel
    · rw [Option.some.inj hrel]; exact ih hrun
    · exact Option.bind_eq_some.mpr ⟨_, hrel, ih hrun⟩

/-! ## Stopping -/

/-- What every reachable state satisfies. -/
structure Server.Inv (x : Server H D) : Prop where
  /-- The destructor has not started while `run` is in its loop. -/
  live : x.relay.destroying = false
  /-- Only a drain holds a detached list. -/
  idle : x.loop ≠ .draining → x.relay.detached = []
  /-- `stop` sets the flag before anything else. -/
  flagged : x.stopper ≠ .idle → x.exitLoop = true
  /-- Only `stop` sets the flag. -/
  byStop : x.exitLoop = true → x.stopper ≠ .idle
  /-- `run` leaves its loop only on the flag. -/
  exited : x.loop = .returned → x.exitLoop = true
  /-- Once `stop` has returned, a polling loop has the stop message in its inbox. -/
  awake : x.stopper = .done → x.loop = .polling → stopMessage.posted ∈ x.relay.inbox

theorem Server.inv_init : (Server.init : Server H D).Inv stopMessage :=
  ⟨rfl, fun _ => rfl, fun h => absurd rfl h, nofun, nofun, nofun⟩

theorem step_send_live {r : Relay H D} (m : Message D) (hlive : r.destroying = false) :
    step handlers r (.send m) = some (sendMessage r m) := by
  simp [step, hlive]

theorem step_wakeup_live {r : Relay H D} (hlive : r.destroying = false) (hidle : r.detached = []) :
    step handlers r .wakeup = some { r with inbox := [], detached := r.inbox } := by
  simp [step, hlive, hidle]

theorem step_dispatch_cons {r : Relay H D} {m : Message D} {rest : List (Message D)}
    (sends : List (Message D)) (hdet : r.detached = m :: rest) :
    step handlers r (.dispatch sends) = some (onMessage handlers m sends { r with detached := rest }) := by
  simp [step, hdet]

/-- **Every step keeps the invariant.** -/
theorem serverStep_inv {x y : Server H D} {e : Event D} (hx : x.Inv stopMessage)
    (h : serverStep handlers stopMessage x e = some y) : y.Inv stopMessage := by
  obtain ⟨hlive, hidle, hflag, hby, hexit, hawake⟩ := hx
  cases e with
  | send m =>
    simp only [serverStep, step_send_live handlers m hlive, Option.map_some', Option.some.injEq] at h
    subst h
    exact ⟨hlive, hidle, hflag, hby, hexit, fun hd hp => by simp [sendMessage, hawake hd hp]⟩
  | setFlag =>
    simp only [serverStep] at h
    split at h
    · cases h
      exact ⟨hlive, hidle, fun _ => rfl, fun _ => nofun, fun _ => rfl, nofun⟩
    · cases h
  | sendStop =>
    simp only [serverStep] at h
    split at h
    · next hs =>
      simp only [step_send_live handlers _ hlive, Option.map_some', Option.some.injEq] at h
      subst h
      exact ⟨hlive, hidle, fun _ => hflag (by simp [hs]), fun _ => nofun, hexit,
        fun _ _ => by simp [sendMessage]⟩
    · cases h
  | test =>
    simp only [serverStep] at h
    split at h
    · next hl =>
      cases h
      refine ⟨hlive, fun _ => hidle (by simp [hl]), hflag, hby, fun hr => ?_, fun hd hp => ?_⟩
      · simp only at hr ⊢
        split at hr
        · assumption
        · cases hr
      · have hb := hflag (by simp only at hd; simp [hd])
        simp [hb] at hp
    · cases h
  | wake =>
    simp only [serverStep] at h
    split at h
    · next hc =>
      have hdet : x.relay.detached = [] := by
        rcases hc.1 with hl | ⟨-, hd⟩
        · exact hidle (by simp [hl])
        · exact List.length_eq_zero.mp hd
      simp only [step_wakeup_live handlers hlive hdet, Option.map_some', Option.some.injEq] at h
      subst h
      exact ⟨hlive, nofun, hflag, hby, nofun, fun _ => nofun⟩
    · cases h
  | io =>
    simp only [serverStep] at h
    split at h
    · next hl =>
      cases h
      exact ⟨hlive, fun _ => hidle (by simp [hl]), hflag, hby, nofun, fun _ => nofun⟩
    · cases h
  | dispatch sends =>
    simp only [serverStep] at h
    split at h
    · next hc =>
      obtain ⟨m, rest, hdet⟩ := List.exists_cons_of_length_pos hc.2
      simp only [step_dispatch_cons handlers sends hdet, Option.map_some', Option.some.injEq] at h
      subst h
      exact ⟨by simp [hlive], fun h' => absurd hc.1 h', hflag, hby,
        fun h' => absurd (hc.1.symm.trans h') nofun, fun _ h' => absurd (hc.1.symm.trans h') nofun⟩
    · cases h
  | finish =>
    simp only [serverStep] at h
    split at h
    · next hc =>
      cases h
      exact ⟨hlive, fun _ => List.length_eq_zero.mp hc.2.1, hflag, hby, nofun, fun _ => nofun⟩
    · cases h

/-- **Every run keeps the invariant.** -/
theorem serverRun_inv {events : List (Event D)} {x y : Server H D} (hx : x.Inv stopMessage)
    (h : serverRun handlers stopMessage events x = some y) : y.Inv stopMessage := by
  induction events generalizing x with
  | nil => cases h; exact hx
  | cons e events ih =>
    obtain ⟨x', hstep, hrun⟩ := Option.bind_eq_some.mp h
    exact ih (serverStep_inv handlers stopMessage hx hstep) hrun

/-- **The stop message is never lost.** In every interleaving, once `stop` has returned, a loop
polling for an event has the stop message queued, so its poll returns at once instead of waiting
out `INT32_MAX`; and `run` has returned only if `stop` has set `exit_loop`. -/
theorem stop_wakes_loop {events : List (Event D)} {y : Server H D}
    (h : serverRun handlers stopMessage events .init = some y) :
    (y.stopper = .done → y.loop = .polling → stopMessage.posted ∈ y.relay.inbox) ∧
      (y.loop = .returned → y.stopper ≠ .idle) := by
  have hy := serverRun_inv handlers stopMessage (Server.inv_init stopMessage) h
  exact ⟨hy.awake, fun hr => hy.byStop (hy.exited hr)⟩

/-- The race the flag and the message are for: the loop tests the flag just before `stop` sets
it, and polls. -/
theorem stop_wakes_loop_late_flag :
    ∃ y, serverRun (handlersOf [("stop".toList, 0)]) (⟨1, "stop".toList, 0⟩ : Message Nat)
        [.test, .setFlag, .sendStop] .init = some y ∧
      (y.stopper = .done → y.loop = .polling → Message.posted ⟨1, "stop".toList, 0⟩ ∈ y.relay.inbox) ∧
      (y.loop = .returned → y.stopper ≠ .idle) :=
  ⟨_, rfl, @stop_wakes_loop Nat Nat (handlersOf [("stop".toList, 0)]) ⟨1, "stop".toList, 0⟩
    [.test, .setFlag, .sendStop] _ rfl⟩

/-! ## The loop's thread alone -/

/-- The messages queued for the loop's thread: the list `on_message` is draining, then the
inbox. -/
def Server.queued (x : Server H D) : List (Message D) := x.relay.detached ++ x.relay.inbox

/-- The event the loop's thread takes next by itself, the handler of each message `m` sending
`sends m`: `none` while it waits for an event from outside (a poll with nothing queued), and once
`run` has returned. -/
def loopEvent (sends : Message D → List (Message D)) (x : Server H D) : Option (Event D) :=
  match x.loop, x.relay.detached, x.relay.inbox with
  | .test, _, _ => some .test
  | .polling, _, [] => none
  | .polling, _, _ :: _ => some .wake
  | .draining, m :: _, _ => some (.dispatch (sends m))
  | .draining, [], _ :: _ => some .wake
  | .draining, [], [] => some .finish
  | .returned, _, _ => none

/-- The loop's thread running alone, for at most `fuel` of its own events, the handler of each
message `m` sending `sends m`. It stops where it would wait for something else. -/
def soloRun (sends : Message D → List (Message D)) : Nat → Server H D → Server H D
  | 0, x => x
  | fuel + 1, x =>
    match loopEvent sends x with
    | none => x
    | some e =>
      match serverStep handlers stopMessage x e with
      | none => x
      | some y => soloRun sends fuel y

theorem soloRun_step (sends : Message D → List (Message D)) {x y : Server H D} {e : Event D} (n : Nat)
    (he : loopEvent sends x = some e) (h : serverStep handlers stopMessage x e = some y) :
    soloRun handlers stopMessage sends (n + 1) x = soloRun handlers stopMessage sends n y := by
  simp [soloRun, he, h]

/-- What each step of the loop's thread alone keeps holds all along its solo run. -/
theorem soloRun_preserves (sends : Message D → List (Message D)) (P : Server H D → Prop)
    (hstep : ∀ {x y e}, P x → loopEvent sends x = some e → serverStep handlers stopMessage x e = some y → P y)
    (n : Nat) {x : Server H D} (hx : P x) : P (soloRun handlers stopMessage sends n x) := by
  induction n generalizing x with
  | zero => exact hx
  | succ n ih =>
    cases he : loopEvent sends x with
    | none => simpa [soloRun, he] using hx
    | some e =>
      cases h : serverStep handlers stopMessage x e with
      | none => simpa [soloRun, he, h] using hx
      | some y => rw [soloRun_step handlers stopMessage sends n he h]; exact ih (hstep hx he h)

/-- A solo run that returns after one step of the loop's thread returns from before that step. -/
theorem soloRun_returns_of_step (sends : Message D → List (Message D)) {x y : Server H D} {e : Event D}
    (he : loopEvent sends x = some e) (h : serverStep handlers stopMessage x e = some y)
    (hy : ∃ n, (soloRun handlers stopMessage sends n y).loop = .returned) :
    ∃ n, (soloRun handlers stopMessage sends n x).loop = .returned :=
  let ⟨n, hn⟩ := hy
  ⟨n + 1, (congrArg Server.loop (soloRun_step handlers stopMessage sends n he h)).trans hn⟩

/-- What the loop's thread can take next by itself. -/
theorem loopEvent_cases {sends : Message D → List (Message D)} {x : Server H D} {e : Event D}
    (he : loopEvent sends x = some e) :
    (x.loop = .test ∧ e = .test) ∨ e = .wake ∨
      (∃ m rest, x.loop = .draining ∧ x.relay.detached = m :: rest ∧ e = .dispatch (sends m)) ∨
      (e = .finish ∧ x.queued = []) := by
  unfold loopEvent at he
  split at he <;> simp_all [Server.queued]

/-- A wake moves the inbox to the list `on_message` drains: the same messages stay queued. -/
theorem serverStep_wake {x y : Server H D} (h : serverStep handlers stopMessage x .wake = some y) :
    y.loop = .draining ∧ y.queued = x.queued ∧ y.relay.inbox = [] ∧ y.exitLoop = x.exitLoop ∧
      y.relay.destroying = x.relay.destroying := by
  simp only [serverStep] at h
  split at h
  · obtain ⟨r, hr, rfl⟩ := Option.map_eq_some'.mp h
    cases hdes : x.relay.destroying <;> cases hdet : x.relay.detached <;>
      simp [step, hdes, hdet] at hr
    subst hr
    simp [Server.queued, hdet, hdes]
  · cases h

/-- With nothing detached and a message in the inbox, a polling or draining loop wakes. -/
theorem serverStep_wake_some {x : Server H D} (hloop : x.loop = .polling ∨ x.loop = .draining)
    (hlive : x.relay.destroying = false) (hdet : x.relay.detached = []) (hin : x.relay.inbox ≠ []) :
    ∃ y, serverStep handlers stopMessage x .wake = some y := by
  rcases hloop with hl | hl <;>
    simp [serverStep, hl, hdet, List.length_pos.mpr hin, step_wakeup_live handlers hlive hdet]

/-- One turn of `on_message`: the head of the list leaves the queue, and what its handler has
`send_message` allocate joins the queue at its tail. -/
theorem serverStep_dispatch {x : Server H D} {m : Message D} {rest : List (Message D)}
    (sends : List (Message D)) (hloop : x.loop = .draining) (hdet : x.relay.detached = m :: rest) :
    ∃ y, serverStep handlers stopMessage x (.dispatch sends) = some y ∧ y.loop = .draining ∧
      y.queued = rest ++ x.relay.inbox ++
        (if (handlers.lookup m.type).isSome then sends.map Message.posted else []) ∧
      y.exitLoop = x.exitLoop ∧ y.relay.destroying = x.relay.destroying := by
  refine ⟨{ x with relay := onMessage handlers m sends { x.relay with detached := rest } },
    by simp [serverStep, hloop, hdet, step_dispatch_cons handlers sends hdet], hloop, ?_, rfl, by simp⟩
  simp [Server.queued, onMessage_inbox]

/-- A turn replaces one queued message by what its handler re-posts, in the queue as a multiset. -/
theorem cutExpand_turn {r : Message D → Message D → Prop} {m : Message D} (rest t : List (Message D))
    (ht : ∀ m' ∈ t, r m' m) : Relation.CutExpand r ↑(rest ++ t) ↑(m :: rest) :=
  ⟨t, m, ht, by rw [← Multiset.coe_add, ← Multiset.cons_coe, ← Multiset.singleton_add]; abel⟩

/-- From a drain, with the flag set, the loop's thread alone reaches `return 0` when no chain of
re-posting goes on without end: each turn replaces a queued message by messages below it in the
re-posting order, so the queue falls in `Relation.CutExpand` of that order. -/
theorem soloRun_drain (sends : Message D → List (Message D))
    (hwf : WellFounded fun m' m => m' ∈ (sends m).map Message.posted) (Q : Multiset (Message D)) :
    ∀ x : Server H D, (x.queued : Multiset (Message D)) = Q → x.loop = .draining →
      x.relay.destroying = false → x.exitLoop = true →
      ∃ n, (soloRun handlers stopMessage sends n x).loop = .returned := by
  refine hwf.cutExpand.induction (C := fun Q => ∀ x : Server H D, (x.queued : Multiset _) = Q →
    x.loop = .draining → x.relay.destroying = false → x.exitLoop = true →
      ∃ n, (soloRun handlers stopMessage sends n x).loop = .returned) Q fun Q ih => ?_
  -- a turn of `on_message` on a list headed by `m` lowers the queue
  have hturn : ∀ x : Server H D, (x.queued : Multiset _) = Q → x.loop = .draining →
      x.relay.destroying = false → x.exitLoop = true → ∀ m rest, x.relay.detached = m :: rest →
      ∃ n, (soloRun handlers stopMessage sends n x).loop = .returned := by
    intro x hQ hloop hlive hflag m rest hdet
    obtain ⟨y, hy, hyl, hyq, hyf, hyd⟩ := serverStep_dispatch handlers stopMessage (sends m) hloop hdet
    have hcut : Relation.CutExpand (fun m' m => m' ∈ (sends m).map Message.posted)
        (y.queued : Multiset _) Q := by
      rw [← hQ, hyq, Server.queued, hdet, List.cons_append]
      refine cutExpand_turn _ _ fun m' hm' => ?_
      split at hm'
      · exact hm'
      · cases hm'
    exact soloRun_returns_of_step handlers stopMessage sends (by simp [loopEvent, hloop, hdet]) hy
      (ih _ hcut y rfl hyl (hyd.trans hlive) (hyf.trans hflag))
  intro x hQ hloop hlive hflag
  rcases hdet : x.relay.detached with _ | ⟨m, rest⟩
  · rcases hin : x.relay.inbox with _ | ⟨m, rest⟩
    · exact ⟨2, by simp [soloRun, loopEvent, serverStep, hloop, hdet, hin, hflag]⟩
    · -- `queue_cb` detaches the inbox again, then the turn on its head
      obtain ⟨x1, hx1⟩ := serverStep_wake_some handlers stopMessage (.inr hloop) hlive hdet (by simp [hin])
      obtain ⟨hl1, hq1, hin1, hf1, hd1⟩ := serverStep_wake handlers stopMessage hx1
      have hdet1 : x1.relay.detached = m :: rest := by
        simpa [Server.queued, hin1, hdet, hin] using hq1
      exact soloRun_returns_of_step handlers stopMessage sends (by simp [loopEvent, hloop, hdet, hin]) hx1
        (hturn x1 (by rw [hq1]; exact hQ) hl1 (hd1.trans hlive) (hf1.trans hflag) m rest hdet1)
  · exact hturn x hQ hloop hlive hflag m rest hdet

/-- **`run` returns after `stop`, by the loop's own steps.** From every state an interleaving
reaches once `stop` has returned, the loop's thread running alone, with no socket or timer event
and nothing from another thread, reaches `return 0`, provided the handlers' re-posting is
well-founded: no chain of messages, each `send_message`d by the handler of the one before, goes on
without end. -/
theorem stop_returns (sends : Message D → List (Message D))
    (hwf : WellFounded fun m' m => m' ∈ (sends m).map Message.posted)
    {events : List (Event D)} {y : Server H D}
    (h : serverRun handlers stopMessage events .init = some y) (hdone : y.stopper = .done) :
    ∃ n, (soloRun handlers stopMessage sends n y).loop = .returned := by
  have hy := serverRun_inv handlers stopMessage (Server.inv_init stopMessage) h
  have hflag : y.exitLoop = true := hy.flagged (by simp [hdone])
  cases hl : y.loop with
  | test => exact ⟨1, by simp [soloRun, loopEvent, serverStep, hl, hflag]⟩
  | polling =>
    -- the stop message is queued, so the poll wakes at once
    have hin : y.relay.inbox ≠ [] := List.ne_nil_of_mem (hy.awake hdone hl)
    have hdet : y.relay.detached = [] := hy.idle (by simp [hl])
    obtain ⟨x1, hx1⟩ := serverStep_wake_some handlers stopMessage (.inl hl) hy.live hdet hin
    obtain ⟨hl1, -, -, hf1, hd1⟩ := serverStep_wake handlers stopMessage hx1
    obtain ⟨m, rest, hmr⟩ := List.exists_cons_of_ne_nil hin
    exact soloRun_returns_of_step handlers stopMessage sends (by simp [loopEvent, hl, hmr]) hx1
      (soloRun_drain handlers stopMessage sends hwf _ x1 rfl hl1 (hd1.trans hy.live) (hf1.trans hflag))
  | draining => exact soloRun_drain handlers stopMessage sends hwf _ y rfl hl hy.live hflag
  | returned => exact ⟨0, hl⟩

/-- Another thread's `work` message queued before `stop`, whose handler sends one `done` message
that nothing re-posts. -/
theorem stop_returns_queued_work :
    ∃ y, serverRun (handlersOf [("stop".toList, 0), ("work".toList, 1)]) (⟨1, "stop".toList, 0⟩ : Message Nat)
        [.test, .send ⟨2, "work".toList, 7⟩, .setFlag, .sendStop] .init = some y ∧ y.stopper = .done ∧
      ∃ n, (soloRun (handlersOf [("stop".toList, 0), ("work".toList, 1)]) ⟨1, "stop".toList, 0⟩
        (fun m => if m.type = "work".toList then [⟨2, "done".toList, 8⟩] else []) n y).loop = .returned :=
  ⟨_, rfl, rfl, @stop_returns Nat Nat (handlersOf [("stop".toList, 0), ("work".toList, 1)])
    ⟨1, "stop".toList, 0⟩ (fun m => if m.type = "work".toList then [⟨2, "done".toList, 8⟩] else [])
    (Subrelation.wf (r := InvImage (· < ·) fun m : Message Nat => if m.type = "work".toList then 1 else 0)
      (fun {m' m} h => by
        by_cases hm : m.type = "work".toList
        · simp only [hm, if_true, List.map_cons, List.map_nil, List.mem_singleton] at h
          subst h
          show _ < _
          simp [hm, Message.posted, cStrDup]
        · simp only [hm, if_false, List.map_nil, List.not_mem_nil] at h)
      (InvImage.wf _ Nat.lt_wfRel.wf))
    [.test, .send ⟨2, "work".toList, 7⟩, .setFlag, .sendStop] _ rfl rfl⟩

/-- A step of the loop's thread alone, from a poll or a drain with a `Live` message queued, leaves
it draining with a `Live` message still queued: a wake moves the queue as it is, and the turn on a
`Live` message queues the `Live` message its handler re-posts. -/
theorem loopStep_keeps_live (sends : Message D → List (Message D)) (Live : Message D → Prop)
    (hlive : ∀ m, Live m → (handlers.lookup m.type).isSome ∧ ∃ m' ∈ sends m, Live m'.posted)
    {x y : Server H D} {e : Event D} (he : loopEvent sends x = some e)
    (h : serverStep handlers stopMessage x e = some y) (hloop : x.loop = .polling ∨ x.loop = .draining)
    (hq : ∃ m ∈ x.queued, Live m) :
    y.loop = .draining ∧ ∃ m ∈ y.queued, Live m := by
  rcases loopEvent_cases he with ⟨hl, -⟩ | rfl | ⟨m, rest, hl, hdet, rfl⟩ | ⟨rfl, hnil⟩
  · rcases hloop with h' | h' <;> simp [h'] at hl
  · obtain ⟨hyl, hyq, -⟩ := serverStep_wake handlers stopMessage h
    exact ⟨hyl, hyq ▸ hq⟩
  · obtain ⟨y', hy', hyl, hyq, -⟩ := serverStep_dispatch handlers stopMessage (sends m) hl hdet
    obtain rfl : y = y' := Option.some.inj (h.symm.trans hy')
    refine ⟨hyl, ?_⟩
    obtain ⟨m0, hm0, hl0⟩ := hq
    rw [Server.queued, hdet, List.cons_append, List.mem_cons] at hm0
    rcases hm0 with rfl | hm0
    · obtain ⟨hh, m', hm', hl'⟩ := hlive m0 hl0
      exact ⟨m'.posted, by simp only [hyq, hh, if_true, List.mem_append]; exact .inr (List.mem_map_of_mem _ hm'), hl'⟩
    · exact ⟨m0, by rw [hyq]; exact List.mem_append_left _ hm0, hl0⟩
  · obtain ⟨m0, hm0, -⟩ := hq
    simp [hnil] at hm0

/-- **A handler that keeps re-posting keeps `run` from returning.** Let `Live` be messages whose
type has a handler, and whose handler has `send_message` allocate a `Live` message again. Once the
loop polls or drains with a `Live` message queued, its thread never reaches `return 0`, however
long it runs alone: `queue_cb` goes on detaching while the receiver has messages, and the queue
never empties. -/
theorem stop_blocked_by_repost (sends : Message D → List (Message D)) (Live : Message D → Prop)
    (hlive : ∀ m, Live m → (handlers.lookup m.type).isSome ∧ ∃ m' ∈ sends m, Live m'.posted)
    (n : Nat) {x : Server H D} (hloop : x.loop = .polling ∨ x.loop = .draining)
    (hq : ∃ m ∈ x.queued, Live m) :
    (soloRun handlers stopMessage sends n x).loop ≠ .returned := by
  have hrun := soloRun_preserves handlers stopMessage sends
    (fun x => (x.loop = .polling ∨ x.loop = .draining) ∧ ∃ m ∈ x.queued, Live m)
    (fun hx he h => (loopStep_keeps_live handlers stopMessage sends Live hlive he h hx.1 hx.2).imp .inr id)
    n ⟨hloop, hq⟩
  rcases hrun.1 with h | h <;> simp [h]

/-- The same `work` message, its handler now sending `work` again: the loop never returns. -/
theorem stop_blocked_by_repost_work :
    ∃ y, serverRun (handlersOf [("stop".toList, 0), ("work".toList, 1)]) (⟨1, "stop".toList, 0⟩ : Message Nat)
        [.test, .send ⟨2, "work".toList, 7⟩, .setFlag, .sendStop] .init = some y ∧ y.stopper = .done ∧
      ∀ n, (soloRun (handlersOf [("stop".toList, 0), ("work".toList, 1)]) ⟨1, "stop".toList, 0⟩
        (fun m => if m.type = "work".toList then [⟨2, "work".toList, 7⟩] else []) n y).loop ≠ .returned :=
  ⟨_, rfl, rfl, fun n => @stop_blocked_by_repost Nat Nat (handlersOf [("stop".toList, 0), ("work".toList, 1)])
    ⟨1, "stop".toList, 0⟩ (fun m => if m.type = "work".toList then [⟨2, "work".toList, 7⟩] else [])
    (fun m => m.type = "work".toList)
    (fun m hm => ⟨by rw [hm]; rfl, ⟨2, "work".toList, 7⟩, by simp [hm], rfl⟩) n _ (.inl rfl)
    ⟨⟨2, "work".toList, 7⟩, by decide, rfl⟩⟩

end Server

end TypesenseHttp
