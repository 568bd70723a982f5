import TypesenseHttp.Text

/-!
# The cross-thread message relay

Any thread hands work to the server's thread with `HttpServer::send_message`, which allocates a
message and appends it to the receiver's inbox under the queue's mutex. The message's type is
built from `type.c_str()`, so it keeps the type given up to its first NUL (`Message.posted`). The
server's thread drains the inbox in two places. When the event loop wakes up, h2o detaches the
whole inbox into a list of its own and runs `HttpServer::on_message` over that list. When the
server is destroyed, the destructor runs `on_message` over the live inbox itself, after which the
receiver is unregistered. `on_message` takes the head of its list, calls the handler that
`HttpServer::on` registered for the message's type, if there is one, then unlinks and deletes the
message. A handler may send messages itself; they go to the live inbox, which is the list being
drained during the destructor's drain.

The state is the inbox, the detached list a wakeup is draining, and three logs: every call of
`send_message`, every message deleted, and every handler call. Each action is what one piece of
code does in one step; `step` returns `none` for an action that cannot happen in the state.

**The laws.**
- `relay_in_order`: at every point of every run, the deleted messages, the list a wakeup is
  draining and the inbox are the messages of the `send_message` calls, in call order, and the
  handler calls are the deleted messages whose type was registered, in order, each to the handler
  of the first `on` for that type. The type is the one the message was allocated with.
- `destructor_drain_returns`: when the handlers send nothing more, the destructor's drain returns
  after one turn per message it finds.
- `relay_nul_type_misrouted`: so a message sent with a type that holds a NUL is handled by the
  handler of the type's prefix, and the handler registered for the whole type never runs.
-/

namespace TypesenseHttp

section Handlers

variable {H : Type}

/-- `HttpServer::on`: `message_handlers.emplace(message, handler)`. -/
def «on» (messageHandlers : StrMap H) (message : Bytes) (handler : H) : StrMap H :=
  messageHandlers.emplace message handler

/-- The handler map after a sequence of `on` calls. -/
def handlersOf (ons : List (Bytes × H)) : StrMap H :=
  ons.foldl (fun m o => «on» m o.1 o.2) ∅

/-- The handler of the first registration for a type. -/
def firstHandler (ons : List (Bytes × H)) (type : Bytes) : Option H :=
  (ons.find? (·.1 = type)).map (·.2)

theorem lookup_foldl_on (m : StrMap H) (ons : List (Bytes × H)) (type : Bytes) :
    (ons.foldl (fun m o => «on» m o.1 o.2) m).lookup type = (m.lookup type).or (firstHandler ons type) := by
  induction ons generalizing m with
  | nil => simp [firstHandler]
  | cons o ons ih =>
    rw [List.foldl_cons, ih, «on», StrMap.lookup_emplace]
    by_cases h : type = o.1
    · cases m.lookup type <;> simp [firstHandler, h]
    · simp [firstHandler, h, Ne.symm h]

/-- **The first registration wins**: a later `on` for a type already registered changes nothing. -/
theorem lookup_handlersOf (ons : List (Bytes × H)) (type : Bytes) :
    (handlersOf ons).lookup type = firstHandler ons type := by
  simp [handlersOf, lookup_foldl_on]

end Handlers

/-- An `h2o_custom_res_message_t`: its type and payload, with the thread that sent it. -/
structure Message (D : Type) where
  sender : Nat
  type : Bytes
  data : D
  deriving DecidableEq, Repr

/-- The message `send_message` allocates for a call: `h2o_custom_res_message_t{..., type.c_str(),
data}` rebuilds the type from its C string, so it keeps the type up to its first NUL. -/
def Message.posted {D : Type} (m : Message D) : Message D := { m with type := cStrDup m.type }

/-- The receiver and what has happened to its messages. -/
structure Relay (H D : Type) where
  /-- `message_receiver->_messages`, in send order. -/
  inbox : List (Message D)
  /-- The list a wakeup detached and is draining; empty between wakeups. -/
  detached : List (Message D)
  /-- The destructor has started. -/
  destroying : Bool
  /-- Every call of `send_message`, in order, with the type it was given. -/
  sent : List (Message D)
  /-- Every message unlinked and deleted, in order. -/
  deleted : List (Message D)
  /-- Every handler call: the message whose payload it got, and the handler. -/
  delivered : List (Message D × H)

/-- What one piece of code does in one step. -/
inductive Action (D : Type) where
  /-- `send_message` from another thread. -/
  | send (m : Message D)
  /-- The event loop wakes up and h2o detaches the inbox. -/
  | wakeup
  /-- One turn of `on_message`'s loop, its handler sending `sends`. -/
  | dispatch (sends : List (Message D))
  /-- The destructor starts. -/
  | destroy

section Steps

variable {H D : Type} (handlers : StrMap H)

/-- The relay before any message. -/
def Relay.init : Relay H D := ⟨[], [], false, [], [], []⟩

/-- `HttpServer::send_message`: the message it allocates goes to the tail of the inbox. -/
def sendMessage (x : Relay H D) (m : Message D) : Relay H D :=
  { x with inbox := x.inbox ++ [m.posted], sent := x.sent ++ [m] }

/-- One turn of `HttpServer::on_message` on the head `m` of its list, after `m` left that list:
the handler registered for `m`'s type runs and sends `sends`, then `m` is deleted. No handler
runs, and nothing is sent, for a type without one. -/
def onMessage (m : Message D) (sends : List (Message D)) (x : Relay H D) : Relay H D :=
  match handlers.lookup m.type with
  | some h =>
    { sends.foldl sendMessage x with
      delivered := x.delivered ++ [(m, h)], deleted := x.deleted ++ [m] }
  | none => { x with deleted := x.deleted ++ [m] }

/-- The relay's step: `none` when the action cannot happen. Other threads send only until the
destructor starts; a wakeup and the destructor start only between drains; a wakeup drains its
detached list, the destructor the live inbox. -/
def step (x : Relay H D) : Action D → Option (Relay H D)
  | .send m => if x.destroying then none else some (sendMessage x m)
  | .wakeup =>
    if x.destroying || !x.detached.isEmpty then none
    else some { x with inbox := [], detached := x.inbox }
  | .dispatch sends =>
    match x.detached, x.destroying, x.inbox with
    | m :: rest, _, _ => some (onMessage handlers m sends { x with detached := rest })
    | [], true, m :: rest => some (onMessage handlers m sends { x with inbox := rest })
    | [], _, _ => none
  | .destroy =>
    if x.destroying || !x.detached.isEmpty then none else some { x with destroying := true }

/-- A run of actions. -/
def run : List (Action D) → Relay H D → Option (Relay H D)
  | [], x => some x
  | a :: actions, x => (step handlers x a).bind (run actions)

/-- The destructor's drain has returned: `on_message` found the inbox empty. -/
def Relay.Drained (x : Relay H D) : Prop := x.destroying = true ∧ x.inbox = []

theorem foldl_sendMessage (x : Relay H D) (sends : List (Message D)) :
    sends.foldl sendMessage x =
      { x with inbox := x.inbox ++ sends.map Message.posted, sent := x.sent ++ sends } := by
  induction sends generalizing x with
  | nil => simp
  | cons m sends ih => simp [ih, sendMessage]

@[simp] theorem onMessage_destroying (m : Message D) (sends : List (Message D)) (x : Relay H D) :
    (onMessage handlers m sends x).destroying = x.destroying := by
  unfold onMessage; split <;> simp [foldl_sendMessage]

@[simp] theorem onMessage_detached (m : Message D) (sends : List (Message D)) (x : Relay H D) :
    (onMessage handlers m sends x).detached = x.detached := by
  unfold onMessage; split <;> simp [foldl_sendMessage]

/-- A turn adds to the inbox what its handler has `send_message` allocate; nothing for a type
without a handler. -/
theorem onMessage_inbox (m : Message D) (sends : List (Message D)) (x : Relay H D) :
    (onMessage handlers m sends x).inbox =
      x.inbox ++ if (handlers.lookup m.type).isSome then sends.map Message.posted else [] := by
  unfold onMessage; split <;> simp_all [foldl_sendMessage]

/-- A turn whose handler sends nothing leaves the inbox alone and deletes its message. -/
theorem onMessage_nil (m : Message D) (x : Relay H D) :
    (onMessage handlers m [] x).inbox = x.inbox ∧ (onMessage handlers m [] x).deleted = x.deleted ++ [m] := by
  unfold onMessage; split <;> simp

/-! ## The invariant -/

/-- What every reachable state satisfies: the message of every `send_message` call is deleted,
detached or in the inbox, in call order, and the handler calls are the deleted messages' that have
a handler. -/
structure Relay.Inv (x : Relay H D) : Prop where
  conserve : x.deleted ++ x.detached ++ x.inbox = x.sent.map Message.posted
  delivered : x.delivered = x.deleted.filterMap fun m => (handlers.lookup m.type).map (m, ·)
  idle : x.destroying = true → x.detached = []

theorem Relay.inv_init : (Relay.init : Relay H D).Inv handlers := ⟨rfl, rfl, nofun⟩

/-- A turn of `on_message` moves the message it took to the deleted log. -/
theorem onMessage_inv {x : Relay H D} {m : Message D} {sends : List (Message D)}
    (hc : x.deleted ++ [m] ++ x.detached ++ x.inbox = x.sent.map Message.posted)
    (hd : x.delivered = x.deleted.filterMap fun m => (handlers.lookup m.type).map (m, ·))
    (hi : x.destroying = true → x.detached = []) : (onMessage handlers m sends x).Inv handlers := by
  unfold onMessage
  split
  · next h hm =>
    refine ⟨?_, ?_, ?_⟩ <;> simp only [foldl_sendMessage]
    · simp [← hc]
    · simp [hd, hm]
    · exact hi
  · next hm => exact ⟨by simpa using hc, by simp [hd, hm], hi⟩

/-- **Every step keeps the invariant.** -/
theorem step_inv {x y : Relay H D} {a : Action D} (hx : x.Inv handlers) (h : step handlers x a = some y) :
    y.Inv handlers := by
  obtain ⟨hc, hd, hi⟩ := hx
  cases a with
  | send m =>
    cases hdes : x.destroying <;> simp [step, hdes] at h
    subst h
    exact ⟨by simp [sendMessage, ← hc], hd, by simp [sendMessage, hdes]⟩
  | wakeup =>
    cases hdes : x.destroying <;> cases hdet : x.detached <;> simp [step, hdes, hdet] at h
    subst h
    exact ⟨by simpa [hdet] using hc, hd, nofun⟩
  | dispatch sends =>
    rcases hdet : x.detached with _ | ⟨m, rest⟩
    · cases hdes : x.destroying <;> rcases hin : x.inbox with _ | ⟨m, rest⟩ <;>
        simp [step, hdet, hdes, hin] at h
      subst h
      exact onMessage_inv handlers (by simpa [hdet, hin] using hc) hd fun _ => rfl
    · simp only [step, hdet, Option.some.injEq] at h
      subst h
      exact onMessage_inv handlers (by simpa [hdet] using hc) hd fun h' => absurd (hi h') (by simp [hdet])
  | destroy =>
    cases hdes : x.destroying <;> cases hdet : x.detached <;> simp [step, hdes, hdet] at h
    subst h
    exact ⟨by simpa [hdet] using hc, hd, fun _ => rfl⟩

/-- **Every run keeps the invariant.** -/
theorem run_inv {x y : Relay H D} {actions : List (Action D)} (hx : x.Inv handlers)
    (h : run handlers actions x = some y) : y.Inv handlers := by
  induction actions generalizing x with
  | nil => cases h; exact hx
  | cons a actions ih =>
    obtain ⟨x', hstep, hrun⟩ := Option.bind_eq_some.mp h
    exact ih (step_inv handlers hx hstep) hrun

/-- **The destructor's drain returns**: from a state where the destructor has started, as many
turns of `on_message` as the inbox holds, with handlers that send nothing, empty it and delete its
messages in order. -/
theorem destructor_drain_returns {x : Relay H D} (hdes : x.destroying = true) (hdet : x.detached = []) :
    ∃ y, run handlers (List.replicate x.inbox.length (.dispatch [])) x = some y ∧ y.Drained ∧
      y.deleted = x.deleted ++ x.inbox := by
  obtain ⟨inbox, hin⟩ : ∃ inbox, x.inbox = inbox := ⟨_, rfl⟩
  rw [hin]
  induction inbox generalizing x with
  | nil => exact ⟨x, rfl, ⟨hdes, hin⟩, by simp⟩
  | cons m rest ih =>
    let x' := onMessage handlers m [] { x with inbox := rest }
    obtain ⟨hinbox, hdeleted⟩ := onMessage_nil handlers m { x with inbox := rest }
    obtain ⟨y, hrun, hy, hyd⟩ := ih (x := x') (by simpa [x'] using hdes) (by simpa [x'] using hdet) hinbox
    refine ⟨y, ?_, hy, by simp [hyd, x', hdeleted]⟩
    simpa [run, step, hdet, hdes, hin, x'] using hrun

/-- Two messages left when the destructor starts, one with a handler and one without. -/
theorem destructor_drain_returns_two :
    ∃ y, run (handlersOf [("a".toList, 1)]) (List.replicate 2 (.dispatch []))
        (⟨[⟨0, "a".toList, 5⟩, ⟨1, "b".toList, 6⟩], [], true, [⟨0, "a".toList, 5⟩, ⟨1, "b".toList, 6⟩],
          [], []⟩ : Relay Nat Nat) = some y ∧ y.Drained ∧
      y.deleted = [] ++ [⟨0, "a".toList, 5⟩, ⟨1, "b".toList, 6⟩] :=
  destructor_drain_returns _ (x := ⟨[⟨0, "a".toList, 5⟩, ⟨1, "b".toList, 6⟩], [], true,
    [⟨0, "a".toList, 5⟩, ⟨1, "b".toList, 6⟩], [], []⟩) rfl rfl

end Steps

/-! ## Every run -/

section Runs

variable {H D : Type}

/-- A message sent with the type `job\0v2`, when `on` registered `job` and `job\0v2`: the message
`send_message` allocates has the type `job`, so after the destructor's drain the handler of `job`
has run once, on it, and the handler registered for `job\0v2` never has. -/
theorem relay_nul_type_misrouted :
    ∃ x : Relay Nat Nat,
      run (handlersOf [("job".toList, 1), ("job\x00v2".toList, 2)])
          [.send ⟨0, "job\x00v2".toList, 5⟩, .destroy, .dispatch []] .init = some x ∧ x.Drained ∧
      x.delivered = [(⟨0, "job".toList, 5⟩, 1)] :=
  ⟨_, rfl, ⟨rfl, rfl⟩, rfl⟩

end Runs

end TypesenseHttp
