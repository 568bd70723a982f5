import TypesenseHttp.Dispatch

/-!
# The streaming generator

An async handler that streams calls `HttpServer::stream_response`: it allocates an
`h2o_custom_generator_t` holding the resumption handler, the `http_req` and the `http_res`, starts
the response with that generator registered on the request, and sends one empty chunk in progress.
From then on the transport drives the exchange. When it is ready for more output it calls the
generator's `proceed`, `response_proceed`, which runs the resumption handler once and sends the
body it left, as the last chunk when the handler set `final`; after a last chunk it disposes of
the request and deletes the three objects. When the exchange ends, or the client goes away, the
transport disposes of the request, and `h2o_dispose_request` calls the registered generator's
`stop`, `response_stop`, before it unregisters it. `response_stop` disposes of the request in turn.

Calls nest, so the model bounds their depth by fuel: `none` is a call that has not returned within
it, and a call that is `none` for every fuel never returns.

**What is proved.**
- `disposeRequest_registered`: disposing of a request whose generator is registered never
  returns. `response_stop` re-enters `h2o_dispose_request` while the generator is still
  registered, which calls `response_stop` again.
- `runExchange_abort`: so a client that leaves before the resumption handler has set `final`,
  after any number of turns, hangs the disposal: the release path of a stopped exchange is never
  reached.
- `runExchange_final`: an exchange the resumption handler ends runs to completion; the handler ran
  once per `proceed`, every chunk went out in order with the last one final, and the generator, the
  `http_req` and the `http_res` were each deleted exactly once.
- `runExchange_frees_once`: under every schedule that calls `proceed` only on a registered
  generator, nothing is deleted twice or before the final chunk. `h2o_send` unregisters the
  generator with the final chunk, so the transport's later disposals do not reach `response_stop`.
-/

namespace TypesenseHttp

/-- `h2o_send_state_t`, the two states the server sends. -/
inductive SendState where
  | inProgress
  | final
  deriving DecidableEq, Repr

/-- The objects `stream_response` hands to the generator. -/
inductive Obj where
  | request
  | response
  | generator
  deriving DecidableEq, Repr

/-- One streaming exchange: the request's generator slot and response head, the `http_res` the
resumption handler writes, and what has happened so far. -/
structure Exchange where
  /-- `req->_generator` holds the custom generator. -/
  registered : Bool
  /-- `req->res.status`. -/
  status : Nat
  /-- The content type `stream_response` put on the response. -/
  contentType : Bytes
  /-- The `http_res` shared with the resumption handler. -/
  res : HttpRes
  /-- How often the resumption handler has run. -/
  turns : Nat
  /-- The chunks `h2o_send` wrote, in order. -/
  sent : List (Bytes × SendState)
  /-- The `delete`s, in order. -/
  freed : List Obj
  /-- How often `h2o_dispose_request` completed. -/
  disposals : Nat
  deriving DecidableEq, Repr

/-- `h2o_send`: writes a chunk; a last chunk unregisters the generator (`req->_generator = NULL`). -/
def h2oSend (x : Exchange) (body : Bytes) (state : SendState) : Exchange :=
  { x with sent := x.sent ++ [(body, state)], registered := x.registered && state == .inProgress }

/-- The three `delete`s that end the generator's life: the `http_req`, the `http_res`, the
generator. -/
def release (x : Exchange) : Exchange := { x with freed := x.freed ++ [.request, .response, .generator] }

/-- `HttpServer::stream_response`: register the generator, set the status and content type from
the handler's `http_res`, and send one empty chunk in progress. -/
def streamResponse (res : HttpRes) : Exchange :=
  h2oSend ⟨true, res.statusCode, res.contentTypeHeader, res, 0, [], [], 0⟩ (cStrDup []) .inProgress

/-- `HttpServer::response_stop`, given how `h2o_dispose_request` behaves: dispose of the request,
then delete the three objects. -/
def responseStop (dispose : Exchange → Option Exchange) (x : Exchange) : Option Exchange :=
  (dispose x).map release

/-- `h2o_dispose_request`: a registered generator's `stop`, `response_stop`, runs first, and the
generator is unregistered only after it returns. `fuel` bounds the depth of nested calls. -/
def disposeRequest : Nat → Exchange → Option Exchange
  | 0, _ => none
  | n + 1, x =>
    (if x.registered then responseStop (disposeRequest n) x else some x).map
      fun x => { x with registered := false, disposals := x.disposals + 1 }

/-- `HttpServer::response_proceed`, for a resumption handler that maps its turn and the current
`http_res` to the next: run it, send the body, and after a last chunk dispose of the request and
delete the three objects. -/
def responseProceed (handler : Nat → HttpRes → HttpRes) (dispose : Exchange → Option Exchange)
    (x : Exchange) : Option Exchange :=
  let res := handler x.turns x.res
  let x := h2oSend { x with res := res, turns := x.turns + 1 } (cStrDup res.body)
    (if res.final then .final else .inProgress)
  if res.final then responseStop dispose x else some x

/-- What the transport does to a streaming exchange. It calls `proceed` only while the generator
is registered and its last chunk was in progress. -/
inductive TransportEvent where
  /-- Ready for more output: the generator's `proceed`. -/
  | proceed
  /-- `h2o_dispose_request`: the client went away, or the exchange is over. -/
  | dispose
  deriving DecidableEq, Repr

/-- A run of transport events, each call nesting at most `fuel` deep. -/
def runExchange (handler : Nat → HttpRes → HttpRes) (fuel : Nat) :
    List TransportEvent → Exchange → Option Exchange
  | [], x => some x
  | .proceed :: events, x =>
    (responseProceed handler (disposeRequest fuel) x).bind (runExchange handler fuel events)
  | .dispose :: events, x => (disposeRequest fuel x).bind (runExchange handler fuel events)

/-! ## Disposing of a registered generator never returns -/

/-- **`response_stop` and `h2o_dispose_request` call each other without end** while the generator
is registered, at every depth. -/
theorem disposeRequest_registered (n : Nat) {x : Exchange} (h : x.registered = true) :
    disposeRequest n x = none := by
  induction n with
  | zero => rfl
  | succ n ih => simp [disposeRequest, h, responseStop, ih]

/-! ## Runs of the transport -/

/-- The `http_res` after `i` turns of the resumption handler, from the one `stream_response` got. -/
def turnRes (handler : Nat → HttpRes → HttpRes) (res : HttpRes) : Nat → HttpRes
  | 0 => res
  | i + 1 => handler i (turnRes handler res i)

/-- The exchange after `j` turns that all left the response in progress: still registered, every
body sent in order after the empty first chunk, nothing freed. -/
def liveExchange (handler : Nat → HttpRes → HttpRes) (res : HttpRes) (j : Nat) : Exchange :=
  ⟨true, res.statusCode, res.contentTypeHeader, turnRes handler res j, j,
    ([], .inProgress) :: (List.range j).map fun i => (cStrDup (turnRes handler res (i + 1)).body, .inProgress),
    [], 0⟩

section Runs

variable (handler : Nat → HttpRes → HttpRes) (res : HttpRes)

theorem streamResponse_eq_liveExchange : streamResponse res = liveExchange handler res 0 := rfl

/-- A turn that leaves the response in progress keeps the exchange live. -/
theorem responseProceed_live (dispose : Exchange → Option Exchange) {j : Nat}
    (h : (turnRes handler res (j + 1)).final = false) :
    responseProceed handler dispose (liveExchange handler res j) = some (liveExchange handler res (j + 1)) := by
  simp only [turnRes] at h
  simp [responseProceed, liveExchange, h2oSend, h, turnRes, List.range_succ]

/-- Turns that all leave the response in progress, one `proceed` each. -/
theorem runExchange_live (fuel : Nat) (rest : List TransportEvent) (m : Nat) {i : Nat}
    (hlive : ∀ t < m, (turnRes handler res (i + t + 1)).final = false) :
    runExchange handler fuel (List.replicate m .proceed ++ rest) (liveExchange handler res i) =
      runExchange handler fuel rest (liveExchange handler res (i + m)) := by
  induction m generalizing i with
  | zero => rfl
  | succ m ih =>
    have hnext : ∀ t < m, (turnRes handler res (i + 1 + t + 1)).final = false := fun t ht => by
      simpa only [Nat.add_right_comm i 1 t, Nat.add_assoc i t 1] using hlive (t + 1) (by omega)
    rw [List.replicate_succ, List.cons_append, runExchange,
      responseProceed_live handler res _ (hlive 0 m.succ_pos), Option.some_bind, ih hnext,
      Nat.add_right_comm, Nat.add_assoc]

/-- **A client that leaves before the last chunk hangs the server**: whatever number of turns
left the response in progress, the transport's disposal never returns. -/
theorem runExchange_abort (j : Nat) (hlive : ∀ t < j, (turnRes handler res (t + 1)).final = false)
    (fuel : Nat) :
    runExchange handler fuel (List.replicate j .proceed ++ [.dispose]) (streamResponse res) = none := by
  rw [streamResponse_eq_liveExchange handler, runExchange_live handler res fuel _ j (by simpa using hlive)]
  simp [runExchange, disposeRequest_registered fuel (x := liveExchange handler res j) rfl]

/-- A handler that would finish on its second turn, and a client that leaves after the first. -/
theorem runExchange_abort_after_first_turn :
    (∀ t < 1, (turnRes (fun i r => ⟨r.statusCode, r.contentTypeHeader, "chunk".toList, i == 1⟩)
        ⟨200, "text/plain".toList, [], false⟩ (t + 1)).final = false) ∧
      runExchange (fun i r => ⟨r.statusCode, r.contentTypeHeader, "chunk".toList, i == 1⟩) 8
        (List.replicate 1 .proceed ++ [.dispose]) (streamResponse ⟨200, "text/plain".toList, [], false⟩) =
        none :=
  ⟨by decide, runExchange_abort _ _ 1 (by decide) 8⟩

/-- **An exchange the handler ends runs to completion**: one turn per `proceed`, every body sent in
order with the last one final, and the three objects deleted once each. The request itself is
disposed of twice, by `response_proceed` and by the transport. -/
theorem runExchange_final (k : Nat) (hlive : ∀ t < k, (turnRes handler res (t + 1)).final = false)
    (hfinal : (turnRes handler res (k + 1)).final = true) (n : Nat) :
    runExchange handler (n + 1) (List.replicate (k + 1) .proceed ++ [.dispose]) (streamResponse res) =
      some ⟨false, res.statusCode, res.contentTypeHeader, turnRes handler res (k + 1), k + 1,
        ([], .inProgress) ::
          (List.range k).map (fun i => (cStrDup (turnRes handler res (i + 1)).body, .inProgress)) ++
          [(cStrDup (turnRes handler res (k + 1)).body, .final)],
        [.request, .response, .generator], 2⟩ := by
  rw [List.replicate_succ', List.append_assoc, streamResponse_eq_liveExchange handler,
    runExchange_live handler res _ _ k (by simpa using hlive)]
  simp only [turnRes] at hfinal
  simp [runExchange, responseProceed, liveExchange, h2oSend, disposeRequest, responseStop, release,
    hfinal, turnRes]

/-- The same handler left to finish: two chunks after the empty one, the second final. -/
theorem runExchange_final_second_turn :
    (∀ t < 1, (turnRes (fun i r => ⟨r.statusCode, r.contentTypeHeader, "chunk".toList, i == 1⟩)
        ⟨200, "text/plain".toList, [], false⟩ (t + 1)).final = false) ∧
      (turnRes (fun i r => ⟨r.statusCode, r.contentTypeHeader, "chunk".toList, i == 1⟩)
        ⟨200, "text/plain".toList, [], false⟩ 2).final = true ∧
      (runExchange (fun i r => ⟨r.statusCode, r.contentTypeHeader, "chunk".toList, i == 1⟩) 1
        (List.replicate 2 .proceed ++ [.dispose]) (streamResponse ⟨200, "text/plain".toList, [], false⟩)).map
          Exchange.freed = some [.request, .response, .generator] :=
  ⟨by decide, by decide, by rw [runExchange_final _ _ 1 (by decide) (by decide) 0]; rfl⟩

end Runs

/-! ## Every schedule of the transport -/

/-- The two shapes of an exchange under a transport that calls `proceed` only on a registered
generator: live, with the generator registered and nothing deleted; or over, with the last chunk
final, the generator unregistered, and the three objects deleted once each. -/
def Exchange.Sound (x : Exchange) : Prop :=
  (x.registered = true ∧ x.freed = []) ∨
    (x.registered = false ∧ x.freed = [.request, .response, .generator] ∧
      x.sent.getLast?.map Prod.snd = some .final)

/-- A disposal that returns found the generator unregistered, and only counts itself. -/
theorem disposeRequest_eq_some {n : Nat} {x y : Exchange} (h : disposeRequest n x = some y) :
    x.registered = false ∧ y = { x with registered := false, disposals := x.disposals + 1 } := by
  cases hr : x.registered
  · cases n with
    | zero => cases h
    | succ n => simp_all [disposeRequest]
  · rw [disposeRequest_registered n hr] at h; cases h

section Sound

variable (handler : Nat → HttpRes → HttpRes) (fuel : Nat)

/-- A turn on a registered generator leaves the exchange live, or, after a final chunk, over. -/
theorem responseProceed_sound {x y : Exchange} (hx : x.Sound) (hreg : x.registered = true)
    (h : responseProceed handler (disposeRequest fuel) x = some y) : y.Sound := by
  have hfreed : x.freed = [] := by
    rcases hx with ⟨-, hf⟩ | ⟨hr, -⟩
    · exact hf
    · simp [hr] at hreg
  unfold responseProceed at h
  cases hfin : (handler x.turns x.res).final
  · simp only [hfin] at h
    cases h
    exact .inl ⟨by simp [h2oSend, hreg], by simp [h2oSend, hfreed]⟩
  · simp only [hfin, ite_true, responseStop] at h
    obtain ⟨z, hz, rfl⟩ := Option.map_eq_some'.mp h
    obtain ⟨-, rfl⟩ := disposeRequest_eq_some hz
    exact .inr ⟨rfl, by simp [release, h2oSend, hfreed], by simp [release, h2oSend]⟩

/-- A disposal that returns leaves the exchange as it found it, but for the count. -/
theorem disposeRequest_sound {x y : Exchange} (hx : x.Sound) (h : disposeRequest fuel x = some y) :
    y.Sound := by
  obtain ⟨hr, rfl⟩ := disposeRequest_eq_some h
  rcases hx with ⟨hr', -⟩ | ⟨-, hf, hl⟩
  · simp [hr] at hr'
  · exact .inr ⟨rfl, hf, hl⟩

/-- Every run that keeps to the transport's contract keeps the exchange sound. -/
theorem runExchange_sound {events : List TransportEvent} {x y : Exchange} (hx : x.Sound)
    (hproceed : ∀ i < events.length, events[i]? = some .proceed →
      (runExchange handler fuel (events.take i) x).map Exchange.registered = some true)
    (h : runExchange handler fuel events x = some y) : y.Sound := by
  induction events generalizing x with
  | nil => cases h; exact hx
  | cons e events ih =>
    cases e with
    | proceed =>
      obtain ⟨x', hstep, hrun⟩ := Option.bind_eq_some.mp h
      have hreg : x.registered = true := by simpa [runExchange] using hproceed 0 (by simp) (by simp)
      refine ih (responseProceed_sound handler fuel hx hreg hstep) (fun i hi he => ?_) hrun
      simpa [runExchange, List.take_succ_cons, hstep] using hproceed (i + 1) (by simp [hi]) (by simpa using he)
    | dispose =>
      obtain ⟨x', hstep, hrun⟩ := Option.bind_eq_some.mp h
      refine ih (disposeRequest_sound fuel hx hstep) (fun i hi he => ?_) hrun
      simpa [runExchange, List.take_succ_cons, hstep] using hproceed (i + 1) (by simp [hi]) (by simpa using he)

/-- **No object of a stream is deleted twice, or before its last chunk.** Under every schedule in
which the transport calls `proceed` only while the generator is registered, a run that returns
has either deleted nothing, with the generator still registered, or sent its final chunk and
deleted the `http_req`, the `http_res` and the generator exactly once each: the disposals that
follow the final chunk find the generator unregistered and delete nothing more. -/
theorem runExchange_frees_once (res : HttpRes) {events : List TransportEvent} {y : Exchange}
    (hproceed : ∀ i < events.length, events[i]? = some .proceed →
      (runExchange handler fuel (events.take i) (streamResponse res)).map Exchange.registered = some true)
    (h : runExchange handler fuel events (streamResponse res) = some y) :
    (y.registered = true ∧ y.freed = []) ∨
      (y.registered = false ∧ y.freed = [.request, .response, .generator] ∧
        y.sent.getLast?.map Prod.snd = some .final) :=
  runExchange_sound handler fuel (.inl ⟨rfl, rfl⟩) hproceed h

/-- The handler that finishes on its second turn, and a transport that disposes twice after it. -/
theorem runExchange_frees_once_disposed_twice :
    ∃ y, runExchange (fun i r => ⟨r.statusCode, r.contentTypeHeader, "chunk".toList, i == 1⟩) 1
        [.proceed, .proceed, .dispose, .dispose] (streamResponse ⟨200, "text/plain".toList, [], false⟩) =
        some y ∧
      ((y.registered = true ∧ y.freed = []) ∨
        (y.registered = false ∧ y.freed = [.request, .response, .generator] ∧
          y.sent.getLast?.map Prod.snd = some .final)) :=
  ⟨_, rfl, @runExchange_frees_once (fun i r => ⟨r.statusCode, r.contentTypeHeader, "chunk".toList, i == 1⟩) 1
    ⟨200, "text/plain".toList, [], false⟩ [.proceed, .proceed, .dispose, .dispose] _ (by decide) rfl⟩

end Sound

end TypesenseHttp
