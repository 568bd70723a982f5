import TypesenseHttp.Query
import TypesenseHttp.Route

/-!
# `catch_all_handler`: one request, start to finish

h2o hands every request to `HttpServer::catch_all_handler`. It cuts the raw path at `?` and then
at `/`, parses the query string that starts at h2o's `query_at`, picks the credential (the first
`AUTH_HEADER` header, else the query parameter of that name), answers a CORS preflight itself,
and otherwise walks the route table: the first matching route is authenticated once and, when the
auth handler accepts, its handler runs on the request with the path parameters bound; a
synchronous route's response is sent as soon as the handler returns. No match is a `404`.

A run is the list of `Effect`s the outside sees, in order: calls of the auth handler, calls of a
route's handler, and complete responses. Reading `path_with_query_parts[0]` when `StringUtils::split`
returned no token is out of bounds, and there the model answers `none`.

**The laws.**
- `catchAllHandler_contract`: on every path with a token before its query, the handler does what
  the dispatcher's contract says — preflight, else the first route in registration order that
  matches (`findRoute_eq_find?`), authenticated exactly once, its handler run only on success.
  The contract's answers and credential are fixed by `dispatcher_responses` (`200` with an empty
  body, `404`, `401`, the handler's status) and `authKeyFromHeader_eq` (header first, then the
  query parameter, then empty).
- `catchAllHandler_auth`: the auth handler is called at most once, and no handler runs unless the
  auth handler accepted the route it belongs to, with the credential of the request.
- `catchAllHandler_one_reply`: the dispatcher answers exactly once, unless an async route's handler
  ran, in which case it sends nothing and the reply is the handler's.
- `catchAllHandler_params`: the parameters a handler receives are the query's, extended by the path
  parameters only where the query has no such key.
- `catchAllHandler_question_path`: a path made of `?` alone has no token, and the read is out of
  bounds before any branch is taken.
- `catchAllHandler_template`: the round trip of the route table. A request whose path is a
  registered template with its parameters filled in is served by that route, unless an earlier
  route matches; each parameter reads the value filled in, unless the query has the same key.
-/

namespace TypesenseHttp

/-- An `http_req` as a handler receives it: the parameter map and the body. The `_req` back
pointer serves streaming only, where it is the exchange of `Stream`. -/
structure HttpReq where
  params : QueryMap
  body : Bytes
  deriving DecidableEq

/-- An `http_res` as a handler leaves it. -/
structure HttpRes where
  statusCode : Nat
  contentTypeHeader : Bytes
  body : Bytes
  final : Bool
  deriving DecidableEq, Repr

/-- An `h2o_req_t` as the transport hands it over: the method, the raw path, the request headers
(h2o lower-cases their names) and the body. -/
structure H2oReq where
  method : Bytes
  path : Bytes
  headers : List (Bytes × Bytes)
  entity : Bytes
  deriving DecidableEq, Repr

/-- `req->query_at`: the offset of the path's first `?`, which h2o records when it parses the
request (`SIZE_MAX`, here `none`, when there is none). -/
def H2oReq.queryAt (req : H2oReq) : Option Nat := req.path.findIdx? (· = '?')

/-- The query string `catch_all_handler` takes from `query_at`, its `?` included. -/
def H2oReq.query (req : H2oReq) : Bytes :=
  match req.queryAt with
  | some i => req.path.drop i
  | none => []

/-- A response as `h2o_start_response` and one `h2o_send` marked final put it on the wire. -/
structure Response where
  status : Nat
  reason : Bytes
  headers : List (Bytes × Bytes)
  body : Bytes
  deriving DecidableEq, Repr

/-- What `catch_all_handler` does that the rest of the server sees. -/
inductive Effect (H : Type) where
  /-- A call of the auth handler on a route and a credential. -/
  | authenticate (rpath : RoutePath H) (authKey : Bytes)
  /-- A call of a route's handler on the request built for it. -/
  | invoke (rpath : RoutePath H) (request : HttpReq)
  /-- One complete response. -/
  | respond (res : Response)
  deriving DecidableEq

/-- What `catch_all_handler` reads of an `HttpServer`: the route vector, the CORS flag, and the
auth handler of `set_auth_handler`. -/
structure HttpServer (H : Type) where
  routes : List (RoutePath H)
  corsEnabled : Bool
  authHandler : RoutePath H → Bytes → Bool

/-! ## The pieces of the handler -/

/-- `h2o_find_header_by_str(&req->headers, name, len, -1)`: the first header of that name. -/
def findHeader (headers : List (Bytes × Bytes)) (name : Bytes) : Option Bytes :=
  (headers.find? (·.1 = name)).map (·.2)

/-- The credential: the first `AUTH_HEADER` header, else the query parameter of that name, else
empty. -/
def authKeyFromHeader (AUTH_HEADER : Bytes) (headers : List (Bytes × Bytes)) (queryMap : QueryMap) :
    Bytes :=
  match findHeader headers AUTH_HEADER with
  | some key => key
  | none => if queryMap.count AUTH_HEADER ≠ 0 then queryMap.get AUTH_HEADER else []

/-- The header every JSON response carries. -/
def jsonContentType : Bytes × Bytes :=
  ("content-type".toList, "application/json; charset=utf-8".toList)

/-- The response headers added before any branch: `access-control-allow-origin: *` when CORS is
on. -/
def corsHeaders (corsEnabled : Bool) : List (Bytes × Bytes) :=
  if corsEnabled then [("access-control-allow-origin".toList, "*".toList)] else []

/-- The CORS preflight answer: `200`, an empty body, the allowed methods, the requested headers
echoed back, and a day of caching. -/
def preflightResponse (headers : List (Bytes × Bytes)) (aclReqHeaders : Bytes) : Response :=
  ⟨200, getStatusReason 200, headers ++
    [("access-control-allow-methods".toList, "POST, GET, DELETE, PUT, PATCH, OPTIONS".toList),
     ("access-control-allow-headers".toList, aclReqHeaders),
     ("access-control-max-age".toList, "86400".toList)], cStrDup []⟩

/-- The `404` sent when no route matches. -/
def notFoundResponse (headers : List (Bytes × Bytes)) : Response :=
  ⟨404, getStatusReason 404, headers ++ [jsonContentType],
    cStrDup "\x7b \"message\": \"Not Found\"\x7d".toList⟩

/-- `HttpServer::send_401_unauthorized`. -/
def send401Unauthorized (AUTH_HEADER : Bytes) (headers : List (Bytes × Bytes)) : Response :=
  ⟨401, getStatusReason 401, headers ++ [jsonContentType],
    cStrDup ("\x7b\"message\": \"Forbidden - a valid `".toList ++ AUTH_HEADER ++
      "` header must be sent.\"\x7d".toList)⟩

/-- `HttpServer::send_response`: the status and body the handler left. -/
def sendResponse (headers : List (Bytes × Bytes)) (response : HttpRes) : Response :=
  ⟨response.statusCode, getStatusReason response.statusCode, headers ++ [jsonContentType],
    cStrDup response.body⟩

/-- The preflight branch: an `OPTIONS` request with an `access-control-request-headers` header,
when CORS is on. -/
def preflight (corsEnabled : Bool) (req : H2oReq) : Option Response :=
  if corsEnabled && req.method == "OPTIONS".toList then
    (findHeader req.headers "access-control-request-headers".toList).map
      (preflightResponse (corsHeaders corsEnabled))
  else none

/-- `path_with_query_parts[0]`: the first `?`-token of the path, when there is one. -/
def pathWithoutQuery (path : Bytes) : Option Bytes := (split path '?').head?

/-- The segments `catch_all_handler` routes on; `none` where `path_with_query_parts[0]` is read
out of bounds. -/
def pathPartsOf (path : Bytes) : Option (List Bytes) := (pathWithoutQuery path).map (split · '/')

/-! ## What the dispatcher reads and writes -/

/-- The credential `catch_all_handler` passes to the auth handler: the first `AUTH_HEADER` header,
else the query parameter of that name, else empty. -/
theorem authKeyFromHeader_eq (AUTH_HEADER : Bytes) (headers : List (Bytes × Bytes)) (queryMap : QueryMap) :
    authKeyFromHeader AUTH_HEADER headers queryMap =
      (findHeader headers AUTH_HEADER).getD ((queryMap.lookup AUTH_HEADER).getD []) := by
  unfold authKeyFromHeader
  split
  · next key hkey => simp [hkey]
  · next hnone =>
    simp only [hnone, Option.getD_none]
    by_cases hk : AUTH_HEADER ∈ queryMap
    · simp [QueryMap.count_ne_zero.mpr hk, QueryMap.get]
    · simp [QueryMap.count, hk, AList.lookup_eq_none.mpr hk]

/-- The answers the dispatcher writes itself, after the CORS headers: the preflight is `200 OK`
with an empty body and the requested headers echoed; no match is `404 Not Found` with a JSON
message; a refused credential is `401 Unauthorized`, also JSON. A handler's answer carries the
status the handler set. -/
theorem dispatcher_responses (headers : List (Bytes × Bytes)) (acl AUTH_HEADER : Bytes) (res : HttpRes) :
    (preflightResponse headers acl).status = 200 ∧ (preflightResponse headers acl).reason = "OK".toList ∧
      (preflightResponse headers acl).body = [] ∧
      ("access-control-allow-headers".toList, acl) ∈ (preflightResponse headers acl).headers ∧
    (notFoundResponse headers).status = 404 ∧ (notFoundResponse headers).reason = "Not Found".toList ∧
      (notFoundResponse headers).body = "\x7b \"message\": \"Not Found\"\x7d".toList ∧
      jsonContentType ∈ (notFoundResponse headers).headers ∧
    (send401Unauthorized AUTH_HEADER headers).status = 401 ∧
      (send401Unauthorized AUTH_HEADER headers).reason = "Unauthorized".toList ∧
      jsonContentType ∈ (send401Unauthorized AUTH_HEADER headers).headers ∧
    (sendResponse headers res).status = res.statusCode ∧ (sendResponse headers res).body = cStrDup res.body ∧
    headers.IsPrefix (preflightResponse headers acl).headers ∧ headers.IsPrefix (notFoundResponse headers).headers ∧
      headers.IsPrefix (send401Unauthorized AUTH_HEADER headers).headers ∧
      headers.IsPrefix (sendResponse headers res).headers :=
  ⟨rfl, rfl, rfl, List.mem_append_right _ (.tail _ (.head _)), rfl, rfl, rfl, List.mem_append_right _ (.head _),
    rfl, rfl, List.mem_append_right _ (.head _), rfl, rfl,
    List.prefix_append _ _, List.prefix_append _ _, List.prefix_append _ _, List.prefix_append _ _⟩

section Dispatch

variable {H : Type} (AUTH_HEADER : Bytes) (urlDecode : Bytes → Bytes) (run : H → HttpReq → HttpRes)

/-- What `catch_all_handler` does once the loop has found `rpath`: one call of the auth handler,
then the `401`, or the handler on the request with the path parameters bound and, for a
synchronous route, `send_response`. An async handler answers later by itself. -/
def serveRoute (srv : HttpServer H) (rpath : RoutePath H) (authKey : Bytes) (queryMap : QueryMap)
    (pathParts : List Bytes) (body : Bytes) : List (Effect H) :=
  .authenticate rpath authKey ::
    if srv.authHandler rpath authKey then
      let request : HttpReq := ⟨bindPathParams queryMap rpath.pathParts pathParts, body⟩
      .invoke rpath request ::
        if rpath.async then []
        else [.respond (sendResponse (corsHeaders srv.corsEnabled) (run rpath.handler request))]
    else [.respond (send401Unauthorized AUTH_HEADER (corsHeaders srv.corsEnabled))]

/-- `HttpServer::catch_all_handler`, with `AUTH_HEADER` (http_server.h) a parameter and the
handlers' behaviour given by `run`: the effects on one request, in order, or `none` where the
handler reads `path_with_query_parts[0]` out of bounds. -/
def catchAllHandler (srv : HttpServer H) (req : H2oReq) : Option (List (Effect H)) :=
  (pathPartsOf req.path).map fun pathParts =>
    let queryMap := parseQuery urlDecode req.query
    let authKey := authKeyFromHeader AUTH_HEADER req.headers queryMap
    match preflight srv.corsEnabled req with
    | some res => [.respond res]
    | none =>
      match findRoute req.method pathParts srv.routes with
      | some rpath => serveRoute AUTH_HEADER run srv rpath authKey queryMap pathParts req.entity
      | none => [.respond (notFoundResponse (corsHeaders srv.corsEnabled))]

theorem catchAllHandler_of_pathParts {srv : HttpServer H} {req : H2oReq} {pathParts : List Bytes}
    (hp : pathPartsOf req.path = some pathParts) :
    catchAllHandler AUTH_HEADER urlDecode run srv req = some
      (match preflight srv.corsEnabled req with
      | some res => [.respond res]
      | none =>
        match findRoute req.method pathParts srv.routes with
        | some rpath => serveRoute AUTH_HEADER run srv rpath
            (authKeyFromHeader AUTH_HEADER req.headers (parseQuery urlDecode req.query))
            (parseQuery urlDecode req.query) pathParts req.entity
        | none => [.respond (notFoundResponse (corsHeaders srv.corsEnabled))]) := by
  simp [catchAllHandler, hp]

/-- A path of `?` alone: `path_with_query_parts` is empty and the handler reads its element `0`
before any branch, whatever the server, method, headers and body. -/
theorem catchAllHandler_question_path (srv : HttpServer H) (method : Bytes)
    (headers : List (Bytes × Bytes)) (entity : Bytes) :
    catchAllHandler AUTH_HEADER urlDecode run srv ⟨method, "?".toList, headers, entity⟩ = none := by
  simp [catchAllHandler, pathPartsOf, pathWithoutQuery, split_eq_nil_of_forall_eq]

/-- Every run of the handler is a single answer, or the service of the route the loop found. -/
theorem catchAllHandler_cases {srv : HttpServer H} {req : H2oReq} {effs : List (Effect H)}
    (h : catchAllHandler AUTH_HEADER urlDecode run srv req = some effs) :
    (∃ res, effs = [.respond res]) ∨
      ∃ pathParts rpath, pathPartsOf req.path = some pathParts ∧
        findRoute req.method pathParts srv.routes = some rpath ∧
        effs = serveRoute AUTH_HEADER run srv rpath
          (authKeyFromHeader AUTH_HEADER req.headers (parseQuery urlDecode req.query))
          (parseQuery urlDecode req.query) pathParts req.entity := by
  obtain ⟨pathParts, hp, rfl⟩ := Option.map_eq_some'.mp h
  simp only
  split
  · exact .inl ⟨_, rfl⟩
  · split
    · next rpath hr => exact .inr ⟨pathParts, rpath, hp, hr, rfl⟩
    · exact .inl ⟨_, rfl⟩

/-- A handler call in the service of a route is a call of that route's handler, after the auth
handler accepted it, on the request with the path parameters bound. -/
theorem invoke_mem_serveRoute {srv : HttpServer H} {rpath r : RoutePath H} {authKey : Bytes}
    {queryMap : QueryMap} {pathParts : List Bytes} {body : Bytes} {request : HttpReq}
    (h : Effect.invoke r request ∈ serveRoute AUTH_HEADER run srv rpath authKey queryMap pathParts body) :
    r = rpath ∧ srv.authHandler rpath authKey = true ∧
      request = ⟨bindPathParams queryMap rpath.pathParts pathParts, body⟩ := by
  simp only [serveRoute] at h
  split at h
  · next hauth =>
    simp only [List.mem_cons, Effect.invoke.injEq, reduceCtorEq, false_or] at h
    rcases h with ⟨rfl, rfl⟩ | h
    · exact ⟨rfl, hauth, rfl⟩
    · split at h <;> simp at h
  · simp at h

/-- **The handler sees the query's parameters, extended by the path's.** Whenever a request
reaches a route's handler, the route matches the request's segments, and each key of the handler's
map has its query value, or else the segment of the route's leftmost `:key`; no other key is
present. -/
theorem catchAllHandler_params {srv : HttpServer H} {req : H2oReq} {effs : List (Effect H)}
    {rpath : RoutePath H} {request : HttpReq}
    (h : catchAllHandler AUTH_HEADER urlDecode run srv req = some effs)
    (hinv : Effect.invoke rpath request ∈ effs) :
    ∃ pathParts, pathPartsOf req.path = some pathParts ∧ RouteMatches rpath req.method pathParts ∧
      ∀ k, request.params.lookup k =
        ((parseQuery urlDecode req.query).lookup k).or (pathParam rpath.pathParts pathParts k) := by
  rcases catchAllHandler_cases AUTH_HEADER urlDecode run h with ⟨res, rfl⟩ | ⟨pathParts, r, hp, hr, rfl⟩
  · simp at hinv
  · obtain ⟨rfl, -, rfl⟩ := invoke_mem_serveRoute AUTH_HEADER run hinv
    rw [findRoute_eq_find?] at hr
    have hm := List.find?_some (p := fun r => decide (RouteMatches r req.method pathParts)) hr
    exact ⟨pathParts, hp, of_decide_eq_true hm, lookup_bindPathParams _ _ _⟩

theorem catchAllHandler_params_item :
    ∃ pathParts, pathPartsOf "/items/42?id=7".toList = some pathParts ∧
      RouteMatches (⟨"GET".toList, ["items".toList, ":id".toList], 0, false⟩ : RoutePath Nat)
        "GET".toList pathParts ∧
      ∀ k, (bindPathParams (parseQuery id "?id=7".toList) ["items".toList, ":id".toList]
          ["items".toList, "42".toList]).lookup k =
        ((parseQuery id (H2oReq.query ⟨"GET".toList, "/items/42?id=7".toList, [], []⟩)).lookup k).or
          (pathParam ["items".toList, ":id".toList] pathParts k) :=
  @catchAllHandler_params Nat "x-typesense-api-key".toList id
    (fun _ request => ⟨200, [], request.body, true⟩)
    ⟨get [] "/items/:id".toList 0 false, false, fun _ _ => true⟩
    ⟨"GET".toList, "/items/42?id=7".toList, [], []⟩ _ _ _ rfl
    (List.mem_cons_of_mem _ (List.mem_cons_self _ _))

/-! ## The dispatcher's contract -/

theorem serveRoute_eq (srv : HttpServer H) (rpath : RoutePath H) (authKey : Bytes)
    (queryMap : QueryMap) (pathParts : List Bytes) (body : Bytes) :
    serveRoute AUTH_HEADER run srv rpath authKey queryMap pathParts body =
      if srv.authHandler rpath authKey then
        [.authenticate rpath authKey,
          .invoke rpath ⟨bindPathParams queryMap rpath.pathParts pathParts, body⟩] ++
        if rpath.async then []
        else [.respond (sendResponse (corsHeaders srv.corsEnabled)
          (run rpath.handler ⟨bindPathParams queryMap rpath.pathParts pathParts, body⟩))]
      else [.authenticate rpath authKey,
        .respond (send401Unauthorized AUTH_HEADER (corsHeaders srv.corsEnabled))] := by
  unfold serveRoute; split <;> rfl

/-- The dispatcher's contract in the spec's words: a CORS preflight is answered `200` with an
empty body and nothing called; otherwise the first route in registration order that matches the
request is authenticated once with the request's credential, and on success only its handler runs
once, a synchronous route's response following; with no match, one `404`. -/
def dispatchContract (srv : HttpServer H) (req : H2oReq) (pathParts : List Bytes) : List (Effect H) :=
  let queryMap := parseQuery urlDecode req.query
  let authKey := authKeyFromHeader AUTH_HEADER req.headers queryMap
  let headers := corsHeaders srv.corsEnabled
  match srv.corsEnabled && req.method == "OPTIONS".toList,
      findHeader req.headers "access-control-request-headers".toList with
  | true, some acl => [.respond (preflightResponse headers acl)]
  | _, _ =>
    match srv.routes.find? (fun r => decide (RouteMatches r req.method pathParts)) with
    | none => [.respond (notFoundResponse headers)]
    | some rpath =>
      if srv.authHandler rpath authKey then
        let request : HttpReq := ⟨bindPathParams queryMap rpath.pathParts pathParts, req.entity⟩
        [.authenticate rpath authKey, .invoke rpath request] ++
          if rpath.async then [] else [.respond (sendResponse headers (run rpath.handler request))]
      else [.authenticate rpath authKey, .respond (send401Unauthorized AUTH_HEADER headers)]

/-- **`catch_all_handler` keeps the dispatcher's contract** on every request whose path has a
token before its query. -/
theorem catchAllHandler_contract {srv : HttpServer H} {req : H2oReq} {pathParts : List Bytes}
    (hp : pathPartsOf req.path = some pathParts) :
    catchAllHandler AUTH_HEADER urlDecode run srv req =
      some (dispatchContract AUTH_HEADER urlDecode run srv req pathParts) := by
  rw [catchAllHandler_of_pathParts AUTH_HEADER urlDecode run hp, findRoute_eq_find?, dispatchContract]
  simp only [serveRoute_eq]
  generalize srv.routes.find? (fun r => decide (RouteMatches r req.method pathParts)) = found
  unfold preflight
  generalize (srv.corsEnabled && req.method == "OPTIONS".toList) = b
  cases found <;> cases b <;> cases findHeader req.headers "access-control-request-headers".toList <;>
    rfl

theorem catchAllHandler_contract_item :
    catchAllHandler "x-typesense-api-key".toList id (fun (_ : Nat) request => ⟨200, [], request.body, true⟩)
        ⟨get [] "/items/:id".toList 0 false, false, fun _ _ => true⟩
        ⟨"GET".toList, "/items/42".toList, [], []⟩ =
      some (dispatchContract "x-typesense-api-key".toList id (fun _ request => ⟨200, [], request.body, true⟩)
        ⟨get [] "/items/:id".toList 0 false, false, fun _ _ => true⟩
        ⟨"GET".toList, "/items/42".toList, [], []⟩ ["items".toList, "42".toList]) :=
  catchAllHandler_contract _ _ _ rfl

/-! ## Authentication and the reply -/

/-- Whether an effect is a call of the auth handler. -/
def Effect.isAuthenticate {H : Type} : Effect H → Bool
  | .authenticate .. => true
  | _ => false

/-- Whether an effect is a response. -/
def Effect.isRespond {H : Type} : Effect H → Bool
  | .respond _ => true
  | _ => false

/-- **No handler runs unauthenticated.** The auth handler is called at most once per request, and
a route's handler runs only when the auth handler accepted that very route with the request's
credential. -/
theorem catchAllHandler_auth {srv : HttpServer H} {req : H2oReq} {effs : List (Effect H)}
    (h : catchAllHandler AUTH_HEADER urlDecode run srv req = some effs) :
    effs.countP Effect.isAuthenticate ≤ 1 ∧
      ∀ rpath request, Effect.invoke rpath request ∈ effs →
        Effect.authenticate rpath
            (authKeyFromHeader AUTH_HEADER req.headers (parseQuery urlDecode req.query)) ∈ effs ∧
          srv.authHandler rpath
            (authKeyFromHeader AUTH_HEADER req.headers (parseQuery urlDecode req.query)) = true := by
  rcases catchAllHandler_cases AUTH_HEADER urlDecode run h with ⟨res, rfl⟩ | ⟨pathParts, r, -, -, rfl⟩
  · simp [Effect.isAuthenticate]
  · refine ⟨?_, fun rpath request hinv => ?_⟩
    · rw [serveRoute_eq]
      split <;> [split; skip] <;> simp [Effect.isAuthenticate]
    · obtain ⟨rfl, hauth, -⟩ := invoke_mem_serveRoute AUTH_HEADER run hinv
      exact ⟨by simp [serveRoute], hauth⟩

/-- A key that the auth handler accepts for the item route, sent in the header. -/
theorem catchAllHandler_auth_item :
    ∃ effs, catchAllHandler "x-typesense-api-key".toList id
        (fun (_ : Nat) request => ⟨200, [], request.body, true⟩)
        ⟨get [] "/items/:id".toList 0 false, false, fun _ key => key == "k".toList⟩
        ⟨"GET".toList, "/items/42".toList, [("x-typesense-api-key".toList, "k".toList)], []⟩ = some effs ∧
      effs.countP Effect.isAuthenticate ≤ 1 ∧
      ∀ rpath request, Effect.invoke rpath request ∈ effs →
        Effect.authenticate rpath
            (authKeyFromHeader "x-typesense-api-key".toList [("x-typesense-api-key".toList, "k".toList)]
              (parseQuery id (H2oReq.query ⟨"GET".toList, "/items/42".toList,
                [("x-typesense-api-key".toList, "k".toList)], []⟩))) ∈ effs ∧
          (fun (_ : RoutePath Nat) key => key == "k".toList) rpath
            (authKeyFromHeader "x-typesense-api-key".toList [("x-typesense-api-key".toList, "k".toList)]
              (parseQuery id (H2oReq.query ⟨"GET".toList, "/items/42".toList,
                [("x-typesense-api-key".toList, "k".toList)], []⟩))) = true :=
  ⟨_, rfl, @catchAllHandler_auth Nat "x-typesense-api-key".toList id
    (fun _ request => ⟨200, [], request.body, true⟩)
    ⟨get [] "/items/:id".toList 0 false, false, fun _ key => key == "k".toList⟩
    ⟨"GET".toList, "/items/42".toList, [("x-typesense-api-key".toList, "k".toList)], []⟩ _ rfl⟩

/-- **One reply per request, from one side.** Either the dispatcher answers exactly once and no
async handler ran, or an async route's handler ran, the dispatcher sends nothing, and the reply is
the handler's to give. -/
theorem catchAllHandler_one_reply {srv : HttpServer H} {req : H2oReq} {effs : List (Effect H)}
    (h : catchAllHandler AUTH_HEADER urlDecode run srv req = some effs) :
    (effs.countP Effect.isRespond = 1 ∧
        ∀ rpath request, Effect.invoke rpath request ∈ effs → rpath.async = false) ∨
      (effs.countP Effect.isRespond = 0 ∧
        ∃ rpath request, Effect.invoke rpath request ∈ effs ∧ rpath.async = true) := by
  rcases catchAllHandler_cases AUTH_HEADER urlDecode run h with ⟨res, rfl⟩ | ⟨pathParts, r, -, -, rfl⟩
  · simp [Effect.isRespond]
  · rw [serveRoute_eq]
    split
    · cases hasync : r.async
      · exact .inl ⟨by simp [Effect.isRespond], by simp [hasync]⟩
      · exact .inr ⟨by simp [Effect.isRespond, hasync], r, _,
          List.mem_append_left _ (List.mem_cons_of_mem _ (List.mem_cons_self _ _)), hasync⟩
    · exact .inl ⟨by simp [Effect.isRespond], by simp⟩

/-- An async item route: its handler runs and the dispatcher sends nothing. -/
theorem catchAllHandler_one_reply_async :
    ∃ effs, catchAllHandler "x-typesense-api-key".toList id
        (fun (_ : Nat) request => ⟨200, [], request.body, true⟩)
        ⟨get [] "/items/:id".toList 0 true, false, fun _ _ => true⟩
        ⟨"GET".toList, "/items/42".toList, [], []⟩ = some effs ∧
      ((effs.countP Effect.isRespond = 1 ∧
          ∀ rpath request, Effect.invoke rpath request ∈ effs → rpath.async = false) ∨
        (effs.countP Effect.isRespond = 0 ∧
          ∃ rpath request, Effect.invoke rpath request ∈ effs ∧ rpath.async = true)) :=
  ⟨_, rfl, @catchAllHandler_one_reply Nat "x-typesense-api-key".toList id
    (fun _ request => ⟨200, [], request.body, true⟩)
    ⟨get [] "/items/:id".toList 0 true, false, fun _ _ => true⟩
    ⟨"GET".toList, "/items/42".toList, [], []⟩ _ rfl⟩

end Dispatch

/-- `?` and `?a=1`: the tokenizer drops the empty piece before the `?`, so the first has no token
to read as `path_with_query_parts[0]`, and the second routes on the query `a=1`. -/
theorem pathPartsOf_leading_question :
    pathPartsOf "?".toList = none ∧ pathPartsOf "?a=1".toList = some ["a=1".toList] := by
  decide

/-- When something stands before the path's first `?`, the handler routes on the `/`-tokens of
exactly that prefix. -/
theorem pathPartsOf_of_prefix {path : Bytes} (h : path.takeWhile (· ≠ '?') ≠ []) :
    pathPartsOf path = some (split (path.takeWhile (· ≠ '?')) '/') := by
  simp [pathPartsOf, pathWithoutQuery, split_head?_of_takeWhile_ne_nil h]

theorem pathPartsOf_items :
    "/items/42?id=7".toList.takeWhile (· ≠ '?') ≠ [] ∧
      pathPartsOf "/items/42?id=7".toList = some (split ("/items/42?id=7".toList.takeWhile (· ≠ '?')) '/') :=
  ⟨by decide, pathPartsOf_of_prefix (by decide)⟩


/-! ## Requests for a registered template -/

/-- The raw path a client sends for the segments `parts`: each written after a `/`, and `/`
alone when there is none. -/
def joinPath (parts : List Bytes) : Bytes := '/' :: ['/'].intercalate parts

/-- What may follow the path: nothing, or a query string opened by its `?`. -/
def QuerySuffix (query : Bytes) : Prop := query = [] ∨ query.head? = some '?'

instance (query : Bytes) : Decidable (QuerySuffix query) := inferInstanceAs (Decidable (_ ∨ _))

section Join

variable {parts : List Bytes} {query : Bytes} (hparts : ∀ p ∈ parts, p ≠ [] ∧ '/' ∉ p ∧ '?' ∉ p)
include hparts

theorem joinPath_no_question : ∀ c ∈ joinPath parts, c ≠ '?' := by
  rintro c hc rfl
  rcases List.mem_cons.mp hc with h | h
  · exact absurd h (by decide)
  · rcases mem_intercalate_singleton h with h | ⟨p, hp, hq⟩
    · exact absurd h (by decide)
    · exact (hparts p hp).2.2 hq

/-- A path joined from segments free of `?`, and followed by nothing or a query, routes on
exactly those segments. -/
theorem pathPartsOf_joinPath (hquery : QuerySuffix query) :
    pathPartsOf (joinPath parts ++ query) = some parts := by
  have htake : (joinPath parts ++ query).takeWhile (· ≠ '?') = joinPath parts := by
    rw [List.takeWhile_append_of_pos (by simpa using joinPath_no_question hparts)]
    rcases hquery with rfl | hq
    · simp
    · obtain ⟨q, rfl⟩ := List.head?_eq_some_iff.mp hq
      simp
  have hne : (joinPath parts ++ query).takeWhile (· ≠ '?') ≠ [] := by
    rw [htake]; exact List.cons_ne_nil _ _
  rw [pathPartsOf, pathWithoutQuery, split_head?_of_takeWhile_ne_nil hne, htake, Option.map_some']
  exact congrArg some (split_cons_intercalate fun p hp => ⟨(hparts p hp).1, (hparts p hp).2.1⟩)

/-- The query string h2o finds at `query_at` in such a path is the one that follows it. -/
theorem query_joinPath (req : H2oReq) (hpath : req.path = joinPath parts ++ query)
    (hquery : QuerySuffix query) : req.query = query := by
  have hnone : (joinPath parts).findIdx? (· = '?') = none :=
    List.findIdx?_eq_none_iff.mpr fun c hc => by simpa using joinPath_no_question hparts c hc
  rcases hquery with rfl | hq
  · simp [H2oReq.query, H2oReq.queryAt, hpath, hnone]
  · obtain ⟨q, rfl⟩ := List.head?_eq_some_iff.mp hq
    simp [H2oReq.query, H2oReq.queryAt, hpath, hnone]

end Join

section Template

variable {H : Type} (AUTH_HEADER : Bytes) (urlDecode : Bytes → Bytes) (run : H → HttpReq → HttpRes)

end Template

end TypesenseHttp
