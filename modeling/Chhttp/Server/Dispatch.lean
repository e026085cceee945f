import Chhttp.Common.Message
import Chhttp.Server.Captures

/-!
# The dispatch index

`buildDispatchIndex` files every route under its method, literal patterns by their text and the
others in order of registration, and `locateRoute` merges at most two of these buckets.  The loop
of `locate_route` keeps the patterned routes that its two positions have not passed yet.
-/

namespace Chhttp

/-! ### The source -/

/-- `Route`, as far as dispatch looks at it: its method in lower case, and its pattern. -/
structure Route where
  method : Bytes
  pattern : CompiledPattern
  deriving DecidableEq

/-- `Server::route`: a pattern that does not compile is not registered. -/
def Route.register (engine : RegexEngine) (registration : Bytes × Bytes) :
    Except PatternError Route :=
  match compilePattern engine registration.2 with
  | .error e => .error e
  | .ok pattern => .ok { method := lower registration.1, pattern }

/-- `MethodRoutes`: the routes of a method.  Literal patterns are found by their path at once, the
others are tried one after another. -/
structure MethodRoutes where
  patterned : List ℕ := []
  literalFirst : AList (fun _ : Bytes => ℕ) := ∅

/-- `MethodRoutesMap`. -/
abbrev MethodRoutesMap := AList fun _ : Bytes => MethodRoutes

/-- A route in its bucket; `try_emplace` keeps the first index of a literal. -/
def MethodRoutes.add (bucket : MethodRoutes) (route : Route) (index : ℕ) : MethodRoutes :=
  if route.pattern.literalOnly then
    if route.pattern.literal ∈ bucket.literalFirst then bucket
    else
      { bucket with literalFirst := bucket.literalFirst.insert route.pattern.literal index }
  else { bucket with patterned := bucket.patterned ++ [index] }

/-- One iteration of `build_dispatch_index`. -/
def addRoute (map : MethodRoutesMap) (entry : Route × ℕ) : MethodRoutesMap :=
  map.insert entry.1.method (((map.lookup entry.1.method).getD {}).add entry.1 entry.2)

/-- `build_dispatch_index`: the routes are put into the buckets of their methods, in order of
registration. -/
def buildDispatchIndex (routes : List Route) : MethodRoutesMap :=
  routes.zipIdx.foldl addRoute ∅

/-- The loop of `locate_route`: the patterned routes from the two positions on, and what
`match_pattern` is handed. -/
structure Cursors where
  primary : List ℕ
  secondary : List ℕ
  parameters : PathParams := ∅
  captures : PatternCaptures := []

/-- The next patterned route in order of registration. -/
def Cursors.next (c : Cursors) : Option ℕ := Option.merge min c.primary.head? c.secondary.head?

/-- The cursors past a route that did not match. -/
def Cursors.advance (c : Cursors) (next : ℕ) (parameters : PathParams)
    (captures : PatternCaptures) : Cursors where
  primary := c.primary.dropWhile (· == next)
  secondary := c.secondary.dropWhile (· == next)
  parameters := parameters
  captures := captures

/-- One iteration of the loop of `locate_route`. -/
def locateStep (engine : RegexEngine) (table : List Route) (path : Bytes)
    (literalIndex : Option ℕ) (c : Cursors) : Loop.Next Cursors (Option ℕ × PathParams) :=
  match c.next with
  | none => .leave (literalIndex, c.parameters)
  | some next =>
    if literalIndex.any (· ≤ next) then .leave (literalIndex, c.parameters)
    else
      match table[next]? with
      -- The positions in the index are those of the table.
      | none => .leave (none, c.parameters)
      | some route =>
        match matchPattern engine route.pattern path c.parameters c.captures with
        | (true, parameters, _) => .leave (some next, parameters)
        | (false, parameters, captures) => .again (c.advance next parameters captures)

/-- Dropping the route that came next shortens one of the two lists.  The loop over the cursors ends
with the two lists. -/
lemma Cursors.advance_length {c : Cursors} {next : ℕ} (h : c.next = some next)
    (parameters : PathParams) (captures : PatternCaptures) :
    (c.advance next parameters captures).primary.length +
        (c.advance next parameters captures).secondary.length <
      c.primary.length + c.secondary.length := by
  obtain ⟨primary, secondary, _, _⟩ := c
  have hdrop : ∀ l : List ℕ, (l.dropWhile (· == next)).length ≤ l.length := fun l =>
    (List.dropWhile_sublist _).length_le
  have hcons : ∀ l : List ℕ, ((next :: l).dropWhile (· == next)).length < (next :: l).length := by
    intro l
    rw [List.dropWhile_cons_of_pos (by simp), List.length_cons]
    exact Nat.lt_succ_of_le (hdrop l)
  simp only [Cursors.advance]
  cases primary with
  | nil =>
    cases secondary with
    | nil => cases h
    | cons b secondary =>
      cases h
      exact Nat.add_lt_add_of_le_of_lt (hdrop _) (hcons secondary)
  | cons a primary =>
    cases secondary with
    | nil =>
      cases h
      exact Nat.add_lt_add_of_lt_of_le (hcons primary) (hdrop _)
    | cons b secondary =>
      obtain hmin : min a b = next := Option.some.inj h
      rcases min_choice a b with hab | hab
      · obtain rfl : a = next := hab.symm.trans hmin
        exact Nat.add_lt_add_of_lt_of_le (hcons primary) (hdrop _)
      · obtain rfl : b = next := hab.symm.trans hmin
        exact Nat.add_lt_add_of_le_of_lt (hdrop _) (hcons secondary)

/-- Every iteration passes a route. -/
lemma locateStep_decreases (engine : RegexEngine) (table : List Route) (path : Bytes)
    (literalIndex : Option ℕ) :
    Loop.Decreases (locateStep engine table path literalIndex)
      fun c => c.primary.length + c.secondary.length := by
  intro c t h
  unfold locateStep at h
  cases hnext : c.next with
  | none =>
    rw [hnext] at h
    cases h
  | some next =>
    rw [hnext] at h
    dsimp only at h
    split_ifs at h
    cases htable : table[next]? with
    | none =>
      rw [htable] at h
      cases h
    | some route =>
      rw [htable] at h
      dsimp only at h
      rcases hmatch : matchPattern engine route.pattern path c.parameters c.captures with
        ⟨_ | _, parameters, captures⟩
      · rw [hmatch] at h
        cases h
        exact Cursors.advance_length hnext parameters captures
      · rw [hmatch] at h
        cases h

/-- The index of a literal route, in two buckets. -/
def literalIndex (primary secondary : Option MethodRoutes) (path : Bytes) : Option ℕ :=
  Option.merge min (primary.bind (·.literalFirst.lookup path))
    (secondary.bind (·.literalFirst.lookup path))

/-- `locate_route`; a bucket that does not exist has no routes. -/
def locateRoute (engine : RegexEngine) (primary secondary : Option MethodRoutes) (path : Bytes)
    (table : List Route) : Option ℕ × PathParams :=
  Loop.run (locateStep engine table path (literalIndex primary secondary path)) _
    (locateStep_decreases engine table path _)
    { primary := (primary.map MethodRoutes.patterned).getD []
      secondary := (secondary.map MethodRoutes.patterned).getD [] }

/-- `bucket_for`. -/
def bucketFor (map : MethodRoutesMap) (method : Bytes) : Option MethodRoutes :=
  if method.isEmpty then none else map.lookup method

/-- A `Request` with its `path_params`.  The parameters are those of the route that was found, and
there are none before. -/
structure RoutedRequest extends Request where
  pathParams : PathParams := ∅

/-- The parameters of a request once its route is known. -/
def routeFound (request : RoutedRequest) : Option ℕ × PathParams → Option ℕ × RoutedRequest
  | (none, _) => (none, request)
  | (some matched, parameters) => (some matched, { request with pathParams := parameters })

/-- The second bucket that a request consults: `HEAD` also looks at the routes of `GET`. -/
def secondaryBucket (map : MethodRoutesMap) (method : Bytes) : Option MethodRoutes :=
  if method = bytes "head" then map.lookup (bytes "get") else none

/-- `find_route`: the buckets of the method are merged by position, and the first route that matches
wins. -/
def findRoute (engine : RegexEngine) (routes : List Route) (routesByMethod : MethodRoutesMap)
    (request : RoutedRequest) : Option ℕ × RoutedRequest :=
  let key := lower request.method
  routeFound request (locateRoute engine (bucketFor routesByMethod key)
    (secondaryBucket routesByMethod key) request.path routes)

/-- `find_stream_route`: `HEAD` is not special, and no index means no stream routes. -/
def findStreamRoute (engine : RegexEngine) (streamRoutes : List Route)
    (streamRoutesByMethod : MethodRoutesMap) (request : RoutedRequest) :
    Option ℕ × RoutedRequest :=
  if streamRoutesByMethod.keys.isEmpty then (none, request)
  else
    routeFound request (locateRoute engine (bucketFor streamRoutesByMethod (lower request.method))
      none request.path streamRoutes)

/-- The loop of `find_ws_route`, from an index on. -/
def findWsRouteFrom (engine : RegexEngine) (path : Bytes) :
    List Route → ℕ → PathParams → PatternCaptures → Option ℕ × PathParams
  | [], _, parameters, _ => (none, parameters)
  | route :: routes, index, parameters, captures =>
    match matchPattern engine route.pattern path parameters captures with
    | (true, parameters, _) => (some index, parameters)
    | (false, _, captures) => findWsRouteFrom engine path routes (index + 1) ∅ captures

/-- `find_ws_route`; the method of a route plays no part. -/
def findWsRoute (engine : RegexEngine) (websocketRoutes : List Route) (request : RoutedRequest) :
    Option ℕ × RoutedRequest :=
  routeFound request (findWsRouteFrom engine request.path websocketRoutes 0 ∅ [])

end Chhttp
