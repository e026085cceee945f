import Chhttp.Protocol.RequestHead
import Chhttp.Server.FirstMatch

/-!
# Path parameters

The path of a request is percent-decoded when its head is parsed, and `match_pattern` decodes each
capture again before it stores it.  `DecodedOnce` says what the parameters of a route should be:
the pieces of the once-decoded path that its segments match.  They are exactly as long as the
second decoding changes none of the pieces (`path_params_decoded_once_iff`).
-/

namespace Chhttp

/-! ### Decoding twice -/

/-- Decoding never makes a text longer, and every escape makes it shorter. -/
lemma urlDecodeLoop_length {value decoded : Bytes} (h : urlDecodeLoop false value = .ok decoded) :
    decoded.length ≤ value.length ∧ (0x25 ∈ value → decoded.length < value.length) := by
  fun_induction urlDecodeLoop false value generalizing decoded with
  | case1 =>
    cases h
    exact ⟨le_rfl, fun hmem => absurd hmem List.not_mem_nil⟩
  | case2 c hpercent high low tail highValue lowValue hlow hhigh out hout ih =>
    cases h
    have hle := (ih hout).1
    simp only [List.length_cons]
    exact ⟨by omega, fun _ => by omega⟩
  | case6 c rest hpercent out hout ih =>
    cases h
    obtain ⟨hle, hlt⟩ := ih hout
    simp only [List.length_cons]
    refine ⟨by omega, fun hmem => ?_⟩
    rcases List.mem_cons.mp hmem with hc | hmem
    · exact absurd (beq_iff_eq.mpr hc.symm) hpercent
    · exact Nat.succ_lt_succ (hlt hmem)
  | case3 => cases h
  | case4 => cases h
  | case5 => cases h
  | case7 => cases h

/-- Decoding leaves a text as it is exactly if it has no percent sign.  So decoding a second time is
harmless for those texts alone. -/
theorem urlDecode_eq_self_iff {value : Bytes} : urlDecode value = .ok value ↔ 0x25 ∉ value := by
  unfold urlDecode
  constructor
  · intro h hmem
    rw [if_neg (by simpa using hmem)] at h
    exact absurd ((urlDecodeLoop_length h).2 hmem) (lt_irrefl _)
  · intro h
    rw [if_pos (by simpa using h)]

/-- A second decoding leaves the text as it is: it has no percent sign, or a malformed escape.  In
the second case the source keeps the text as it is. -/
def Settled (value : Bytes) : Prop := 0x25 ∉ value ∨ ∃ e, urlDecode value = .error e

/-- What is stored for a capture is the capture exactly if it is settled. -/
lemma decodedCapture_eq_self_iff {value : Bytes} : decodedCapture value = value ↔ Settled value := by
  unfold decodedCapture Settled
  cases hdecode : urlDecode value with
  | error e =>
    dsimp only
    exact iff_of_true rfl (Or.inr ⟨e, rfl⟩)
  | ok decoded =>
    dsimp only
    constructor
    · rintro rfl
      exact Or.inl ((urlDecode_eq_self_iff).mp hdecode)
    · rintro (h | ⟨e, he⟩)
      · rw [(urlDecode_eq_self_iff).mpr h] at hdecode
        cases hdecode
        rfl
      · cases he

/-! ### Dispatched requests -/

/-- A request is dispatched to a route of one of the three tables.  Parameters are assigned in the
same way in all three. -/
inductive Dispatches (engine : RegexEngine) (routes : List Route) (request : RoutedRequest) (i : ℕ)
    (routed : RoutedRequest) : Prop where
  | route (h : findRoute engine routes (buildDispatchIndex routes) request = (some i, routed))
  | stream
      (h : findStreamRoute engine routes (buildDispatchIndex routes) request = (some i, routed))
  | websocket (h : findWsRoute engine routes request = (some i, routed))

/-- The route that is found has captures, and they become the parameters. -/
lemma FindsFirst.routed {engine : RegexEngine} {table : List Route} {path : Bytes} {S : Set ℕ}
    {request routed : RoutedRequest} {result : Option ℕ × PathParams} {i : ℕ}
    (h : FindsFirst engine table path S result)
    (hS : ∀ i ∈ S, (capturedAt engine table path i).isSome)
    (hresult : routeFound request result = (some i, routed)) :
    ∃ found, capturedAt engine table path i = some found ∧
      routed = { request with pathParams := assignCaptures ∅ found } := by
  obtain ⟨hindex, -, hsome⟩ := routeFound_eq h request
  rw [hresult] at hindex hsome
  obtain ⟨found, hfound⟩ := Option.isSome_iff_exists.mp (hS i ((h.index i).mp hindex.symm).1)
  exact ⟨found, hfound, hsome i found hindex.symm hfound⟩

/-- The routes that serve a path have captures. -/
lemma isSome_of_eligible {engine : RegexEngine} {table : List Route} {path : Bytes}
    {p : Bytes → Bool} : ∀ i ∈ eligible engine table path p,
      (capturedAt engine table path i).isSome := by
  rintro i ⟨route, hroute, -, hsome⟩
  rw [capturedAt, hroute, Option.bind_some]
  exact hsome

/-- A dispatched request carries the captures of its route. -/
lemma Dispatches.captured {engine : RegexEngine} {routes : List Route}
    {request routed : RoutedRequest} {i : ℕ} (h : Dispatches engine routes request i routed)
    (hmethod : request.method ≠ []) :
    ∃ found, capturedAt engine routes request.path i = some found ∧
      routed = { request with pathParams := assignCaptures ∅ found } := by
  have hkey : lower request.method ≠ [] := by
    rw [lower, ne_eq, List.map_eq_nil_iff]
    exact hmethod
  cases h with
  | route h =>
    exact (locateRoute_findsFirst engine (covers_primary routes request.path hkey)
      (covers_secondary routes request.path _)).routed isSome_of_eligible h
  | stream h =>
    rw [findStreamRoute_eq] at h
    exact (locateRoute_findsFirst engine (covers_primary routes request.path hkey)
      (covers_none routes request.path (p := fun _ => false) fun _ => rfl)).routed
      isSome_of_eligible h
  | websocket h =>
    exact (findWsRouteFrom_findsFirst engine request.path routes [] routes [] rfl).routed
      (fun i hi => hi.2) h

/-! ### Decoding once -/

/-- The pieces of the once-decoded path of a request target that the segments of a pattern
match. -/
def TargetPieces (target : Bytes) (s : PatternState) (found : PatternCaptures) : Prop :=
  ∃ routing path, routingTarget target = .ok routing ∧ urlDecode (rawPath routing) = .ok path ∧
    pieces s path = some found

/-- Every parameter is the piece of the once-decoded path that its segment matches; of two segments
with one name the last one counts. -/
def DecodedOnce (target : Bytes) (s : PatternState) (parameters : PathParams) : Prop :=
  ∃ found, TargetPieces target s found ∧
    ∀ name, parameters.lookup name = lastCapture found name

/-- A target has one list of pieces. -/
lemma TargetPieces.unique {target : Bytes} {s : PatternState} {found found' : PatternCaptures}
    (h : TargetPieces target s found) (h' : TargetPieces target s found') : found = found' := by
  obtain ⟨routing, path, hrouting, hpath, hpieces⟩ := h
  obtain ⟨routing', path', hrouting', hpath', hpieces'⟩ := h'
  rw [hrouting] at hrouting'
  cases hrouting'
  rw [hpath] at hpath'
  cases hpath'
  rw [hpieces] at hpieces'
  cases hpieces'
  rfl

/-- Parameters that are decoded once hold no separator, unless they come from a wildcard.  An
encoded separator becomes one in the first decoding, so it ends the segment; only a second decoding
can bring one into a parameter. -/
theorem DecodedOnce.slash_notMem {target : Bytes} {s : PatternState} {parameters : PathParams}
    (h : DecodedOnce target s parameters) {name value : Bytes}
    (hvalue : parameters.lookup name = some value) :
    slash ∉ value ∨ (name = bytes "wildcard" ∧ .wildcard ∈ s.segments) := by
  obtain ⟨found, ⟨_, _, -, -, hpieces⟩, hlookup⟩ := h
  rw [hlookup] at hvalue
  exact slash_notMem_of_splits (splits_of_split hpieces) (mem_of_lastCapture hvalue)

/-- The path parameters of a dispatched request are decoded exactly once if and only if the second
decoding changes none of the pieces that become parameters. -/
theorem path_params_decoded_once_iff {engine : RegexEngine} {registrations : List (Bytes × Bytes)}
    {routes : List Route} (hroutes : registerRoutes engine registrations = .ok routes)
    {maxHeaderSize : ℕ} {duplicateHeaders : Bool} {input after : Input} {result : RequestHeadResult}
    (hread : readRequestHead maxHeaderSize duplicateHeaders input = (.ok result, after)) {i : ℕ}
    {routed : RoutedRequest}
    (hdispatch : Dispatches engine routes { toRequest := result.request } i routed)
    {method pattern : Bytes} (hroute : registrations[i]? = some (method, pattern))
    (hexpression : isExpression pattern = false) (hliteral : isLiteral pattern = false)
    {s : PatternState} (hsegments : patternSegments pattern = .ok s)
    (hengine : isLinear s = false → engine.Reads s.segments) :
    DecodedOnce result.request.target s routed.pathParams ↔
      ∀ found, TargetPieces result.request.target s found →
        ∀ name piece, lastCapture found name = some piece → Settled piece := by
  obtain ⟨start, lines, fields, routing, path, hhead⟩ := requestHeadRead_of_ok hread
  have hpath : result.request.path = path := by
    rw [hhead.eq]
    rfl
  have hmethod : result.request.method ≠ [] := by
    have hname := hhead.line.method
    rintro hempty
    rw [hempty] at hname
    cases hname
  obtain ⟨found, hfound, rfl⟩ := hdispatch.captured hmethod
  have hpieces : pieces s path = some found := by
    have hforall := registerRoutes_eq_ok hroutes
    obtain ⟨hi, hget⟩ := List.getElem?_eq_some_iff.mp hroute
    have hi' : i < routes.length := hforall.length_eq ▸ hi
    have hregister := hforall.get hi hi'
    rw [List.get_eq_getElem, List.get_eq_getElem, hget] at hregister
    obtain ⟨-, hcompiled⟩ := register_eq_ok hregister
    rw [capturedAt, List.getElem?_eq_getElem hi', Option.bind_some,
      captures_of_compilePattern hengine hcompiled hexpression hliteral hsegments] at hfound
    rw [← hpath]
    exact hfound
  have htarget : TargetPieces result.request.target s found :=
    ⟨routing, path, hhead.routes, hhead.decodes, hpieces⟩
  constructor
  · rintro ⟨found', htarget', hlookup⟩ found'' htarget'' name piece hpiece
    obtain rfl := htarget.unique htarget'
    obtain rfl := htarget.unique htarget''
    have hvalue := hlookup name
    rw [lookup_assignCaptures, hpiece, Option.map_some, Option.some.injEq] at hvalue
    exact decodedCapture_eq_self_iff.mp hvalue
  · intro hsettled
    refine ⟨found, htarget, fun name => ?_⟩
    rw [lookup_assignCaptures]
    cases hpiece : lastCapture found name with
    | none => rfl
    | some piece =>
      rw [Option.map_some, decodedCapture_eq_self_iff.mpr (hsettled found htarget name piece hpiece)]

/-- A request whose head is read, by its method, its target and its path. -/
lemma exists_head_of_check (head method target path : Bytes)
    (h : (match (readRequestHead 64 true ⟨head, []⟩).1 with
      | .ok result => result.request.method == method && result.request.target == target &&
          result.request.path == path
      | .error _ => false) = true) :
    ∃ result after, readRequestHead 64 true ⟨head, []⟩ = (.ok result, after) ∧
      result.request.method = method ∧ result.request.target = target ∧
      result.request.path = path := by
  rcases hread : readRequestHead 64 true ⟨head, []⟩ with ⟨_ | result, after⟩
  · rw [hread] at h
    cases h
  · rw [hread] at h
    simp only [Bool.and_eq_true, beq_iff_eq] at h
    exact ⟨result, after, rfl, h.1.1, h.1.2, h.2⟩

/-- What `locate_route` finds for a method and a path. -/
def locate (engine : RegexEngine) (routes : List Route) (method path : Bytes) :
    Option ℕ × PathParams :=
  locateRoute engine (bucketFor (buildDispatchIndex routes) (lower method))
    (secondaryBucket (buildDispatchIndex routes) (lower method)) path routes

/-- What `find_route` finds depends on the method and the path of the request. -/
lemma dispatches_of_locate (engine : RegexEngine) (routes : List Route) (request : RoutedRequest)
    {i : ℕ} (h : (locate engine routes request.method request.path).1 = some i) :
    Dispatches engine routes request i
      { request with pathParams := (locate engine routes request.method request.path).2 } := by
  apply Dispatches.route
  change routeFound request (locate engine routes request.method request.path) = _
  rcases hlocate : locate engine routes request.method request.path with ⟨_ | j, parameters⟩
  · rw [hlocate] at h
    cases h
  · rw [hlocate] at h
    cases h
    rfl

/-- A regular expression engine that knows the expression of one list of segments. -/
def regexOf (segments : List PatternSegment) : RegexEngine where
  accepts expression := expression == expressionOf segments
  regexMatch expression path :=
    if expression = expressionOf segments then
      (split (fun c => c != 0x0a && c != 0x0d) segments path).map (·.map Prod.snd)
    else none

/-- It reads these segments. -/
lemma regexOf_reads (segments : List PatternSegment) : (regexOf segments).Reads segments := by
  intro path
  simp only [regexOf, if_pos]

/-- The segments of the pattern of the example below, which needs a regular expression. -/
def fileSegments : List PatternSegment :=
  [.literal (bytes "/"), .wildcard, .literal (bytes "/"), .parameter (bytes "name")]

/-- The pattern of the example below, compiled. -/
def fileRoutes : List Route :=
  [{ method := bytes "get"
     pattern := {
       expression := some (expressionOf fileSegments)
       names := [bytes "wildcard", bytes "name"] } }]

/-- What the loop of `compile_pattern` makes of it. -/
def fileState : PatternState where
  rest := []
  previous := some 0x7d
  expression := bytes "^/(.*)/([^/]+)"
  names := [bytes "wildcard", bytes "name"]
  segments := fileSegments
  wildcards := 1

/-- The parameters of a path without an encoded percent sign are decoded once. -/
theorem path_params_decoded_once_of_file :
    ∃ result after routed,
      readRequestHead 64 true ⟨bytes "GET /a%20b/c/d.txt HTTP/1.1\r\nHost: a\r\n\r\n", []⟩ =
        (.ok result, after) ∧
      Dispatches (regexOf fileSegments) fileRoutes { toRequest := result.request } 0 routed ∧
      DecodedOnce result.request.target fileState routed.pathParams := by
  obtain ⟨result, after, hread, hmethod, htarget, hpath⟩ := exists_head_of_check
    (bytes "GET /a%20b/c/d.txt HTTP/1.1\r\nHost: a\r\n\r\n") (bytes "GET")
    (bytes "/a%20b/c/d.txt") (bytes "/a b/c/d.txt") (by decide +kernel)
  have hdispatch := @dispatches_of_locate (regexOf fileSegments) fileRoutes
    { toRequest := result.request } 0 (by rw [hmethod, hpath]; decide +kernel)
  refine ⟨result, after, _, hread, hdispatch, ?_⟩
  have hroutes : registerRoutes (regexOf fileSegments) [(bytes "GET", bytes "/*/{name}")] =
      .ok fileRoutes := by
    decide +kernel
  have hsegments : patternSegments (bytes "/*/{name}") = .ok fileState := by decide +kernel
  refine (path_params_decoded_once_iff hroutes hread hdispatch rfl (by decide +kernel)
    (by decide +kernel) hsegments fun _ => regexOf_reads fileSegments).mpr ?_
  intro found hfound name piece hpiece
  have htarget' : TargetPieces result.request.target fileState
      [(bytes "wildcard", bytes "a b/c"), (bytes "name", bytes "d.txt")] :=
    ⟨bytes "/a%20b/c/d.txt", bytes "/a b/c/d.txt", by rw [htarget]; decide +kernel,
      by decide +kernel, by decide +kernel⟩
  obtain rfl := hfound.unique htarget'
  have hmem := mem_of_lastCapture hpiece
  left
  rcases List.mem_cons.mp hmem with h | h
  · cases h
    decide
  · rw [List.mem_singleton] at h
    cases h
    decide

/-- A separator that was encoded twice ends up in a parameter.  The reader decodes the path, and the
dispatch decodes the capture again. -/
theorem slash_in_parameter :
    ∃ result after routed,
      readRequestHead 64 true ⟨bytes "GET /items/%252F HTTP/1.1\r\nHost: a\r\n\r\n", []⟩ =
        (.ok result, after) ∧
      registerRoutes noRegex [(bytes "GET", bytes "/items/{id}"), (bytes "Head", bytes "/items/new")]
        = .ok itemRoutes ∧
      Dispatches noRegex itemRoutes { toRequest := result.request } 0 routed ∧
      routed.pathParams.lookup (bytes "id") = some (bytes "/") ∧
      ∀ s, patternSegments (bytes "/items/{id}") = .ok s →
        ¬ DecodedOnce result.request.target s routed.pathParams := by
  obtain ⟨result, after, hread, hmethod, -, hpath⟩ := exists_head_of_check
    (bytes "GET /items/%252F HTTP/1.1\r\nHost: a\r\n\r\n") (bytes "GET")
    (bytes "/items/%252F") (bytes "/items/%2F") (by decide +kernel)
  have hdispatch := @dispatches_of_locate noRegex itemRoutes { toRequest := result.request } 0
    (by rw [hmethod, hpath]; decide +kernel)
  have hvalue : (locate noRegex itemRoutes result.request.method result.request.path).2.lookup
      (bytes "id") = some (bytes "/") := by
    rw [hmethod, hpath]
    decide +kernel
  refine ⟨result, after, _, hread, by decide +kernel, hdispatch, hvalue, fun s _ hdecoded => ?_⟩
  rcases hdecoded.slash_notMem hvalue with h | ⟨h, -⟩
  · exact h (by decide)
  · exact absurd h (by decide +kernel)

end Chhttp
