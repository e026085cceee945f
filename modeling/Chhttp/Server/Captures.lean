import Chhttp.Server.Pattern

/-!
# What a compiled pattern captures

`captures` is a match of a compiled pattern on its own, without the state that `match_pattern`
threads through.  For a pattern with parameters or wildcards it is `split` on the segments of the
pattern: by `matchSegments_eq` where the segments are matched directly, and by the meaning of the
generated expression otherwise.  What the loop of `compile_pattern` has built at any point is
`PatternState.Consistent`.

The last section is about the matcher on its own: it finds the cut of the path that is longest first
from left to right (`matchSegments_exact`).
-/

namespace Chhttp

/-! ### A match on its own -/

/-- The captures of a pattern on a path, none when it does not match.  This is what matching comes
to without the state that the source carries from one route to the next. -/
def captures (engine : RegexEngine) (pattern : CompiledPattern) (path : Bytes) :
    Option PatternCaptures :=
  if pattern.literalOnly then if path == pattern.literal then some [] else none
  else if pattern.linear then
    match matchSegments pattern.segments path [] with
    | (false, _) => none
    | (true, captures) => some captures
  else (pattern.expression.bind (engine.regexMatch · path)).map (pattern.names.zip ·)

/-- The result of `match_pattern` apart from the captures it leaves behind. -/
def matched (parameters : PathParams) : Option PatternCaptures → Bool × PathParams
  | none => (false, parameters)
  | some captures => (true, assignCaptures parameters captures)

/-- `match_pattern` does not depend on the captures it is handed, and changes the parameters only
if it matches. -/
theorem matchPattern_eq (engine : RegexEngine) (pattern : CompiledPattern) (path : Bytes)
    (parameters : PathParams) (tried : PatternCaptures) :
    ∃ left, matchPattern engine pattern path parameters tried =
      ((matched parameters (captures engine pattern path)).1,
        (matched parameters (captures engine pattern path)).2, left) := by
  rw [matchPattern, captures]
  by_cases hliteral : pattern.literalOnly = true
  · rw [if_pos hliteral, if_pos hliteral]
    by_cases hpath : (path == pattern.literal) = true
    · exact ⟨tried, by rw [if_pos hpath, hpath]; rfl⟩
    · exact ⟨tried, by rw [if_neg hpath, Bool.eq_false_iff.mpr hpath]; rfl⟩
  · rw [if_neg hliteral, if_neg hliteral]
    by_cases hlinear : pattern.linear = true
    · rw [if_pos hlinear, if_pos hlinear]
      rcases matchSegments pattern.segments path [] with ⟨_ | _, left⟩
      · exact ⟨left, rfl⟩
      · exact ⟨left, rfl⟩
    · rw [if_neg hlinear, if_neg hlinear]
      cases pattern.expression.bind (engine.regexMatch · path) with
      | none => exact ⟨tried, rfl⟩
      | some groups => exact ⟨tried, rfl⟩

/-- One more capture. -/
lemma assignCaptures_concat (parameters : PathParams) (pieces : PatternCaptures)
    (piece : Bytes × Bytes) :
    assignCaptures parameters (pieces ++ [piece]) =
      (assignCaptures parameters pieces).insert piece.1 (decodedCapture piece.2) := by
  simp [assignCaptures]

/-- The last value that captures hold for a name. -/
def lastCapture (pieces : PatternCaptures) (name : Bytes) : Option Bytes :=
  (pieces.reverse.find? (·.1 == name)).map Prod.snd

/-- A name has the value of its last capture.  A pattern may use a name twice, and the source
assigns the captures in the order of the segments. -/
theorem lookup_assignCaptures (pieces : PatternCaptures) (name : Bytes) :
    (assignCaptures ∅ pieces).lookup name = (lastCapture pieces name).map decodedCapture := by
  induction pieces using List.reverseRecOn with
  | nil => rfl
  | append_singleton pieces piece ih =>
    rw [assignCaptures_concat, lastCapture, List.reverse_append, List.reverse_singleton,
      List.singleton_append, List.find?_cons]
    by_cases hname : piece.1 = name
    · subst hname
      simp
    · rw [AList.lookup_insert_ne (Ne.symm hname), ih, beq_eq_false_iff_ne.mpr hname]
      rfl

/-- The last capture of a name is one of the captures. -/
lemma mem_of_lastCapture {pieces : PatternCaptures} {name piece : Bytes}
    (h : lastCapture pieces name = some piece) : (name, piece) ∈ pieces := by
  obtain ⟨⟨name', piece'⟩, hfind, rfl⟩ := Option.map_eq_some_iff.mp h
  have hname := List.find?_some hfind
  rw [beq_iff_eq] at hname
  dsimp only at hname
  subst hname
  exact List.mem_reverse.mp (List.mem_of_find?_eq_some hfind)

/-! ### The loop of `compile_pattern` -/

/-- A literal with its special bytes escaped. -/
def escape (text : Bytes) : Bytes :=
  text.flatMap fun c => (if regexSpecial c then [0x5c] else []) ++ [c]

/-- The expression of a segment. -/
def PatternSegment.expression : PatternSegment → Bytes
  | .literal text => escape text
  | .parameter _ => bytes "([^/]+)"
  | .wildcard => bytes "(.*)"

/-- The name a segment captures under. -/
def PatternSegment.captureName : PatternSegment → Option Bytes
  | .literal _ => none
  | .parameter name => some name
  | .wildcard => some (bytes "wildcard")

/-- The expression of a list of segments. -/
def expressionOf (segments : List PatternSegment) : Bytes :=
  bytes "^" ++ segments.flatMap PatternSegment.expression ++ bytes "$"

/-- What a generated expression means to ECMAScript: its groups are the pieces of the greedy
leftmost split, and the dot takes every byte but the two line breaks. -/
def RegexEngine.Reads (engine : RegexEngine) (segments : List PatternSegment) : Prop :=
  ∀ path, engine.regexMatch (expressionOf segments) path =
    (split (fun c => c != 0x0a && c != 0x0d) segments path).map (·.map Prod.snd)

namespace PatternState

/-- The expression, the names and the wildcards that the loop has collected are those of its
segments. -/
structure Consistent (s : PatternState) : Prop where
  expression : s.expression =
    bytes "^" ++ s.segments.flatMap PatternSegment.expression ++ escape s.pendingLiteral
  names : s.names = s.segments.filterMap PatternSegment.captureName
  wildcards : s.wildcards = s.segments.count .wildcard

/-- The loop starts with nothing. -/
lemma consistent_start (pattern : Bytes) : Consistent { rest := pattern } where
  expression := by simp [escape]
  names := rfl
  wildcards := rfl

/-- A pending literal becomes a segment. -/
lemma Consistent.flushLiteral {s : PatternState} (h : s.Consistent) :
    s.flushLiteral.Consistent := by
  unfold PatternState.flushLiteral
  by_cases hpending : s.pendingLiteral.isEmpty = true
  · rwa [if_pos hpending]
  · rw [if_neg hpending]
    constructor
    · simp [h.expression, PatternSegment.expression, escape]
    · simp [h.names, List.filterMap_append, PatternSegment.captureName]
    · simp [h.wildcards, List.count_append]

/-- Nothing is pending after a flush. -/
@[simp] lemma flushLiteral_pendingLiteral (s : PatternState) :
    s.flushLiteral.pendingLiteral = [] := by
  unfold PatternState.flushLiteral
  by_cases hpending : s.pendingLiteral.isEmpty = true
  · rw [if_pos hpending]
    exact List.isEmpty_iff.mp hpending
  · rw [if_neg hpending]

/-- A capturing segment, with the wildcards counted. -/
lemma Consistent.addCapture {s : PatternState} (h : s.Consistent) {name : Bytes}
    {segment : PatternSegment} (hname : segment.captureName = some name) (wildcards : ℕ)
    (hwildcards : wildcards = s.flushLiteral.wildcards + [segment].count .wildcard) :
    Consistent { s.addCapture name segment.expression segment with wildcards } := by
  have hflush := h.flushLiteral
  have hpending := flushLiteral_pendingLiteral s
  have hexpression := hflush.expression
  rw [hpending] at hexpression
  constructor
  · simp [PatternState.addCapture, hexpression, escape]
  · simp [PatternState.addCapture, hflush.names, List.filterMap_append, hname]
  · simp only [PatternState.addCapture, List.count_append, ← hflush.wildcards]
    exact hwildcards

/-- The rest of the pattern does not matter. -/
lemma Consistent.resume {s : PatternState} (h : s.Consistent) (previous : Option UInt8)
    (rest : Bytes) : Consistent { s with rest, previous } :=
  ⟨h.expression, h.names, h.wildcards⟩

/-- A parameter. -/
lemma Consistent.addParameter {s t : PatternState} (h : s.Consistent) {name : Bytes}
    (ht : s.addParameter name = .ok t) : t.Consistent := by
  unfold PatternState.addParameter at ht
  by_cases hname : name.isEmpty = true
  · rw [if_pos hname] at ht
    cases ht
  · rw [if_neg hname] at ht
    cases ht
    have hname : PatternSegment.captureName (.parameter name) = some name := rfl
    exact h.addCapture hname _ rfl

/-- A wildcard. -/
lemma Consistent.addWildcard {s : PatternState} (h : s.Consistent) :
    s.addWildcard.Consistent := by
  have hname : PatternSegment.captureName .wildcard = some (bytes "wildcard") := rfl
  exact h.addCapture hname _ rfl

/-- A byte of a literal. -/
lemma Consistent.addByte {s : PatternState} (h : s.Consistent) (c : UInt8) :
    (s.addByte c).Consistent := by
  constructor
  · simp [PatternState.addByte, h.expression, escape]
  · exact h.names
  · exact h.wildcards

/-- One iteration keeps what has been built consistent. -/
lemma Consistent.step {s t : PatternState} (h : s.Consistent)
    (ht : PatternState.step s = .again t) : t.Consistent := by
  unfold PatternState.step at ht
  cases hrest : s.rest with
  | nil =>
    rw [hrest] at ht
    cases ht
  | cons c rest =>
    rw [hrest] at ht
    dsimp only at ht
    split_ifs at ht
    · cases hfind : ListSearch.find [0x7d] rest with
      | none =>
        rw [hfind] at ht
        cases ht
      | some n =>
        rw [hfind] at ht
        obtain ⟨u, hu, rfl⟩ := resume_eq_again ht
        exact (h.addParameter hu).resume _ _
    · obtain ⟨u, hu, rfl⟩ := resume_eq_again ht
      exact (h.addParameter hu).resume _ _
    · cases ht
      exact h.addWildcard.resume _ _
    · cases ht
      exact (h.addByte c).resume _ _

/-- Where an iteration leaves the loop with a state, it is the state itself. -/
lemma step_eq_leave {s t : PatternState} (h : PatternState.step s = .leave (.ok t)) : t = s := by
  unfold PatternState.step at h
  cases hrest : s.rest with
  | nil =>
    rw [hrest] at h
    cases h
    rfl
  | cons c rest =>
    have hresume : ∀ previous rest r, PatternState.resume previous rest r ≠ .leave (.ok t) := by
      intro previous rest r hr
      cases r <;> cases hr
    rw [hrest] at h
    dsimp only at h
    split_ifs at h
    · cases hfind : ListSearch.find [0x7d] rest with
      | none =>
        rw [hfind] at h
        cases h
      | some n =>
        rw [hfind] at h
        exact absurd h (hresume _ _ _)
    all_goals exact absurd h (hresume _ _ _)

end PatternState

/-- What the loop leaves is consistent. -/
theorem patternSegments_consistent {pattern : Bytes} {s : PatternState}
    (h : patternSegments pattern = .ok s) : s.Consistent ∧ s.pendingLiteral = [] := by
  obtain ⟨t, ht, rfl⟩ : ∃ t, Loop.run PatternState.step (fun s => s.rest.length)
      PatternState.step_decreases { rest := pattern } = .ok t ∧ t.flushLiteral = s := by
    unfold patternSegments at h
    cases hrun : Loop.run PatternState.step (fun s => s.rest.length) PatternState.step_decreases
        { rest := pattern } with
    | error e =>
      rw [hrun] at h
      cases h
    | ok t =>
      rw [hrun] at h
      cases h
      exact ⟨t, rfl, rfl⟩
  have hrun := Loop.run_induct PatternState.step_decreases
    (P := fun s a => s.Consistent → ∀ t, a = .ok t → t.Consistent)
    (fun s a ha hs t ht => by
      subst ht
      exact PatternState.step_eq_leave ha ▸ hs)
    (fun s s' a hs' ih hs => ih (hs.step hs'))
    { rest := pattern }
  exact ⟨(hrun (PatternState.consistent_start pattern) t ht).flushLiteral, by simp⟩

/-! ### The captures of a pattern with segments -/

/-- The bytes that a wildcard of the pattern takes. -/
def wildcardClass (s : PatternState) (c : UInt8) : Bool :=
  isLinear s || (c != 0x0a && c != 0x0d)

/-- The pieces that the segments of a pattern cut a path into.  Which of the possible ways it is, is
the subject of `split_longest`. -/
def pieces (s : PatternState) (path : Bytes) : Option PatternCaptures :=
  split (wildcardClass s) s.segments path

/-- Segments without wildcards may come before any others. -/
lemma trailing_append {segments last : List PatternSegment} (h : segments.count .wildcard = 0)
    (hlast : Trailing last) : Trailing (segments ++ last) := by
  induction segments with
  | nil => exact hlast
  | cons segment rest ih =>
    have hrest : rest.count .wildcard = 0 := by
      rw [List.count_cons] at h
      omega
    cases segment with
    | literal text => exact ih hrest
    | parameter name => exact ih hrest
    | wildcard => simp at h

/-- The segments of a linear pattern have a wildcard at most at their end.  So a linear pattern
needs no search for the end of a wildcard, and the source compiles no regular expression for it. -/
theorem trailing_of_isLinear {s : PatternState} (hs : s.Consistent) (h : isLinear s = true) :
    Trailing s.segments := by
  rw [isLinear, hs.wildcards, Bool.or_eq_true, Bool.and_eq_true] at h
  simp only [beq_iff_eq] at h
  rcases h with h | ⟨hcount, hlast⟩
  · rw [← List.append_nil s.segments]
    exact trailing_append h trivial
  · obtain ⟨segments, hsegments⟩ := List.getLast?_eq_some_iff.mp hlast
    rw [hsegments] at hcount ⊢
    refine trailing_append ?_ rfl
    simpa [List.count_append] using hcount

/-- The names of the pieces are the names of the segments. -/
lemma names_of_splits {dot : UInt8 → Bool} {segments : List PatternSegment} {path : Bytes}
    {pieces : PatternCaptures} (h : Splits dot segments path pieces) :
    pieces.map Prod.fst = segments.filterMap PatternSegment.captureName := by
  induction h with
  | nil => rfl
  | literal _ ih => exact ih
  | parameter _ _ _ ih =>
    rw [List.map_cons, ih]
    rfl
  | wildcard _ _ ih =>
    rw [List.map_cons, ih]
    rfl

/-- A pattern with segments captures the pieces they cut the path into.  For patterns that are not
linear it rests on a regular expression engine that reads the generated expression as it was meant.
-/
theorem captures_of_compilePattern {engine : RegexEngine} {pattern : Bytes}
    {compiled : CompiledPattern} {s : PatternState}
    (hengine : isLinear s = false → engine.Reads s.segments)
    (hcompiled : compilePattern engine pattern = .ok compiled)
    (hexpression : isExpression pattern = false) (hliteral : isLiteral pattern = false)
    (hs : patternSegments pattern = .ok s) (path : Bytes) :
    captures engine compiled path = pieces s path := by
  obtain ⟨hconsistent, hpending⟩ := patternSegments_consistent hs
  obtain ⟨hregex, hcaret⟩ := Bool.or_eq_false_iff.mp hexpression
  rw [compilePattern, hregex, hcaret, hliteral, hs] at hcompiled
  dsimp only at hcompiled
  rw [if_neg Bool.false_ne_true, if_neg Bool.false_ne_true, if_neg Bool.false_ne_true] at hcompiled
  by_cases hlinear : isLinear s = true
  · rw [if_pos hlinear] at hcompiled
    cases hcompiled
    rw [captures, if_neg Bool.false_ne_true, if_pos rfl,
      matchSegments_eq (trailing_of_isLinear hconsistent hlinear), pieces]
    rw [show wildcardClass s = fun _ => true by funext c; rw [wildcardClass, hlinear]; rfl]
    cases split (fun _ => true) s.segments path with
    | none => rfl
    | some pieces => rfl
  · rw [if_neg hlinear, RegexEngine.emplace] at hcompiled
    by_cases haccepts : engine.accepts (s.expression ++ bytes "$") = true
    · rw [if_pos haccepts] at hcompiled
      cases hcompiled
      have hexpression : s.expression ++ bytes "$" = expressionOf s.segments := by
        rw [hconsistent.expression, hpending]
        simp [expressionOf, escape]
      have hclass : wildcardClass s = fun c => c != 0x0a && c != 0x0d := by
        funext c
        rw [wildcardClass, Bool.eq_false_iff.mpr hlinear, Bool.false_or]
      rw [captures, if_neg Bool.false_ne_true, if_neg Bool.false_ne_true, Option.bind_some,
        hexpression, hengine (Bool.eq_false_iff.mpr hlinear), pieces, hclass]
      cases hsplit : split (fun c => c != 0x0a && c != 0x0d) s.segments path with
      | none => rfl
      | some pieces =>
        have hnames := names_of_splits (splits_of_split hsplit)
        rw [Option.map_some, Option.map_some, hconsistent.names, ← hnames]
        congr 1
        exact (List.zip_of_prod rfl rfl).symm
    · rw [if_neg haccepts] at hcompiled
      cases hcompiled

/-- The piece of a parameter holds no separator.  Only a wildcard goes on over separators. -/
theorem slash_notMem_of_splits {dot : UInt8 → Bool} {segments : List PatternSegment}
    {path : Bytes} {pieces : PatternCaptures} (h : Splits dot segments path pieces)
    {name piece : Bytes} (hmem : (name, piece) ∈ pieces) :
    slash ∉ piece ∨ (name = bytes "wildcard" ∧ .wildcard ∈ segments) := by
  induction h with
  | nil => cases hmem
  | literal _ ih =>
    rcases ih hmem with h | ⟨h, hw⟩
    · exact Or.inl h
    · exact Or.inr ⟨h, List.mem_cons_of_mem _ hw⟩
  | parameter _ hslash _ ih =>
    rcases List.mem_cons.mp hmem with heq | hmem
    · cases heq
      exact Or.inl hslash
    · rcases ih hmem with h | ⟨h, hw⟩
      · exact Or.inl h
      · exact Or.inr ⟨h, List.mem_cons_of_mem _ hw⟩
  | wildcard _ _ ih =>
    rcases List.mem_cons.mp hmem with heq | hmem
    · cases heq
      exact Or.inr ⟨rfl, List.mem_cons_self⟩
    · rcases ih hmem with h | ⟨h, hw⟩
      · exact Or.inl h
      · exact Or.inr ⟨h, List.mem_cons_of_mem _ hw⟩

/-! ### Longest first -/

/-- The lengths of the pieces of a cut, from left to right. -/
def pieceLengths (pieces : PatternCaptures) : List ℕ := pieces.map fun piece => piece.2.length

/-- The first success in a search from the longest length down. -/
lemma findSome?_lengths {α : Type*} {f : ℕ → Option α} {low high : ℕ} {a : α}
    (h : (lengths low high).findSome? f = some a) :
    ∃ n ≤ high, f n = some a ∧ ∀ m, low ≤ m → m ≤ high → (f m).isSome → m ≤ n := by
  obtain ⟨before, n, after, hlengths, hn, hbefore⟩ := List.findSome?_eq_some_iff.mp h
  have hmemn : n ∈ lengths low high := by
    rw [hlengths]
    exact List.mem_append_right _ List.mem_cons_self
  refine ⟨n, (mem_lengths.mp hmemn).2, hn, fun m hlow hhigh hm => ?_⟩
  have hmem : m ∈ before ++ n :: after := hlengths ▸ mem_lengths.mpr ⟨hlow, hhigh⟩
  have hsorted : (before ++ n :: after).Pairwise (· > ·) := by
    rw [← hlengths, lengths, List.pairwise_reverse]
    exact List.pairwise_lt_range'
  rcases List.mem_append.mp hmem with hmem | hmem
  · rw [hbefore m hmem] at hm
    cases hm
  · rcases List.mem_cons.mp hmem with rfl | hmem
    · exact le_rfl
    · exact (List.rel_of_pairwise_cons (List.pairwise_append.mp hsorted).2.1 hmem).le

/-- A capture before a cut that is longest first. -/
lemma pieceLengths_cons_le {dot : UInt8 → Bool} {rest : List PatternSegment} {low high : ℕ}
    {name piece path : Bytes} {others pieces : PatternCaptures}
    (h : ((lengths low high).findSome? fun n =>
      (split dot rest ((piece ++ path).drop n)).map ((name, (piece ++ path).take n) :: ·)) =
        some pieces)
    (hlow : low ≤ piece.length) (hhigh : piece.length ≤ high)
    (hwhole : high ≤ (piece ++ path).length) (hrest : Splits dot rest path others)
    (ih : ∀ {pieces}, split dot rest path = some pieces →
      pieceLengths others ≤ pieceLengths pieces) :
    pieceLengths ((name, piece) :: others) ≤ pieceLengths pieces := by
  obtain ⟨n, hn, hfound, hlongest⟩ := findSome?_lengths h
  obtain ⟨more, hmore, rfl⟩ := Option.map_eq_some_iff.mp hfound
  have hle : piece.length ≤ n := by
    apply hlongest _ hlow hhigh
    rw [List.drop_left, Option.isSome_map]
    exact split_isSome_of_splits hrest
  have hlen : ((piece ++ path).take n).length = n := by
    rw [List.length_take]
    omega
  apply not_lt.mp
  rw [pieceLengths, pieceLengths, List.map_cons, List.map_cons, hlen, List.cons_lt_cons_iff]
  rintro (hlt | ⟨rfl, hlt⟩)
  · exact absurd hle (not_le.mpr hlt)
  · rw [List.drop_left] at hmore
    exact absurd (ih hmore) (not_le.mpr hlt)

/-- `split` is the cut that is longest first from left to right.  This is the order in which a
greedy expression tries the ways, so the source and the engine agree on which one is taken. -/
theorem split_longest {dot : UInt8 → Bool} {segments : List PatternSegment} {path : Bytes}
    {pieces others : PatternCaptures} (h : split dot segments path = some pieces)
    (hothers : Splits dot segments path others) : pieceLengths others ≤ pieceLengths pieces := by
  induction hothers generalizing pieces with
  | nil =>
    cases h
    exact le_rfl
  | @literal text path rest others hrest ih =>
    have hstarts : text.isPrefixOf (text ++ path) = true := by simp
    rw [split, if_pos hstarts, List.drop_left] at h
    exact ih h
  | @parameter name piece path rest others hne hslash hrest ih =>
    have hclass : ∀ c ∈ piece, (c != slash) = true := by
      intro c hc
      rw [bne_iff_ne]
      rintro rfl
      exact hslash hc
    apply pieceLengths_cons_le h (List.length_pos_of_ne_nil hne) _ _ hrest ih
    · rw [List.takeWhile_append_of_pos hclass, List.length_append]
      exact Nat.le_add_right _ _
    · exact (List.takeWhile_prefix _).length_le
  | @wildcard piece path rest others hdot hrest ih =>
    apply pieceLengths_cons_le h (Nat.zero_le _) _ _ hrest ih
    · rw [List.takeWhile_append_of_pos hdot, List.length_append]
      exact Nat.le_add_right _ _
    · exact (List.takeWhile_prefix _).length_le

/-- A pattern that is matched directly has a wildcard at most at its end. -/
lemma trailing_of_linear {engine : RegexEngine} {pattern : Bytes} {compiled : CompiledPattern}
    (h : compilePattern engine pattern = .ok compiled) (hlinear : compiled.linear = true) :
    Trailing compiled.segments := by
  have hemplace : ∀ {expression : Bytes} {base : CompiledPattern}, base.linear = false →
      engine.emplace expression base ≠ .ok compiled := by
    intro expression base hbase hok
    unfold RegexEngine.emplace at hok
    split_ifs at hok
    cases hok
    rw [hbase] at hlinear
    cases hlinear
  unfold compilePattern at h
  split_ifs at h
  · exact absurd h (hemplace rfl)
  · exact absurd h (hemplace rfl)
  · cases h
    cases hlinear
  · split at h
    · cases h
    · rename_i s hs
      split_ifs at h with hdirect
      · cases h
        exact trailing_of_isLinear (patternSegments_consistent hs).1 hdirect
      · exact absurd h (hemplace rfl)

/-- **The route matcher.**  It succeeds exactly where the path can be cut into the pieces of the
segments, adds the captures of the cut that is longest first, and else leaves the captures alone. -/
theorem matchSegments_exact {engine : RegexEngine} {pattern : Bytes} {compiled : CompiledPattern}
    (h : compilePattern engine pattern = .ok compiled) (hlinear : compiled.linear = true)
    (path : Bytes) (captures : PatternCaptures) :
    (∃ pieces, matchSegments compiled.segments path captures = (true, captures ++ pieces) ∧
      Splits (fun _ => true) compiled.segments path pieces ∧
      ∀ others, Splits (fun _ => true) compiled.segments path others →
        pieceLengths others ≤ pieceLengths pieces) ∨
    (matchSegments compiled.segments path captures = (false, captures) ∧
      ¬∃ pieces, Splits (fun _ => true) compiled.segments path pieces) := by
  rw [matchSegments_eq (trailing_of_linear h hlinear)]
  cases hsplit : split (fun _ => true) compiled.segments path with
  | some pieces =>
    exact .inl ⟨pieces, rfl, splits_of_split hsplit, fun others => split_longest hsplit⟩
  | none =>
    refine .inr ⟨rfl, ?_⟩
    rintro ⟨pieces, hpieces⟩
    have hsome := split_isSome_of_splits hpieces
    rw [hsplit] at hsome
    cases hsome

/-- Two adjacent parameters on a path of three bytes. -/
theorem matchSegments_exact_of_adjacent :
    ∃ pieces, matchSegments [.literal [slash], .parameter (bytes "a"), .parameter (bytes "b")]
        (bytes "/xyz") [] = (true, pieces) ∧ pieceLengths pieces = [2, 1] := by
  have hcompiled : compilePattern { accepts := fun _ => true, regexMatch := fun _ _ => none }
      (bytes "/\x7ba\x7d\x7bb\x7d") =
        .ok { names := [bytes "a", bytes "b"], linear := true,
              segments := [.literal [slash], .parameter (bytes "a"), .parameter (bytes "b")] } := by
    rfl
  rcases matchSegments_exact hcompiled rfl (bytes "/xyz") [] with ⟨pieces, hmatch, -⟩ | ⟨hmatch, -⟩
  · refine ⟨pieces, hmatch, ?_⟩
    cases hmatch
    rfl
  · cases hmatch

end Chhttp
