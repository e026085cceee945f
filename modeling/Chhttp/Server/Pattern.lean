import Chhttp.Common.Url

/-!
# Route patterns

`compilePattern` is `compile_pattern` and `matchPattern` is `match_pattern`.  The engine of
`std::regex` is a parameter: `RegexEngine` says which expressions it accepts and which groups a
match has.  What the development relies on is `RegexEngine.Reads`, the ECMAScript meaning of the
expressions that `compile_pattern` generates.

Beside the code stands `split`, the greedy leftmost way to cut a path into the pieces of a list of
segments, and `Splits`, the ways there are.  `match_segments`, which carries its captures along and
takes them back when a candidate fails, computes `split` (`matchSegments_eq`), and so does a
generated expression (`captures_of_compilePattern`).
-/

namespace Chhttp

open ListSearch

/-! ### The source -/

/-- `PatternSegment`: a text that must be there, a parameter up to the next separator, or the rest
of the path. -/
inductive PatternSegment where
  | literal (text : Bytes)
  | parameter (name : Bytes)
  | wildcard
  deriving DecidableEq

/-- `CompiledPattern`; a regular expression is kept as its text.  A literal pattern is its text, a
linear one its segments, and only the others have an expression. -/
structure CompiledPattern where
  expression : Option Bytes := none
  names : List Bytes := []
  literal : Bytes := []
  segments : List PatternSegment := []
  literalOnly : Bool := false
  linear : Bool := false
  deriving DecidableEq

/-- `PatternCaptures`. -/
abbrev PatternCaptures := List (Bytes × Bytes)

/-- `PathParams`. -/
abbrev PathParams := AList fun _ : Bytes => Bytes

/-- `std::regex`: the expressions its constructor accepts, and the groups of a match of the whole
subject. -/
structure RegexEngine where
  accepts : Bytes → Bool
  regexMatch : Bytes → Bytes → Option (List Bytes)

/-- What `compile_pattern` throws.  The first is the exception of the source itself, the second that
of the constructor of the regular expression. -/
inductive PatternError where
  | invalidArgument (message : String)
  | regexError
  deriving DecidableEq

/-- `regex_special`. -/
def regexSpecial (c : UInt8) : Bool := (bytes ".^$|()[]\x7b\x7d+?\\").contains c

/-- The loop of `compile_pattern`: the pattern from `index` on, the byte before it, and what has
been compiled. -/
structure PatternState where
  rest : Bytes
  previous : Option UInt8 := none
  expression : Bytes := bytes "^"
  names : List Bytes := []
  segments : List PatternSegment := []
  pendingLiteral : Bytes := []
  wildcards : ℕ := 0
  deriving DecidableEq

namespace PatternState

/-- `flush_literal`. -/
def flushLiteral (s : PatternState) : PatternState :=
  if s.pendingLiteral.isEmpty then s
  else { s with segments := s.segments ++ [.literal s.pendingLiteral], pendingLiteral := [] }

/-- A segment that captures, after the literal before it. -/
def addCapture (s : PatternState) (name group : Bytes) (segment : PatternSegment) : PatternState :=
  let s := s.flushLiteral
  { s with
    names := s.names ++ [name]
    segments := s.segments ++ [segment]
    expression := s.expression ++ group }

/-- `add_parameter`. -/
def addParameter (s : PatternState) (name : Bytes) : Except PatternError PatternState :=
  if name.isEmpty then .error (.invalidArgument "Route parameter name cannot be empty")
  else .ok (s.addCapture name (bytes "([^/]+)") (.parameter name))

/-- The rest of the pattern after a segment. -/
def resume (previous : Option UInt8) (rest : Bytes) :
    Except PatternError PatternState → Loop.Next PatternState (Except PatternError PatternState)
  | .error e => .leave (.error e)
  | .ok s => .again { s with rest, previous }

/-- A byte of a literal. -/
def addByte (s : PatternState) (c : UInt8) : PatternState :=
  { s with
    expression := s.expression ++ (if regexSpecial c then [0x5c] else []) ++ [c]
    pendingLiteral := s.pendingLiteral ++ [c] }

/-- A wildcard. -/
def addWildcard (s : PatternState) : PatternState :=
  let s := s.addCapture (bytes "wildcard") (bytes "(.*)") .wildcard
  { s with wildcards := s.wildcards + 1 }

/-- One iteration of the loop of `compile_pattern`. -/
def step (s : PatternState) : Loop.Next PatternState (Except PatternError PatternState) :=
  match s.rest with
  | [] => .leave (.ok s)
  | c :: rest =>
    if c == 0x7b then
      match find [0x7d] rest with
      | none => .leave (.error (.invalidArgument "Unclosed route parameter"))
      | some n => resume (some 0x7d) (rest.drop (n + 1)) (s.addParameter (rest.take n))
    else if c == colon && (s.previous.isNone || s.previous == some slash) then
      let name := rest.takeWhile (· != slash)
      resume name.getLast? (rest.dropWhile (· != slash)) (s.addParameter name)
    else if c == 0x2a then resume (some c) rest (.ok s.addWildcard)
    else resume (some c) rest (.ok (s.addByte c))

/-- Going on with a shorter rest. -/
lemma resume_eq_again {previous : Option UInt8} {rest : Bytes}
    {r : Except PatternError PatternState} {t : PatternState}
    (h : resume previous rest r = .again t) :
    ∃ s, r = .ok s ∧ t = { s with rest, previous } := by
  cases r with
  | error e => cases h
  | ok s =>
    cases h
    exact ⟨s, rfl, rfl⟩

/-- Every iteration reads a byte. -/
lemma step_decreases : Loop.Decreases step fun s => s.rest.length := by
  rintro s t h
  unfold step at h
  cases hrest : s.rest with
  | nil =>
    rw [hrest] at h
    cases h
  | cons c rest =>
    rw [hrest] at h
    dsimp only at h
    have hlen : s.rest.length = rest.length + 1 := by rw [hrest, List.length_cons]
    have hdrop : (rest.dropWhile (· != slash)).length ≤ rest.length :=
      (List.dropWhile_sublist _).length_le
    split_ifs at h
    · cases hfind : find [0x7d] rest with
      | none =>
        rw [hfind] at h
        cases h
      | some n =>
        rw [hfind] at h
        obtain ⟨u, -, rfl⟩ := resume_eq_again h
        simp only [List.length_drop]
        omega
    all_goals
      obtain ⟨u, -, rfl⟩ := resume_eq_again h
      dsimp only
      omega

end PatternState

/-- The loop of `compile_pattern` with the last `flush_literal`. -/
def patternSegments (pattern : Bytes) : Except PatternError PatternState :=
  (Loop.run PatternState.step (fun s => s.rest.length) PatternState.step_decreases
    { rest := pattern }).map PatternState.flushLiteral

/-- The pattern is a regular expression of the application. -/
def isExpression (pattern : Bytes) : Bool :=
  (bytes "regex:").isPrefixOf pattern || (bytes "^").isPrefixOf pattern

/-- The pattern has no parameter and no wildcard. -/
def isLiteral (pattern : Bytes) : Bool := !pattern.any (bytes "\x7b*:").contains

/-- A wildcard is the only form that needs backtracking, unless it comes last. -/
def isLinear (s : PatternState) : Bool :=
  s.wildcards == 0 || (s.wildcards == 1 && s.segments.getLast? == some .wildcard)

/-- `compiled.expression.emplace`. -/
def RegexEngine.emplace (engine : RegexEngine) (expression : Bytes) (compiled : CompiledPattern) :
    Except PatternError CompiledPattern :=
  if engine.accepts expression then .ok { compiled with expression := some expression }
  else .error .regexError

/-- `compile_pattern`: an expression of the application, a literal, or segments, with a generated
expression where they are not linear. -/
def compilePattern (engine : RegexEngine) (pattern : Bytes) :
    Except PatternError CompiledPattern :=
  if (bytes "regex:").isPrefixOf pattern then engine.emplace (pattern.drop 6) {}
  else if (bytes "^").isPrefixOf pattern then engine.emplace pattern {}
  else if isLiteral pattern then .ok { literalOnly := true, literal := pattern }
  else
    match patternSegments pattern with
    | .error e => .error e
    | .ok s =>
      if isLinear s then .ok { names := s.names, linear := true, segments := s.segments }
      else engine.emplace (s.expression ++ bytes "$") { names := s.names }

/-- The loop of `match_segments` over the lengths of a parameter, from the longest on. -/
def tryLengths (attempt : ℕ → PatternCaptures → Bool × PatternCaptures) :
    ℕ → PatternCaptures → Bool × PatternCaptures
  | 0, captures => (false, captures)
  | length + 1, captures =>
    match attempt (length + 1) captures with
    | (true, captures) => (true, captures)
    | (false, tried) => tryLengths attempt length (tried.take captures.length)

/-- `match_segments`, with the captures it is handed.  It tries the longest piece of a parameter
first, and goes back to shorter ones when the rest does not match. -/
def matchSegments : List PatternSegment → Bytes → PatternCaptures → Bool × PatternCaptures
  | [], path, captures => (path.isEmpty, captures)
  | .wildcard :: rest, path, captures =>
    if !rest.isEmpty then (false, captures) else (true, captures ++ [(bytes "wildcard", path)])
  | .literal text :: rest, path, captures =>
    if text.isPrefixOf path then
      match matchSegments rest (path.drop text.length) captures with
      | (true, captures) => (true, captures)
      | (false, tried) => (false, tried.take captures.length)
    else (false, captures)
  | .parameter name :: rest, path, captures =>
    tryLengths
      (fun length captures =>
        matchSegments rest (path.drop length) (captures ++ [(name, path.take length)]))
      ((find [slash] path).getD path.length) captures

/-- A captured value as it is stored. -/
def decodedCapture (value : Bytes) : Bytes :=
  match urlDecode value with
  | .ok decoded => decoded
  | .error _ => value

/-- The assignments of `match_pattern`.  Each value is decoded once more, and one that does not
decode is kept. -/
def assignCaptures (parameters : PathParams) (captures : PatternCaptures) : PathParams :=
  captures.foldl (fun parameters c => parameters.insert c.1 (decodedCapture c.2)) parameters

/-- `match_pattern`, with the parameters and the captures it is handed. -/
def matchPattern (engine : RegexEngine) (pattern : CompiledPattern) (path : Bytes)
    (parameters : PathParams) (captures : PatternCaptures) :
    Bool × PathParams × PatternCaptures :=
  if pattern.literalOnly then (path == pattern.literal, parameters, captures)
  else if pattern.linear then
    match matchSegments pattern.segments path [] with
    | (false, captures) => (false, parameters, captures)
    | (true, captures) => (true, assignCaptures parameters captures, captures)
  else
    match pattern.expression.bind (engine.regexMatch · path) with
    | none => (false, parameters, captures)
    | some groups => (true, assignCaptures parameters (pattern.names.zip groups), captures)

/-! ### Cutting a path into pieces -/

/-- The lengths from `high` down to `low`. -/
def lengths (low high : ℕ) : List ℕ := (List.range' low (high + 1 - low)).reverse

/-- The greedy leftmost way to cut a path into the pieces of the segments; `dot` is the class of
bytes that a wildcard takes. -/
def split (dot : UInt8 → Bool) : List PatternSegment → Bytes → Option PatternCaptures
  | [], path => if path.isEmpty then some [] else none
  | .literal text :: rest, path =>
    if text.isPrefixOf path then split dot rest (path.drop text.length) else none
  | .parameter name :: rest, path =>
    (lengths 1 (path.takeWhile (· != slash)).length).findSome? fun n =>
      (split dot rest (path.drop n)).map ((name, path.take n) :: ·)
  | .wildcard :: rest, path =>
    (lengths 0 (path.takeWhile dot).length).findSome? fun n =>
      (split dot rest (path.drop n)).map ((bytes "wildcard", path.take n) :: ·)

/-- The ways to cut a path into the pieces of the segments.  A literal cuts off its text, a
parameter a nonempty piece without separators, and a wildcard any piece of bytes that `dot` allows.
-/
inductive Splits (dot : UInt8 → Bool) : List PatternSegment → Bytes → PatternCaptures → Prop where
  | nil : Splits dot [] [] []
  | literal {text path : Bytes} {rest : List PatternSegment} {pieces : PatternCaptures}
      (h : Splits dot rest path pieces) : Splits dot (.literal text :: rest) (text ++ path) pieces
  | parameter {name piece path : Bytes} {rest : List PatternSegment} {pieces : PatternCaptures}
      (hne : piece ≠ []) (hslash : slash ∉ piece) (h : Splits dot rest path pieces) :
      Splits dot (.parameter name :: rest) (piece ++ path) ((name, piece) :: pieces)
  | wildcard {piece path : Bytes} {rest : List PatternSegment} {pieces : PatternCaptures}
      (hdot : ∀ c ∈ piece, dot c = true) (h : Splits dot rest path pieces) :
      Splits dot (.wildcard :: rest) (piece ++ path) ((bytes "wildcard", piece) :: pieces)

/-- The lengths there are. -/
@[simp] lemma mem_lengths {low high n : ℕ} : n ∈ lengths low high ↔ low ≤ n ∧ n ≤ high := by
  rw [lengths, List.mem_reverse, List.mem_range'_1]
  omega

/-- From the longest length down. -/
lemma lengths_succ {low high : ℕ} (h : low ≤ high + 1) :
    lengths low (high + 1) = (high + 1) :: lengths low high := by
  rw [lengths, lengths, show high + 1 + 1 - low = (high + 1 - low) + 1 by omega,
    List.range'_concat, List.reverse_append]
  simp
  omega

/-- A prefix as long as the bytes of a class at the start of a list has only bytes of this
class. -/
lemma forall_mem_take {p : UInt8 → Bool} {path : Bytes} {n : ℕ}
    (h : n ≤ (path.takeWhile p).length) : ∀ c ∈ path.take n, p c = true := by
  intro c hc
  have hstarts : path.take n <+: path.takeWhile p := by
    apply List.prefix_of_prefix_length_le (List.take_prefix n path) (List.takeWhile_prefix p)
    exact (List.length_take_le n path).trans h
  exact List.mem_takeWhile_imp (hstarts.subset hc)

/-- `split` is one of the ways there are.  Conversely a way that there is leads to one that is found
(`split_isSome_of_splits`). -/
theorem splits_of_split {dot : UInt8 → Bool} {segments : List PatternSegment} :
    ∀ {path : Bytes} {pieces : PatternCaptures}, split dot segments path = some pieces →
      Splits dot segments path pieces := by
  induction segments with
  | nil =>
    intro path pieces h
    obtain ⟨hpath, rfl⟩ : path = [] ∧ [] = pieces := by simpa [split] using h
    subst hpath
    exact Splits.nil
  | cons segment rest ih =>
    intro path pieces h
    cases segment with
    | literal text =>
      obtain ⟨hstarts, h⟩ : text <+: path ∧ split dot rest (path.drop text.length) = some pieces := by
        simpa [split] using h
      obtain ⟨path, rfl⟩ := hstarts
      rw [List.drop_left] at h
      exact Splits.literal (ih h)
    | parameter name =>
      obtain ⟨n, hn, h⟩ := List.exists_of_findSome?_eq_some h
      obtain ⟨pieces, hpieces, rfl⟩ := Option.map_eq_some_iff.mp h
      obtain ⟨hpos, hle⟩ := mem_lengths.mp hn
      have hclass := forall_mem_take hle
      have hlen := hle.trans (List.takeWhile_prefix (l := path) (· != slash)).length_le
      have hne : path.take n ≠ [] := by
        rw [ne_eq, List.take_eq_nil_iff]
        rintro (h0 | h0)
        · omega
        · subst h0
          simp at hlen
          omega
      have hslash : slash ∉ path.take n := by
        intro hmem
        simpa using hclass slash hmem
      have hsplits := @Splits.parameter dot name _ _ _ _ hne hslash (ih hpieces)
      rwa [List.take_append_drop] at hsplits
    | wildcard =>
      obtain ⟨n, hn, h⟩ := List.exists_of_findSome?_eq_some h
      obtain ⟨pieces, hpieces, rfl⟩ := Option.map_eq_some_iff.mp h
      have hsplits := Splits.wildcard (forall_mem_take (mem_lengths.mp hn).2) (ih hpieces)
      rwa [List.take_append_drop] at hsplits

/-- `split` finds a way when there is one. -/
theorem split_isSome_of_splits {dot : UInt8 → Bool} {segments : List PatternSegment} {path : Bytes}
    {pieces : PatternCaptures} (h : Splits dot segments path pieces) :
    (split dot segments path).isSome := by
  induction h with
  | nil => rfl
  | @literal text path rest pieces _ ih =>
    simpa [split] using ih
  | @parameter name piece path rest pieces hne hslash _ ih =>
    have hclass : ∀ c ∈ piece, (c != slash) = true := by
      intro c hc
      rw [bne_iff_ne]
      rintro rfl
      exact hslash hc
    simp only [split, List.findSome?_isSome_iff]
    refine ⟨piece.length, ?_, ?_⟩
    · rw [mem_lengths, List.takeWhile_append_of_pos hclass, List.length_append]
      have := List.length_pos_of_ne_nil hne
      omega
    · rw [List.drop_left, Option.isSome_map]
      exact ih
  | @wildcard piece path rest pieces hdot _ ih =>
    simp only [split, List.findSome?_isSome_iff]
    refine ⟨piece.length, ?_, ?_⟩
    · rw [mem_lengths, List.takeWhile_append_of_pos hdot, List.length_append]
      omega
    · rw [List.drop_left, Option.isSome_map]
      exact ih

/-! ### `match_segments` -/

/-- A wildcard comes last, if there is one. -/
def Trailing : List PatternSegment → Prop
  | [] => True
  | .wildcard :: rest => rest = []
  | _ :: rest => Trailing rest

/-- The result of a match with the captures it started from. -/
def withCaptures (captures : PatternCaptures) : Option PatternCaptures → Bool × PatternCaptures
  | none => (false, captures)
  | some pieces => (true, captures ++ pieces)

/-- The loop over the lengths finds the longest one that works, and a failed attempt leaves the
captures as they were. -/
lemma tryLengths_eq {attempt : ℕ → PatternCaptures → Bool × PatternCaptures}
    {found : ℕ → Option PatternCaptures} {captures : PatternCaptures}
    {piece : ℕ → Bytes × Bytes}
    (h : ∀ n, attempt n captures = withCaptures (captures ++ [piece n]) (found n)) (high : ℕ) :
    tryLengths attempt high captures =
      withCaptures captures
        ((lengths 1 high).findSome? fun n => (found n).map (piece n :: ·)) := by
  induction high with
  | zero => rfl
  | succ high ih =>
    rw [lengths_succ (by omega), List.findSome?_cons, tryLengths, h]
    cases hfound : found (high + 1) with
    | none =>
      simp only [withCaptures, Option.map_none, List.take_left']
      exact ih
    | some pieces => simp [withCaptures]

/-- The bytes before the first separator. -/
lemma find_slash_getD (path : Bytes) :
    (find [slash] path).getD path.length = (path.takeWhile (· != slash)).length := by
  cases hfind : find [slash] path with
  | none =>
    have hnot := (find_singleton_eq_none).mp hfind
    rw [List.takeWhile_eq_self_iff.mpr]
    · rfl
    · intro c hc
      rw [bne_iff_ne]
      rintro rfl
      exact hnot hc
  | some n =>
    obtain ⟨a, b, rfl, ha, rfl⟩ := find_singleton_eq_some hfind
    rw [List.takeWhile_append_of_pos, List.takeWhile_cons_of_neg (by simp)]
    · simp
    · intro c hc
      rw [bne_iff_ne]
      rintro rfl
      exact ha hc

/-- The longest piece of a wildcard is the whole path, and nothing is left after it. -/
lemma split_wildcard_last (path : Bytes) :
    split (fun _ => true) [.wildcard] path = some [(bytes "wildcard", path)] := by
  have hlen : (path.takeWhile fun _ => true).length = path.length := by
    rw [List.takeWhile_eq_self_iff.mpr (by simp)]
  have hfirst : (split (fun _ => true) [] (path.drop path.length)).map
      ((bytes "wildcard", path.take path.length) :: ·) = some [(bytes "wildcard", path)] := by
    simp [split]
  rw [split, hlen]
  cases hpath : path.length with
  | zero =>
    rw [hpath] at hfirst
    rw [show lengths 0 0 = [0] from rfl, List.findSome?_cons, hfirst]
  | succ n =>
    rw [hpath] at hfirst
    rw [lengths_succ (by omega), List.findSome?_cons, hfirst]

/-- `match_segments` computes `split` when a wildcard comes last, and takes back what a failed
candidate captured. -/
theorem matchSegments_eq {segments : List PatternSegment} (h : Trailing segments) :
    ∀ (path : Bytes) (captures : PatternCaptures),
      matchSegments segments path captures =
        withCaptures captures (split (fun _ => true) segments path) := by
  induction segments with
  | nil =>
    intro path captures
    cases path <;> simp [matchSegments, split, withCaptures]
  | cons segment rest ih =>
    intro path captures
    cases segment with
    | literal text =>
      rw [matchSegments, split]
      by_cases hstarts : text.isPrefixOf path = true
      · rw [if_pos hstarts, if_pos hstarts, ih h]
        cases split (fun _ => true) rest (path.drop text.length) with
        | none => simp [withCaptures]
        | some pieces => rfl
      · rw [if_neg hstarts, if_neg hstarts]
        rfl
    | parameter name =>
      rw [matchSegments, split, find_slash_getD]
      exact tryLengths_eq (fun n => ih h _ _) _
    | wildcard =>
      obtain rfl : rest = [] := h
      rw [split_wildcard_last]
      rfl

end Chhttp
