import Chhttp.Server.Dispatch

/-!
# The first route that matches

`bucketOf_foldl` says what is in a bucket of the index, and `locateLoop_findsFirst` what merging
two buckets finds: the first of their routes that matches.  Together they are
`findRoute_first_match`: the index finds the route that a scan of all routes in order of
registration would find, with its captures and no others.
-/

namespace Chhttp

/-! ### The buckets -/

/-- The bucket of a method, empty when there is none. -/
def bucketAt (map : MethodRoutesMap) (method : Bytes) : MethodRoutes :=
  (map.lookup method).getD {}

/-- A route goes to the bucket of its method. -/
lemma bucketAt_addRoute (map : MethodRoutesMap) (entry : Route × ℕ) (method : Bytes) :
    bucketAt (addRoute map entry) method =
      if entry.1.method = method then (bucketAt map method).add entry.1 entry.2
      else bucketAt map method := by
  unfold bucketAt addRoute
  by_cases hmethod : entry.1.method = method
  · subst hmethod
    rw [if_pos rfl, AList.lookup_insert]
    rfl
  · rw [if_neg hmethod, AList.lookup_insert_ne (Ne.symm hmethod)]

/-- The route has the method, and its pattern is a literal or not. -/
def filed (method : Bytes) (literal : Bool) (entry : Route × ℕ) : Bool :=
  entry.1.method == method && entry.1.pattern.literalOnly == literal

/-- The bucket of a method has its routes: the patterned ones in order, and the first one of each
literal. -/
structure BucketOf (entries : List (Route × ℕ)) (method : Bytes) (bucket : MethodRoutes) :
    Prop where
  patterned : bucket.patterned = (entries.filter (filed method false)).map Prod.snd
  literal (path : Bytes) : bucket.literalFirst.lookup path =
    (entries.find? fun e => filed method true e && path == e.1.pattern.literal).map Prod.snd

/-- A route of another method. -/
lemma BucketOf.skip {entries : List (Route × ℕ)} {method : Bytes} {bucket : MethodRoutes}
    (h : BucketOf entries method bucket) {entry : Route × ℕ} (hmethod : entry.1.method ≠ method) :
    BucketOf (entries ++ [entry]) method bucket := by
  have hfiled : ∀ literal, filed method literal entry = false := by
    intro literal
    rw [filed, beq_eq_false_iff_ne.mpr hmethod, Bool.false_and]
  constructor
  · rw [h.patterned, List.filter_append, List.filter_singleton, hfiled, cond_false,
      List.append_nil]
  · intro path
    rw [h.literal, List.find?_append, List.find?_singleton, hfiled, Bool.false_and,
      if_neg Bool.false_ne_true, Option.or_none]

/-- A route of the method. -/
lemma BucketOf.add {entries : List (Route × ℕ)} {method : Bytes} {bucket : MethodRoutes}
    (h : BucketOf entries method bucket) {entry : Route × ℕ} (hmethod : entry.1.method = method) :
    BucketOf (entries ++ [entry]) method (bucket.add entry.1 entry.2) := by
  have hfiled : ∀ literal, filed method literal entry =
      (entry.1.pattern.literalOnly == literal) := by
    intro literal
    rw [filed, beq_iff_eq.mpr hmethod, Bool.true_and]
  unfold MethodRoutes.add
  by_cases hliteral : entry.1.pattern.literalOnly = true
  · have hpatterned : (entries.filter (filed method false)).map Prod.snd =
        ((entries ++ [entry]).filter (filed method false)).map Prod.snd := by
      rw [List.filter_append, List.filter_singleton, hfiled, hliteral]
      simp
    rw [if_pos hliteral]
    by_cases hmem : entry.1.pattern.literal ∈ bucket.literalFirst
    · rw [if_pos hmem]
      refine ⟨h.patterned.trans hpatterned, fun path => ?_⟩
      rw [h.literal, List.find?_append, List.find?_singleton, hfiled, hliteral]
      by_cases hpath : path = entry.1.pattern.literal
      · -- The literal is known already, so the new route is not the first one.
        rw [← AList.lookup_isSome, h.literal, Option.isSome_map] at hmem
        rw [hpath]
        obtain ⟨e, he⟩ := Option.isSome_iff_exists.mp hmem
        rw [he, Option.some_or]
      · rw [beq_eq_false_iff_ne.mpr hpath]
        simp
    · rw [if_neg hmem]
      refine ⟨h.patterned.trans hpatterned, fun path => ?_⟩
      rw [List.find?_append, List.find?_singleton, hfiled, hliteral]
      by_cases hpath : path = entry.1.pattern.literal
      · have hnone := h.literal path
        rw [hpath, AList.lookup_eq_none.mpr hmem] at hnone
        rw [hpath, AList.lookup_insert]
        rw [Option.map_eq_none_iff.mp hnone.symm]
        simp
      · rw [AList.lookup_insert_ne hpath, h.literal, beq_eq_false_iff_ne.mpr hpath]
        simp
  · rw [if_neg hliteral]
    rw [Bool.not_eq_true] at hliteral
    constructor
    · rw [List.filter_append, List.filter_singleton, hfiled, hliteral, h.patterned]
      simp
    · intro path
      rw [h.literal, List.find?_append, List.find?_singleton, hfiled, hliteral]
      simp

/-- The index has the routes of every method in the bucket of this method.  Methods compare without
case, and a bucket keeps the order of registration. -/
theorem bucketOf_foldl (entries : List (Route × ℕ)) (method : Bytes) :
    BucketOf entries method (bucketAt (entries.foldl addRoute ∅) method) := by
  induction entries using List.reverseRecOn with
  | nil => exact ⟨rfl, fun path => rfl⟩
  | append_singleton entries entry ih =>
    rw [List.foldl_append, List.foldl_cons, List.foldl_nil, bucketAt_addRoute]
    by_cases hmethod : entry.1.method = method
    · rw [if_pos hmethod]
      exact ih.add hmethod
    · rw [if_neg hmethod]
      exact ih.skip hmethod

/-! ### Merging the buckets -/

/-- The least element of a set, if there is one. -/
def FirstOf (first : Option ℕ) (S : Set ℕ) : Prop := ∀ i, first = some i ↔ IsLeast S i

/-- A least element is the only one. -/
lemma FirstOf.of_isLeast {S : Set ℕ} {l : ℕ} (h : IsLeast S l) : FirstOf (some l) S := by
  intro i
  constructor
  · intro hi
    cases hi
    exact h
  · intro hi
    rw [h.unique hi]

/-- Only the empty set has no first element. -/
lemma FirstOf.none_iff {first : Option ℕ} {S : Set ℕ} (h : FirstOf first S) :
    first = none ↔ S = ∅ := by
  constructor
  · rintro rfl
    by_contra hne
    obtain ⟨i, hi⟩ : ∃ i, IsLeast S i :=
      ⟨sInf S, Nat.sInf_mem (Set.nonempty_iff_ne_empty.mpr hne), fun j hj => Nat.sInf_le hj⟩
    cases (h i).mpr hi
  · rintro rfl
    cases hfirst : first with
    | none => rfl
    | some i => exact absurd ((h i).mp hfirst).1 (Set.notMem_empty i)

/-- The empty set has no first element. -/
lemma FirstOf.empty : FirstOf none ∅ := by
  intro i
  constructor
  · intro hi
    cases hi
  · intro hi
    exact absurd hi.1 (Set.notMem_empty i)

/-- The first element of a union. -/
lemma FirstOf.merge {a b : Option ℕ} {A B : Set ℕ} (ha : FirstOf a A) (hb : FirstOf b B) :
    FirstOf (Option.merge min a b) (A ∪ B) := by
  cases a with
  | none =>
    rw [ha.none_iff.mp rfl, Set.empty_union]
    cases b <;> exact hb
  | some i =>
    cases b with
    | none =>
      rw [hb.none_iff.mp rfl, Set.union_empty]
      exact ha
    | some j => exact FirstOf.of_isLeast (((ha i).mp rfl).union ((hb j).mp rfl))

/-- A larger set has the same first element if its elements come after those of the smaller one. -/
lemma FirstOf.of_subset {first : Option ℕ} {S T : Set ℕ} (h : FirstOf first S) (hsub : S ⊆ T)
    (hbefore : ∀ t ∈ T, ∃ s ∈ S, s ≤ t) : FirstOf first T := by
  intro i
  rw [h i]
  constructor
  · rintro ⟨hi, hleast⟩
    refine ⟨hsub hi, fun t ht => ?_⟩
    obtain ⟨s, hs, hst⟩ := hbefore t ht
    exact (hleast hs).trans hst
  · rintro ⟨hi, hleast⟩
    obtain ⟨s, hs, hsi⟩ := hbefore i hi
    obtain rfl : s = i := le_antisymm hsi (hleast (hsub hs))
    exact ⟨hs, fun j hj => hleast (hsub hj)⟩

/-- The first entry that satisfies a predicate has the least position. -/
lemma find?_isLeast {entries : List (Route × ℕ)} (h : (entries.map Prod.snd).Pairwise (· < ·))
    {p : Route × ℕ → Bool} :
    FirstOf ((entries.find? p).map Prod.snd) {i | ∃ e ∈ entries, p e = true ∧ e.2 = i} := by
  induction entries with
  | nil =>
    rw [show {i | ∃ e ∈ ([] : List (Route × ℕ)), p e = true ∧ e.2 = i} = ∅ by simp]
    exact FirstOf.empty
  | cons e entries ih =>
    rw [List.map_cons, List.pairwise_cons] at h
    by_cases hp : p e = true
    · rw [List.find?_cons_of_pos hp]
      apply FirstOf.of_isLeast
      refine ⟨⟨e, List.mem_cons_self, hp, rfl⟩, ?_⟩
      rintro _ ⟨e', he', -, rfl⟩
      rcases List.mem_cons.mp he' with rfl | he'
      · exact le_rfl
      · exact (h.1 _ (List.mem_map_of_mem he')).le
    · have hset : {i | ∃ e' ∈ e :: entries, p e' = true ∧ e'.2 = i} =
          {i | ∃ e' ∈ entries, p e' = true ∧ e'.2 = i} := by
        ext j
        constructor
        · rintro ⟨e', he', hpe', rfl⟩
          rcases List.mem_cons.mp he' with rfl | he'
          · exact absurd hpe' hp
          · exact ⟨e', he', hpe', rfl⟩
        · rintro ⟨e', he', hpe', rfl⟩
          exact ⟨e', List.mem_cons_of_mem _ he', hpe', rfl⟩
      rw [List.find?_cons_of_neg hp, hset]
      exact ih h.2

/-- The cursors point at ascending positions.  The smaller of the two heads is then the first route
that has not been tried. -/
structure Cursors.Ascending (c : Cursors) : Prop where
  primary : c.primary.Pairwise (· < ·)
  secondary : c.secondary.Pairwise (· < ·)

/-- The positions the cursors have not passed. -/
def Cursors.Ahead (c : Cursors) (i : ℕ) : Prop := i ∈ c.primary ∨ i ∈ c.secondary

/-- Nothing is ahead of cursors without a next position. -/
lemma Cursors.not_ahead {c : Cursors} (h : c.next = none) (i : ℕ) : ¬ c.Ahead i := by
  obtain ⟨primary, secondary, _, _⟩ := c
  cases primary with
  | nil =>
    cases secondary with
    | nil => simp [Cursors.Ahead]
    | cons b secondary => cases h
  | cons a primary => cases secondary <;> cases h

/-- The head of an ascending list is its least element. -/
lemma le_of_mem_ascending {a : ℕ} {l : List ℕ} (h : (a :: l).Pairwise (· < ·)) :
    ∀ i ∈ a :: l, a ≤ i := by
  intro i hi
  rcases List.mem_cons.mp hi with rfl | hi
  · exact le_rfl
  · exact (List.rel_of_pairwise_cons h hi).le

/-- The next position is the least one ahead.  Both lists ascend, so their heads are enough to know
it. -/
lemma Cursors.next_isLeast {c : Cursors} (hc : c.Ascending) {n : ℕ} (h : c.next = some n) :
    IsLeast {i | c.Ahead i} n := by
  obtain ⟨primary, secondary, _, _⟩ := c
  obtain ⟨hprimary, hsecondary⟩ := hc
  dsimp only at hprimary hsecondary
  cases primary with
  | nil =>
    cases secondary with
    | nil => cases h
    | cons b secondary =>
      cases h
      refine ⟨Or.inr List.mem_cons_self, ?_⟩
      rintro i (hi | hi)
      · cases hi
      · exact le_of_mem_ascending hsecondary i hi
  | cons a primary =>
    have ha := le_of_mem_ascending hprimary
    cases secondary with
    | nil =>
      cases h
      refine ⟨Or.inl List.mem_cons_self, ?_⟩
      rintro i (hi | hi)
      · exact ha i hi
      · cases hi
    | cons b secondary =>
      have hb := le_of_mem_ascending hsecondary
      obtain rfl : min a b = n := Option.some.inj h
      constructor
      · rcases min_choice a b with hab | hab
        · rw [hab]
          exact Or.inl List.mem_cons_self
        · rw [hab]
          exact Or.inr List.mem_cons_self
      · rintro i (hi | hi)
        · exact (min_le_left a b).trans (ha i hi)
        · exact (min_le_right a b).trans (hb i hi)

/-- Dropping the least element of an ascending list drops nothing else. -/
lemma mem_dropWhile_beq {l : List ℕ} (h : l.Pairwise (· < ·)) {n : ℕ} (hn : ∀ i ∈ l, n ≤ i)
    (i : ℕ) : i ∈ l.dropWhile (· == n) ↔ i ∈ l ∧ i ≠ n := by
  induction l with
  | nil => simp
  | cons a l ih =>
    obtain ⟨hlt, hl⟩ := List.pairwise_cons.mp h
    by_cases ha : a = n
    · subst ha
      have hne : ∀ i ∈ l, i ≠ a := fun i hi => (hlt i hi).ne'
      rw [List.dropWhile_cons_of_pos (by simp), ih hl fun i hi => (hlt i hi).le, List.mem_cons]
      constructor
      · rintro ⟨hi, hia⟩
        exact ⟨Or.inr hi, hia⟩
      · rintro ⟨rfl | hi, hia⟩
        · exact absurd rfl hia
        · exact ⟨hi, hia⟩
    · have hlt' : n < a := lt_of_le_of_ne (hn a List.mem_cons_self) (Ne.symm ha)
      rw [List.dropWhile_cons_of_neg (by simpa using ha)]
      constructor
      · intro hi
        refine ⟨hi, ?_⟩
        rcases List.mem_cons.mp hi with rfl | hi
        · exact ha
        · exact (hlt'.trans (hlt i hi)).ne'
      · exact And.left

/-- Advancing passes the next position only. -/
lemma Cursors.ahead_advance {c : Cursors} (hc : c.Ascending) {n : ℕ} (h : c.next = some n)
    (parameters : PathParams) (captures : PatternCaptures) (i : ℕ) :
    (c.advance n parameters captures).Ahead i ↔ c.Ahead i ∧ i ≠ n := by
  have hleast := (Cursors.next_isLeast hc h).2
  simp only [Cursors.Ahead, Cursors.advance,
    mem_dropWhile_beq hc.primary fun i hi => hleast (Or.inl hi),
    mem_dropWhile_beq hc.secondary fun i hi => hleast (Or.inr hi)]
  exact or_and_right.symm

/-- Advanced cursors still point at ascending positions. -/
lemma Cursors.Ascending.advance {c : Cursors} (hc : c.Ascending) (n : ℕ) (parameters : PathParams)
    (captures : PatternCaptures) : (c.advance n parameters captures).Ascending :=
  ⟨hc.primary.sublist (List.dropWhile_sublist _), hc.secondary.sublist (List.dropWhile_sublist _)⟩

/-- The captures of the route at a position of the table. -/
def capturedAt (engine : RegexEngine) (table : List Route) (path : Bytes) (i : ℕ) :
    Option PatternCaptures :=
  table[i]?.bind fun route => captures engine route.pattern path

/-- The routes the loop can still answer with. -/
def Cursors.Candidates (engine : RegexEngine) (table : List Route) (path : Bytes)
    (literalIndex : Option ℕ) (c : Cursors) : Set ℕ :=
  {i | (c.Ahead i ∨ literalIndex = some i) ∧ (capturedAt engine table path i).isSome}

/-- A route is found, with its captures alone, exactly if it is the first of a set.  Captures of
routes that were tried before and did not match leave no parameters behind. -/
structure FindsFirst (engine : RegexEngine) (table : List Route) (path : Bytes) (S : Set ℕ)
    (result : Option ℕ × PathParams) : Prop where
  index : FirstOf result.1 S
  parameters (i : ℕ) (found : PatternCaptures) : result.1 = some i →
    capturedAt engine table path i = some found → result.2 = assignCaptures ∅ found

/-- Leaving with the literal route, or with none.  No pattern ahead comes before it, so it is the
first that was registered. -/
lemma findsFirst_literal {engine : RegexEngine} {table : List Route} {path : Bytes}
    {literalIndex : Option ℕ} {c : Cursors}
    (hliteral : ∀ l, literalIndex = some l → capturedAt engine table path l = some [])
    (hahead : ∀ i, c.Ahead i → ∃ l, literalIndex = some l ∧ l ≤ i) :
    FindsFirst engine table path (c.Candidates engine table path literalIndex)
      (literalIndex, ∅) := by
  constructor
  · cases hl : literalIndex with
    | none =>
      have hempty : c.Candidates engine table path none = ∅ := by
        rw [Set.eq_empty_iff_forall_notMem]
        rintro i ⟨hi | hi, -⟩
        · obtain ⟨l, hl', -⟩ := hahead i hi
          rw [hl] at hl'
          cases hl'
        · cases hi
      rw [hempty]
      exact FirstOf.empty
    | some l =>
      apply FirstOf.of_isLeast
      refine ⟨⟨Or.inr rfl, by rw [hliteral l hl]; rfl⟩, ?_⟩
      rintro j ⟨hj | hj, -⟩
      · obtain ⟨l', hl', hle⟩ := hahead j hj
        rw [hl] at hl'
        cases hl'
        exact hle
      · cases hj
        exact le_rfl
  · intro i found hi hfound
    rw [hliteral i hi] at hfound
    cases hfound
    rfl

/-- What an iteration can do: leave with the literal route once nothing ahead comes before it, leave
with the next route if that matches, and otherwise pass the next route. -/
inductive LocateStep (engine : RegexEngine) (table : List Route) (path : Bytes)
    (literalIndex : Option ℕ) (c : Cursors) : Loop.Next Cursors (Option ℕ × PathParams) → Prop where
  | literal (h : ∀ i, c.Ahead i → ∃ l, literalIndex = some l ∧ l ≤ i) :
      LocateStep engine table path literalIndex c (.leave (literalIndex, c.parameters))
  | found {n : ℕ} {captures : PatternCaptures} (hnext : IsLeast {i | c.Ahead i} n)
      (hbefore : ∀ l, literalIndex = some l → n < l)
      (h : capturedAt engine table path n = some captures) :
      LocateStep engine table path literalIndex c
        (.leave (some n, assignCaptures c.parameters captures))
  | pass {n : ℕ} (left : PatternCaptures) (hnext : c.next = some n)
      (h : capturedAt engine table path n = none) :
      LocateStep engine table path literalIndex c (.again (c.advance n c.parameters left))

/-- Every iteration does one of these. -/
lemma locateStep_spec (engine : RegexEngine) (table : List Route) (path : Bytes)
    (literalIndex : Option ℕ) {c : Cursors} (hc : c.Ascending)
    (htable : ∀ i, c.Ahead i → i < table.length) :
    LocateStep engine table path literalIndex c (locateStep engine table path literalIndex c) := by
  unfold locateStep
  cases hnext : c.next with
  | none => exact LocateStep.literal fun i hi => absurd hi (Cursors.not_ahead hnext i)
  | some n =>
    have hleast := Cursors.next_isLeast hc hnext
    dsimp only
    by_cases hstop : literalIndex.any (· ≤ n) = true
    · rw [if_pos hstop]
      apply LocateStep.literal
      intro i hi
      obtain ⟨l, hl, hle⟩ := (Option.any_eq_true _ _).mp hstop
      exact ⟨l, hl, (of_decide_eq_true hle).trans (hleast.2 hi)⟩
    · have hbefore : ∀ l, literalIndex = some l → n < l := by
        rintro l rfl
        rw [Option.any_some, decide_eq_true_eq] at hstop
        exact Nat.lt_of_not_le hstop
      obtain ⟨route, hroute⟩ : ∃ route, table[n]? = some route :=
        ⟨_, List.getElem?_eq_getElem (htable n hleast.1)⟩
      have hcaptured : capturedAt engine table path n = captures engine route.pattern path := by
        rw [capturedAt, hroute, Option.bind_some]
      obtain ⟨left, hmatch⟩ := matchPattern_eq engine route.pattern path c.parameters c.captures
      rw [if_neg hstop, hroute]
      dsimp only
      rw [hmatch]
      cases hfound : captures engine route.pattern path with
      | none => exact LocateStep.pass left hnext (hcaptured.trans hfound)
      | some found => exact LocateStep.found hleast hbefore (hcaptured.trans hfound)

/-- The loop finds the first candidate.  The literal route is a candidate like the others, only
found in advance; the loop stops when it comes to its position. -/
theorem locateLoop_findsFirst (engine : RegexEngine) (table : List Route) (path : Bytes)
    {literalIndex : Option ℕ}
    (hliteral : ∀ l, literalIndex = some l → capturedAt engine table path l = some [])
    (c : Cursors) (hc : c.Ascending) (hparameters : c.parameters = ∅)
    (htable : ∀ i, c.Ahead i → i < table.length) :
    FindsFirst engine table path (c.Candidates engine table path literalIndex)
      (Loop.run (locateStep engine table path literalIndex) _
        (locateStep_decreases engine table path literalIndex) c) := by
  refine Loop.run_induct (locateStep_decreases engine table path literalIndex)
    (P := fun c result => c.Ascending → c.parameters = ∅ → (∀ i, c.Ahead i → i < table.length) →
      FindsFirst engine table path (c.Candidates engine table path literalIndex) result)
    ?_ ?_ c hc hparameters htable
  · intro c result hstep hc hparameters htable
    have hspec := locateStep_spec engine table path literalIndex hc htable
    rw [hstep] at hspec
    cases hspec with
    | literal h =>
      rw [hparameters]
      exact findsFirst_literal hliteral h
    | @found n captures hnext hbefore h =>
      rw [hparameters]
      have hleast : IsLeast (c.Candidates engine table path literalIndex) n := by
        refine ⟨⟨Or.inl hnext.1, by rw [h]; rfl⟩, ?_⟩
        rintro i ⟨hi | hi, -⟩
        · exact hnext.2 hi
        · exact (hbefore i hi).le
      refine ⟨FirstOf.of_isLeast hleast, ?_⟩
      rintro i found hi hfound
      cases hi
      rw [h] at hfound
      cases hfound
      rfl
  · -- the candidate did not match, so the set of those that do is the same without it
    intro c c' result hstep ih hc hparameters htable
    have hspec := locateStep_spec engine table path literalIndex hc htable
    rw [hstep] at hspec
    cases hspec with
    | @pass n left hnext h =>
      have hahead := Cursors.ahead_advance hc hnext c.parameters left
      have hset : (c.advance n c.parameters left).Candidates engine table path literalIndex =
          c.Candidates engine table path literalIndex := by
        ext i
        simp only [Cursors.Candidates, Set.mem_ofPred_eq, hahead]
        constructor
        · rintro ⟨⟨hi, -⟩ | hi, hsome⟩
          · exact ⟨Or.inl hi, hsome⟩
          · exact ⟨Or.inr hi, hsome⟩
        · rintro ⟨hi | hi, hsome⟩
          · refine ⟨Or.inl ⟨hi, ?_⟩, hsome⟩
            rintro rfl
            rw [h] at hsome
            cases hsome
          · exact ⟨Or.inr hi, hsome⟩
      rw [← hset]
      exact ih (hc.advance n _ _) hparameters fun i hi => htable i ((hahead i).mp hi).1

/-! ### The first route of a request -/

/-- The positions of the routes that match a path and whose method satisfies `p`. -/
def eligible (engine : RegexEngine) (table : List Route) (path : Bytes) (p : Bytes → Bool) : Set ℕ :=
  {i | ∃ route, table[i]? = some route ∧ p route.method = true ∧
    (captures engine route.pattern path).isSome}

/-- The positions of the literal routes for a path whose method satisfies `p`. -/
def literalRoutes (table : List Route) (path : Bytes) (p : Bytes → Bool) : Set ℕ :=
  {i | ∃ route, table[i]? = some route ∧ p route.method = true ∧
    route.pattern.literalOnly = true ∧ path = route.pattern.literal}

/-- A bucket holds the routes of a table whose method satisfies `p`.  The patterned ones are there
in order, and of several literals with one text the first. -/
structure Covers (table : List Route) (path : Bytes) (p : Bytes → Bool)
    (bucket : Option MethodRoutes) : Prop where
  ascending : (bucket.getD {}).patterned.Pairwise (· < ·)
  patterned (i : ℕ) : i ∈ (bucket.getD {}).patterned ↔
    ∃ route, table[i]? = some route ∧ p route.method = true ∧ route.pattern.literalOnly = false
  literal : FirstOf ((bucket.getD {}).literalFirst.lookup path) (literalRoutes table path p)

/-- The positions of a table ascend. -/
lemma zipIdx_ascending (table : List Route) :
    (table.zipIdx.map Prod.snd).Pairwise (· < ·) := by
  rw [List.zipIdx_map_snd]
  exact List.pairwise_lt_range'

/-- The bucket of a method in the index.  A method without a bucket has no routes. -/
lemma covers_lookup (table : List Route) (path method : Bytes) :
    Covers table path (· == method) ((buildDispatchIndex table).lookup method) := by
  have hbucket := bucketOf_foldl table.zipIdx method
  have hascending := zipIdx_ascending table
  constructor
  · rw [← bucketAt, buildDispatchIndex, hbucket.patterned]
    exact hascending.sublist (List.filter_sublist.map _)
  · intro i
    rw [← bucketAt, buildDispatchIndex, hbucket.patterned, List.mem_map]
    constructor
    · rintro ⟨⟨route, i⟩, he, rfl⟩
      obtain ⟨hmem, hfiled⟩ := List.mem_filter.mp he
      obtain ⟨hmethod, hliteral⟩ := Bool.and_eq_true_iff.mp hfiled
      exact ⟨route, List.mem_zipIdx_iff_getElem?.mp hmem, hmethod, beq_iff_eq.mp hliteral⟩
    · rintro ⟨route, hroute, hmethod, hliteral⟩
      refine ⟨(route, i), List.mem_filter.mpr ⟨List.mem_zipIdx_iff_getElem?.mpr hroute, ?_⟩, rfl⟩
      exact Bool.and_eq_true_iff.mpr ⟨hmethod, beq_iff_eq.mpr hliteral⟩
  · rw [← bucketAt, buildDispatchIndex, hbucket.literal]
    convert find?_isLeast hascending using 1
    ext i
    constructor
    · rintro ⟨route, hroute, hmethod, hliteral, hpath⟩
      refine ⟨(route, i), List.mem_zipIdx_iff_getElem?.mpr hroute, ?_, rfl⟩
      rw [filed, Bool.and_eq_true, Bool.and_eq_true]
      exact ⟨⟨hmethod, beq_iff_eq.mpr hliteral⟩, beq_iff_eq.mpr hpath⟩
    · rintro ⟨⟨route, i⟩, he, hfiled, rfl⟩
      rw [filed, Bool.and_eq_true, Bool.and_eq_true] at hfiled
      obtain ⟨⟨hmethod, hliteral⟩, hpath⟩ := hfiled
      exact ⟨route, List.mem_zipIdx_iff_getElem?.mp he, hmethod, beq_iff_eq.mp hliteral,
        beq_iff_eq.mp hpath⟩

/-- A bucket that does not exist holds no routes. -/
lemma covers_none (table : List Route) (path : Bytes) {p : Bytes → Bool}
    (hp : ∀ method, p method = false) : Covers table path p none := by
  constructor
  · exact List.Pairwise.nil
  · intro i
    simp [hp]
  · have hempty : literalRoutes table path p = ∅ := by
      simp [literalRoutes, hp]
    rw [hempty]
    exact FirstOf.empty

/-- A literal pattern captures nothing. -/
lemma captures_of_literal {engine : RegexEngine} {pattern : CompiledPattern} {path : Bytes}
    (h : pattern.literalOnly = true) :
    captures engine pattern path = if path = pattern.literal then some [] else none := by
  rw [captures, if_pos h]
  simp

/-- A literal route for the path captures nothing there. -/
lemma capturedAt_of_literalRoutes (engine : RegexEngine) {table : List Route} {path : Bytes}
    {p : Bytes → Bool} {i : ℕ} (h : i ∈ literalRoutes table path p) :
    capturedAt engine table path i = some [] := by
  obtain ⟨route, hroute, -, honly, hpath⟩ := h
  rw [capturedAt, hroute, Option.bind_some, captures_of_literal honly, if_pos hpath]

/-- A route that matches a path is a literal one for it, or has another kind of pattern. -/
lemma mem_eligible_iff {engine : RegexEngine} {table : List Route} {path : Bytes}
    {p : Bytes → Bool} {i : ℕ} :
    i ∈ eligible engine table path p ↔ i ∈ literalRoutes table path p ∨
      (∃ route, table[i]? = some route ∧ p route.method = true ∧
        route.pattern.literalOnly = false) ∧ (capturedAt engine table path i).isSome := by
  constructor
  · rintro ⟨route, hroute, hmethod, hsome⟩
    by_cases honly : route.pattern.literalOnly = true
    · refine Or.inl ⟨route, hroute, hmethod, honly, ?_⟩
      by_contra hne
      rw [captures_of_literal honly, if_neg hne] at hsome
      cases hsome
    · rw [Bool.not_eq_true] at honly
      refine Or.inr ⟨⟨route, hroute, hmethod, honly⟩, ?_⟩
      rwa [capturedAt, hroute, Option.bind_some]
  · rintro (hliteral | ⟨⟨route, hroute, hmethod, -⟩, hsome⟩)
    · have hcaptured := capturedAt_of_literalRoutes engine hliteral
      obtain ⟨route, hroute, hmethod, -, -⟩ := hliteral
      rw [capturedAt, hroute, Option.bind_some] at hcaptured
      exact ⟨route, hroute, hmethod, by rw [hcaptured]; rfl⟩
    · rw [capturedAt, hroute, Option.bind_some] at hsome
      exact ⟨route, hroute, hmethod, hsome⟩

section

variable {table : List Route} {path : Bytes} {p q : Bytes → Bool}
  {primary secondary : Option MethodRoutes}

/-- The first literal route of two buckets. -/
lemma Covers.first_literal (hp : Covers table path p primary) (hq : Covers table path q secondary) :
    FirstOf (literalIndex primary secondary path)
      (literalRoutes table path fun method => p method || q method) := by
  have hlookup : ∀ bucket : Option MethodRoutes,
      bucket.bind (·.literalFirst.lookup path) = (bucket.getD {}).literalFirst.lookup path := by
    rintro (_ | _) <;> rfl
  have hunion : literalRoutes table path (fun method => p method || q method) =
      literalRoutes table path p ∪ literalRoutes table path q := by
    ext i
    simp only [literalRoutes, Bool.or_eq_true, Set.mem_ofPred_eq, Set.mem_union]
    grind
  rw [hunion, literalIndex, hlookup, hlookup]
  exact hp.literal.merge hq.literal

/-- The patterned routes of a bucket, which may not exist. -/
lemma patterned_getD (bucket : Option MethodRoutes) :
    (bucket.map MethodRoutes.patterned).getD [] = (bucket.getD {}).patterned := by
  cases bucket <;> rfl

/-- What is ahead of the cursors of two buckets. -/
lemma Covers.ahead (hp : Covers table path p primary) (hq : Covers table path q secondary) (i : ℕ) :
    Cursors.Ahead
      { primary := (primary.map MethodRoutes.patterned).getD []
        secondary := (secondary.map MethodRoutes.patterned).getD [] } i ↔
      ∃ route, table[i]? = some route ∧ (p route.method || q route.method) = true ∧
        route.pattern.literalOnly = false := by
  simp only [Cursors.Ahead, patterned_getD, hp.patterned, hq.patterned, Bool.or_eq_true]
  grind

/-- The cursors of two buckets ascend. -/
lemma Covers.ascending_cursors (hp : Covers table path p primary)
    (hq : Covers table path q secondary) :
    Cursors.Ascending
      { primary := (primary.map MethodRoutes.patterned).getD []
        secondary := (secondary.map MethodRoutes.patterned).getD [] } := by
  rw [patterned_getD, patterned_getD]
  exact ⟨hp.ascending, hq.ascending⟩

/-- Merging two buckets finds the first of their routes that matches.  The predicates say which
methods the buckets answer for, so that `HEAD` with its two buckets is an instance. -/
theorem locateRoute_findsFirst (engine : RegexEngine) (hp : Covers table path p primary)
    (hq : Covers table path q secondary) :
    FindsFirst engine table path (eligible engine table path fun method => p method || q method)
      (locateRoute engine primary secondary path table) := by
  have hliteral := hp.first_literal hq
  have hcaptured : ∀ l, literalIndex primary secondary path = some l →
      capturedAt engine table path l = some [] := fun l hl =>
    capturedAt_of_literalRoutes engine ((hliteral l).mp hl).1
  have hfinds := locateLoop_findsFirst engine table path hcaptured _ (hp.ascending_cursors hq) rfl
    (by
      intro i hi
      obtain ⟨route, hroute, -⟩ := (hp.ahead hq i).mp hi
      exact (List.getElem?_eq_some_iff.mp hroute).1)
  refine ⟨hfinds.index.of_subset ?_ ?_, hfinds.parameters⟩
  · -- What the loop can answer with may serve the path.
    rintro i ⟨hi | hi, hsome⟩
    · exact mem_eligible_iff.mpr (Or.inr ⟨(hp.ahead hq i).mp hi, hsome⟩)
    · exact mem_eligible_iff.mpr (Or.inl ((hliteral i).mp hi).1)
  · -- A route the loop cannot answer with has the same literal as an earlier one.
    intro i hi
    rcases mem_eligible_iff.mp hi with hmem | ⟨hother, hsome⟩
    · cases hl : literalIndex primary secondary path with
      | none =>
        have hempty := hliteral.none_iff.mp hl
        rw [hempty] at hmem
        cases hmem
      | some l =>
        refine ⟨l, ⟨Or.inr rfl, ?_⟩, ((hliteral l).mp hl).2 hmem⟩
        rw [hcaptured l hl]
        rfl
    · exact ⟨i, ⟨Or.inl ((hp.ahead hq i).mpr hother), hsome⟩, le_rfl⟩

end

/-! ### The first route of a request -/

/-- The routes of a server, in order of registration.  One pattern that does not compile makes the
registration fail. -/
def registerRoutes (engine : RegexEngine) (registrations : List (Bytes × Bytes)) :
    Except PatternError (List Route) :=
  registrations.mapM (Route.register engine)

/-- A registration serves a request with these captures: its method is the one of the request,
ignoring case, or `GET` for a `HEAD` request, and its pattern matches the path. -/
def Serves (engine : RegexEngine) (registrations : List (Bytes × Bytes)) (request : Request)
    (i : ℕ) (found : PatternCaptures) : Prop :=
  ∃ method pattern compiled, registrations[i]? = some (method, pattern) ∧
    (iequals method request.method = true ∨
      iequals request.method (bytes "HEAD") = true ∧ iequals method (bytes "GET") = true) ∧
    compilePattern engine pattern = .ok compiled ∧
    captures engine compiled request.path = some found

/-- A registered route has the method in lower case and the compiled pattern. -/
lemma register_eq_ok {engine : RegexEngine} {registration : Bytes × Bytes} {route : Route}
    (h : Route.register engine registration = .ok route) :
    route.method = lower registration.1 ∧
      compilePattern engine registration.2 = .ok route.pattern := by
  unfold Route.register at h
  cases hpattern : compilePattern engine registration.2 with
  | error e =>
    rw [hpattern] at h
    cases h
  | ok pattern =>
    rw [hpattern] at h
    cases h
    exact ⟨rfl, rfl⟩

/-- The routes are those of the registrations, one by one. -/
lemma registerRoutes_eq_ok {engine : RegexEngine} {registrations : List (Bytes × Bytes)}
    {routes : List Route} (h : registerRoutes engine registrations = .ok routes) :
    List.Forall₂ (fun registration route => Route.register engine registration = .ok route)
      registrations routes := by
  induction registrations generalizing routes with
  | nil =>
    cases h
    exact List.Forall₂.nil
  | cons registration registrations ih =>
    rw [registerRoutes, List.mapM_cons] at h
    cases hroute : Route.register engine registration with
    | error e =>
      rw [hroute] at h
      cases h
    | ok route =>
      rw [hroute] at h
      cases hrest : registerRoutes engine registrations with
      | error e =>
        rw [registerRoutes] at hrest
        rw [hrest] at h
        cases h
      | ok rest =>
        have hforall := ih hrest
        rw [registerRoutes] at hrest
        rw [hrest] at h
        cases h
        exact List.Forall₂.cons hroute hforall

/-- The routes of a server that serve a request. -/
lemma serves_iff {engine : RegexEngine} {registrations : List (Bytes × Bytes)}
    {routes : List Route} (h : registerRoutes engine registrations = .ok routes)
    (request : Request) (i : ℕ) (found : PatternCaptures) :
    Serves engine registrations request i found ↔
      ∃ route, routes[i]? = some route ∧
        (route.method == lower request.method ||
          (lower request.method == bytes "head" && route.method == bytes "get")) = true ∧
        captures engine route.pattern request.path = some found := by
  have hforall := registerRoutes_eq_ok h
  have hhead : lower (bytes "HEAD") = bytes "head" := by decide +kernel
  have hget : lower (bytes "GET") = bytes "get" := by decide +kernel
  simp only [Serves, iequals_iff, hhead, hget, Bool.or_eq_true, Bool.and_eq_true, beq_iff_eq]
  constructor
  · rintro ⟨method, pattern, compiled, hregistration, hmethod, hcompiled, hfound⟩
    obtain ⟨hi, hget⟩ := List.getElem?_eq_some_iff.mp hregistration
    have hi' : i < routes.length := hforall.length_eq ▸ hi
    have hregister := hforall.get hi hi'
    rw [List.get_eq_getElem, List.get_eq_getElem, hget] at hregister
    obtain ⟨hroute, hpattern⟩ := register_eq_ok hregister
    rw [hcompiled] at hpattern
    cases hpattern
    exact ⟨_, List.getElem?_eq_getElem hi', by rwa [hroute], hfound⟩
  · rintro ⟨route, hroute, hmethod, hfound⟩
    obtain ⟨hi, hget⟩ := List.getElem?_eq_some_iff.mp hroute
    have hi' : i < registrations.length := hforall.length_eq ▸ hi
    have hregister := hforall.get hi' hi
    rw [List.get_eq_getElem, List.get_eq_getElem, hget] at hregister
    obtain ⟨hmethod', hpattern⟩ := register_eq_ok hregister
    rw [hmethod'] at hmethod
    exact ⟨_, _, _, List.getElem?_eq_getElem hi', hmethod, hpattern, hfound⟩

/-- The first and the second bucket of a request. -/
lemma covers_primary (table : List Route) (path : Bytes) {key : Bytes} (hkey : key ≠ []) :
    Covers table path (· == key) (bucketFor (buildDispatchIndex table) key) := by
  rw [bucketFor, if_neg (by simpa using hkey)]
  exact covers_lookup table path key

/-- Only `HEAD` consults a second bucket. -/
lemma covers_secondary (table : List Route) (path key : Bytes) :
    Covers table path (fun method => key == bytes "head" && method == bytes "get")
      (secondaryBucket (buildDispatchIndex table) key) := by
  unfold secondaryBucket
  by_cases hkey : key = bytes "head"
  · rw [if_pos hkey, beq_iff_eq.mpr hkey]
    exact covers_lookup table path (bytes "get")
  · rw [if_neg hkey, beq_eq_false_iff_ne.mpr hkey]
    exact covers_none table path fun _ => rfl

/-- Every answer of the index is an answer of the scan. -/
lemma routeFound_eq {engine : RegexEngine} {table : List Route} {path : Bytes} {S : Set ℕ}
    {result : Option ℕ × PathParams} (h : FindsFirst engine table path S result)
    (request : RoutedRequest) :
    (routeFound request result).1 = result.1 ∧
      (result.1 = none → (routeFound request result).2 = request) ∧
      ∀ i found, result.1 = some i → capturedAt engine table path i = some found →
        (routeFound request result).2 = { request with pathParams := assignCaptures ∅ found } := by
  obtain ⟨_ | i, parameters⟩ := result
  · refine ⟨rfl, fun _ => rfl, fun i found hi => ?_⟩
    cases hi
  · refine ⟨rfl, fun hi => ?_, fun j found hj hfound => ?_⟩
    · cases hi
    · rw [← h.parameters j found hj hfound]
      rfl

/-- Indexed dispatch is the first registered match.  For every list of registered routes and every
request, `find_route` returns the least index of a route that serves the request, or none if there
is no such route; the path parameters become the captures of that route alone, and without a route
they stay as they are. -/
theorem findRoute_first_match (engine : RegexEngine) {registrations : List (Bytes × Bytes)}
    {routes : List Route} (hroutes : registerRoutes engine registrations = .ok routes)
    (request : RoutedRequest) (hmethod : request.method ≠ []) :
    let (matched, routed) := findRoute engine routes (buildDispatchIndex routes) request
    (∀ i, matched = some i ↔
      IsLeast {i | ∃ found, Serves engine registrations request.toRequest i found} i) ∧
    (matched = none ↔ ∀ i found, ¬ Serves engine registrations request.toRequest i found) ∧
    (∀ i found, matched = some i → Serves engine registrations request.toRequest i found →
      routed = { request with pathParams := assignCaptures ∅ found }) ∧
    (matched = none → routed = request) := by
  have hkey : lower request.method ≠ [] := by
    rw [lower, ne_eq, List.map_eq_nil_iff]
    exact hmethod
  have hfinds := locateRoute_findsFirst engine (covers_primary routes request.path hkey)
    (covers_secondary routes request.path (lower request.method))
  have hset : (eligible engine routes request.path fun method =>
        method == lower request.method ||
          (lower request.method == bytes "head" && method == bytes "get")) =
      {i | ∃ found, Serves engine registrations request.toRequest i found} := by
    ext i
    simp only [eligible, Set.mem_ofPred_eq, serves_iff hroutes, Option.isSome_iff_exists]
    constructor
    · rintro ⟨route, hroute, hmethod, found, hfound⟩
      exact ⟨found, route, hroute, hmethod, hfound⟩
    · rintro ⟨found, route, hroute, hmethod, hfound⟩
      exact ⟨route, hroute, hmethod, found, hfound⟩
  rw [hset] at hfinds
  obtain ⟨hindex, hnone, hsome⟩ := routeFound_eq hfinds request
  have hresult : findRoute engine routes (buildDispatchIndex routes) request =
      routeFound request (locateRoute engine
        (bucketFor (buildDispatchIndex routes) (lower request.method))
        (secondaryBucket (buildDispatchIndex routes) (lower request.method)) request.path
        routes) := rfl
  rw [← hresult] at hindex hnone hsome
  dsimp only
  refine ⟨?_, ?_, ?_, ?_⟩
  · rw [hindex]
    exact hfinds.index
  · rw [hindex, hfinds.index.none_iff, Set.eq_empty_iff_forall_notMem]
    constructor
    · intro h i found hserves
      exact h i ⟨found, hserves⟩
    · rintro h i ⟨found, hserves⟩
      exact h i found hserves
  · intro i found hi hserves
    obtain ⟨route, hroute, -, hfound⟩ := (serves_iff hroutes _ _ _).mp hserves
    apply hsome i found (hindex ▸ hi)
    rw [capturedAt, hroute, Option.bind_some, hfound]
  · intro hi
    exact hnone (hindex ▸ hi)

/-- A regular expression engine that accepts no expression. -/
def noRegex : RegexEngine where
  accepts _ := false
  regexMatch _ _ := none

/-- The routes of a server with a parameter route in front of a literal one. -/
def itemRoutes : List Route :=
  [{ method := bytes "get"
     pattern := {
       names := [bytes "id"]
       segments := [.literal (bytes "/items/"), .parameter (bytes "id")]
       linear := true } },
   { method := bytes "head", pattern := { literalOnly := true, literal := bytes "/items/new" } }]

/-- The first match of a `HEAD` request that both routes serve. -/
theorem findRoute_first_match_of_items :
    IsLeast {i | ∃ found, Serves noRegex
        [(bytes "GET", bytes "/items/{id}"), (bytes "Head", bytes "/items/new")]
        { method := bytes "HEAD", path := bytes "/items/new" } i found} 0 :=
  ((@findRoute_first_match noRegex _ itemRoutes (by decide +kernel)
    { method := bytes "HEAD", path := bytes "/items/new" } (by decide +kernel)).1 0).mp
    (by decide +kernel)

/-- The shortcut of `find_stream_route` makes no difference. -/
lemma findStreamRoute_eq (engine : RegexEngine) (streamRoutes : List Route)
    (map : MethodRoutesMap) (request : RoutedRequest) :
    findStreamRoute engine streamRoutes map request =
      routeFound request (locateRoute engine (bucketFor map (lower request.method)) none
        request.path streamRoutes) := by
  unfold findStreamRoute
  by_cases hkeys : map.keys.isEmpty = true
  · have hbucket : bucketFor map (lower request.method) = none := by
      unfold bucketFor
      by_cases hmethod : (lower request.method).isEmpty = true
      · rw [if_pos hmethod]
      · rw [if_neg hmethod, AList.lookup_eq_none, AList.mem_keys, List.isEmpty_iff.mp hkeys]
        exact List.not_mem_nil
    rw [if_pos hkeys, hbucket]
    rfl
  · rw [if_neg hkeys]

/-- Stream routes are dispatched by the first match as well.  `HEAD` has no second bucket there, so
it does not fall back on a route of `GET`. -/
theorem findStreamRoute_first_match (engine : RegexEngine) (streamRoutes : List Route)
    (request : RoutedRequest) (hmethod : request.method ≠ []) :
    FirstOf (findStreamRoute engine streamRoutes (buildDispatchIndex streamRoutes) request).1
      (eligible engine streamRoutes request.path (· == lower request.method)) := by
  have hkey : lower request.method ≠ [] := by
    rw [lower, ne_eq, List.map_eq_nil_iff]
    exact hmethod
  have hfinds := locateRoute_findsFirst engine (covers_primary streamRoutes request.path hkey)
    (covers_none streamRoutes request.path (p := fun _ => false) fun _ => rfl)
  simp only [Bool.or_false] at hfinds
  rw [findStreamRoute_eq, (routeFound_eq hfinds request).1]
  exact hfinds.index

/-- The loop of `find_ws_route` scans its routes. -/
lemma findWsRouteFrom_findsFirst (engine : RegexEngine) (path : Bytes) (table : List Route) :
    ∀ (before routes : List Route) (captures : PatternCaptures), before ++ routes = table →
      FindsFirst engine table path
        {i | before.length ≤ i ∧ (capturedAt engine table path i).isSome}
        (findWsRouteFrom engine path routes before.length ∅ captures)
  | before, [], captures, h => by
    have hempty : {i | before.length ≤ i ∧ (capturedAt engine table path i).isSome} = ∅ := by
      rw [Set.eq_empty_iff_forall_notMem]
      rintro i ⟨hi, hsome⟩
      rw [List.append_nil] at h
      subst h
      rw [capturedAt, List.getElem?_eq_none hi] at hsome
      cases hsome
    rw [hempty]
    exact ⟨FirstOf.empty, fun i found hi => by cases hi⟩
  | before, route :: routes, captures, h => by
    have hroute : capturedAt engine table path before.length =
        Chhttp.captures engine route.pattern path := by
      rw [capturedAt, ← h, List.getElem?_append_right le_rfl, Nat.sub_self,
        List.getElem?_cons_zero, Option.bind_some]
    obtain ⟨left, hmatch⟩ := matchPattern_eq engine route.pattern path ∅ captures
    rw [findWsRouteFrom, hmatch]
    cases hfound : Chhttp.captures engine route.pattern path with
    | none =>
      have ih := findWsRouteFrom_findsFirst engine path table (before ++ [route]) routes left
        (by rw [List.append_assoc, List.singleton_append, h])
      rw [List.length_append, List.length_singleton] at ih
      refine ⟨ih.index.of_subset ?_ ?_, ih.parameters⟩
      · rintro i ⟨hi, hsome⟩
        exact ⟨by omega, hsome⟩
      · rintro i ⟨hi, hsome⟩
        refine ⟨i, ⟨?_, hsome⟩, le_rfl⟩
        rcases Nat.eq_or_lt_of_le hi with rfl | hlt
        · rw [hroute, hfound] at hsome
          cases hsome
        · exact hlt
    | some found =>
      rw [hfound] at hroute
      refine ⟨FirstOf.of_isLeast ⟨⟨le_rfl, by rw [hroute]; rfl⟩, fun i hi => hi.1⟩, ?_⟩
      intro i found' hi hfound'
      cases hi
      rw [hroute] at hfound'
      cases hfound'
      rfl

/-- WebSocket routes are dispatched by the first match.  They are searched one after another,
without an index, and the method of a route plays no part. -/
theorem findWsRoute_first_match (engine : RegexEngine) (websocketRoutes : List Route)
    (request : RoutedRequest) :
    FirstOf (findWsRoute engine websocketRoutes request).1
      {i | (capturedAt engine websocketRoutes request.path i).isSome} := by
  have hfinds := findWsRouteFrom_findsFirst engine request.path websocketRoutes [] websocketRoutes
    [] rfl
  simp only [List.length_nil, Nat.zero_le, true_and] at hfinds
  rw [findWsRoute, (routeFound_eq hfinds request).1]
  exact hfinds.index

end Chhttp
