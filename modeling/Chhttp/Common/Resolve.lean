import Chhttp.Common.Url

/-!
# Relative references

`resolve_url` against sections 5.2.2 to 5.2.4 of RFC 3986.  A path that starts with a slash is seen
as its segments, and `removeDots` processes them with a stack.  The loop of `remove_dot_segments`
rewrites its input in place; on the segments it does the same (`dotLoop_joinSegments`).

On other paths the first segment stands apart.  What the loop returns is always `Dotless`, and a
dotless path is returned as it is.
-/

namespace Chhttp

open ListSearch

/-! ### Segments -/

/-- The path of some segments, a slash before each. -/
def joinSegments (segments : List Bytes) : Bytes := segments.flatMap (slash :: ·)

/-- The segments of a path that starts with a slash.  A path that ends in a slash has an empty last
segment, so that the slash is not lost. -/
def pathSegments (path : Bytes) : List Bytes := path.tail.splitOn slash

/-- Segments contain no slash. -/
def Plain (segments : List Bytes) : Prop := ∀ s ∈ segments, slash ∉ s

/-- The segments `.` and `..`. -/
def IsDot (s : Bytes) : Prop := s = bytes "." ∨ s = bytes ".."

instance (s : Bytes) : Decidable (IsDot s) := inferInstanceAs (Decidable (_ ∨ _))

/-- No segments, no path. -/
@[simp] lemma joinSegments_nil : joinSegments [] = [] := rfl

/-- A segment stands behind a slash. -/
lemma joinSegments_cons (s : Bytes) (rest : List Bytes) :
    joinSegments (s :: rest) = slash :: (s ++ joinSegments rest) := by
  simp [joinSegments]

/-- Segments behind segments. -/
lemma joinSegments_append (u v : List Bytes) :
    joinSegments (u ++ v) = joinSegments u ++ joinSegments v := List.flatMap_append

/-- Segments without a slash before the first one. -/
lemma joinSegments_eq_intercalate (s : Bytes) (rest : List Bytes) :
    joinSegments (s :: rest) = slash :: [slash].intercalate (s :: rest) := by
  induction rest generalizing s with
  | nil => simp [joinSegments]
  | cons r rest ih => simp [joinSegments_cons s, ih, List.intercalate_cons_cons]

/-- A path is made of the segments it was joined from. -/
lemma pathSegments_joinSegments {segments : List Bytes} (hne : segments ≠ [])
    (h : Plain segments) : pathSegments (joinSegments segments) = segments := by
  obtain ⟨s, rest, rfl⟩ := List.exists_cons_of_ne_nil hne
  rw [pathSegments, joinSegments_eq_intercalate, List.tail_cons]
  exact List.splitOn_intercalate slash h hne

/-- Every path that starts with a slash has segments. -/
lemma exists_segments {path : Bytes} (h : path.head? = some slash) :
    ∃ segments, segments ≠ [] ∧ Plain segments ∧ path = joinSegments segments := by
  obtain ⟨tail, rfl⟩ := List.head?_eq_some_iff.mp h
  clear h
  induction tail with
  | nil => exact ⟨[[]], by simp, by simp [Plain], rfl⟩
  | cons c tail ih =>
    obtain ⟨segments, hne, hplain, htail⟩ := ih
    by_cases hc : c = slash
    · subst hc
      refine ⟨[] :: segments, by simp, ?_, ?_⟩
      · exact List.forall_mem_cons.mpr ⟨List.not_mem_nil, hplain⟩
      · rw [joinSegments_cons, ← htail]
        rfl
    · obtain ⟨s, rest, rfl⟩ := List.exists_cons_of_ne_nil hne
      obtain ⟨hs, hrest⟩ := List.forall_mem_cons.mp hplain
      rw [joinSegments_cons, List.cons.injEq] at htail
      refine ⟨(c :: s) :: rest, by simp, ?_, ?_⟩
      · refine List.forall_mem_cons.mpr ⟨?_, hrest⟩
        rw [List.mem_cons, not_or]
        exact ⟨fun heq => hc heq.symm, hs⟩
      · rw [joinSegments_cons, htail.2]
        rfl

/-- The first slash ends the first segment. -/
lemma append_joinSegments_inj {u v : Bytes} (hu : slash ∉ u) (hv : slash ∉ v)
    {tail : Bytes} {rest : List Bytes} (h : u ++ slash :: tail = v ++ joinSegments rest) :
    u = v ∧ slash :: tail = joinSegments rest := by
  cases rest with
  | nil =>
    rw [joinSegments_nil, List.append_nil] at h
    subst h
    simp at hv
  | cons r rest =>
    rw [joinSegments_cons] at h ⊢
    have hlen : u.length = v.length := by
      have hfind := congrArg (find [slash]) h
      rwa [find_singleton_append hu, find_singleton_append hv, Option.some.injEq] at hfind
    exact List.append_inj h hlen

/-! ### `remove_dot_segments` on segments -/

/-- Section 5.2.4: the segments that are kept.  A dot segment at the end leaves an empty segment. -/
def removeDots : List Bytes → List Bytes → List Bytes
  | kept, [] => kept
  | kept, s :: rest =>
    if s = bytes "." then
      if rest.isEmpty then kept ++ [[]] else removeDots kept rest
    else if s = bytes ".." then
      if rest.isEmpty then kept.dropLast ++ [[]] else removeDots kept.dropLast rest
    else removeDots (kept ++ [s]) rest

/-- The loop of `remove_dot_segments`. -/
def dotLoop (s : Bytes × Bytes) : Bytes :=
  Loop.run removeDotStep (fun s => s.1.length) removeDotStep_decreases s

/-- One iteration of the loop. -/
lemma dotLoop_of_again {s s' : Bytes × Bytes} (h : removeDotStep s = .again s') :
    dotLoop s = dotLoop s' := Loop.run_of_again removeDotStep_decreases h

/-- The loop ends with its input. -/
lemma dotLoop_nil (output : Bytes) : dotLoop ([], output) = output :=
  Loop.run_of_leave removeDotStep_decreases rfl

/-- A pattern of a segment and a slash. -/
lemma isPrefixOf_joinSegments {w s : Bytes} (hw : slash ∉ w) (hs : slash ∉ s) (rest : List Bytes) :
    (slash :: (w ++ [slash])).isPrefixOf (joinSegments (s :: rest)) = true ↔
      s = w ∧ rest ≠ [] := by
  rw [joinSegments_cons, List.isPrefixOf_iff_prefix, List.cons_prefix_cons]
  constructor
  · rintro ⟨-, tail, htail⟩
    rw [List.append_assoc, List.singleton_append] at htail
    obtain ⟨rfl, hrest⟩ := append_joinSegments_inj hw hs htail
    refine ⟨rfl, ?_⟩
    rintro rfl
    cases hrest
  · rintro ⟨rfl, hne⟩
    obtain ⟨r, rest, rfl⟩ := List.exists_cons_of_ne_nil hne
    refine ⟨rfl, r ++ joinSegments rest, ?_⟩
    rw [joinSegments_cons, List.append_assoc, List.singleton_append]

/-- A pattern of a segment at the end. -/
lemma joinSegments_eq_iff {w s : Bytes} (hw : slash ∉ w) (rest : List Bytes) :
    joinSegments (s :: rest) = slash :: w ↔ s = w ∧ rest = [] := by
  rw [joinSegments_cons, List.cons.injEq]
  constructor
  · rintro ⟨-, htail⟩
    cases rest with
    | nil => exact ⟨by simpa using htail, rfl⟩
    | cons r rest =>
      rw [joinSegments_cons] at htail
      subst htail
      simp at hw
  · rintro ⟨rfl, rfl⟩
    simp

/-- What is left to process behind a dot segment. -/
def behindDot (rest : List Bytes) : Bytes := if rest.isEmpty then [slash] else joinSegments rest

/-- Behind the slash in front the first segment is found. -/
lemma segment_count {s : Bytes} (hs : slash ∉ s) (rest : List Bytes) :
    (findFrom [slash] (joinSegments (s :: rest)) 1).getD (joinSegments (s :: rest)).length =
      s.length + 1 := by
  have hdrop : (joinSegments (s :: rest)).drop 1 = s ++ joinSegments rest := by
    rw [joinSegments_cons]
    rfl
  cases rest with
  | nil =>
    rw [findFrom, hdrop, joinSegments_nil, List.append_nil, (find_singleton_eq_none).mpr hs,
      joinSegments_cons]
    simp
  | cons r rest =>
    rw [findFrom, hdrop, joinSegments_cons r, find_singleton_append hs]
    rfl

/-- The branches of an iteration on a path that starts with a slash. -/
lemma removeDotStep_slash (tail output : Bytes) :
    removeDotStep (slash :: tail, output) =
      if (bytes "/./").isPrefixOf (slash :: tail) then .again (tail.drop 1, output)
      else if slash :: tail = bytes "/." then .again ([slash], output)
      else if (bytes "/../").isPrefixOf (slash :: tail) then .again (tail.drop 2, popSegment output)
      else if slash :: tail = bytes "/.." then .again ([slash], popSegment output)
      else .again
        ((slash :: tail).drop ((findFrom [slash] (slash :: tail) 1).getD (slash :: tail).length),
          output ++ (slash :: tail).take
            ((findFrom [slash] (slash :: tail) 1).getD (slash :: tail).length)) := by
  have hparent : (bytes "../").isPrefixOf (slash :: tail) = false := rfl
  have hhere : (bytes "./").isPrefixOf (slash :: tail) = false := rfl
  have hdots : ¬(slash :: tail = bytes "." ∨ slash :: tail = bytes "..") := by
    rintro (h | h) <;> exact absurd (List.cons.inj h).1 (by decide)
  simp only [removeDotStep, hparent, hhere, if_neg hdots, List.isEmpty_cons, Bool.false_eq_true,
    if_false, List.head?_cons, if_true, List.drop_succ_cons]
  rfl

/-- One iteration on a path of segments. -/
lemma removeDotStep_joinSegments {s : Bytes} (hs : slash ∉ s) (rest : List Bytes)
    (output : Bytes) :
    removeDotStep (joinSegments (s :: rest), output) =
      .again (if s = bytes "." then (behindDot rest, output)
        else if s = bytes ".." then (behindDot rest, popSegment output)
        else (joinSegments rest, output ++ slash :: s)) := by
  have hprefixOne := @isPrefixOf_joinSegments (bytes ".") s (by decide) hs rest
  have hprefixTwo := @isPrefixOf_joinSegments (bytes "..") s (by decide) hs rest
  have hequalOne := @joinSegments_eq_iff (bytes ".") s (by decide) rest
  have hequalTwo := @joinSegments_eq_iff (bytes "..") s (by decide) rest
  have hcount := segment_count hs rest
  change (bytes "/./").isPrefixOf _ = true ↔ _ at hprefixOne
  change (bytes "/../").isPrefixOf _ = true ↔ _ at hprefixTwo
  change _ = bytes "/." ↔ _ at hequalOne
  change _ = bytes "/.." ↔ _ at hequalTwo
  rw [joinSegments_cons] at hprefixOne hprefixTwo hequalOne hequalTwo hcount ⊢
  rw [removeDotStep_slash]
  simp only [hprefixOne, hprefixTwo, hequalOne, hequalTwo, hcount]
  by_cases hone : s = bytes "."
  · subst hone
    cases rest <;> rfl
  · by_cases htwo : s = bytes ".."
    · subst htwo
      cases rest <;> rfl
    · simp only [hone, htwo, false_and, if_false, List.drop_succ_cons, List.take_succ_cons,
        List.drop_left, List.take_left]

/-- The last segment of the output is dropped. -/
lemma popSegment_joinSegments {kept : List Bytes} (h : Plain kept) :
    popSegment (joinSegments kept) = joinSegments kept.dropLast := by
  induction kept using List.reverseRecOn with
  | nil => rfl
  | append_singleton kept s ih =>
    have hs : slash ∉ s := h s (by simp)
    rw [List.dropLast_concat, joinSegments_append, joinSegments_cons, joinSegments_nil,
      List.append_nil, popSegment, findLast_append hs]
    exact List.take_left

/-- Plain segments stay so without the last one. -/
lemma Plain.dropLast {segments : List Bytes} (h : Plain segments) : Plain segments.dropLast :=
  fun s hs => h s (List.mem_of_mem_dropLast hs)

/-- `remove_dot_segments` does on the segments what `removeDots` does. -/
lemma dotLoop_joinSegments {segments : List Bytes} (h : Plain segments) {kept : List Bytes}
    (hkept : Plain kept) :
    dotLoop (joinSegments segments, joinSegments kept) = joinSegments (removeDots kept segments) := by
  have hlast : ∀ output, dotLoop ([slash], output) = output ++ [slash] := by
    intro output
    have hstep := removeDotStep_joinSegments (s := []) List.not_mem_nil [] output
    exact (dotLoop_of_again hstep).trans (dotLoop_nil _)
  induction segments generalizing kept with
  | nil => exact dotLoop_nil _
  | cons s rest ih =>
    obtain ⟨hs, hrest⟩ := List.forall_mem_cons.mp h
    rw [dotLoop_of_again (removeDotStep_joinSegments hs rest _), removeDots]
    split_ifs with hone hempty htwo hempty
    · rw [behindDot, if_pos hempty, hlast, joinSegments_append]
      rfl
    · rw [behindDot, if_neg hempty]
      exact ih hrest hkept
    · rw [behindDot, if_pos hempty, hlast, popSegment_joinSegments hkept, joinSegments_append]
      rfl
    · rw [behindDot, if_neg hempty, popSegment_joinSegments hkept]
      exact ih hrest hkept.dropLast
    · have happend : joinSegments kept ++ slash :: s = joinSegments (kept ++ [s]) := by
        rw [joinSegments_append, joinSegments_cons, joinSegments_nil, List.append_nil]
      rw [happend]
      apply ih hrest
      exact List.forall_mem_append.mpr ⟨hkept, by simpa using hs⟩

/-! ### Dotless paths -/

/-- Segments that are no dot segments. -/
def DotFree (segments : List Bytes) : Prop := ∀ s ∈ segments, slash ∉ s ∧ ¬IsDot s

/-- A path without dot segments; its first segment may stand without a slash before it. -/
def Dotless (path : Bytes) : Prop :=
  ∃ first segments, path = first ++ joinSegments segments ∧ slash ∉ first ∧ ¬IsDot first ∧
    DotFree segments

/-- The empty segment is no dot segment. -/
lemma not_isDot_nil : ¬IsDot [] := by
  rintro (h | h) <;> exact absurd h (by decide)

/-- Such segments are plain. -/
lemma DotFree.plain {segments : List Bytes} (h : DotFree segments) : Plain segments :=
  fun s hs => (h s hs).1

/-- One more segment that is no dot segment. -/
lemma DotFree.concat {segments : List Bytes} (h : DotFree segments) {s : Bytes} (hs : slash ∉ s)
    (hdot : ¬IsDot s) : DotFree (segments ++ [s]) :=
  List.forall_mem_append.mpr ⟨h, by simpa using ⟨hs, hdot⟩⟩

/-- One segment less. -/
lemma DotFree.dropLast {segments : List Bytes} (h : DotFree segments) :
    DotFree segments.dropLast :=
  fun s hs => h s (List.mem_of_mem_dropLast hs)

/-- The segments that are kept are no dot segments. -/
lemma removeDots_dotFree {segments : List Bytes} (h : Plain segments) {kept : List Bytes}
    (hkept : DotFree kept) : DotFree (removeDots kept segments) := by
  induction segments generalizing kept with
  | nil => exact hkept
  | cons s rest ih =>
    obtain ⟨hs, hrest⟩ := List.forall_mem_cons.mp h
    rw [removeDots]
    split_ifs with hone hempty htwo hempty
    · exact hkept.concat List.not_mem_nil not_isDot_nil
    · exact ih hrest hkept
    · exact hkept.dropLast.concat List.not_mem_nil not_isDot_nil
    · exact ih hrest hkept.dropLast
    · apply ih hrest (hkept.concat hs _)
      rintro (hdot | hdot)
      · exact hone hdot
      · exact htwo hdot

/-- Something is kept. -/
lemma removeDots_ne_nil {segments kept : List Bytes} (h : segments ≠ [] ∨ kept ≠ []) :
    removeDots kept segments ≠ [] := by
  have hconcat : ∀ (kept : List Bytes) (s : Bytes), kept ++ [s] ≠ [] := by simp
  induction segments generalizing kept with
  | nil => exact h.resolve_left fun hne => hne rfl
  | cons s rest ih =>
    rw [removeDots]
    split_ifs with hone hempty htwo hempty
    · exact hconcat _ _
    · exact ih (.inl fun hnil => hempty (List.isEmpty_iff.mpr hnil))
    · exact hconcat _ _
    · exact ih (.inl fun hnil => hempty (List.isEmpty_iff.mpr hnil))
    · exact ih (.inr (hconcat _ _))

/-- Segments that are no dot segments go to the output as they are. -/
lemma dotLoop_dotFree {segments : List Bytes} (h : DotFree segments) (output : Bytes) :
    dotLoop (joinSegments segments, output) = output ++ joinSegments segments := by
  induction segments generalizing output with
  | nil => rw [joinSegments_nil, dotLoop_nil, List.append_nil]
  | cons s rest ih =>
    obtain ⟨⟨hs, hdot⟩, hrest⟩ := List.forall_mem_cons.mp h
    rw [IsDot, not_or] at hdot
    rw [dotLoop_of_again (removeDotStep_joinSegments hs rest output), if_neg hdot.1,
      if_neg hdot.2, ih hrest, joinSegments_cons, List.append_assoc, List.cons_append]

/-- A path up to its first slash, and from there on. -/
lemma exists_first (path : Bytes) :
    ∃ first segments, path = first ++ joinSegments segments ∧ slash ∉ first ∧ Plain segments := by
  by_cases h : slash ∈ path
  · obtain ⟨first, tail, rfl, hs⟩ := List.eq_append_cons_of_mem h
    obtain ⟨segments, -, hplain, htail⟩ := @exists_segments (slash :: tail) rfl
    exact ⟨first, segments, by rw [htail], hs, hplain⟩
  · exact ⟨path, [], by rw [joinSegments_nil, List.append_nil], h,
      fun s hs => absurd hs List.not_mem_nil⟩

/-- The branches of an iteration on a path that starts otherwise. -/
lemma removeDotStep_of_ne {path output : Bytes} (hne : path ≠ [])
    (hhead : path.head? ≠ some slash) :
    removeDotStep (path, output) =
      if (bytes "../").isPrefixOf path then .again (path.drop 3, output)
      else if (bytes "./").isPrefixOf path then .again (path.drop 2, output)
      else if path = bytes "." ∨ path = bytes ".." then .again ([], output)
      else .again (path.drop ((findFrom [slash] path 0).getD path.length),
        output ++ path.take ((findFrom [slash] path 0).getD path.length)) := by
  obtain ⟨c, tail, rfl⟩ := List.exists_cons_of_ne_nil hne
  have hc : slash ≠ c := fun heq => hhead (congrArg some heq.symm)
  have hstarts : ∀ w : Bytes, (slash :: w).isPrefixOf (c :: tail) = false := by
    intro w
    rw [List.isPrefixOf, beq_eq_false_iff_ne.mpr hc, Bool.false_and]
  have hequal : ∀ w : Bytes, c :: tail ≠ slash :: w := by
    intro w heq
    exact hc (List.cons.inj heq).1.symm
  have hone : (bytes "/./").isPrefixOf (c :: tail) = false := hstarts _
  have htwo : (bytes "/../").isPrefixOf (c :: tail) = false := hstarts _
  have hlastOne : c :: tail ≠ bytes "/." := hequal _
  have hlastTwo : c :: tail ≠ bytes "/.." := hequal _
  simp only [removeDotStep, hone, htwo, hlastOne, hlastTwo, List.isEmpty_cons, Bool.false_eq_true,
    if_false, if_neg hhead]

/-- One iteration on a path that starts otherwise. -/
lemma removeDotStep_first {first : Bytes} (hne : first ≠ []) (hs : slash ∉ first)
    (rest : List Bytes) (output : Bytes) :
    removeDotStep (first ++ joinSegments rest, output) =
      .again (if IsDot first then ((joinSegments rest).drop 1, output)
        else (joinSegments rest, output ++ first)) := by
  by_cases hdot : IsDot first
  · rw [if_pos hdot]
    rcases hdot with rfl | rfl
    all_goals
      cases rest with
      | nil => rfl
      | cons r rest =>
        rw [joinSegments_cons]
        rfl
  · rw [if_neg hdot]
    rw [IsDot, not_or] at hdot
    -- a pattern with a slash in it takes the first segment whole
    have hstarts : ∀ w : Bytes, slash ∉ w → first ≠ w →
        (w ++ [slash]).isPrefixOf (first ++ joinSegments rest) = false := by
      intro w hw hfirst
      rw [← Bool.not_eq_true, List.isPrefixOf_iff_prefix]
      rintro ⟨tail, htail⟩
      rw [List.append_assoc, List.singleton_append] at htail
      exact hfirst (append_joinSegments_inj hw hs htail).1.symm
    have hequal : ∀ w : Bytes, slash ∉ w → first ≠ w → first ++ joinSegments rest ≠ w := by
      intro w hw hfirst heq
      cases rest with
      | nil => exact hfirst (by rwa [joinSegments_nil, List.append_nil] at heq)
      | cons r rest =>
        rw [joinSegments_cons] at heq
        apply hw
        rw [← heq]
        simp
    have hparent := hstarts (bytes "..") (by decide) hdot.2
    have hhere := hstarts (bytes ".") (by decide) hdot.1
    have hdots : ¬(first ++ joinSegments rest = bytes "." ∨ first ++ joinSegments rest = bytes "..") :=
      not_or.mpr ⟨hequal _ (by decide) hdot.1, hequal _ (by decide) hdot.2⟩
    have hcount : (findFrom [slash] (first ++ joinSegments rest) 0).getD
        (first ++ joinSegments rest).length = first.length := by
      rw [findFrom_zero]
      cases rest with
      | nil => rw [joinSegments_nil, List.append_nil, (find_singleton_eq_none).mpr hs, Option.getD_none]
      | cons r rest => rw [joinSegments_cons, find_singleton_append hs, Option.getD_some]
    have hdrop : (first ++ joinSegments rest).drop first.length = joinSegments rest := List.drop_left
    have htake : (first ++ joinSegments rest).take first.length = first := List.take_left
    change (bytes "../").isPrefixOf _ = false at hparent
    change (bytes "./").isPrefixOf _ = false at hhere
    have hhead : (first ++ joinSegments rest).head? ≠ some slash := by
      obtain ⟨c, tail, rfl⟩ := List.exists_cons_of_ne_nil hne
      intro hslash
      cases hslash
      exact hs List.mem_cons_self
    have hnonempty : first ++ joinSegments rest ≠ [] := by simp [hne]
    rw [removeDotStep_of_ne hnonempty hhead, hparent, hhere, if_neg Bool.false_ne_true,
      if_neg Bool.false_ne_true, if_neg hdots, hcount, hdrop, htake]

/-- A dotless path is returned as it is. -/
lemma removeDotSegments_of_dotless {path : Bytes} (h : Dotless path) :
    removeDotSegments path = path := by
  obtain ⟨first, segments, rfl, hs, hdot, hfree⟩ := h
  change dotLoop (_, []) = _
  by_cases hne : first = []
  · subst hne
    exact dotLoop_dotFree hfree []
  · rw [dotLoop_of_again (removeDotStep_first hne hs segments []), if_neg hdot,
      dotLoop_dotFree hfree]
    rfl

/-- The empty path has no dot segment. -/
lemma dotless_nil : Dotless [] :=
  ⟨[], [], rfl, List.not_mem_nil, not_isDot_nil, fun _ hs => absurd hs List.not_mem_nil⟩

/-- A segment more. -/
lemma Dotless.append {output s : Bytes} (h : Dotless output) (hs : slash ∉ s) (hdot : ¬IsDot s) :
    Dotless (output ++ slash :: s) := by
  obtain ⟨first, kept, rfl, hfirst, hfirstDot, hfree⟩ := h
  refine ⟨first, kept ++ [s], ?_, hfirst, hfirstDot, hfree.concat hs hdot⟩
  rw [joinSegments_append, joinSegments_cons, joinSegments_nil, List.append_nil, List.append_assoc]

/-- A segment less. -/
lemma Dotless.popSegment {output : Bytes} (h : Dotless output) : Dotless (popSegment output) := by
  obtain ⟨first, kept, rfl, hfirst, hfirstDot, hfree⟩ := h
  rcases List.eq_nil_or_concat kept with rfl | ⟨kept, s, rfl⟩
  · rw [joinSegments_nil, List.append_nil, Chhttp.popSegment, (findLast_eq_none).mpr hfirst]
    exact dotless_nil
  · have hs : slash ∉ s := (hfree s (by simp)).1
    refine ⟨first, kept, ?_, hfirst, hfirstDot, fun r hr => hfree r (by simp [hr])⟩
    rw [List.concat_eq_append, joinSegments_append, joinSegments_cons, joinSegments_nil,
      List.append_nil, ← List.append_assoc, Chhttp.popSegment, findLast_append hs]
    exact List.take_left

/-- Processing segments keeps the output dotless.  Segments that are dots take something away or add
nothing, and the others are added as they are. -/
lemma dotLoop_dotless {segments : List Bytes} (h : Plain segments) {output : Bytes}
    (houtput : Dotless output) : Dotless (dotLoop (joinSegments segments, output)) := by
  have hlast : ∀ {output : Bytes}, Dotless output → Dotless (dotLoop ([slash], output)) := by
    intro output houtput
    have hstep := @removeDotStep_joinSegments [] List.not_mem_nil [] output
    have hloop := (dotLoop_of_again hstep).trans (dotLoop_nil _)
    change dotLoop ([slash], output) = _ at hloop
    rw [hloop]
    exact houtput.append List.not_mem_nil not_isDot_nil
  induction segments generalizing output with
  | nil =>
    rw [joinSegments_nil, dotLoop_nil]
    exact houtput
  | cons s rest ih =>
    obtain ⟨hs, hrest⟩ := List.forall_mem_cons.mp h
    have hbehind : ∀ {output : Bytes}, Dotless output →
        Dotless (dotLoop (behindDot rest, output)) := by
      intro output houtput
      rw [behindDot]
      split_ifs
      · exact hlast houtput
      · exact ih hrest houtput
    rw [dotLoop_of_again (removeDotStep_joinSegments hs rest output)]
    split_ifs with hone htwo
    · exact hbehind houtput
    · exact hbehind houtput.popSegment
    · apply ih hrest (houtput.append hs _)
      rintro (hdot | hdot)
      · exact hone hdot
      · exact htwo hdot

/-- Whatever the path, the result is dotless. -/
lemma dotless_removeDotSegments (path : Bytes) : Dotless (removeDotSegments path) := by
  obtain ⟨first, segments, rfl, hs, hplain⟩ := exists_first path
  change Dotless (dotLoop (_, []))
  induction segments generalizing first with
  | nil =>
    by_cases hne : first = []
    · subst hne
      exact dotLoop_dotless hplain dotless_nil
    · rw [dotLoop_of_again (removeDotStep_first hne hs [] [])]
      split_ifs with hdot
      · exact dotLoop_dotless hplain dotless_nil
      · apply dotLoop_dotless hplain
        refine ⟨first, [], ?_, hs, hdot, fun _ hs => absurd hs List.not_mem_nil⟩
        rw [joinSegments_nil, List.append_nil]
        rfl
  | cons s rest ih =>
    obtain ⟨hplainS, hrest⟩ := List.forall_mem_cons.mp hplain
    by_cases hne : first = []
    · subst hne
      exact dotLoop_dotless hplain dotless_nil
    · rw [dotLoop_of_again (removeDotStep_first hne hs (s :: rest) [])]
      split_ifs with hdot
      · rw [joinSegments_cons]
        exact ih s hplainS hrest
      · apply dotLoop_dotless hplain
        refine ⟨first, [], ?_, hs, hdot, fun _ hs => absurd hs List.not_mem_nil⟩
        rw [joinSegments_nil, List.append_nil]
        rfl

/-! ### Sections 5.2.2 and 5.2.3 -/

/-- Section 5.2.4 for a path that starts with a slash. -/
def removeDotsPath (path : Bytes) : Bytes := joinSegments (removeDots [] (pathSegments path))

/-- The path and the query of a reference or of a request target.  An empty query and no query are
different: the first is printed with its question mark. -/
structure PathQuery where
  path : Bytes
  query : Option Bytes

namespace PathQuery

/-- The parts of a text that has no fragment. -/
def parse (text : Bytes) : PathQuery where
  path := text.takeWhile (· != 0x3f)
  query :=
    match text.dropWhile (· != 0x3f) with
    | [] => none
    | _ :: query => some query

/-- The text of the parts. -/
def recompose (r : PathQuery) : Bytes :=
  r.path ++ match r.query with
    | none => []
    | some query => 0x3f :: query

/-- Section 5.2.3: the reference replaces what is behind the last slash of the base path. -/
def merge (base reference : Bytes) : Bytes :=
  if base.isEmpty then slash :: reference else base.rdropWhile (· != slash) ++ reference

/-- Section 5.2.2 for a reference without scheme and authority. -/
def transform (base reference : PathQuery) : PathQuery :=
  if reference.path.isEmpty then { path := base.path, query := reference.query <|> base.query }
  else if reference.path.head? = some slash then
    { path := removeDotsPath reference.path, query := reference.query }
  else { path := removeDotsPath (merge base.path reference.path), query := reference.query }

/-- The query with its mark is what the path leaves. -/
lemma recompose_query (path text : Bytes) :
    recompose { path, query := (parse text).query } = path ++ text.dropWhile (· != 0x3f) := by
  have hhead := List.head?_dropWhile_not (· != (0x3f : UInt8)) text
  rw [parse, recompose]
  dsimp only
  generalize text.dropWhile (· != 0x3f) = rest at hhead
  cases rest with
  | nil => rfl
  | cons c query =>
    obtain rfl : c = 0x3f := by simpa using hhead
    rfl

/-- Nothing is lost in the parts. -/
lemma recompose_parse (text : Bytes) : (parse text).recompose = text :=
  (recompose_query _ text).trans List.takeWhile_append_dropWhile

end PathQuery

/-- `remove_dot_segments` on a path that starts with a slash. -/
lemma removeDotSegments_eq {path : Bytes} (h : path.head? = some slash) :
    removeDotSegments path = removeDotsPath path := by
  obtain ⟨segments, hne, hplain, rfl⟩ := exists_segments h
  rw [removeDotsPath, pathSegments_joinSegments hne hplain]
  exact dotLoop_joinSegments hplain fun _ hs => absurd hs List.not_mem_nil

/-- The result on such a path starts with a slash and has no dot segment. -/
lemma removeDotSegments_slash {path : Bytes} (h : path.head? = some slash) :
    (removeDotSegments path).head? = some slash ∧
      ∀ s ∈ pathSegments (removeDotSegments path), ¬IsDot s := by
  obtain ⟨segments, hne, hplain, rfl⟩ := exists_segments h
  have hfree : DotFree (removeDots [] segments) :=
    removeDots_dotFree hplain fun _ hs => absurd hs List.not_mem_nil
  have hkept : removeDots [] segments ≠ [] := removeDots_ne_nil (.inl hne)
  rw [removeDotSegments_eq h, removeDotsPath, pathSegments_joinSegments hne hplain]
  refine ⟨?_, ?_⟩
  · obtain ⟨s, rest, hcons⟩ := List.exists_cons_of_ne_nil hkept
    rw [hcons, joinSegments_cons]
    rfl
  · rw [pathSegments_joinSegments hkept hfree.plain]
    exact fun s hs => (hfree s hs).2

/-- Up to the last slash. -/
lemma take_findLast {path : Bytes} (h : path.head? = some slash) :
    (∃ n, findLast slash path = some n ∧ path.take (n + 1) = path.rdropWhile (· != slash)) ∧
      (path.rdropWhile (· != slash)).head? = some slash := by
  obtain ⟨segments, hne, hplain, rfl⟩ := exists_segments h
  obtain ⟨front, s, rfl⟩ := (List.eq_nil_or_concat segments).resolve_left hne
  have hs : slash ∉ s := hplain s (by simp)
  have hpath : joinSegments (front.concat s) = joinSegments front ++ slash :: s := by
    rw [List.concat_eq_append, joinSegments_append, joinSegments_cons, joinSegments_nil,
      List.append_nil]
  have hdrop : (joinSegments front ++ slash :: s).rdropWhile (· != slash) =
      joinSegments front ++ [slash] := by
    have hclass : ∀ c ∈ s.reverse, (c != slash) = true := by
      intro c hc
      rw [bne_iff_ne]
      rintro rfl
      exact hs (List.mem_reverse.mp hc)
    rw [List.rdropWhile, List.reverse_append, List.reverse_cons, List.append_assoc,
      List.dropWhile_append_of_pos hclass, List.singleton_append,
      List.dropWhile_cons_of_neg (by simp), List.reverse_cons, List.reverse_reverse]
  rw [hpath, hdrop, findLast_append hs]
  refine ⟨⟨_, rfl, ?_⟩, ?_⟩
  · rw [List.take_append, List.take_of_length_le (Nat.le_succ _)]
    simp
  · cases front with
    | nil => rfl
    | cons r front =>
      rw [joinSegments_cons]
      rfl

/-- A request target starts with a slash. -/
lemma head?_urlTarget {afterAuthority : Bytes}
    (h : ∀ c, afterAuthority.head? = some c → c = slash ∨ c = 0x3f ∨ c = 0x23) :
    (urlTarget afterAuthority).head? = some slash := by
  have htarget : ∀ {target : Bytes}, (∀ c, target.head? = some c → c = slash ∨ c = 0x3f) →
      (if target.isEmpty then bytes "/"
        else if target.head? = some 0x3f then slash :: target else target).head? = some slash := by
    intro target htarget
    cases target with
    | nil => rfl
    | cons c rest =>
      rcases htarget c rfl with rfl | rfl <;> rfl
  apply htarget
  intro c hc
  cases afterAuthority with
  | nil => cases hc
  | cons first rest =>
    rcases h first rfl with rfl | rfl | rfl
    · cases hc
      exact .inl rfl
    · cases hc
      exact .inr rfl
    · cases hc

/-- What follows an authority. -/
lemma head?_afterAuthority (rest : Bytes) :
    ∀ c, (rest.dropWhile fun c => !(c == slash || c == 0x3f || c == 0x23)).head? = some c →
      c = slash ∨ c = 0x3f ∨ c = 0x23 := by
  intro c hc
  have hstart := List.head?_dropWhile_not (fun c => !(c == slash || c == 0x3f || c == 0x23)) rest
  rw [hc] at hstart
  simpa [or_iff_not_imp_left] using hstart

/-- The base of a resolution has a path. -/
lemma head?_target_of_parseAbsoluteUrl {complete : Bytes} {url : ParsedUrl}
    (h : parseAbsoluteUrl complete = .ok url) : url.target.head? = some slash := by
  unfold parseAbsoluteUrl at h
  split_ifs at h
  split at h
  · cases h
  · cases h
  · dsimp only at h
    split_ifs at h
    split at h
    · cases h
    · split_ifs at h
      split at h
      · cases h
      · cases h
        exact head?_urlTarget (head?_afterAuthority _)

/-- A scheme stands before the fragment. -/
lemma hasUrlScheme_append {text fragment : Bytes} (h : hasUrlScheme text = true) :
    hasUrlScheme (text ++ fragment) = true := by
  unfold hasUrlScheme at h ⊢
  cases hfind : find [colon] text with
  | none =>
    rw [hfind] at h
    cases h
  | some n =>
    have hbound := find_add_length_le hfind
    rw [hfind] at h
    rw [find_append_of_some hfind]
    cases n with
    | zero => cases h
    | succ n =>
      have hhead : (text ++ fragment).head? = text.head? := by
        cases text with
        | nil => cases hfind
        | cons => rfl
      have hscheme : ((text ++ fragment).drop 1).take n = (text.drop 1).take n := by
        rw [List.length_singleton] at hbound
        rw [List.drop_append_of_le_length (by omega), List.take_append_of_le_length]
        rw [List.length_drop]
        omega
      dsimp only at h ⊢
      rw [hhead, hscheme]
      exact h

/-- `parse_url` without a base. -/
lemma parse_of_parseUrl {base : Bytes} {url : ParsedUrl} (h : parseUrl base = .ok url) :
    hasUrlScheme base = true ∧ parseAbsoluteUrl base = .ok url := by
  unfold parseUrl at h
  split_ifs at h with hscheme hempty
  · exact ⟨hscheme, h⟩
  · exact absurd rfl hempty

/-- The target that a relative reference resolves to.  This is the algorithm of the standard on its
own terms: parse, transform, recompose. -/
def resolvedTarget (target reference : Bytes) : Bytes :=
  (PathQuery.transform (PathQuery.parse target)
    (PathQuery.parse (reference.takeWhile (· != 0x23)))).recompose

/-- The base path starts with a slash as well. -/
lemma head?_basePath {target : Bytes} (h : target.head? = some slash) :
    (target.takeWhile (· != 0x3f)).head? = some slash := by
  obtain ⟨tail, rfl⟩ := List.head?_eq_some_iff.mp h
  rfl

/-- What is put before the path of a reference. -/
def basePrefix (target reference : Bytes) : Bytes :=
  if reference.head? = some slash then []
  else (target.takeWhile (· != 0x3f)).rdropWhile (· != slash)

/-- What is put before the path has no question mark. -/
lemma not_mem_basePrefix (target reference : Bytes) :
    ∀ c ∈ basePrefix target reference, (c != 0x3f) = true := by
  intro c hc
  unfold basePrefix at hc
  split_ifs at hc
  · cases hc
  · have hmem := (List.rdropWhile_prefix (· != slash) _).subset hc
    exact @List.mem_takeWhile_imp _ (· != 0x3f) target c hmem

/-- The path of a reference that has one, behind its prefix. -/
lemma transform_of_path {target reference : Bytes} (htarget : target.head? = some slash)
    (hne : (PathQuery.parse reference).path ≠ []) :
    PathQuery.transform (PathQuery.parse target) (PathQuery.parse reference) =
        { path := removeDotsPath (basePrefix target reference ++ (PathQuery.parse reference).path)
          query := (PathQuery.parse reference).query } ∧
      (basePrefix target reference ++ (PathQuery.parse reference).path).head? = some slash := by
  have hbase := head?_basePath htarget
  have hhead : (PathQuery.parse reference).path.head? = reference.head? := by
    cases reference with
    | nil => rfl
    | cons c rest =>
      rw [PathQuery.parse] at hne ⊢
      rw [List.takeWhile_cons] at hne ⊢
      split_ifs at hne ⊢
      · rfl
      · exact absurd rfl hne
  have hempty : (PathQuery.parse reference).path.isEmpty = false := by simpa using hne
  rw [PathQuery.transform, hempty, if_neg Bool.false_ne_true, hhead, basePrefix]
  split_ifs with hslash
  · exact ⟨rfl, hhead.trans hslash⟩
  · refine ⟨?_, ?_⟩
    · rw [PathQuery.merge, if_neg]
      · rfl
      · intro hnil
        have hnil : target.takeWhile (· != 0x3f) = [] := List.isEmpty_iff.mp hnil
        rw [hnil] at hbase
        cases hbase
    · rw [List.head?_append, (take_findLast hbase).2]
      rfl

/-- `resolve_url` on a reference without a fragment. -/
lemma resolveUrl_eq {base reference : Bytes} {url : ParsedUrl} (hbase : parseUrl base = .ok url)
    (hscheme : hasUrlScheme reference = false)
    (hauthority : (bytes "//").isPrefixOf reference = false) :
    resolveUrl base reference = .ok (url.origin ++ resolvedTarget url.target reference) ∧
      (resolvedTarget url.target reference).head? = some slash := by
  obtain ⟨hbaseScheme, hparse⟩ := parse_of_parseUrl hbase
  have htarget := head?_target_of_parseAbsoluteUrl hparse
  have hwhole : reference.takeWhile (· != 0x23) ++ reference.dropWhile (· != 0x23) = reference :=
    List.takeWhile_append_dropWhile
  -- cutting off the fragment cannot make a scheme or an authority appear
  have hscheme' : hasUrlScheme (reference.takeWhile (· != 0x23)) = false := by
    rw [← Bool.not_eq_true]
    intro hcut
    have hfull := @hasUrlScheme_append _ (reference.dropWhile (· != 0x23)) hcut
    rw [hwhole, hscheme] at hfull
    cases hfull
  have hauthority' : (bytes "//").isPrefixOf (reference.takeWhile (· != 0x23)) = false := by
    rw [← Bool.not_eq_true, List.isPrefixOf_iff_prefix] at hauthority ⊢
    exact fun hcut => hauthority (hcut.trans (List.takeWhile_prefix _))
  rw [resolveUrl, resolvedTarget]
  generalize reference.takeWhile (· != 0x23) = reference at *
  dsimp only
  rw [hscheme', hbaseScheme, hauthority', if_neg Bool.false_ne_true, if_pos rfl, hparse]
  dsimp only
  rw [if_neg Bool.false_ne_true]
  -- by the forms of the reference: empty, a query alone, or a path
  cases reference with
  | nil =>
    have htransform : PathQuery.transform (PathQuery.parse url.target) (PathQuery.parse []) =
        PathQuery.parse url.target := rfl
    rw [htransform, PathQuery.recompose_parse]
    exact ⟨rfl, htarget⟩
  | cons c rest =>
    rw [List.isEmpty_cons, if_neg Bool.false_ne_true]
    by_cases hquery : c = 0x3f
    · subst hquery
      have htransform : PathQuery.transform (PathQuery.parse url.target)
          (PathQuery.parse (0x3f :: rest)) =
            { path := url.target.takeWhile (· != 0x3f), query := some rest } := rfl
      rw [htransform, if_pos List.head?_cons, List.append_assoc]
      refine ⟨rfl, ?_⟩
      rw [PathQuery.recompose, List.head?_append, head?_basePath htarget]
      rfl
    · have hmark : (c :: rest).head? ≠ some 0x3f := fun h => hquery (Option.some.inj h)
      have hpath : (PathQuery.parse (c :: rest)).path ≠ [] := by
        rw [PathQuery.parse, List.takeWhile_cons_of_pos (by simpa using hquery)]
        exact List.cons_ne_nil _ _
      obtain ⟨htransform, hslash⟩ := transform_of_path htarget hpath
      have hresult := removeDotSegments_slash hslash
      rw [htransform, PathQuery.recompose_query, ← removeDotSegments_eq hslash, if_neg hmark]
      obtain ⟨⟨n, hfind, htake⟩, -⟩ := take_findLast (head?_basePath htarget)
      -- an absolute path stands alone, a relative one behind the base up to its last slash
      have hcombined : (if (c :: rest).head? = some slash then c :: rest
          else (url.target.takeWhile (· != 0x3f)).take (n + 1) ++ c :: rest) =
              basePrefix url.target (c :: rest) ++ c :: rest := by
        rw [htake, basePrefix]
        split_ifs <;> rfl
      have hclass := not_mem_basePrefix url.target (c :: rest)
      rw [hfind]
      dsimp only
      rw [hcombined, List.takeWhile_append_of_pos hclass, List.dropWhile_append_of_pos hclass,
        List.append_assoc]
      refine ⟨rfl, ?_⟩
      rw [List.head?_append, hresult.1]
      rfl

/-- **Relative references.**  They resolve to the origin of the base and the target of section 5.2,
which starts with a slash.  `remove_dot_segments` shortens its input in every iteration, does nothing
the second time, and leaves no dot segments on paths that start with a slash. -/
theorem resolveUrl_rfc3986 :
    (∀ (base reference : Bytes) (url : ParsedUrl), parseUrl base = .ok url →
      hasUrlScheme reference = false → (bytes "//").isPrefixOf reference = false →
      resolveUrl base reference = .ok (url.origin ++ resolvedTarget url.target reference) ∧
        (resolvedTarget url.target reference).head? = some slash) ∧
    Loop.Decreases removeDotStep (fun s => s.1.length) ∧
    (∀ path, removeDotSegments (removeDotSegments path) = removeDotSegments path) ∧
    ∀ path, path.head? = some slash → (removeDotSegments path).head? = some slash ∧
      ∀ s ∈ pathSegments (removeDotSegments path), ¬IsDot s :=
  ⟨fun _ _ _ => resolveUrl_eq, removeDotStep_decreases,
    fun path => removeDotSegments_of_dotless (dotless_removeDotSegments path),
    fun _ => removeDotSegments_slash⟩

/-- A reference with a dot segment in its path and one in its query. -/
theorem resolveUrl_rfc3986_of_parent :
    resolveUrl (bytes "http://a/b/c/d;p?q") (bytes "../g?x/../y#s") =
      .ok (bytes "http://a/b/g?x/../y") := by
  have hbase : parseUrl (bytes "http://a/b/c/d;p?q") =
      .ok { scheme := bytes "http", host := bytes "a", port := 80, secure := false,
            target := bytes "/b/c/d;p?q" } := by decide +kernel
  rw [(resolveUrl_rfc3986.1 _ (bytes "../g?x/../y#s") _ hbase (by decide) (by decide)).1]
  decide +kernel

end Chhttp
