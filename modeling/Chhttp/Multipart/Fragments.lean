import Chhttp.Multipart.Form

/-!
# Multipart bodies that arrive in fragments

`outcome s rest` is what the form means of which `s` has read a part, if `rest` is all that is to
come.  An iteration of the parser does not change it, up to the pieces in which content is delivered
(`parseStep_spec`): what the parser keeps back, where it starts its searches and when it delivers
content are the same for every `rest`.  So the events of all calls are the meaning of all bytes.
-/

namespace Chhttp.Multipart.MultipartParser

/-- The events that are to come, if `rest` is to come.  This is the meaning of a state: what the
bytes in the buffer and those to come amount to, by the grammar of forms. -/
def outcome (s : MultipartParser) (rest : Bytes) : Option (List MultipartEvent) :=
  if s.error.isSome then none
  else
    match s.state with
    | .firstBoundary =>
      (untilDelimiter s.delimiter (crlf ++ (s.buffer ++ rest))).bind fun r =>
        if s.options.maxHeaderSize < r.1.length then none
        else form s.options s.delimiter s.partCount s.totalSize r.2
    | .boundarySuffix => form s.options s.delimiter s.partCount s.totalSize (s.buffer ++ rest)
    | .headers => formHead s.options s.delimiter s.partCount s.totalSize (s.buffer ++ rest)
    | .body =>
      formBody s.options s.delimiter (s.partCount - 1) s.current s.currentSize s.totalSize
        (s.buffer ++ rest)
    | .complete => some []

/-- The events of the call and those to come, with the content of every part in one piece. -/
def allEvents (s : MultipartParser) (rest : Bytes) : Option (List MultipartEvent) :=
  (s.outcome rest).map fun events => joinData (s.events ++ events)

/-- Where a search may start. -/
def Searched (s : MultipartParser) : Prop :=
  match s.state with
  | .firstBoundary => ∀ m < s.searchFrom, ∀ rest,
      delimits s.delimiter ((crlf ++ (s.buffer ++ rest)).drop m) = false
  | .headers => s.searchFrom ≤ s.buffer.length ∧
      ∀ m < s.searchFrom, ∀ rest, ¬crlfCrlf <+: (s.buffer ++ rest).drop m
  | _ => s.searchFrom = 0

/-- What holds of a parser that has not failed.  The delimiter is the marker behind a line break,
the counters are within the limits, and what is searched for does not start before the place where
the next search starts. -/
structure Consistent (s : MultipartParser) : Prop where
  delimiter : s.delimiter = crlf ++ s.firstMarker
  partCount : s.state = .body → 0 < s.partCount
  partLimit : s.currentSize ≤ s.options.maxPartSize
  totalLimit : s.totalSize ≤ s.options.maxTotalSize
  searched : s.Searched

/-- Without more bytes, nothing more can be read.  A parser that is quiet has done all that its
input allows. -/
def Quiet (s : MultipartParser) : Prop := s.state ≠ .complete → s.outcome [] = none

/-- An iteration goes from `s` to `t`.  With any bytes to come, both have the same events to come,
those already there included. -/
structure Continues (s t : MultipartParser) : Prop where
  allEvents : ∀ rest, s.allEvents rest = t.allEvents rest
  consistent : t.error = none → t.Consistent

/-- A parser that has failed has no events to come. -/
lemma allEvents_of_error {s : MultipartParser} (h : s.error.isSome = true) (rest : Bytes) :
    s.allEvents rest = none := by
  rw [allEvents, outcome, if_pos h]
  rfl

/-- Failing is right if nothing can come of it. -/
lemma continues_fail {s t : MultipartParser} (ht : t.error.isSome = true)
    (h : ∀ rest, s.outcome rest = none) : Continues s t := by
  refine ⟨fun rest => ?_, fun hnone => by rw [hnone] at ht; cases ht⟩
  rw [allEvents_of_error ht, allEvents, h rest]
  rfl

/-- An iteration that delivers events. -/
lemma continues_of_events {s t : MultipartParser} {delivered : List MultipartEvent}
    (hevents : t.events = s.events ++ delivered) (ht : t.Consistent)
    (h : ∀ rest, (s.outcome rest).map joinData =
      (t.outcome rest).map fun events => joinData (delivered ++ events)) : Continues s t := by
  refine ⟨fun rest => ?_, fun _ => ht⟩
  have hs : s.allEvents rest = ((s.outcome rest).map joinData).map (s.events.foldr consEvent) := by
    rw [allEvents, Option.map_map]
    exact congrArg (Option.map · _) (funext fun events => joinData_append _ _)
  rw [hs, h rest, Option.map_map, allEvents, hevents]
  refine congrArg (Option.map · _) (funext fun events => ?_)
  rw [List.append_assoc, joinData_append]
  rfl

/-- An iteration that delivers nothing. -/
lemma continues_of_outcome {s t : MultipartParser} (hevents : t.events = s.events)
    (ht : t.Consistent) (h : ∀ rest, s.outcome rest = t.outcome rest) : Continues s t := by
  refine continues_of_events (hevents.trans (List.append_nil _).symm) ht fun rest => ?_
  rw [h rest]
  rfl

/-! ### The preamble -/

/-- A marker at the start of a line. -/
lemma lineStart_of_isPrefix {marker buffer : Bytes} {m : ℕ}
    (h : crlf ++ marker <+: (crlf ++ buffer).drop m) : marker <+: buffer.drop m ∧ LineStart buffer m := by
  match m, h with
  | 0, h =>
    rw [List.drop_zero, List.prefix_append_right_inj] at h
    exact ⟨h, .inl rfl⟩
  | 1, h =>
    obtain ⟨after, hafter⟩ := h
    cases hafter
  | m + 2, h =>
    have hdrop : (crlf ++ buffer).drop (m + 2) = buffer.drop m := rfl
    rw [hdrop] at h
    obtain ⟨after, hafter⟩ := h
    refine ⟨⟨after, ?_⟩, .inr ⟨by omega, ?_⟩⟩
    · rw [← List.drop_drop, ← hafter]
      rfl
    · rw [Nat.add_sub_cancel, ← hafter]
      rfl

/-- A marker at the start of a line, with the CR LF before it. -/
lemma prefix_of_lineStart {marker buffer : Bytes} {m : ℕ} (hmarker : marker <+: buffer.drop m)
    (hline : LineStart buffer m) : crlf ++ marker <+: (crlf ++ buffer).drop m := by
  rcases hline with rfl | ⟨hlarge, hline⟩
  · rw [List.drop_zero] at *
    rwa [List.prefix_append_right_inj]
  · obtain ⟨k, rfl⟩ : ∃ k, m = k + 2 := ⟨m - 2, by omega⟩
    have hdrop : (crlf ++ buffer).drop (k + 2) = buffer.drop k := rfl
    rw [Nat.add_sub_cancel] at hline
    rw [hdrop, ← List.take_append_drop 2 (buffer.drop k), hline, List.prefix_append_right_inj,
      List.drop_drop]
    exact hmarker

/-- A delimiter that fits into the buffer is found. -/
lemma lineStart_of_delimits {s : MultipartParser} (hs : s.Consistent)
    (hstate : s.state = .firstBoundary) {m : ℕ} {rest : Bytes}
    (hfit : m + s.firstMarker.length ≤ s.buffer.length)
    (h : delimits s.delimiter ((crlf ++ (s.buffer ++ rest)).drop m) = true) :
    s.searchFrom ≤ m ∧ s.firstMarker <+: s.buffer.drop m ∧ LineStart s.buffer m := by
  have hsearched := hs.searched
  rw [Searched, hstate] at hsearched
  constructor
  · by_contra hlt
    rw [hsearched m (by omega) rest] at h
    cases h
  · simp only [delimits, Bool.and_eq_true, List.isPrefixOf_iff_prefix, hs.delimiter] at h
    rw [← List.append_assoc] at h
    refine lineStart_of_isPrefix (ListSearch.prefix_drop_of_append ?_ h.1)
    simp only [List.length_append]
    omega

/-- What an iteration leaves behind. -/
def Step (s : MultipartParser) : Loop.Next MultipartParser MultipartParser → Prop
  | .again t => Continues s t ∧ t.error = none
  | .leave t => Continues s t ∧ t.Quiet

/-- An iteration that fails, if nothing can come of it. -/
lemma step_fail {s : MultipartParser} (message : String) (h : ∀ rest, s.outcome rest = none) :
    Step s (.leave (s.fail message)) :=
  ⟨continues_fail rfl h, fun _ => if_pos rfl⟩

/-- The end of an iteration that changes something. -/
lemma step_progress {s t : MultipartParser} (h : Continues s t) (herror : t.error = none)
    (hchanged : ¬(s.buffer.length = t.buffer.length ∧ s.state = t.state)) :
    Step s (progress s t) := by
  rw [progress, if_neg hchanged]
  exact ⟨h, herror⟩

/-- The meaning of a preamble. -/
lemma outcome_firstBoundary {s : MultipartParser} (herror : s.error = none)
    (hstate : s.state = .firstBoundary) (rest : Bytes) :
    s.outcome rest = (untilDelimiter s.delimiter (crlf ++ (s.buffer ++ rest))).bind fun r =>
      if s.options.maxHeaderSize < r.1.length then none
      else form s.options s.delimiter s.partCount s.totalSize r.2 := by
  rw [outcome, herror, hstate]
  rfl

/-- A preamble in which no delimiter starts within the limit. -/
lemma outcome_eq_none_of_preamble {s : MultipartParser} (herror : s.error = none)
    (hstate : s.state = .firstBoundary) {rest : Bytes}
    (h : ∀ m ≤ s.options.maxHeaderSize,
      delimits s.delimiter ((crlf ++ (s.buffer ++ rest)).drop m) = false) :
    s.outcome rest = none := by
  rw [outcome_firstBoundary herror hstate]
  cases hcut : untilDelimiter s.delimiter (crlf ++ (s.buffer ++ rest)) with
  | none => rfl
  | some r =>
    obtain ⟨hr, -, -⟩ := untilDelimiter_eq_some hcut
    refine if_pos ?_
    by_contra hle
    rw [h r.1.length (by omega)] at hr
    cases hr

/-- The search goes on elsewhere. -/
lemma continues_searchFrom {s : MultipartParser} (hs : s.Consistent) (herror : s.error = none)
    (hstate : s.state = .firstBoundary) {searchFrom : ℕ}
    (h : ∀ m < searchFrom, ∀ rest,
      delimits s.delimiter ((crlf ++ (s.buffer ++ rest)).drop m) = false) :
    Continues s { s with searchFrom := searchFrom } := by
  refine continues_of_outcome rfl
    ⟨hs.delimiter, hs.partCount, hs.partLimit, hs.totalLimit, ?_⟩ fun rest => ?_
  · rw [Searched]
    simp only [hstate]
    exact h
  · rw [outcome_firstBoundary herror hstate]
    exact (@outcome_firstBoundary { s with searchFrom := searchFrom } herror hstate rest).symm

/-- Waiting, with the search to go on elsewhere. -/
lemma step_searchFrom {s : MultipartParser} (hs : s.Consistent) (herror : s.error = none)
    (hstate : s.state = .firstBoundary) {searchFrom : ℕ}
    (h : ∀ m < searchFrom, ∀ rest,
      delimits s.delimiter ((crlf ++ (s.buffer ++ rest)).drop m) = false)
    (hquiet : ∀ m, delimits s.delimiter ((crlf ++ (s.buffer ++ [])).drop m) = false) :
    Step s (.leave { s with searchFrom := searchFrom }) :=
  ⟨continues_searchFrom hs herror hstate h, fun _ =>
    @outcome_eq_none_of_preamble { s with searchFrom := searchFrom } herror hstate [] fun m _ =>
      hquiet m⟩

/-- An ending that has arrived. -/
lemma ending_append {buffer : Bytes} {n : ℕ} (h : n + 2 ≤ buffer.length) (rest : Bytes) :
    ((buffer ++ rest).drop n).take 2 = (buffer.drop n).take 2 := by
  rw [List.drop_append_of_le_length (by omega),
    List.take_append_of_le_length (by rw [List.length_drop]; omega)]

/-- The delimiter is the marker of a line with its line break. -/
lemma length_delimiter {s : MultipartParser} (hs : s.Consistent) :
    s.delimiter.length = s.firstMarker.length + 2 := by
  rw [hs.delimiter, List.length_append, Nat.add_comm]
  rfl

/-- The buffer alone has no delimiter, if none starts where it fits in with its ending. -/
lemma quiet_of_not_delimits {s : MultipartParser} (hs : s.Consistent)
    (h : ∀ m, m + s.firstMarker.length + 2 ≤ s.buffer.length →
      delimits s.delimiter ((crlf ++ (s.buffer ++ [])).drop m) = false) (m : ℕ) :
    delimits s.delimiter ((crlf ++ (s.buffer ++ [])).drop m) = false := by
  refine Bool.eq_false_iff.mpr fun hdelimits => ?_
  have hspace := length_of_delimits hdelimits
  have hlength := length_delimiter hs
  have hcrlf : crlf.length = 2 := rfl
  simp only [List.length_drop, List.length_append, List.length_nil, hcrlf] at hspace
  rw [h m (by omega)] at hdelimits
  cases hdelimits

/-- What stands behind the marker of a line. -/
lemma drop_delimiter {s : MultipartParser} (hs : s.Consistent) (rest : Bytes) (m : ℕ) :
    ((crlf ++ (s.buffer ++ rest)).drop m).drop s.delimiter.length =
      (s.buffer ++ rest).drop (m + s.firstMarker.length) := by
  rw [List.drop_drop, length_delimiter hs, ← Nat.add_assoc]
  rfl

/-- A marker at the start of a line delimits as its ending says, once that has arrived. -/
lemma delimits_of_lineStart {s : MultipartParser} (hs : s.Consistent) {m : ℕ}
    (hmarker : s.firstMarker <+: s.buffer.drop m) (hline : LineStart s.buffer m)
    (hfit : m + s.firstMarker.length + 2 ≤ s.buffer.length) (rest : Bytes) :
    delimits s.delimiter ((crlf ++ (s.buffer ++ rest)).drop m) =
      validEnding ((s.buffer.drop (m + s.firstMarker.length)).take 2) := by
  have hoccurs : s.delimiter <+: (crlf ++ (s.buffer ++ rest)).drop m := by
    rw [hs.delimiter, ← List.append_assoc]
    exact ListSearch.prefix_drop_append (by simp; omega) (prefix_of_lineStart hmarker hline)
  rw [delimits, drop_delimiter hs, ending_append (by omega),
    List.isPrefixOf_iff_prefix.mpr hoccurs, Bool.true_and]

/-- An iteration in a preamble. -/
lemma stepFirstBoundary_spec {s : MultipartParser} (hs : s.Consistent) (herror : s.error = none)
    (hstate : s.state = .firstBoundary) : Step s (stepFirstBoundary s) := by
  have hspec := findLineStart_spec s.firstMarker s.buffer s.searchFrom
  unfold stepFirstBoundary
  cases hfind : findLineStart s.firstMarker s.buffer s.searchFrom with
  | none =>
    rw [hfind] at hspec
    -- a delimiter that is still to be found reaches behind the buffer
    have hnone : ∀ m, m + s.firstMarker.length ≤ s.buffer.length → ∀ rest,
        delimits s.delimiter ((crlf ++ (s.buffer ++ rest)).drop m) = false := by
      intro m hfit rest
      refine Bool.eq_false_iff.mpr fun h => ?_
      obtain ⟨hstart, hmarker, hline⟩ := lineStart_of_delimits hs hstate hfit h
      exact hspec m (by omega) hstart hmarker hline
    have hquiet := quiet_of_not_delimits hs fun m hfit => hnone m (by omega) []
    dsimp only
    split_ifs with hlimit hmarker
    · exact step_fail _ fun rest => outcome_eq_none_of_preamble herror hstate fun m hm =>
        hnone m (by omega) rest
    · exact step_searchFrom hs herror hstate (fun m hm => hnone m (by omega)) hquiet
    · exact step_searchFrom hs herror hstate (fun m hm => absurd hm (Nat.not_lt_zero m)) hquiet
  | some position =>
    rw [hfind] at hspec
    obtain ⟨hstart, hfit, hmarker, hline, hfirst⟩ := hspec
    have hbefore : ∀ m < position, ∀ rest,
        delimits s.delimiter ((crlf ++ (s.buffer ++ rest)).drop m) = false := by
      intro m hm rest
      refine Bool.eq_false_iff.mpr fun h => ?_
      obtain ⟨hstart', hmarker', hline'⟩ := lineStart_of_delimits hs hstate (by omega) h
      exact hfirst m hm hstart' hmarker' hline'
    dsimp only
    split_ifs with hlimit hshort hending
    · exact step_fail _ fun rest => outcome_eq_none_of_preamble herror hstate fun m hm =>
        hbefore m (by omega) rest
    · exact step_searchFrom hs herror hstate hbefore
        (quiet_of_not_delimits hs fun m hm => hbefore m (by omega) [])
    · refine ⟨continues_searchFrom hs herror hstate fun m hm rest => ?_, herror⟩
      by_cases heq : m = position
      · subst heq
        rw [delimits_of_lineStart hs hmarker hline (by omega)]
        simpa using hending
      · exact hbefore m (by omega) rest
    · refine step_progress (continues_of_outcome rfl
        ⟨hs.delimiter, fun h => (by cases h), hs.partLimit, hs.totalLimit, rfl⟩ ?_)
        herror ?_
      · intro rest
        have hdelimits : delimits s.delimiter ((crlf ++ (s.buffer ++ rest)).drop position) = true := by
          rw [delimits_of_lineStart hs hmarker hline (by omega)]
          simpa using hending
        have hafter : (crlf ++ (s.buffer ++ rest)).drop (position + s.delimiter.length) =
            s.buffer.drop (position + s.firstMarker.length) ++ rest := by
          rw [← List.drop_drop, drop_delimiter hs, List.drop_append_of_le_length (by omega)]
        rw [outcome_firstBoundary herror hstate,
          untilDelimiter_of_first (fun m hm => hbefore m hm rest) hdelimits, Option.bind_some, hafter,
          if_neg (by rw [List.length_take]; omega), outcome, if_neg (by simp [herror])]
      · rw [hstate]
        exact fun hsame => by cases hsame.2

/-! ### The other states -/

/-- Waiting without a change. -/
lemma step_wait {s : MultipartParser} (hs : s.Consistent) (hquiet : s.outcome [] = none) :
    Step s (.leave s) :=
  ⟨⟨fun _ => rfl, fun _ => hs⟩, fun _ => hquiet⟩

/-- The meaning behind a delimiter. -/
lemma outcome_boundarySuffix {s : MultipartParser} (herror : s.error = none)
    (hstate : s.state = .boundarySuffix) (rest : Bytes) :
    s.outcome rest = form s.options s.delimiter s.partCount s.totalSize (s.buffer ++ rest) := by
  rw [outcome, herror, hstate]
  rfl

/-- A prefix of enough bytes does not change. -/
lemma isPrefixOf_append {pat buffer : Bytes} (h : pat.length ≤ buffer.length) (rest : Bytes) :
    pat.isPrefixOf (buffer ++ rest) = pat.isPrefixOf buffer := by
  rw [Bool.eq_iff_iff, List.isPrefixOf_iff_prefix, List.isPrefixOf_iff_prefix]
  exact ⟨fun hpre => List.prefix_of_prefix_length_le hpre (List.prefix_append _ _) h,
    fun hpre => hpre.trans (List.prefix_append _ _)⟩

/-- An iteration behind a delimiter. -/
lemma stepBoundarySuffix_spec {s : MultipartParser} (hs : s.Consistent) (herror : s.error = none)
    (hstate : s.state = .boundarySuffix) : Step s (stepBoundarySuffix s) := by
  have hsearch : s.searchFrom = 0 := by
    have := hs.searched
    rwa [Searched, hstate] at this
  have hmeaning := outcome_boundarySuffix herror hstate
  unfold stepBoundarySuffix
  by_cases hshort : s.buffer.length < 2
  · rw [if_pos hshort]
    refine step_wait hs ?_
    have hstarts : ∀ pat : Bytes, pat.length = 2 → ¬pat.isPrefixOf (s.buffer ++ []) = true := by
      intro pat hpat h
      have := (List.isPrefixOf_iff_prefix.mp h).length_le
      rw [List.append_nil] at this
      omega
    rw [hmeaning, form_eq, if_neg (hstarts dashes rfl), if_neg (hstarts crlf rfl)]
  rw [if_neg hshort]
  have hdashesAppend := fun rest => @isPrefixOf_append dashes s.buffer (by simp [dashes]; omega) rest
  have hcrlfAppend := fun rest => @isPrefixOf_append crlf s.buffer (by simp [crlf]; omega) rest
  have hchanged : ∀ t : MultipartParser, t.state ≠ .boundarySuffix →
      ¬(s.buffer.length = t.buffer.length ∧ s.state = t.state) := by
    intro t ht hsame
    exact ht (hsame.2.symm.trans hstate)
  by_cases hdashes : dashes.isPrefixOf s.buffer = true
  · rw [if_pos hdashes]
    refine step_progress (continues_of_outcome rfl
      ⟨hs.delimiter, fun h => (by cases h), hs.partLimit, hs.totalLimit, hsearch⟩ ?_)
      herror (hchanged _ (by simp))
    intro rest
    rw [hmeaning, form_eq, if_pos (by rw [hdashesAppend, hdashes]), outcome, if_neg (by simp [herror])]
  rw [if_neg hdashes]
  by_cases hcrlf : crlf.isPrefixOf s.buffer = true
  · rw [if_pos hcrlf]
    refine step_progress (continues_of_outcome rfl
      ⟨hs.delimiter, fun h => (by cases h), hs.partLimit, hs.totalLimit, ?_⟩ ?_)
      herror (hchanged _ (by simp))
    · rw [Searched]
      dsimp only
      rw [hsearch]
      exact ⟨Nat.zero_le _, fun m hm => absurd hm (Nat.not_lt_zero m)⟩
    · intro rest
      rw [hmeaning, form_eq, if_neg (by rw [hdashesAppend]; exact hdashes),
        if_pos (by rw [hcrlfAppend, hcrlf]), outcome, if_neg (by simp [herror]),
        List.drop_append_of_le_length (by omega)]
  · rw [if_neg hcrlf]
    refine step_fail _ fun rest => ?_
    rw [hmeaning, form_eq, if_neg (by rw [hdashesAppend]; exact hdashes),
      if_neg (by rw [hcrlfAppend]; exact hcrlf)]

/-- The meaning of a head. -/
lemma outcome_headers {s : MultipartParser} (herror : s.error = none)
    (hstate : s.state = .headers) (rest : Bytes) :
    s.outcome rest = formHead s.options s.delimiter s.partCount s.totalSize (s.buffer ++ rest) := by
  rw [outcome, herror, hstate]
  rfl

/-- A head whose end is not within the limit. -/
lemma outcome_eq_none_of_head {s : MultipartParser} (herror : s.error = none)
    (hstate : s.state = .headers) {rest : Bytes}
    (h : ∀ n, ListSearch.find crlfCrlf (s.buffer ++ rest) = some n → s.options.maxHeaderSize < n) :
    s.outcome rest = none := by
  rw [outcome_headers herror hstate, formHead, partHead]
  cases hfind : ListSearch.find crlfCrlf (s.buffer ++ rest) with
  | none => rfl
  | some n =>
    rw [Option.bind_some, if_pos (h n hfind)]
    rfl

/-- The search for the end of a head is a search from its start. -/
lemma findFrom_searched {s : MultipartParser} (hs : s.Consistent) (hstate : s.state = .headers) :
    ListSearch.findFrom crlfCrlf s.buffer s.searchFrom = ListSearch.find crlfCrlf s.buffer := by
  have hsearched := hs.searched
  rw [Searched, hstate] at hsearched
  refine ListSearch.findFrom_eq_find hsearched.1 fun m hm => ?_
  have := hsearched.2 m hm []
  rwa [List.append_nil] at this

/-- Waiting for the end of a head. -/
lemma step_headersWait {s : MultipartParser} (hs : s.Consistent) (herror : s.error = none)
    (hstate : s.state = .headers) (hnone : ListSearch.find crlfCrlf s.buffer = none)
    {searchFrom : ℕ} (hle : searchFrom ≤ s.buffer.length)
    (hbefore : ∀ m < searchFrom, m + 4 ≤ s.buffer.length) :
    Step s (.leave { s with searchFrom := searchFrom }) := by
  have hconsistent : Consistent { s with searchFrom := searchFrom } := by
    refine ⟨hs.delimiter, hs.partCount, hs.partLimit, hs.totalLimit, ?_⟩
    rw [Searched]
    simp only [hstate]
    refine ⟨hle, fun m hm rest hpre => ?_⟩
    have hlength : crlfCrlf.length = 4 := rfl
    exact (ListSearch.find_eq_none_iff).mp hnone m (by have := hbefore m hm; omega)
      (ListSearch.prefix_drop_of_append (hbefore m hm) hpre)
  have hsame := @outcome_headers { s with searchFrom := searchFrom } herror hstate
  refine ⟨continues_of_outcome rfl hconsistent fun rest => ?_, fun _ => ?_⟩
  · rw [outcome_headers herror hstate, hsame]
  · rw [hsame, formHead, partHead, List.append_nil, hnone]
    rfl

/-- The meaning of a head that has arrived. -/
lemma outcome_of_head {s : MultipartParser} (herror : s.error = none) (hstate : s.state = .headers)
    {headEnd : ℕ} (hfind : ListSearch.find crlfCrlf s.buffer = some headEnd)
    (hlimit : ¬ s.options.maxHeaderSize < headEnd) (rest : Bytes) :
    s.outcome rest = (parsePartHead (s.buffer.take headEnd)).toOption.bind fun part =>
      if s.options.maxParts ≤ s.partCount then none
      else
        (formBody s.options s.delimiter s.partCount part 0 s.totalSize
          (s.buffer.drop (headEnd + 4) ++ rest)).map fun events =>
            { type := .partBegin, partIndex := s.partCount, part } :: events := by
  have hlength : crlfCrlf.length = 4 := rfl
  have hfit := ListSearch.find_add_length_le hfind
  have htake : (s.buffer ++ rest).take headEnd = s.buffer.take headEnd :=
    List.take_append_of_le_length (by omega)
  rw [outcome_headers herror hstate, formHead, partHead,
    ListSearch.find_append_of_some hfind rest, Option.bind_some, if_neg hlimit, htake,
    List.drop_append_of_le_length (by omega)]
  cases parsePartHead (s.buffer.take headEnd) <;> rfl

/-- An iteration in a head. -/
lemma stepHeaders_spec {s : MultipartParser} (hs : s.Consistent) (herror : s.error = none)
    (hstate : s.state = .headers) : Step s (stepHeaders s) := by
  have hlength : crlfCrlf.length = 4 := rfl
  unfold stepHeaders
  rw [findFrom_searched hs hstate]
  cases hfind : ListSearch.find crlfCrlf s.buffer with
  | none =>
    dsimp only
    split_ifs with hlimit hlong
    · refine step_fail _ fun rest => outcome_eq_none_of_head herror hstate fun n hn => ?_
      have := ListSearch.length_lt_of_find_append hfind hn
      omega
    · exact step_headersWait hs herror hstate hfind (by omega) fun m hm => by omega
    · exact step_headersWait hs herror hstate hfind (by omega) fun m hm => by omega
  | some headEnd =>
    dsimp only
    by_cases hlimit : s.options.maxHeaderSize < headEnd
    · rw [if_pos hlimit]
      refine step_fail _ fun rest => outcome_eq_none_of_head herror hstate fun n hn => ?_
      rw [ListSearch.find_append_of_some hfind rest] at hn
      cases hn
      exact hlimit
    rw [if_neg hlimit]
    have hmeaning := outcome_of_head herror hstate hfind hlimit
    cases hparsed : parsePartHead (s.buffer.take headEnd) with
    | error e =>
      refine step_fail _ fun rest => ?_
      rw [hmeaning rest, hparsed]
      rfl
    | ok part =>
      simp only [hparsed, Except.toOption, Option.bind_some] at hmeaning
      dsimp only
      by_cases hparts : s.options.maxParts ≤ s.partCount
      · rw [if_pos hparts]
        exact step_fail _ fun rest => (hmeaning rest).trans (if_pos hparts)
      rw [if_neg hparts]
      refine step_progress (continues_of_events rfl
        ⟨hs.delimiter, fun _ => Nat.succ_pos _, Nat.zero_le _, hs.totalLimit, rfl⟩ ?_)
        herror ?_
      · intro rest
        rw [hmeaning rest, if_neg hparts, outcome, if_neg (by simp [herror]), Option.map_map]
        rfl
      · rw [hstate]
        exact fun hsame => by cases hsame.2

/-! ### Content -/

/-- The meaning of content. -/
lemma outcome_body {s : MultipartParser} (herror : s.error = none) (hstate : s.state = .body)
    (rest : Bytes) :
    s.outcome rest = formBody s.options s.delimiter (s.partCount - 1) s.current s.currentSize
      s.totalSize (s.buffer ++ rest) := by
  rw [outcome, herror, hstate]
  rfl

/-- Content can be delivered in pieces. -/
lemma formBody_append {options : MultipartParserOptions} {delimiter : Bytes} (partIndex : ℕ)
    (part : MultipartPart) (size total : ℕ) {a b : Bytes}
    (h : ∀ m < a.length, delimits delimiter ((a ++ b).drop m) = false) :
    (formBody options delimiter partIndex part size total (a ++ b)).map joinData =
      (formBody options delimiter partIndex part (size + a.length) (total + a.length) b).map
        fun events => joinData (dataEvents partIndex a ++ events) := by
  rw [formBody, untilDelimiter_append h, formBody]
  cases untilDelimiter delimiter b with
  | none => rfl
  | some r =>
    rw [Option.map_some, Option.bind_some, Option.bind_some]
    dsimp only
    rw [List.length_append, ← Nat.add_assoc, ← Nat.add_assoc]
    split_ifs with hlimit
    · rfl
    · rw [Option.map_map, Option.map_map]
      exact congrArg (Option.map · _) (funext fun events => joinData_dataEvents _ _ _ _)

/-- Content beyond a limit. -/
lemma formBody_eq_none {options : MultipartParserOptions} {delimiter : Bytes} (partIndex : ℕ)
    (part : MultipartPart) {size total : ℕ} {a b : Bytes}
    (h : ∀ m < a.length, delimits delimiter ((a ++ b).drop m) = false)
    (hlimit : options.maxPartSize < size + a.length ∨ options.maxTotalSize < total + a.length) :
    formBody options delimiter partIndex part size total (a ++ b) = none := by
  rw [formBody, untilDelimiter_append h]
  cases untilDelimiter delimiter b with
  | none => rfl
  | some r =>
    rw [Option.map_some, Option.bind_some]
    exact if_pos (by rw [List.length_append]; omega)

/-- Data is delivered within the limits. -/
lemma emitData_spec {s : MultipartParser} (hs : s.Consistent) {count : ℕ}
    (hcount : count ≤ s.buffer.length) :
    (∃ e, s.emitData count = (false, { s with error := some e }) ∧
      (s.options.maxPartSize < s.currentSize + count ∨
        s.options.maxTotalSize < s.totalSize + count)) ∨
    (s.emitData count = (true,
        { s with
          currentSize := s.currentSize + count, totalSize := s.totalSize + count
          events := s.events ++ dataEvents (s.partCount - 1) (s.buffer.take count) }) ∧
      s.currentSize + count ≤ s.options.maxPartSize ∧
        s.totalSize + count ≤ s.options.maxTotalSize) := by
  have hpartLimit := hs.partLimit
  have htotalLimit := hs.totalLimit
  unfold emitData
  by_cases hzero : count = 0
  · subst hzero
    rw [if_pos rfl, List.take_zero]
    refine .inr ⟨?_, hpartLimit, htotalLimit⟩
    simp [dataEvents]
  rw [if_neg hzero]
  by_cases hpart : s.options.maxPartSize < count ∨ s.options.maxPartSize - count < s.currentSize
  · rw [if_pos hpart]
    exact .inl ⟨_, rfl, by omega⟩
  rw [if_neg hpart]
  by_cases htotal : s.options.maxTotalSize < count ∨ s.options.maxTotalSize - count < s.totalSize
  · rw [if_pos htotal]
    exact .inl ⟨_, rfl, by omega⟩
  rw [if_neg htotal]
  have hne : (s.buffer.take count).isEmpty = false := by
    rw [List.isEmpty_eq_false_iff]
    intro hnil
    have := congrArg List.length hnil
    rw [List.length_take, List.length_nil] at this
    omega
  refine .inr ⟨?_, by omega, by omega⟩
  rw [dataEvents, hne, if_neg Bool.false_ne_true]

/-- Data that is delivered, in which no delimiter starts. -/
lemma emitData_continues {s : MultipartParser} (hs : s.Consistent) (herror : s.error = none)
    (hstate : s.state = .body) {count : ℕ} (hcount : count ≤ s.buffer.length)
    (h : ∀ m < count, ∀ rest, delimits s.delimiter ((s.buffer ++ rest).drop m) = false) :
    match s.emitData count with
    | (false, t) => Continues s t ∧ t.error.isSome = true
    | (true, t) =>
      Continues s { t with buffer := t.buffer.drop count } ∧
        t = { s with
          currentSize := s.currentSize + count, totalSize := s.totalSize + count
          events := s.events ++ dataEvents (s.partCount - 1) (s.buffer.take count) } := by
  have hlength : (s.buffer.take count).length = count := by
    rw [List.length_take]
    omega
  have hsplit : ∀ rest, s.buffer ++ rest = s.buffer.take count ++ (s.buffer.drop count ++ rest) := by
    intro rest
    rw [← List.append_assoc, List.take_append_drop]
  have hskip : ∀ rest, ∀ m < (s.buffer.take count).length, delimits s.delimiter
      ((s.buffer.take count ++ (s.buffer.drop count ++ rest)).drop m) = false := by
    intro rest m hm
    rw [← hsplit]
    exact h m (by omega) rest
  obtain ⟨e, hemit, hlimit⟩ | ⟨hemit, hpartLimit, htotalLimit⟩ := emitData_spec hs hcount
  · rw [hemit]
    refine ⟨continues_fail rfl fun rest => ?_, rfl⟩
    rw [outcome_body herror hstate, hsplit]
    exact formBody_eq_none _ _ (hskip rest) (by rw [hlength]; exact hlimit)
  · rw [hemit]
    refine ⟨continues_of_events rfl ⟨hs.delimiter, hs.partCount, hpartLimit, htotalLimit, ?_⟩
      fun rest => ?_, rfl⟩
    · have hsearched := hs.searched
      rw [Searched, hstate] at hsearched
      rw [Searched]
      simp only [hstate]
      exact hsearched
    · rw [outcome_body herror hstate, hsplit, formBody_append _ _ _ _ (hskip rest), hlength, outcome,
        if_neg (by simp [herror])]
      simp only [hstate]

/-- One iteration after the other. -/
lemma Continues.trans {s t u : MultipartParser} (h : Continues s t) (h' : Continues t u) :
    Continues s u :=
  ⟨fun rest => (h.allEvents rest).trans (h'.allEvents rest), h'.consistent⟩

/-- No delimiter starts where the buffer does not have one. -/
lemma delimits_append_eq_false {delimiter buffer : Bytes} {m : ℕ}
    (hfit : m + delimiter.length ≤ buffer.length) (h : ¬delimiter <+: buffer.drop m) (rest : Bytes) :
    delimits delimiter ((buffer ++ rest).drop m) = false := by
  refine Bool.eq_false_iff.mpr fun hdelimits => ?_
  simp only [delimits, Bool.and_eq_true, List.isPrefixOf_iff_prefix] at hdelimits
  exact h (ListSearch.prefix_drop_of_append hfit hdelimits.1)

/-- Content in which no delimiter starts does not end. -/
lemma outcome_eq_none_of_body {s : MultipartParser} (hstate : s.state = .body)
    (h : ∀ m, delimits s.delimiter (s.buffer.drop m) = false) : s.outcome [] = none := by
  cases herror : s.error with
  | some e => exact if_pos (by rw [herror]; rfl)
  | none =>
    have hnone : untilDelimiter s.delimiter s.buffer = none := by
      rw [untilDelimiter, (ListSearch.cut_eq_none_iff).mpr fun m _ => h m]
      rfl
    rw [outcome_body herror hstate, List.append_nil, formBody, hnone]
    rfl

/-- Leaving with an error. -/
lemma step_leave_error {s t : MultipartParser} (h : Continues s t) (ht : t.error.isSome = true) :
    Step s (.leave t) := ⟨h, fun _ => if_pos ht⟩

/-- The end of a part. -/
lemma continues_partEnd {s : MultipartParser} (hs : s.Consistent) (herror : s.error = none)
    (hstate : s.state = .body) (h : ∀ rest, delimits s.delimiter (s.buffer ++ rest) = true)
    (hfit : s.delimiter.length ≤ s.buffer.length) :
    Continues s { s with
      events := s.events ++ [{ type := .partEnd, partIndex := s.partCount - 1, part := s.current }]
      buffer := s.buffer.drop s.delimiter.length, state := .boundarySuffix } := by
  have hsearch : s.searchFrom = 0 := by
    have := hs.searched
    rwa [Searched, hstate] at this
  refine continues_of_events rfl
    ⟨hs.delimiter, fun h => (by cases h), hs.partLimit, hs.totalLimit, hsearch⟩ fun rest => ?_
  have hempty : untilDelimiter s.delimiter (s.buffer ++ rest) =
      some ([], s.buffer.drop s.delimiter.length ++ rest) := by
    have := @untilDelimiter_of_first s.delimiter (s.buffer ++ rest) 0
      (fun m hm => absurd hm (Nat.not_lt_zero m)) (h rest)
    rw [this, List.take_zero, Nat.zero_add, List.drop_append_of_le_length hfit]
  have hpos := hs.partCount hstate
  have hpartLimit := hs.partLimit
  have htotalLimit := hs.totalLimit
  have hindex : s.partCount - 1 + 1 = s.partCount := by omega
  rw [outcome_body herror hstate, formBody, hempty, Option.bind_some]
  dsimp only
  rw [List.length_nil, Nat.add_zero, Nat.add_zero, if_neg (by omega), hindex, Option.map_map, outcome,
    if_neg (by simp [herror])]
  rfl

/-- An iteration that delivers data and goes on with what is behind it. -/
lemma step_emitData {s : MultipartParser} (hs : s.Consistent) (herror : s.error = none)
    (hstate : s.state = .body) {count : ℕ} (hcount : count ≤ s.buffer.length)
    (h : ∀ m < count, ∀ rest, delimits s.delimiter ((s.buffer ++ rest).drop m) = false)
    {after : MultipartParser → Loop.Next MultipartParser MultipartParser}
    (hafter : ∀ t, Continues s { t with buffer := t.buffer.drop count } →
      t = { s with
        currentSize := s.currentSize + count, totalSize := s.totalSize + count
        events := s.events ++ dataEvents (s.partCount - 1) (s.buffer.take count) } →
      Step s (after t)) :
    Step s (match s.emitData count with
      | (false, t) => .leave t
      | (true, t) => after t) := by
  have hemit := emitData_continues hs herror hstate hcount h
  cases hresult : s.emitData count with
  | mk emitted t =>
    rw [hresult] at hemit
    cases emitted with
    | false => exact step_leave_error hemit.1 hemit.2
    | true => exact hafter t hemit.1 hemit.2

/-- No delimiter starts before, at or in a candidate with an invalid ending. -/
lemma delimits_candidate_eq_false {s : MultipartParser} (hs : s.Consistent) {position : ℕ}
    (hfit : position + s.delimiter.length + 2 ≤ s.buffer.length)
    (hoccurs : s.delimiter <+: s.buffer.drop position)
    (hbefore : ∀ m < position, ∀ rest, delimits s.delimiter ((s.buffer ++ rest).drop m) = false)
    (hinvalid : validEnding ((s.buffer.drop (position + s.delimiter.length)).take 2) = false) :
    ∀ m < position + 2, ∀ rest, delimits s.delimiter ((s.buffer ++ rest).drop m) = false := by
  intro m hm rest
  by_cases hlt : m < position
  · exact hbefore m hlt rest
  by_cases heq : m = position
  · subst heq
    rw [delimits, List.drop_drop, ending_append hfit, hinvalid]
    exact Bool.and_false _
  · -- the second byte of a candidate is a LF
    obtain rfl : m = position + 1 := by omega
    refine delimits_append_eq_false (by omega) (fun hpre => ?_) rest
    rw [← List.drop_drop] at hpre
    obtain ⟨after, hafter⟩ := hoccurs
    rw [← hafter, hs.delimiter] at hpre
    obtain ⟨more, hmore⟩ := hpre
    cases hmore

/-- An iteration in content.  This is the hard one: a delimiter may begin in one fragment and end in
the next. -/
lemma stepBody_spec {s : MultipartParser} (hs : s.Consistent) (herror : s.error = none)
    (hstate : s.state = .body) : Step s (stepBody s) := by
  unfold stepBody
  -- by what the search finds in the buffer: a delimiter whose ending is not there yet, one
  -- that ends a part, one that is only content, or none
  cases hfind : ListSearch.find s.delimiter s.buffer with
  | some position =>
    have hfit := ListSearch.find_add_length_le hfind
    obtain ⟨-, hoccurs, hfirst⟩ := (ListSearch.find_eq_some_iff).mp hfind
    have hbefore : ∀ m < position, ∀ rest,
        delimits s.delimiter ((s.buffer ++ rest).drop m) = false :=
      fun m hm rest => delimits_append_eq_false (by omega) (hfirst m hm) rest
    dsimp only
    by_cases hshort : s.buffer.length < position + s.delimiter.length + 2
    · rw [if_pos hshort]
      refine step_emitData hs herror hstate (by omega) hbefore fun t hcontinues ht => ?_
      refine ⟨hcontinues, fun _ => outcome_eq_none_of_body ?_ fun m => ?_⟩
      · rw [ht]
        exact hstate
      · refine Bool.eq_false_iff.mpr fun h => ?_
        have hspace := length_of_delimits h
        rw [ht] at hspace
        simp only [List.length_drop] at hspace
        omega
    rw [if_neg hshort]
    by_cases hending : validEnding ((s.buffer.drop (position + s.delimiter.length)).take 2) = true
    · rw [hending, Bool.not_true, if_neg Bool.false_ne_true]
      refine step_emitData hs herror hstate (by omega) hbefore fun t hcontinues ht => ?_
      subst ht
      refine step_progress ?_ herror fun hsame => by rw [hstate] at hsame; cases hsame.2
      refine hcontinues.trans ?_
      have hend := continues_partEnd (hcontinues.consistent herror) herror hstate
        (fun rest => ?_) (by simp only [List.length_drop]; omega)
      · simp only [List.drop_drop] at hend
        exact hend
      · have hpre := @ListSearch.prefix_drop_append _ _ _ rest _ (by omega) hoccurs
        rw [List.drop_append_of_le_length (by omega)] at hpre
        dsimp only
        rw [delimits, List.isPrefixOf_iff_prefix.mpr hpre, Bool.true_and,
          ending_append (by rw [List.length_drop]; omega), List.drop_drop]
        exact hending
    · rw [Bool.not_eq_true] at hending
      rw [hending, Bool.not_false, if_pos rfl]
      -- the line break before the marker is content, so the search goes on behind it
      have hthrough := delimits_candidate_eq_false hs (by omega) hoccurs hbefore hending
      have hlength : s.delimiter.length = s.firstMarker.length + 2 := by
        rw [hs.delimiter, List.length_append, Nat.add_comm]
        rfl
      refine step_emitData hs herror hstate (by omega) hthrough fun t hcontinues ht => ?_
      subst ht
      exact ⟨hcontinues, herror⟩
  | none =>
    have hnone := (ListSearch.find_eq_none_iff).mp hfind
    dsimp only
    by_cases hkeep : s.buffer.length ≤ s.delimiter.length + 1
    · rw [if_pos hkeep]
      refine step_wait hs (outcome_eq_none_of_body hstate fun m => Bool.eq_false_iff.mpr fun h => ?_)
      have hspace := length_of_delimits h
      rw [List.length_drop] at hspace
      omega
    rw [if_neg hkeep]
    -- all but a tail that may be the start of a delimiter is content
    have hkept : ∀ m < s.buffer.length - (s.delimiter.length + 1), ∀ rest,
        delimits s.delimiter ((s.buffer ++ rest).drop m) = false :=
      fun m hm rest => delimits_append_eq_false (by omega) (hnone m (by omega)) rest
    refine step_emitData hs herror hstate (Nat.sub_le _ _) hkept fun t hcontinues ht => ?_
    subst ht
    refine step_progress hcontinues herror fun hsame => ?_
    have hchanged := hsame.1
    dsimp only at hchanged
    rw [List.length_drop] at hchanged
    omega

/-! ### Runs -/

/-- An iteration.  This is where the loop is checked branch by branch; what follows is induction. -/
theorem parseStep_spec {s : MultipartParser} (hs : s.Consistent) (herror : s.error = none) :
    Step s (parseStep s) := by
  unfold parseStep
  cases hstate : s.state with
  | firstBoundary => exact stepFirstBoundary_spec hs herror hstate
  | boundarySuffix => exact stepBoundarySuffix_spec hs herror hstate
  | headers => exact stepHeaders_spec hs herror hstate
  | body => exact stepBody_spec hs herror hstate
  | complete =>
    have hsearch : s.searchFrom = 0 := by
      have := hs.searched
      rwa [Searched, hstate] at this
    refine ⟨continues_of_outcome rfl ?_ fun rest => ?_, fun h => absurd rfl h⟩
    · exact ⟨hs.delimiter, fun h => (by cases h), hs.partLimit, hs.totalLimit, hsearch⟩
    · rw [outcome, outcome, hstate]

/-- A loop of iterations.  In the end nothing more can be read from the buffer, so that the parser
has not stopped too early. -/
theorem parseAvailable_spec {s : MultipartParser} (hs : s.Consistent) (herror : s.error = none) :
    Continues s (parseAvailable s) ∧ (parseAvailable s).Quiet := by
  refine Loop.run_induct parseStep_decreases
    (P := fun s t => s.Consistent → s.error = none → Continues s t ∧ t.Quiet) ?_ ?_ s hs herror
  · intro s t h hs herror
    have hstep := parseStep_spec hs herror
    rwa [h] at hstep
  · intro s t u h ih hs herror
    have hstep := parseStep_spec hs herror
    rw [h] at hstep
    have hrest := ih (hstep.1.consistent hstep.2) hstep.2
    exact ⟨hstep.1.trans hrest.1, hrest.2⟩

/-- What a parser has taken in is part of what is to come. -/
lemma allEvents_append {s : MultipartParser} (hs : s.Consistent) (bytes : Bytes) :
    Consistent { s with buffer := s.buffer ++ bytes } ∧ ∀ rest,
      s.allEvents (bytes ++ rest) = allEvents { s with buffer := s.buffer ++ bytes } rest := by
  constructor
  · refine ⟨hs.delimiter, hs.partCount, hs.partLimit, hs.totalLimit, ?_⟩
    have hsearched := hs.searched
    rw [Searched] at hsearched ⊢
    dsimp only
    cases hstate : s.state with
    | firstBoundary =>
      rw [hstate] at hsearched
      intro m hm rest
      rw [List.append_assoc]
      exact hsearched m hm (bytes ++ rest)
    | headers =>
      rw [hstate] at hsearched
      refine ⟨by rw [List.length_append]; exact hsearched.1.trans (Nat.le_add_right _ _), ?_⟩
      intro m hm rest
      rw [List.append_assoc]
      exact hsearched.2 m hm (bytes ++ rest)
    | body => rw [hstate] at hsearched; exact hsearched
    | boundarySuffix => rw [hstate] at hsearched; exact hsearched
    | complete => rw [hstate] at hsearched; exact hsearched
  · intro rest
    simp only [allEvents, outcome, List.append_assoc]

/-- A parser that has read a whole form ignores what follows. -/
lemma allEvents_complete {s : MultipartParser} (hstate : s.state = .complete) (rest rest' : Bytes) :
    s.allEvents rest = s.allEvents rest' := by
  rw [allEvents, allEvents, outcome, outcome, hstate]

/-- A piece of the input of `feed`. -/
lemma feedPiece_spec {s : MultipartParser} (hs : s.Consistent) (herror : s.error = none)
    (piece : Bytes) :
    let t := parseAvailable { s with buffer := s.buffer ++ piece }
    (∀ rest, s.allEvents (piece ++ rest) = t.allEvents rest) ∧
      (t.error = none → t.Consistent ∧ t.Quiet) := by
  obtain ⟨hconsistent, happend⟩ := allEvents_append hs piece
  obtain ⟨hcontinues, hquiet⟩ := parseAvailable_spec hconsistent herror
  exact ⟨fun rest => (happend rest).trans (hcontinues.allEvents rest), fun hnone =>
    ⟨hcontinues.consistent hnone, hquiet⟩⟩

/-- A loop of `feed`.  What a later call may bring is `rest`. -/
lemma feedLoop_spec {s : MultipartParser} (hs : s.Consistent) (herror : s.error = none)
    (hquiet : s.Quiet) (input : Bytes) :
    let t := Loop.run feedStep (fun v => v.2.length) feedStep_decreases (s, input)
    (∀ rest, s.allEvents (input ++ rest) = t.allEvents rest) ∧
      (t.error = none → t.Consistent ∧ t.Quiet) := by
  refine Loop.run_induct feedStep_decreases
    (P := fun v t => v.1.Consistent → v.1.error = none → v.1.Quiet →
      (∀ rest, v.1.allEvents (v.2 ++ rest) = t.allEvents rest) ∧
        (t.error = none → t.Consistent ∧ t.Quiet)) ?_ ?_ (s, input) hs herror hquiet
  · rintro ⟨s, input⟩ t h hs herror hquiet
    unfold feedStep at h
    dsimp only at h hs herror hquiet ⊢
    by_cases hdone : input.isEmpty ∨ s.state = .complete
    · rw [if_pos hdone] at h
      cases h
      refine ⟨fun rest => ?_, fun _ => ⟨hs, hquiet⟩⟩
      obtain hempty | hcomplete := hdone
      · rw [List.isEmpty_iff.mp hempty, List.nil_append]
      · exact allEvents_complete hcomplete _ _
    · rw [if_neg hdone] at h
      obtain ⟨hevents, -⟩ := feedPiece_spec hs herror (input.take pieceSize)
      split_ifs at h with hfailed
      cases h
      refine ⟨fun rest => ?_, fun hnone => by rw [hnone] at hfailed; cases hfailed⟩
      rw [← List.take_append_drop pieceSize input, List.append_assoc, hevents,
        allEvents_of_error hfailed, List.take_append_drop, allEvents_of_error hfailed]
  · rintro ⟨s, input⟩ ⟨t, rest⟩ u h ih hs herror hquiet
    unfold feedStep at h
    dsimp only at h ih hs herror hquiet ⊢
    by_cases hdone : input.isEmpty ∨ s.state = .complete
    · rw [if_pos hdone] at h
      cases h
    · rw [if_neg hdone] at h
      obtain ⟨hevents, hkept⟩ := feedPiece_spec hs herror (input.take pieceSize)
      split_ifs at h with hfailed
      cases h
      have hnone := Option.not_isSome_iff_eq_none.mp hfailed
      obtain ⟨hrest, hfinal⟩ := ih (hkept hnone).1 hnone (hkept hnone).2
      refine ⟨fun rest => ?_, hfinal⟩
      conv_lhs => rw [← List.take_append_drop pieceSize input]
      rw [List.append_assoc, hevents, hrest]

/-- What a parser is between calls. -/
def Ready (s : MultipartParser) : Prop := s.error = none → s.Consistent ∧ s.Quiet

/-- A parser that has failed stays so. -/
lemma parse_of_error {s : MultipartParser} {e : ErrorInfo} (h : s.error = some e)
    (chunks : List Bytes) : s.parse chunks = .error e := by
  have hfeed : ∀ input, s.feed input = (.error e, s) := by
    intro input
    rw [feed, h]
  cases chunks with
  | nil => rw [parse, finish, hfeed]
  | cons chunk chunks => rw [parse, hfeed]

/-- A call of `feed`. -/
lemma feed_spec {s : MultipartParser} (hs : s.Ready) (herror : s.error = none) (input : Bytes) :
    match s.feed input with
    | (.error _, _) => ∀ rest, (s.outcome (input ++ rest)).map joinData = none
    | (.ok events, t) => t.Ready ∧ ∀ rest, (s.outcome (input ++ rest)).map joinData =
        (t.outcome rest).map fun later => joinData (events ++ later) := by
  obtain ⟨hconsistent, hquiet⟩ := hs herror
  have hconsistent' : Consistent { s with events := [] } :=
    ⟨hconsistent.delimiter, hconsistent.partCount, hconsistent.partLimit, hconsistent.totalLimit,
      hconsistent.searched⟩
  obtain ⟨hevents, hready⟩ := feedLoop_spec hconsistent' herror hquiet input
  have hloop : Loop.run feedStep (fun v => v.2.length) feedStep_decreases
      ({ s with events := [] }, input) = s.feedLoop input := rfl
  rw [hloop] at hevents hready
  unfold feed
  rw [herror]
  dsimp only
  generalize s.feedLoop input = t at *
  have hsame : ∀ rest, (s.outcome rest).map joinData = allEvents { s with events := [] } rest :=
    fun rest => rfl
  cases ht : t.error with
  | some e =>
    intro rest
    rw [hsame, hevents, allEvents_of_error (by rw [ht]; rfl)]
  | none =>
    refine ⟨fun _ => hready ht, fun rest => ?_⟩
    rw [hsame, hevents]
    rfl

/-- A call of `finish`. -/
lemma finish_spec {s : MultipartParser} (hs : s.Ready) (herror : s.error = none) :
    s.finish.1.toOption.map joinData = (s.outcome []).map joinData := by
  have hfeed : s.feed [] = (.ok [], { s with events := [] }) := by
    have hloop : s.feedLoop [] = { s with events := [] } :=
      Loop.run_of_leave feedStep_decreases (by simp [feedStep])
    rw [feed, herror]
    dsimp only
    rw [hloop]
    dsimp only
    rw [herror]
  unfold finish
  rw [hfeed]
  dsimp only
  by_cases hstate : s.state = .complete
  · rw [if_neg (not_not.mpr hstate), outcome, if_neg (by simp [herror]), hstate]
    rfl
  · rw [if_pos hstate, (hs herror).2 hstate]
    rfl

/-- The events of all calls are the meaning of all bytes.  Pieces of content are joined, because
their cuts do depend on the chunks. -/
theorem parse_spec {s : MultipartParser} (hs : s.Ready) (chunks : List Bytes) :
    (s.parse chunks).toOption.map joinData = (s.outcome chunks.flatten).map joinData := by
  induction chunks generalizing s with
  | nil =>
    cases herror : s.error with
    | some e =>
      rw [parse_of_error herror, outcome, if_pos (by rw [herror]; rfl)]
      rfl
    | none => exact finish_spec hs herror
  | cons chunk chunks ih =>
    cases herror : s.error with
    | some e =>
      rw [parse_of_error herror, outcome, if_pos (by rw [herror]; rfl)]
      rfl
    | none =>
      have hfeed := feed_spec hs herror chunk
      rw [parse, List.flatten_cons]
      rcases hresult : s.feed chunk with ⟨e | events, t⟩ <;> rw [hresult] at hfeed
      · exact (hfeed chunks.flatten).symm
      · obtain ⟨hready, hevents⟩ := hfeed
        have hmap : ((t.parse chunks).map (events ++ ·)).toOption.map joinData =
            ((t.parse chunks).toOption.map joinData).map (events.foldr consEvent) := by
          cases t.parse chunks with
          | error e => rfl
          | ok later => exact congrArg some (joinData_append events later)
        dsimp only
        rw [hmap, ih hready, hevents, Option.map_map]
        exact congrArg (Option.map · _) (funext fun later => (joinData_append events later).symm)

/-- A new parser is ready, and the meaning of what it is fed is that of a whole body. -/
lemma ready_create (contentType : Bytes) (options : MultipartParserOptions) :
    (create contentType options).Ready ∧ ∀ w, (create contentType options).outcome w =
      match multipartBoundary contentType with
      | .error _ => none
      | .ok boundary => formEvents options (crlf ++ (dashes ++ boundary)) w := by
  unfold create
  cases multipartBoundary contentType with
  | error e => exact ⟨fun h => (by cases h), fun w => rfl⟩
  | ok boundary =>
    have hmeaning : ∀ w, outcome
        { options, boundary, firstMarker := dashes ++ boundary
          delimiter := crlf ++ (dashes ++ boundary) } w =
        formEvents options (crlf ++ (dashes ++ boundary)) w := fun w => rfl
    refine ⟨fun _ => ⟨⟨rfl, fun h => (by cases h), Nat.zero_le _, Nat.zero_le _, ?_⟩, fun _ => ?_⟩,
      hmeaning⟩
    · exact fun m hm => absurd hm (Nat.not_lt_zero m)
    · refine outcome_eq_none_of_preamble rfl rfl fun m _ => Bool.eq_false_iff.mpr fun h => ?_
      have hspace := length_of_delimits h
      simp only [List.length_drop, List.length_append, List.length_nil] at hspace
      have hcrlf : crlf.length = 2 := rfl
      omega

/-- The events of a parser are the meaning of the body.  What the bytes mean does not mention
chunks, buffers or states. -/
theorem parse_create (contentType : Bytes) (options : MultipartParserOptions)
    (chunks : List Bytes) :
    ((create contentType options).parse chunks).toOption.map joinData =
      match multipartBoundary contentType with
      | .error _ => none
      | .ok boundary =>
        (formEvents options (crlf ++ (dashes ++ boundary)) chunks.flatten).map joinData := by
  obtain ⟨hready, houtcome⟩ := ready_create contentType options
  rw [parse_spec hready, houtcome]
  cases multipartBoundary contentType <;> rfl

/-- However a body is cut, the calls that feed and finish a parser either fail, or deliver the same
events, up to the pieces in which content is delivered. -/
theorem fragmentation_invisible (contentType : Bytes) (options : MultipartParserOptions)
    (w : Bytes) (chunks chunks' : List Bytes) (h : chunks.flatten = w) (h' : chunks'.flatten = w) :
    ((create contentType options).parse chunks).toOption.map joinData =
      ((create contentType options).parse chunks').toOption.map joinData := by
  rw [parse_create, parse_create, h, h']

/-- The same form, in two chunks and byte by byte. -/
theorem fragmentation_invisible_of_example :
    ((create (bytes "multipart/form-data; boundary=b") {}).parse
        [bytes "--b\r\nContent-Disposition: form-data; name=x\r\n\r\na\r\n--bX\r", bytes "\n--b--"]).toOption.map
        joinData =
      ((create (bytes "multipart/form-data; boundary=b") {}).parse
        ((bytes "--b\r\nContent-Disposition: form-data; name=x\r\n\r\na\r\n--bX\r\n--b--").map
          fun c => [c])).toOption.map joinData :=
  fragmentation_invisible (bytes "multipart/form-data; boundary=b") {}
    (bytes "--b\r\nContent-Disposition: form-data; name=x\r\n\r\na\r\n--bX\r\n--b--") _ _
    (by decide +kernel) (by decide +kernel)

end Chhttp.Multipart.MultipartParser
