import Chhttp.Sse.Client
import Chhttp.Sse.Injection

/-!
# Reading an event log over reconnections

A server keeps a log of events with different ids, and answers a request with the events after the
one that `Last-Event-ID` names.  Connections may end at any byte, in any cuts, and attempts may fail
in any way.  The client never gets an event twice or out of order, and it resumes exactly behind what
it has consumed; the only events that it misses are those whose connection ended between the line of
their id and their end, at most one a connection (`resumes_in_order`).

This needs a log whose events are `Loggable`, and a caller who sets no `Last-Event-ID` itself: such a
header would be sent as long as the client has no id of its own.
-/

namespace Chhttp.Sse

open SseParser

/-! ### The log of the server -/

/-- The events after the one with an id; all of them, if there is none.  So a server that does not
know the id starts over. -/
def resumeAfter (log : List SseEvent) (id : Bytes) : List SseEvent :=
  if log.any (·.id == id) then (log.dropWhile (·.id != id)).tail else log

/-- The id that a request names, as the server reads it. -/
def SseClient.requestedId (c : SseClient) : Bytes :=
  trimOws ((findHeader c.requestHeaders (bytes "Last-Event-ID")).getD [])

/-- An event that can be kept in a log: it survives the stream, and its id survives the header.  This
excludes types and ids of several lines, retry times that the client does not take, data with a CR that
is not part of a CRLF, behind which a reader would find another field, and ids that are empty or begin
or end with blanks. -/
structure SseEvent.Loggable (event : SseEvent) : Prop where
  valid : (WriterCall.send event).Valid
  data : crPaired event.data = true
  id : event.id ≠ [] ∧ trimOws event.id = event.id

/-- Each response of the server is the beginning of the events that the request asks for.  The
server keeps a log and answers each request from behind the event that the request names. -/
def Serves (log : List SseEvent) : SseClient → List Attempt → Prop
  | _, [] => True
  | c, a :: rest =>
    a.heard <+: (resumeAfter log c.requestedId).flatMap formatSse ∧
      match c.attempt a with
      | .again c' => Serves log c' rest
      | .leave _ => True

/-- It can be decided. -/
instance Serves.decidable (log : List SseEvent) :
    ∀ c attempts, Decidable (Serves log c attempts)
  | _, [] => .isTrue trivial
  | c, a :: rest =>
    @instDecidableAnd _ _ inferInstance
      (match c.attempt a with
      | .again c' => Serves.decidable log c' rest
      | .leave _ => .isTrue trivial)

/-- The id of the last event, or else an id that is held. -/
def lastIdOf (held : Bytes) (events : List SseEvent) : Bytes :=
  (events.getLast?.map SseEvent.id).getD held

/-- The connection ended behind the id of an event that was not dispatched. -/
def SseClient.cutOff (c : SseClient) (a : Attempt) : Bool :=
  (c.parserOf a).lastId != lastIdOf c.lastId (c.parserOf a).dispatched

/-- The attempts of a run that were cut off so.  Each of them may cost one event, and the theorem
says that nothing else does. -/
def SseClient.cutOffs (c : SseClient) : List Attempt → ℕ
  | [] => 0
  | a :: rest =>
    (if c.cutOff a then 1 else 0) +
      match c.attempt a with
      | .again c' => c'.cutOffs rest
      | .leave _ => 0

/-! ### What a parser has seen -/

namespace SseParser

/-- What remains of a parser when its connection has ended. -/
def seen (s : SseParser) : List SseEvent × Bytes := (s.dispatched, s.lastId)

/-- A field that fails is without effect. -/
lemma processField_of_failed {s : SseParser} {field value : Bytes}
    (h : (s.processField field value).1 ≠ none) : (s.processField field value).2 = s := by
  unfold processField at h ⊢
  split_ifs at h ⊢
  all_goals try rfl
  all_goals try exact absurd rfl h
  cases hretry : parseRetry value with
  | none => rfl
  | some delay =>
    rw [hretry] at h
    exact absurd rfl h

/-- A line has its effect on what is seen, or fails without any. -/
lemma seen_processLine (s : SseParser) (line : Bytes) :
    (s.processLine line).2.seen = (s.applyLine line).seen ∨
      (s.processLine line).1 ≠ none ∧ (s.processLine line).2.seen = s.seen := by
  unfold processLine applyLine
  dsimp only
  split_ifs
  · exact .inl rfl
  · exact .inl rfl
  · by_cases hok : (processField { s with firstLine := false }
        (fieldName (stripMark s.firstLine line)) (fieldValue (stripMark s.firstLine line))).1 = none
    · rw [processField_of_ok hok]
      exact .inl rfl
    · rw [processField_of_failed hok]
      exact .inr ⟨hok, rfl⟩

/-- After any bytes, whether the parser has failed or not, it has seen what the first of their complete
lines amount to. -/
lemma exists_lines_foldl_step {s : SseParser} (h : s.failed = none) (fed : Bytes) :
    ∃ lines, lines <+: (splitLines s.line s.skipLf fed).1 ∧
      (fed.foldl step s).seen = (lines.foldl applyLine s.core).seen := by
  induction fed generalizing s with
  | nil => exact ⟨[], List.nil_prefix, rfl⟩
  | cons c rest ih =>
    rw [List.foldl_cons, step, if_neg (by simp [h]), splitLines]
    by_cases hskip : (s.skipLf && c == lf) = true
    · rw [if_pos hskip, if_pos hskip]
      exact @ih { s with skipLf := false } h
    · rw [if_neg hskip, if_neg hskip, accept]
      by_cases hnewline : isNewline c = true
      · rw [if_pos hnewline, if_pos hnewline]
        dsimp only
        have hkept := (processLine_kept { s with skipLf := false } s.line).2.2.2.1
        have hseen := seen_processLine { s with skipLf := false } s.line
        have hcore : s.core.applyLine s.line = (applyLine { s with skipLf := false } s.line).core :=
          core_applyLine { s with skipLf := false } s.line
        rcases hprocess : processLine { s with skipLf := false } s.line with ⟨_ | e, t⟩
        · rw [hprocess] at hkept
          have hend : endLine { s with skipLf := false } s.line = t := by
            rw [endLine, if_neg (by simp [h])]
            simp only [hprocess]
          have ht : t = applyLine { s with skipLf := false } s.line :=
            hend.symm.trans (endLine_of_ok (hend ▸ hkept.trans h)).2
          obtain ⟨lines, hlines, htail⟩ :=
            @ih { t with line := [], skipLf := c == cr } (hkept.trans h)
          refine ⟨s.line :: lines, (List.cons_prefix_cons).mpr ⟨rfl, hlines⟩, ?_⟩
          rw [htail, List.foldl_cons, hcore, ← ht]
          rfl
        · rw [hprocess] at hseen
          dsimp only
          rw [foldl_step_of_failed rfl]
          rcases hseen with hseen | ⟨-, hseen⟩
          · refine ⟨[s.line], (List.cons_prefix_cons).mpr ⟨rfl, List.nil_prefix⟩, ?_⟩
            rw [List.foldl_cons, hcore]
            exact hseen
          · exact ⟨[], List.nil_prefix, hseen⟩
      · rw [if_neg hnewline, if_neg hnewline]
        split_ifs with hlimit
        · rw [foldl_step_of_failed rfl]
          exact ⟨[], List.nil_prefix, rfl⟩
        · exact @ih { s with line := s.line ++ [c], skipLf := false } h

/-- The effect of a line on the first line of a stream, where it has no byte order mark. -/
lemma applyLine_of_unmarked {s : SseParser} {line : Bytes} (h : stripMark true line = line) :
    s.applyLine line = applyLine { s with firstLine := false } line := by
  have hstrip : stripMark s.firstLine line = stripMark false line := by
    cases s.firstLine with
    | true => exact h
    | false => rfl
  unfold applyLine
  dsimp only
  rw [hstrip]

end SseParser

/-! ### The beginning of a stream -/

/-- More bytes only add lines. -/
lemma splitLines_mono {u v : Bytes} (h : u <+: v) (line : Bytes) (skipLf : Bool) :
    (splitLines line skipLf u).1 <+: (splitLines line skipLf v).1 := by
  obtain ⟨rest, rfl⟩ := h
  induction u generalizing line skipLf with
  | nil => exact List.nil_prefix
  | cons c u ih =>
    rw [List.cons_append, splitLines, splitLines]
    split_ifs
    · exact ih line false
    · exact (List.cons_prefix_cons).mpr ⟨rfl, ih [] (c == cr)⟩
    · exact ih (line ++ [c]) false

/-- The beginning of a list of blocks consists of blocks, and of the beginning of the next one. -/
lemma exists_of_prefix_flatMap {α β : Type*} {f : α → List β} {blocks : List α} {l : List β}
    (h : l <+: blocks.flatMap f) : ∃ done left part,
      blocks = done ++ left ∧ l = done.flatMap f ++ part ∧
      (part = [] ∨ ∃ block rest, left = block :: rest ∧ part <+: f block ∧ part ≠ f block) := by
  induction blocks generalizing l with
  | nil => exact ⟨[], [], [], rfl, List.prefix_nil.mp h, .inl rfl⟩
  | cons block blocks ih =>
    rw [List.flatMap_cons] at h
    rcases List.prefix_or_prefix_of_prefix h (List.prefix_append (f block) _) with hshort | ⟨l', rfl⟩
    · by_cases hall : l = f block
      · exact ⟨[block], blocks, [], rfl, by simp [hall], .inl rfl⟩
      · exact ⟨[], block :: blocks, l, rfl, rfl, .inr ⟨block, blocks, rfl, hshort, hall⟩⟩
    · obtain ⟨done, left, part, rfl, rfl, hpart⟩ := ih ((List.prefix_append_right_inj _).mp h)
      exact ⟨block :: done, left, part, rfl, by simp, hpart⟩

/-! ### The lines of an event -/

/-- A line before the end of an event: it is not blank, and gives no id but the given one.  So a
connection that is cut off between such lines has the id of this event, or the one before. -/
structure Inner (id line : Bytes) : Prop where
  nonblank : line ≠ []
  id : ∀ given ∈ idField line, given = id

/-- A line that is written for another field gives no id. -/
lemma inner_of_field (id : Bytes) {name : Bytes} (hname : name ≠ []) (hcolon : colon ∉ name)
    (hother : name ≠ bytes "id") (value : Bytes) : Inner id (name ++ (bytes ": " ++ value)) where
  nonblank h := hname (List.append_eq_nil_iff.mp h).1
  id given h := by
    rw [idField, fieldName_written hcolon, if_neg fun hid => hother hid.1] at h
    cases h

/-- The line of an id gives it. -/
lemma inner_of_id (id : Bytes) : Inner id (bytes "id" ++ (bytes ": " ++ id)) where
  nonblank h := by cases (List.append_eq_nil_iff.mp h).1
  id given h := by
    have hcolon : colon ∉ bytes "id" := by decide
    rw [idField, fieldName_written hcolon, fieldValue_written hcolon] at h
    split_ifs at h
    · cases h
      rfl
    · cases h

/-- The fields before the data. -/
lemma inner_formatFields {event : SseEvent} (h : (WriterCall.send event).Valid) :
    ∀ line ∈ linesOf (formatFields event), Inner event.id line := by
  have hclean : Clean { create {} fun _ => none with firstLine := false } := ⟨rfl, rfl, rfl, rfl⟩
  have htypeClosed := (foldl_typeField hclean (h.event event rfl)).1
  have hidClosed := (foldl_idField hclean.firstLine (h.id event rfl)).1
  intro line hline
  rw [formatFields, (htypeClosed.append hidClosed).linesOf_append, htypeClosed.linesOf_append,
    List.mem_append, List.mem_append] at hline
  rcases hline with (hline | hline) | hline
  · rw [optionalLine] at hline
    split_ifs at hline
    · cases hline
    · rw [linesOf_fieldLine (by decide +kernel) (isNewline_of_single (h.event event rfl)),
        List.mem_singleton] at hline
      rw [hline]
      exact inner_of_field _ (by decide) (by decide) (by decide) _
  · rw [optionalLine] at hline
    split_ifs at hline
    · cases hline
    · rw [linesOf_fieldLine (by decide +kernel) (isNewline_of_single (h.id event rfl)),
        List.mem_singleton] at hline
      rw [hline]
      exact inner_of_id _
  · cases hretry : event.retry with
    | none =>
      rw [hretry] at hline
      cases hline
    | some retry =>
      rw [hretry, retryLine, linesOf_fieldLine (by decide +kernel)
        (parseRetry_decimal (h.retry event rfl retry hretry)).2, List.mem_singleton] at hline
      rw [hline]
      exact inner_of_field _ (by decide) (by decide) (by decide) _

/-- The lines of data whose CRs are all before LFs; the second half is about data after a CR. -/
lemma inner_dataLines (id : Bytes) {data : Bytes} (h : crPaired data = true) :
    (∀ value, ∀ line ∈ dataLines (bytes "data: " ++ value) false data, Inner id line) ∧
      (data.head? = some lf → ∀ line ∈ dataLines [] true data, Inner id line) := by
  have hdata : ∀ value, Inner id (bytes "data: " ++ value) := fun value =>
    @inner_of_field id (bytes "data") (by decide) (by decide) (by decide) value
  induction data with
  | nil =>
    refine ⟨fun value line hline => ?_, fun hhead => by cases hhead⟩
    rw [dataLines_nil, List.mem_singleton] at hline
    exact hline ▸ hdata value
  | cons c data ih =>
    have hlf : crPaired data = true → ∀ line ∈ dataLines (bytes "data: ") false data,
        Inner id line := by
      intro hpaired
      have := (ih hpaired).1 []
      rwa [List.append_nil] at this
    constructor
    · intro value line hline
      by_cases hc : c = cr
      · subst hc
        obtain ⟨hhead, hpaired⟩ := (crPaired_cr data).mp h
        rw [dataLines_cr, List.mem_cons] at hline
        rcases hline with rfl | hline
        · exact hdata value
        · exact (ih hpaired).2 hhead line hline
      · rw [crPaired_cons hc] at h
        by_cases hc' : c = lf
        · subst hc'
          rw [dataLines_lf, List.mem_cons] at hline
          rcases hline with rfl | hline
          · exact hdata value
          · exact hlf h line hline
        · have hplain : isNewline c = false := by simp [isNewline, hc, hc']
          rw [dataLines_cons hplain, List.append_assoc] at hline
          exact (ih h).1 (value ++ [c]) line hline
    · intro hhead
      cases hhead
      rw [crPaired_cons (by decide)] at h
      rw [dataLines_cr_lf]
      exact hlf h

/-- A blank line ends an event, and it has no other. -/
lemma SseEvent.Loggable.lines {event : SseEvent} (h : event.Loggable) : ∃ inner,
    linesOf (formatSse event) = inner ++ [[]] ∧ ∀ line ∈ inner, Inner event.id line := by
  have hclean : Clean { create {} fun _ => none with firstLine := false } := ⟨rfl, rfl, rfl, rfl⟩
  refine ⟨_, (linesOf_formatSse (announced_formatFields hclean h.valid).1).2.trans
    (List.append_assoc _ _ _).symm, fun line hline => ?_⟩
  rcases List.mem_append.mp hline with hline | hline
  · exact inner_formatFields h.valid line hline
  · have := (inner_dataLines event.id h.data).1 []
    rw [List.append_nil] at this
    exact this line hline

/-- Lines before the end of an event dispatch nothing, and leave the id or give that of the event. -/
lemma foldl_applyLine_inner {s : SseParser} (hs : s.firstLine = false) {id : Bytes} {lines : List Bytes}
    (h : ∀ line ∈ lines, Inner id line) :
    (lines.foldl applyLine s).dispatched = s.dispatched ∧
      ((lines.foldl applyLine s).lastId = s.lastId ∨ (lines.foldl applyLine s).lastId = id) := by
  induction lines generalizing s with
  | nil => exact ⟨rfl, .inl rfl⟩
  | cons line lines ih =>
    obtain ⟨hblank, hid⟩ := h line List.mem_cons_self
    obtain ⟨hdispatched, hlast⟩ := ih (applyLine_firstLine s line) fun l hl =>
      h l (List.mem_cons_of_mem line hl)
    have hline : (s.applyLine line).dispatched = s.dispatched := by
      have hstrip : stripMark s.firstLine line = line := by rw [hs]; rfl
      unfold applyLine applyField
      dsimp only
      rw [hstrip, if_neg (by simpa using hblank)]
      split_ifs
      all_goals try rfl
      split <;> rfl
    refine ⟨hdispatched.trans hline, ?_⟩
    rcases hlast with hlast | hlast
    · have heffect := lastId_applyLine s line
      rw [hs, show stripMark false line = line from rfl] at heffect
      rw [List.foldl_cons, hlast, heffect]
      cases hgiven : idField line with
      | none => exact .inl rfl
      | some given => exact .inr (hid given hgiven)
    · exact .inr hlast

/-- Complete events are dispatched. -/
lemma foldl_applyLine_events {s : SseParser} (hs : s.Clean) {events : List SseEvent}
    (h : ∀ e ∈ events, e.Loggable) :
    let t := (events.flatMap fun e => linesOf (formatSse e)).foldl applyLine s
    t.Clean ∧ t.lastId = lastIdOf s.lastId events ∧
      t.dispatched = s.dispatched ++ events.map (SseEvent.expected []) := by
  induction events using List.reverseRecOn with
  | nil => exact ⟨hs, rfl, (List.append_nil _).symm⟩
  | append_singleton events e ih =>
    obtain ⟨hclean, -, hdispatched⟩ := ih fun e' he' => h e' (List.mem_append_left _ he')
    obtain ⟨hvalid, hdata, hid, -⟩ := h e (by simp)
    obtain ⟨hclean', hlast', hdispatched'⟩ := foldl_formatSse hclean hvalid hdata
    have hafter : ∀ id, idAfter id e = e.id := fun id => if_neg (by simpa using hid)
    have hexpected : ∀ id, e.expected id = e.expected [] := by
      intro id
      unfold SseEvent.expected
      rw [hafter, hafter]
    intro t
    have ht : t = (linesOf (formatSse e)).foldl applyLine
        ((events.flatMap fun e => linesOf (formatSse e)).foldl applyLine s) := by
      show (List.flatMap _ _).foldl applyLine s = _
      rw [List.flatMap_append, List.foldl_append, List.flatMap_singleton]
    rw [ht]
    refine ⟨hclean', ?_, ?_⟩
    · rw [hlast', hafter, lastIdOf, List.getLast?_concat]
      rfl
    · rw [hdispatched', hdispatched, hexpected, List.map_append, List.append_assoc]
      rfl

/-! ### One connection -/

section Connection

variable {c : SseClient} {a : Attempt} {log todo : List SseEvent}

/-- The client gets the first events that it has asked for; the id that it holds is that of the last
one, or that of the next one, if its connection was cut off there. -/
lemma SseClient.parserOf_of_heard (hlog : ∀ e ∈ todo, e.Loggable)
    (h : a.heard <+: todo.flatMap formatSse) : ∃ done left, todo = done ++ left ∧
      (c.parserOf a).dispatched = done.map (SseEvent.expected []) ∧
      ((c.parserOf a).lastId = lastIdOf c.lastId done ∨
        ∃ e rest, left = e :: rest ∧ (c.parserOf a).lastId = e.id) := by
  let start : SseParser := create c.parserOptions a.handlers
  have hclean : Clean { start with firstLine := false } := ⟨rfl, rfl, rfl, rfl⟩
  -- what the parser has seen is what the first lines of the log amount to
  obtain ⟨fed, hfed, hsame⟩ := c.parserOf_same a
  obtain ⟨lines, hlines, hseen⟩ := @exists_lines_foldl_step start rfl fed
  have hobserved : (c.parserOf a).seen = (lines.foldl applyLine start).seen :=
    (Prod.ext (congrArg Observation.dispatched hsame.observe)
      (congrArg Observation.lastId hsame.observe)).trans hseen
  have hcalls : todo.flatMap formatSse = (todo.map WriterCall.send).flatMap WriterCall.written := by
    rw [List.flatMap_map]
    rfl
  have htext := completeLines_written (todo.map WriterCall.send)
  have hwritten : linesOf (todo.flatMap formatSse) = todo.flatMap fun e => linesOf (formatSse e) := by
    rw [hcalls, linesOf_flatMap_written hclean, List.flatMap_map]
    · rfl
    · intro call hcall
      obtain ⟨e, he, rfl⟩ := List.mem_map.mp hcall
      exact (hlog e he).valid
  rw [← hcalls] at htext
  have hbegin : lines <+: linesOf (todo.flatMap formatSse) :=
    hlines.trans (splitLines_mono (hfed.trans h) [] false)
  have hunmarked : (lines.foldl applyLine start).seen =
      (lines.foldl applyLine { start with firstLine := false }).seen := by
    cases lines with
    | nil => rfl
    | cons first rest =>
      obtain ⟨more, hmore⟩ := hbegin
      rw [List.cons_append] at hmore
      rw [linesOf] at hmore htext
      rw [completeLines, ← hmore] at htext
      rw [List.foldl_cons, List.foldl_cons, applyLine_of_unmarked (List.cons.inj htext).1]
  rw [hwritten] at hbegin
  obtain ⟨done, left, part, rfl, rfl, hpart⟩ := exists_of_prefix_flatMap hbegin
  obtain ⟨hdone, hlast, hdispatched⟩ := foldl_applyLine_events hclean fun e he =>
    hlog e (List.mem_append_left left he)
  have hstate : (c.parserOf a).seen = (part.foldl applyLine
      ((done.flatMap fun e => linesOf (formatSse e)).foldl applyLine
        { start with firstLine := false })).seen := by
    rw [hobserved, hunmarked, List.foldl_append]
  generalize (done.flatMap fun e => linesOf (formatSse e)).foldl applyLine
    { start with firstLine := false } = t at hdone hlast hdispatched hstate
  have hevents : t.dispatched = done.map (SseEvent.expected []) :=
    hdispatched.trans (List.nil_append _)
  have hheld : t.lastId = lastIdOf c.lastId done := hlast
  rcases hpart with rfl | ⟨e, rest, rfl, hpart, hshort⟩
  · obtain ⟨hfirst, hsecond⟩ := Prod.ext_iff.mp hstate
    exact ⟨done, left, rfl, hfirst.trans hevents, .inl (hsecond.trans hheld)⟩
  · obtain ⟨inner, hinner, hall⟩ := (hlog e (by simp)).lines
    have hwithin : part <+: inner := by
      rw [hinner, List.prefix_concat_iff, ← hinner] at hpart
      exact hpart.resolve_left hshort
    obtain ⟨hkept, hid⟩ := foldl_applyLine_inner hdone.firstLine fun line hline =>
      hall line (hwithin.subset hline)
    obtain ⟨hfirst, hsecond⟩ := Prod.ext_iff.mp hstate
    refine ⟨done, e :: rest, rfl, (hfirst.trans hkept).trans hevents, ?_⟩
    rcases hid with hid | hid
    · exact .inl ((hsecond.trans hid).trans hheld)
    · exact .inr ⟨e, rest, rfl, hsecond.trans hid⟩

/-- Behind an event the log goes on with what comes after it. -/
lemma resumeAfter_of_split {before after : List SseEvent} {e : SseEvent}
    (hdistinct : ((before ++ e :: after).map SseEvent.id).Nodup) :
    resumeAfter (before ++ e :: after) e.id = after := by
  have hfound : (before ++ e :: after).any (fun f => f.id == e.id) = true := by simp
  have hbefore : ∀ f ∈ before, (f.id != e.id) = true := by
    intro f hf
    rw [List.map_append, List.map_cons, List.nodup_append] at hdistinct
    simpa using hdistinct.2.2 f.id (List.mem_map_of_mem hf) e.id List.mem_cons_self
  rw [resumeAfter, if_pos hfound, List.dropWhile_append_of_pos hbefore,
    List.dropWhile_cons_of_neg (by simp), List.tail_cons]

/-- What is asked for is the end of the log. -/
lemma resumeAfter_suffix (log : List SseEvent) (id : Bytes) : resumeAfter log id <:+ log := by
  unfold resumeAfter
  split_ifs
  · exact (List.tail_suffix _).trans (List.dropWhile_suffix _)
  · exact List.suffix_refl log

/-- Behind events that were asked for, the log goes on with the others. -/
lemma resumeAfter_of_resumed (hdistinct : (log.map SseEvent.id).Nodup) {id : Bytes}
    {done left : List SseEvent} {e : SseEvent} (h : resumeAfter log id = done ++ e :: left) :
    resumeAfter log e.id = left := by
  obtain ⟨before, hbefore⟩ := resumeAfter_suffix log id
  rw [h, ← List.append_assoc] at hbefore
  rw [← hbefore] at hdistinct ⊢
  exact resumeAfter_of_split hdistinct

/-- The request names the id that the client holds. -/
lemma SseClient.requestedId_eq (h : c.headers.contains (bytes "Last-Event-ID") = false) :
    c.requestedId = trimOws c.lastId := by
  rw [SseClient.requestedId, SseClient.requestHeaders, Headers.findHeader_eq_head?]
  split_ifs with hempty
  · rw [Headers.getAll_set_of_ne _ (by decide), Headers.getAll_set_of_ne _ (by decide),
      (Headers.contains_eq_false_iff).mp h, List.isEmpty_iff.mp hempty]
    rfl
  · rw [Headers.getAll_set_self]
    rfl

/-- What an attempt leaves of the client. -/
lemma SseClient.attempt_kept (c : SseClient) (a : Attempt) :
    (∀ c', c.attempt a = .again c' → c'.headers = c.headers ∧ c'.lastId = (c.parserOf a).lastId ∧
      c'.received = c.received ++ (c.parserOf a).dispatched) ∧
    ∀ e c', c.attempt a = .leave (e, c') → c'.headers = c.headers ∧
      c'.lastId = (c.parserOf a).lastId ∧
      c'.received = c.received ++ (c.parserOf a).dispatched := by
  obtain ⟨hdispatched, hlast, -⟩ := finishReceiving_kept a.runningAtEnd (c.receiving a)
  unfold SseClient.attempt
  dsimp only
  rw [hdispatched, hlast]
  constructor
  · intro c' h
    split_ifs at h
    cases h
    exact ⟨rfl, rfl, rfl⟩
  · intro e c' h
    split_ifs at h
    all_goals
      cases h
      exact ⟨rfl, rfl, rfl⟩

/-- One attempt: the client resumes behind what it has consumed, of which it misses an event only if its
connection was cut off. -/
lemma SseClient.attempt_resumes (hlog : ∀ e ∈ log, e.Loggable)
    (hdistinct : (log.map SseEvent.id).Nodup)
    (hheaders : c.headers.contains (bytes "Last-Event-ID") = false)
    (h : a.heard <+: (resumeAfter log c.requestedId).flatMap formatSse) {c' : SseClient}
    (hkept : c'.headers = c.headers ∧ c'.lastId = (c.parserOf a).lastId ∧
      c'.received = c.received ++ (c.parserOf a).dispatched) :
    ∃ consumed got : List SseEvent,
      resumeAfter log c.requestedId = consumed ++ resumeAfter log c'.requestedId ∧
      got.Sublist consumed ∧ consumed.length ≤ got.length + (if c.cutOff a then 1 else 0) ∧
      c'.received = c.received ++ got.map (SseEvent.expected []) := by
  obtain ⟨hsame, hlast, hreceived⟩ := hkept
  have htodo : ∀ e ∈ resumeAfter log c.requestedId, e.Loggable := fun e he =>
    hlog e ((resumeAfter_suffix log _).subset he)
  obtain ⟨done, left, hsplit, hdispatched, hid⟩ := SseClient.parserOf_of_heard htodo h
  have hnext : c'.requestedId = trimOws (c.parserOf a).lastId := by
    rw [SseClient.requestedId_eq (by rw [hsame]; exact hheaders), hlast]
  have hbehind : ∀ before after e, resumeAfter log c.requestedId = before ++ e :: after →
      (c.parserOf a).lastId = e.id → resumeAfter log c'.requestedId = after := by
    intro before after e hresumed hheld
    rw [hnext, hheld, (htodo e (by rw [hresumed]; simp)).id.2]
    exact resumeAfter_of_resumed hdistinct hresumed
  have hexpected : lastIdOf c.lastId (done.map (SseEvent.expected [])) = lastIdOf c.lastId done := by
    rw [lastIdOf, lastIdOf, List.getLast?_map]
    cases hend : done.getLast? with
    | none => rfl
    | some e =>
      have he := (htodo e (by rw [hsplit]; simp [List.mem_of_getLast? hend])).id.1
      exact if_neg (by simpa using he)
  rw [hdispatched] at hreceived
  cases hcut : c.cutOff a with
  | false =>
    have hheld : (c.parserOf a).lastId = lastIdOf c.lastId done := by
      rw [SseClient.cutOff, hdispatched, hexpected] at hcut
      simpa using hcut
    refine ⟨done, done, ?_, List.Sublist.refl done, Nat.le_add_right _ _, hreceived⟩
    rcases List.eq_nil_or_concat done with rfl | ⟨before, e, rfl⟩
    · rw [hnext, hheld, SseClient.requestedId_eq hheaders]
      rfl
    · rw [List.concat_eq_append] at hsplit hheld ⊢
      rw [lastIdOf, List.getLast?_concat] at hheld
      rw [hbehind before left e (by rw [hsplit, List.append_assoc]; rfl) hheld, hsplit]
  | true =>
    have hother : (c.parserOf a).lastId ≠ lastIdOf c.lastId done := by
      rw [SseClient.cutOff, hdispatched, hexpected] at hcut
      simpa using hcut
    obtain ⟨e, rest, rfl, hheld⟩ := hid.resolve_left hother
    refine ⟨done ++ [e], done, ?_, List.sublist_append_left _ _, ?_, hreceived⟩
    · rw [hbehind done rest e hsplit hheld, hsplit, List.append_assoc]
      rfl
    · rw [List.length_append, List.length_singleton, if_pos rfl]

/-- However connections end and attempts fail, a client of a server that keeps a log gets the events in
order and none of them twice, and its next request continues exactly behind what it has consumed.  The
events that it misses are at most one for each connection that was cut off behind the id of an event;
without such a connection it misses none. -/
theorem resumes_in_order (log : List SseEvent) (hlog : ∀ e ∈ log, e.Loggable)
    (hdistinct : (log.map SseEvent.id).Nodup) (c : SseClient)
    (hheaders : c.headers.contains (bytes "Last-Event-ID") = false) (attempts : List Attempt)
    (hserves : Serves log c attempts) :
    ∃ consumed got : List SseEvent,
      resumeAfter log c.requestedId = consumed ++ resumeAfter log (c.attempts attempts).requestedId ∧
      got.Sublist consumed ∧ consumed.length ≤ got.length + c.cutOffs attempts ∧
      (c.cutOffs attempts = 0 → got = consumed) ∧
      (c.attempts attempts).received = c.received ++ got.map (SseEvent.expected []) := by
  have hrun : ∃ consumed got : List SseEvent,
      resumeAfter log c.requestedId = consumed ++ resumeAfter log (c.attempts attempts).requestedId ∧
      got.Sublist consumed ∧ consumed.length ≤ got.length + c.cutOffs attempts ∧
      (c.attempts attempts).received = c.received ++ got.map (SseEvent.expected []) := by
    induction attempts generalizing c with
    | nil => exact ⟨[], [], rfl, .slnil, Nat.zero_le _, (List.append_nil _).symm⟩
    | cons a rest ih =>
      obtain ⟨hheard, hrest⟩ := hserves
      obtain ⟨hagain, hleave⟩ := c.attempt_kept a
      rw [SseClient.attempts, SseClient.cutOffs]
      cases hstep : c.attempt a with
      | leave r =>
        obtain ⟨e, c'⟩ := r
        exact SseClient.attempt_resumes hlog hdistinct hheaders hheard (hleave e c' hstep)
      | again c' =>
        obtain ⟨consumed, got, hconsumed, hgot, hmissed, hreceived⟩ :=
          SseClient.attempt_resumes hlog hdistinct hheaders hheard (hagain c' hstep)
        rw [hstep] at hrest
        obtain ⟨consumed', got', hconsumed', hgot', hmissed', hreceived'⟩ :=
          ih c' (by rw [(hagain c' hstep).1]; exact hheaders) hrest
        refine ⟨consumed ++ consumed', got ++ got', ?_, hgot.append hgot', ?_, ?_⟩
        · rw [hconsumed, hconsumed', List.append_assoc]
        · dsimp only
          rw [List.length_append, List.length_append]
          omega
        · rw [hreceived', hreceived, List.map_append, List.append_assoc]
  obtain ⟨consumed, got, hconsumed, hgot, hmissed, hreceived⟩ := hrun
  exact ⟨consumed, got, hconsumed, hgot, hmissed, fun hnone => hgot.eq_of_length_le (by omega),
    hreceived⟩

/-- A log of three events. -/
def threeEvents : List SseEvent :=
  [{ data := bytes "a", id := bytes "1" }, { data := bytes "b", id := bytes "2" },
    { data := bytes "c", id := bytes "3" }]

/-- The head of an event stream. -/
def streamHead : Callback :=
  .head { status := 200, headers := [(bytes "Content-Type", bytes "text/event-stream")] }

/-- A connection that ends within the second event, before its id is complete, an attempt that fails,
and a connection that ends behind the id of the third event. -/
def threeAttempts : List Attempt :=
  [{ callbacks := [streamHead, .data (bytes "id: 1\ndata: a") true, .data (bytes "\n\nid: 2") true] },
    { result := some { code := .connect, message := "refused" } },
    { callbacks := [streamHead, .data (bytes "id: 2\ndata: b\n\nid: 3\nda") true] }]

/-- Three requests, after which the third event is lost. -/
theorem resumes_in_order_three :
    ∃ consumed got : List SseEvent,
      threeEvents =
        consumed ++ resumeAfter threeEvents (SseClient.attempts {} threeAttempts).requestedId ∧
      got.Sublist consumed ∧ consumed.length ≤ got.length + 1 ∧
      (SseClient.attempts {} threeAttempts).received = got.map (SseEvent.expected []) := by
  obtain ⟨consumed, got, hconsumed, hgot, hmissed, -, hreceived⟩ := resumes_in_order threeEvents
    (by
      intro e he
      fin_cases he
      all_goals
        refine ⟨⟨?_, ?_, ?_⟩, by decide, by decide, by decide +kernel⟩ <;> rintro e ⟨rfl⟩
        · decide +kernel
        · decide +kernel
        · rintro r ⟨⟩)
    (by decide) {} rfl threeAttempts (by decide +kernel)
  exact ⟨consumed, got, hconsumed, hgot, hmissed.trans (by
    have : SseClient.cutOffs {} threeAttempts = 1 := by decide +kernel
    omega), hreceived⟩

end Connection

end Chhttp.Sse
