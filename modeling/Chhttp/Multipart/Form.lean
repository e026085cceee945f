import Chhttp.Multipart.Parser

/-!
# Multipart forms

What a multipart body means, without a buffer, a position or a state: `form` reads a whole body from
behind its first delimiter on.  A delimiter is a line with the boundary whose next two bytes are CR
LF or two dashes (`delimits`); the first line may start the body, as if a CR LF were before it.

The meaning of a body is a list of events in which the content of a part is one event, or none if it
is empty.  `joinData` brings the events of a parser to this form.
-/

namespace Chhttp.Multipart

open MultipartParser

/-! ### Events -/

/-- Two adjacent pieces of the content of one part are joined. -/
def consEvent (e : MultipartEvent) : List MultipartEvent → List MultipartEvent
  | [] => [e]
  | f :: events =>
    if e.type = .partData ∧ f.type = .partData ∧ e.partIndex = f.partIndex then
      { e with data := e.data ++ f.data } :: events
    else e :: f :: events

/-- The adjacent pieces of the content of one part are joined. -/
def joinData (events : List MultipartEvent) : List MultipartEvent := events.foldr consEvent []

/-- The events of the content of a part. -/
def dataEvents (partIndex : ℕ) (data : Bytes) : List MultipartEvent :=
  if data.isEmpty then [] else [{ type := .partData, partIndex, data }]

/-- Joining goes from the end. -/
lemma joinData_append (u v : List MultipartEvent) : joinData (u ++ v) = u.foldr consEvent (joinData v) := by
  rw [joinData, List.foldr_append, joinData]

/-- Content can be delivered in pieces. -/
lemma joinData_dataEvents (partIndex : ℕ) (a b : Bytes) (events : List MultipartEvent) :
    joinData (dataEvents partIndex (a ++ b) ++ events) =
      joinData (dataEvents partIndex a ++ (dataEvents partIndex b ++ events)) := by
  cases a with
  | nil => rfl
  | cons x a =>
    cases b with
    | nil => rw [List.append_nil]; rfl
    | cons y b =>
      have hone : ∀ z c, joinData (dataEvents partIndex (z :: c) ++ events) =
          consEvent { type := .partData, partIndex, data := z :: c } (joinData events) :=
        fun z c => rfl
      have htwo : joinData (dataEvents partIndex (x :: a) ++ (dataEvents partIndex (y :: b) ++ events)) =
          consEvent { type := .partData, partIndex, data := x :: a }
            (consEvent { type := .partData, partIndex, data := y :: b } (joinData events)) := rfl
      rw [htwo, List.cons_append, hone]
      cases joinData events with
      | nil => simp [consEvent]
      | cons f rest =>
        by_cases hf : f.type = .partData ∧ partIndex = f.partIndex
        · simp [consEvent, hf]
        · simp [consEvent, hf]

/-! ### Delimiters -/

/-- A delimiter with a valid ending. -/
def delimits (delimiter w : Bytes) : Bool :=
  delimiter.isPrefixOf w && validEnding ((w.drop delimiter.length).take 2)

/-- What is before the first delimiter, and what is behind it. -/
def untilDelimiter (delimiter w : Bytes) : Option (Bytes × Bytes) :=
  (ListSearch.cut (delimits delimiter) w).map fun r => (r.1, r.2.drop delimiter.length)

/-- A delimiter and its ending take space. -/
lemma length_of_delimits {delimiter w : Bytes} (h : delimits delimiter w = true) :
    delimiter.length + 2 ≤ w.length := by
  simp only [delimits, validEnding, Bool.and_eq_true, Bool.or_eq_true, beq_iff_eq] at h
  have hlength : ((w.drop delimiter.length).take 2).length = 2 := by
    obtain ⟨-, hending | hending⟩ := h <;> rw [hending] <;> rfl
  rw [List.length_take, List.length_drop] at hlength
  omega

/-- The first delimiter. -/
lemma untilDelimiter_of_first {delimiter w : Bytes} {n : ℕ}
    (hfirst : ∀ m < n, delimits delimiter (w.drop m) = false)
    (h : delimits delimiter (w.drop n) = true) :
    untilDelimiter delimiter w = some (w.take n, w.drop (n + delimiter.length)) := by
  have hn := length_of_delimits h
  rw [List.length_drop] at hn
  have hcut : ListSearch.cut (delimits delimiter) w = some (w.take n, w.drop n) := by
    refine (ListSearch.cut_eq_some_iff).mpr ⟨(List.take_append_drop n w).symm, h, fun m hm => ?_⟩
    rw [List.length_take] at hm
    exact hfirst m (by omega)
  rw [untilDelimiter, hcut, Option.map_some, List.drop_drop]

/-- What is found is a delimiter. -/
lemma untilDelimiter_eq_some {delimiter w content rest : Bytes}
    (h : untilDelimiter delimiter w = some (content, rest)) :
    delimits delimiter (w.drop content.length) = true ∧
      (∀ m < content.length, delimits delimiter (w.drop m) = false) ∧
      w = content ++ (delimiter ++ rest) := by
  obtain ⟨⟨a, b⟩, hcut, heq⟩ := Option.map_eq_some_iff.mp h
  cases heq
  obtain ⟨rfl, hb, hmin⟩ := (ListSearch.cut_eq_some_iff).mp hcut
  refine ⟨by rwa [List.drop_left], hmin, ?_⟩
  simp only [delimits, Bool.and_eq_true, List.isPrefixOf_iff_prefix] at hb
  dsimp only
  rw [← List.prefix_append_drop hb.1]

/-- A content goes on behind a prefix in which no delimiter starts. -/
lemma untilDelimiter_append {delimiter a b : Bytes}
    (h : ∀ m < a.length, delimits delimiter ((a ++ b).drop m) = false) :
    untilDelimiter delimiter (a ++ b) =
      (untilDelimiter delimiter b).map fun r => (a ++ r.1, r.2) := by
  rw [untilDelimiter, ListSearch.cut_append h, untilDelimiter, Option.map_map, Option.map_map]
  rfl

/-! ### Forms -/

section Form

variable (options : MultipartParserOptions) (delimiter : Bytes)

/-- The head of a part, and what is behind it. -/
def partHead (w : Bytes) : Option (MultipartPart × Bytes) :=
  (ListSearch.find crlfCrlf w).bind fun headEnd =>
    if options.maxHeaderSize < headEnd then none
    else
      match parsePartHead (w.take headEnd) with
      | .error _ => none
      | .ok part => some (part, w.drop (headEnd + 4))

/-- Where a head ends. -/
lemma partHead_eq_some {w rest : Bytes} {part : MultipartPart}
    (h : partHead options w = some (part, rest)) :
    ∃ headEnd, ListSearch.find crlfCrlf w = some headEnd ∧
      parsePartHead (w.take headEnd) = .ok part ∧ rest = w.drop (headEnd + 4) := by
  obtain ⟨headEnd, hfind, h⟩ := Option.bind_eq_some_iff.mp h
  split_ifs at h
  split at h
  · cases h
  · rename_i hparse
    cases h
    exact ⟨headEnd, hfind, hparse, rfl⟩

/-- A head takes space. -/
lemma length_of_partHead {w rest : Bytes} {part : MultipartPart}
    (h : partHead options w = some (part, rest)) : rest.length < w.length := by
  obtain ⟨headEnd, hfind, -, rfl⟩ := partHead_eq_some options h
  have hfit := ListSearch.find_add_length_le hfind
  have hlength : crlfCrlf.length = 4 := rfl
  rw [List.length_drop]
  omega

/-- The rest is shorter. -/
lemma length_of_untilDelimiter {w content rest : Bytes}
    (h : untilDelimiter delimiter w = some (content, rest)) : rest.length ≤ w.length := by
  rw [(untilDelimiter_eq_some h).2.2, List.length_append, List.length_append]
  omega

/-- The events of a form from behind a delimiter on, where `partIndex` parts of `total` bytes are
before it. -/
def form (partIndex total : ℕ) (w : Bytes) : Option (List MultipartEvent) :=
  if dashes.isPrefixOf w then some []
  else if crlf.isPrefixOf w then
    match _hhead : partHead options (w.drop 2) with
    | none => none
    | some (part, body) =>
      if options.maxParts ≤ partIndex then none
      else
        match hbody : untilDelimiter delimiter body with
        | none => none
        | some (content, rest) =>
          if options.maxPartSize < content.length ∨ options.maxTotalSize < total + content.length then
            none
          else
            (form (partIndex + 1) (total + content.length) rest).map fun events =>
              { type := .partBegin, partIndex, part } ::
                (dataEvents partIndex content ++ { type := .partEnd, partIndex, part } :: events)
  else none
termination_by w.length
decreasing_by
  have := length_of_partHead options _hhead
  have := length_of_untilDelimiter delimiter hbody
  rw [List.length_drop] at *
  omega

/-- The events of a form in the content of a part of which `size` bytes have been delivered. -/
def formBody (partIndex : ℕ) (part : MultipartPart) (size total : ℕ) (w : Bytes) :
    Option (List MultipartEvent) :=
  (untilDelimiter delimiter w).bind fun r =>
    if options.maxPartSize < size + r.1.length ∨ options.maxTotalSize < total + r.1.length then none
    else
      (form options delimiter (partIndex + 1) (total + r.1.length) r.2).map fun events =>
        dataEvents partIndex r.1 ++ { type := .partEnd, partIndex, part } :: events

/-- The events of a form from the head of a part on. -/
def formHead (partIndex total : ℕ) (w : Bytes) : Option (List MultipartEvent) :=
  (partHead options w).bind fun r =>
    if options.maxParts ≤ partIndex then none
    else
      (formBody options delimiter partIndex r.1 0 total r.2).map fun events =>
        { type := .partBegin, partIndex, part := r.1 } :: events

/-- A form is over, or it has another part. -/
lemma form_eq (partIndex total : ℕ) (w : Bytes) :
    form options delimiter partIndex total w =
      if dashes.isPrefixOf w then some []
      else if crlf.isPrefixOf w then formHead options delimiter partIndex total (w.drop 2)
      else none := by
  rw [form]
  by_cases hdashes : dashes.isPrefixOf w = true
  · rw [if_pos hdashes, if_pos hdashes]
  rw [if_neg hdashes, if_neg hdashes]
  by_cases hcrlf : crlf.isPrefixOf w = true
  · rw [if_pos hcrlf, if_pos hcrlf, formHead]
    split
    · rename_i hhead
      rw [hhead]
      rfl
    · rename_i part body hhead
      rw [hhead, Option.bind_some]
      dsimp only
      by_cases hparts : options.maxParts ≤ partIndex
      · rw [if_pos hparts, if_pos hparts]
      rw [if_neg hparts, if_neg hparts, formBody]
      split
      · rename_i hbody
        rw [hbody]
        rfl
      · rename_i content rest hbody
        rw [hbody, Option.bind_some]
        dsimp only
        rw [Nat.zero_add]
        split_ifs
        · rfl
        · rw [Option.map_map]
          rfl
  · rw [if_neg hcrlf, if_neg hcrlf]

/-- What a form can be: it is over, or it has a part and goes on behind the next delimiter. -/
lemma form_eq_some {partIndex total : ℕ} {w : Bytes} {events : List MultipartEvent}
    (h : form options delimiter partIndex total w = some events) :
    (dashes <+: w ∧ events = []) ∨ ∃ r part body content rest events', w = crlf ++ r ∧
      partHead options r = some (part, body) ∧
      untilDelimiter delimiter body = some (content, rest) ∧
      form options delimiter (partIndex + 1) (total + content.length) rest = some events' ∧
      events = { type := .partBegin, partIndex, part } ::
        (dataEvents partIndex content ++ { type := .partEnd, partIndex, part } :: events') := by
  rw [form_eq] at h
  by_cases hdashes : dashes.isPrefixOf w = true
  · rw [if_pos hdashes] at h
    cases h
    exact .inl ⟨List.isPrefixOf_iff_prefix.mp hdashes, rfl⟩
  rw [if_neg hdashes] at h
  by_cases hcrlf : crlf.isPrefixOf w = true
  · rw [if_pos hcrlf] at h
    obtain ⟨r, rfl⟩ := List.isPrefixOf_iff_prefix.mp hcrlf
    obtain ⟨⟨part, body⟩, hhead, h⟩ := Option.bind_eq_some_iff.mp h
    split_ifs at h
    obtain ⟨events', hbody, rfl⟩ := Option.map_eq_some_iff.mp h
    obtain ⟨⟨content, rest⟩, hcut, hbody⟩ := Option.bind_eq_some_iff.mp hbody
    split_ifs at hbody
    obtain ⟨events, hrest, rfl⟩ := Option.map_eq_some_iff.mp hbody
    exact .inr ⟨r, part, body, content, rest, events, rfl, hhead, hcut, hrest, rfl⟩
  · rw [if_neg hcrlf] at h
    cases h

/-- The events of a whole body, with its preamble. -/
def formEvents (w : Bytes) : Option (List MultipartEvent) :=
  (untilDelimiter delimiter (crlf ++ w)).bind fun r =>
    if options.maxHeaderSize < r.1.length then none else form options delimiter 0 0 r.2

end Form

end Chhttp.Multipart
