import Chhttp.Multipart.WriterRoundTrip

/-!
# The announced length of a multipart body

`content_length` adds up the sizes of the prefixes, contents and delimiters, and stops at a part
without a size or at a sum beyond 64 bits.  When the producers write what they declared, it is the
length of what `write` writes (`contentLength_eq_length`).
-/

namespace Chhttp.Multipart

open MultipartWriter

/-! ### The source -/

namespace MultipartWriter

/-- `add` of `content_length`: nothing, where the sum does not fit. -/
def addLength (total value : ℕ) : Option ℕ :=
  if uint64Limit - 1 - total < value then none else some (total + value)

/-- The loop of `content_length`, and the closing delimiter. -/
def lengthOfParts (boundary : Bytes) : List WriterPart → ℕ → Option ℕ
  | [], total => addLength total (boundary.length + 6)
  | part :: parts, total =>
    match part.size with
    | none => none
    | some size =>
      ((addLength total (partPrefix boundary part).length).bind fun total =>
        (addLength total size).bind fun total => addLength total 2).bind
          (lengthOfParts boundary parts)

/-- `content_length`: the sum over the parts, or none if a size is not known or the sum exceeds 64
bits. -/
def contentLength (writer : MultipartWriter) : Option ℕ :=
  lengthOfParts writer.boundary writer.parts 0

end MultipartWriter

/-! ### Sums -/

/-- The sum, where it fits into 64 bits. -/
def fitting (total : ℕ) : Option ℕ := if total < uint64Limit then some total else none

/-- A checked sum of what fits. -/
lemma addLength_eq {total : ℕ} (h : total < uint64Limit) (value : ℕ) :
    addLength total value = fitting (total + value) := by
  rw [addLength, fitting]
  by_cases hfit : total + value < uint64Limit
  · rw [if_pos hfit, if_neg (by omega)]
  · rw [if_neg hfit, if_pos (by omega)]

/-- A sum that goes on. -/
lemma fitting_bind {total : ℕ} {next : ℕ → Option ℕ} {value : ℕ}
    (h : total < uint64Limit → next total = fitting (total + value)) :
    (fitting total).bind next = fitting (total + value) := by
  rw [fitting]
  by_cases hfit : total < uint64Limit
  · rw [if_pos hfit, Option.bind_some, h hfit]
  · rw [if_neg hfit, Option.bind_none, fitting, if_neg (by omega)]

/-- The length of what is written for a part, with its size. -/
def partLength (boundary : Bytes) (part : WriterPart) (size : ℕ) : ℕ :=
  (partPrefix boundary part).length + size + 2

/-- The sum that `content_length` computes. -/
def sumOfParts (boundary : Bytes) (parts : List WriterPart) : ℕ :=
  (parts.map fun part => partLength boundary part (part.size.getD 0)).sum + (boundary.length + 6)

/-- The loop computes the sum, if all parts have a size and the sum fits. -/
lemma lengthOfParts_eq {boundary : Bytes} {parts : List WriterPart}
    (h : ∀ part ∈ parts, part.size ≠ none) {total : ℕ} (htotal : total < uint64Limit) :
    lengthOfParts boundary parts total = fitting (total + sumOfParts boundary parts) := by
  induction parts generalizing total with
  | nil =>
    rw [lengthOfParts, addLength_eq htotal, sumOfParts, List.map_nil, List.sum_nil, Nat.zero_add]
  | cons part parts ih =>
    have hparts := fun p hp => h p (List.mem_cons_of_mem _ hp)
    cases hsize : part.size with
    | none => exact absurd hsize (h part List.mem_cons_self)
    | some size =>
      have hpart : ((addLength total (partPrefix boundary part).length).bind fun total =>
          (addLength total size).bind fun total => addLength total 2) =
            fitting (total + partLength boundary part size) := by
        rw [addLength_eq htotal, partLength, Nat.add_assoc (partPrefix boundary part).length,
          ← Nat.add_assoc total]
        refine fitting_bind fun hprefix => ?_
        rw [addLength_eq hprefix, ← Nat.add_assoc]
        exact fitting_bind fun hcontent => addLength_eq hcontent 2
      have hsum : sumOfParts boundary (part :: parts) =
          partLength boundary part size + sumOfParts boundary parts := by
        rw [sumOfParts, sumOfParts, List.map_cons, List.sum_cons, hsize, Option.getD_some,
          Nat.add_assoc]
      rw [lengthOfParts]
      simp only [hsize, hpart]
      rw [hsum, ← Nat.add_assoc]
      exact fitting_bind fun hfit => ih hparts hfit

/-- Nothing is announced when a part has no size. -/
lemma lengthOfParts_eq_none {boundary : Bytes} {parts : List WriterPart} {part : WriterPart}
    (hpart : part ∈ parts) (hsize : part.size = none) (total : ℕ) :
    lengthOfParts boundary parts total = none := by
  induction parts generalizing total with
  | nil => cases hpart
  | cons first parts ih =>
    rw [lengthOfParts]
    rcases List.mem_cons.mp hpart with rfl | hpart
    · rw [hsize]
    · split
      · rfl
      · rw [Option.bind_eq_none_iff]
        exact fun total _ => ih hpart total

/-! ### What is written -/

/-- A producer writes exactly the size that was declared for it.  A part without a declared size, or
without a producer, is not concerned. -/
def WritesDeclared (part : WriterPart) : Prop :=
  ∀ producer size, part.producer = some producer → part.size = some size →
    (producer.run accepting []).2.length = size

/-- The size of a part is the length of its content. -/
lemma length_content {part : WriterPart} (hadded : Added part) (hdeclared : WritesDeclared part)
    {size : ℕ} (hsize : part.size = some size) : part.content.length = size := by
  rw [WriterPart.content]
  cases hproducer : part.producer with
  | none =>
    rw [hadded.size hproducer, Option.some.injEq] at hsize
    exact hsize
  | some producer => exact hdeclared producer size hproducer hsize

/-- The length of what is written from a boundary on is the sum. -/
lemma length_writtenFrom {boundary : Bytes} {parts : List WriterPart}
    (hadded : ∀ part ∈ parts, Added part) (hdeclared : ∀ part ∈ parts, WritesDeclared part)
    (hsizes : ∀ part ∈ parts, part.size ≠ none) :
    (dashes ++ boundary ++ writtenFrom boundary parts).length = sumOfParts boundary parts := by
  induction parts with
  | nil =>
    rw [writtenFrom, sumOfParts, List.map_nil, List.sum_nil, List.length_append, List.length_append,
      List.length_append]
    have hdashes : dashes.length = 2 := rfl
    rw [crlf_length]
    omega
  | cons part parts ih =>
    have hih := ih (fun p hp => hadded p (List.mem_cons_of_mem _ hp))
      (fun p hp => hdeclared p (List.mem_cons_of_mem _ hp))
      fun p hp => hsizes p (List.mem_cons_of_mem _ hp)
    obtain ⟨size, hsize⟩ := Option.ne_none_iff_exists'.mp (hsizes part List.mem_cons_self)
    have hcontent := length_content (hadded part List.mem_cons_self)
      (hdeclared part List.mem_cons_self) hsize
    rw [writtenFrom, sumOfParts, List.map_cons, List.sum_cons, hsize, Option.getD_some, partLength,
      partPrefix]
    rw [sumOfParts] at hih
    simp only [List.length_append, crlf_length] at hih ⊢
    omega

/-- The announced length is the length of what is written: it is absent exactly when some part has
no size, or when the length does not fit into 64 bits. -/
theorem contentLength_eq_length {random boundary : Bytes} {additions : List Addition}
    {writer : MultipartWriter} {body : Bytes}
    (hadded : additions.foldlM add (MultipartWriter.create random boundary) = .ok writer)
    (hdeclared : ∀ part ∈ writer.parts, WritesDeclared part)
    (hwritten : writer.write.run accepting [] = (none, body)) :
    (writer.contentLength = none ↔
      (∃ part ∈ writer.parts, part.size = none) ∨ 2 ^ 64 - 1 < body.length) ∧
    ∀ length, writer.contentLength = some length → length = body.length := by
  obtain ⟨-, hparts⟩ := foldlM_add hadded fun part hpart => absurd hpart List.not_mem_nil
  have hbody := run_writeParts hwritten
  rw [List.nil_append] at hbody
  by_cases hsizes : ∃ part ∈ writer.parts, part.size = none
  · obtain ⟨part, hpart, hsize⟩ := hsizes
    have hnone : writer.contentLength = none := lengthOfParts_eq_none hpart hsize 0
    refine ⟨iff_of_true hnone (.inl ⟨part, hpart, hsize⟩), fun length hlength => ?_⟩
    rw [hnone] at hlength
    cases hlength
  · push Not at hsizes
    have hlength : writer.contentLength = fitting body.length := by
      rw [contentLength, lengthOfParts_eq hsizes (by decide), Nat.zero_add, hbody,
        length_writtenFrom hparts hdeclared hsizes]
    have hlimit : uint64Limit = 2 ^ 64 := rfl
    rw [hlength, fitting]
    by_cases hfit : body.length < uint64Limit
    · rw [if_pos hfit]
      refine ⟨iff_of_false (by simp) ?_, fun length hsome => ?_⟩
      · rintro (⟨part, hpart, hsize⟩ | hlarge)
        · exact hsizes part hpart hsize
        · omega
      · rw [Option.some.injEq] at hsome
        exact hsome.symm
    · rw [if_neg hfit]
      exact ⟨iff_of_true rfl (.inr (by omega)), fun length hsome => nomatch hsome⟩

/-- A writer with a field and a streamed file of a declared size. -/
def sizedWriter : MultipartWriter :=
  { boundary := bytes "b"
    parts := [
      { metadata := { name := bytes "x" }, size := some 1, data := bytes "a" },
      { metadata := { name := bytes "f", filename := bytes "c" }
        producer := some (.write (bytes "de") fun _ => .finished)
        size := some 2 }] }

/-- The same form without the size of the file. -/
def unsizedWriter : MultipartWriter :=
  { sizedWriter with
    parts := sizedWriter.parts.map fun part =>
      if part.producer.isSome then { part with size := none } else part }

/-- The announced length of a form with a field and a streamed file is the length of the form; without
the size of the file, none is announced. -/
theorem contentLength_eq_length_of_form :
    sizedWriter.contentLength = some 126 ∧ (sizedWriter.write.run accepting []).2.length = 126 ∧
      unsizedWriter.contentLength = none := by
  have hlength : sizedWriter.contentLength = some 126 := by decide +kernel
  have hadded : ∀ size, [Addition.field (bytes "x") (bytes "a") [],
      .stream (bytes "f") (bytes "c") [] (some (.write (bytes "de") fun _ => .finished)) size
        []].foldlM add (MultipartWriter.create [] (bytes "b")) =
          .ok { sizedWriter with
                parts := sizedWriter.parts.map fun part =>
                  if part.producer.isSome then { part with size } else part } := fun _ => rfl
  refine ⟨hlength, ?_, ?_⟩
  · obtain ⟨-, heq⟩ := @contentLength_eq_length [] (bytes "b") _ sizedWriter _ (hadded (some 2))
      (List.forall_mem_cons.mpr ⟨by rintro producer size ⟨⟩, List.forall_mem_singleton.mpr (by
        rintro producer size ⟨⟩ ⟨⟩
        rfl)⟩) rfl
    exact (heq 126 hlength).symm
  · obtain ⟨hnone, -⟩ := @contentLength_eq_length [] (bytes "b") _ unsizedWriter _ (hadded none)
      (List.forall_mem_cons.mpr ⟨by rintro producer size ⟨⟩, List.forall_mem_singleton.mpr (by
        rintro producer size ⟨⟩ ⟨⟩)⟩) rfl
    exact hnone.mpr (.inl ⟨_, List.mem_cons_of_mem _ List.mem_cons_self, rfl⟩)

end Chhttp.Multipart
