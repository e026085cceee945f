import Chhttp.Protocol.Chunked
import Chhttp.Protocol.RequestHead
import Chhttp.Protocol.Write

/-!
# Written messages as their readers see them

What the scanner of heads makes of written fields: trimmed fields (`fieldLines_of_validFields`) and
the framing that they announce (`headOf_of_announces`); and the frame of written chunks
(`writtenFrame_valid`).
-/

namespace Chhttp

open ListSearch

/-! ### Written fields -/

/-- A field as its reader sees it.  The reader removes the blanks around a value and leaves the name
alone. -/
def trimField (field : Bytes × Bytes) : Bytes × Bytes := (field.1, trimOws field.2)

/-- A written line is a field line of the trimmed field. -/
lemma fieldLine_of_validField {field : Bytes × Bytes} (h : validField field = true) :
    FieldLine (fieldLine field) (trimField field).1 (trimField field).2 := by
  rw [validField, Bool.and_eq_true] at h
  refine ⟨⟨sp :: field.2, rfl, ?_⟩, h.1, ?_⟩
  · exact trimWith_cons_of_pos (by decide) field.2
  · refine List.all_eq_true.mpr fun c hc => List.all_eq_true.mp h.2 c ?_
    exact mem_of_mem_trimWith hc

/-- Written lines are the field lines of the trimmed fields. -/
lemma fieldLines_of_validFields {fields : Headers} (h : ∀ f ∈ fields, validField f = true) :
    List.Forall₂ (fun line f => FieldLine line f.1 f.2) (fields.map fieldLine)
      (fields.map trimField) := by
  induction fields with
  | nil => exact .nil
  | cons f fields ih =>
    exact .cons (fieldLine_of_validField (h f List.mem_cons_self))
      (ih fun f' hf' => h f' (List.mem_cons_of_mem _ hf'))

/-- Trimming does not change which fields are called `name`. -/
lemma getAll_map_trimField (fields : Headers) (name : Bytes) :
    Headers.getAll (fields.map trimField) name = (fields.getAll name).map trimOws := by
  induction fields with
  | nil => rfl
  | cons f fields ih =>
    rw [List.map_cons, Headers.getAll_cons, Headers.getAll_cons, ih]
    by_cases hname : iequals f.1 name = true
    · rw [if_pos hname, if_pos (show iequals (trimField f).1 name = true from hname)]
      rfl
    · rw [if_neg hname, if_neg (show ¬ iequals (trimField f).1 name = true from hname)]

/-- Trimming does not change which names are present. -/
lemma contains_map_trimField {fields : Headers} {name : Bytes}
    (h : fields.contains name = false) :
    Headers.contains (fields.map trimField) name = false := by
  rw [Headers.contains_eq_false_iff] at h ⊢
  rw [getAll_map_trimField, h, List.map_nil]

/-- There is nothing to trim at a text without blanks. -/
lemma trimOws_eq_self {value : Bytes} (h : ∀ c ∈ value, isOws c = false) :
    trimOws value = value :=
  trimWith_eq_self (fun c hc => h c (List.mem_of_mem_head? hc))
    fun c hc => h c (List.mem_of_getLast? hc)

/-- The bytes of a decimal number are digits. -/
lemma mem_toChars_ten {n : ℕ} {c : UInt8} (h : c ∈ toChars 10 n) :
    isOws c = false ∧ c ≠ comma := by
  obtain ⟨d, hd, rfl⟩ := List.mem_map.mp h
  have hlt := Numeral.digits_lt (by norm_num) hd
  have hall : ∀ d < 10, isOws (digitByte d) = false ∧ digitByte d ≠ comma := by decide
  exact hall d hlt

/-- The elements of fields with one value that has neither commas nor blanks around it. -/
lemma elements_of_getAll {fields : Headers} {name value : Bytes}
    (h : fields.getAll name = [value]) (hcomma : comma ∉ value) (htrim : trimOws value = value) :
    elements (fields.map trimField) name = [value] := by
  rw [elements, getAll_map_trimField, h, List.map_singleton, htrim, List.flatMap_singleton,
    List.splitOn_eq_singleton hcomma, List.map_singleton, htrim]

/-- The scanner finds the framing that a field list announces. -/
lemma elements_of_announces {fields : Headers} {framing : Framing} (h : Announces fields framing) :
    elements (fields.map trimField) (bytes "Content-Length") = framing.contentLength ∧
      elements (fields.map trimField) (bytes "Transfer-Encoding") = framing.transferEncoding := by
  have hnone : ∀ name, fields.getAll name = [] → elements (fields.map trimField) name = [] := by
    intro name hname
    rw [elements_eq_nil_iff, getAll_map_trimField, hname, List.map_nil]
  cases framing with
  | none => exact ⟨hnone _ h.contentLength, hnone _ h.transferEncoding⟩
  | chunked =>
    refine ⟨hnone _ h.contentLength, ?_⟩
    exact elements_of_getAll h.transferEncoding (by decide) (by decide)
  | length n =>
    refine ⟨?_, hnone _ h.transferEncoding⟩
    refine elements_of_getAll h.contentLength ?_ ?_
    · intro hmem
      exact (mem_toChars_ten hmem).2 rfl
    · exact trimOws_eq_self fun c hc => (mem_toChars_ten hc).1

/-- The length of a framing, if it has one. -/
def Framing.length? : Framing → Option ℕ
  | .length n => some n
  | _ => .none

/-- The framing is `chunked`. -/
def Framing.isChunked : Framing → Bool
  | .chunked => true
  | _ => false

/-- An announced framing is acceptable, and it is what the head says.  The reader trims the values,
which does not matter to the fields of the framing. -/
lemma headOf_of_announces {fields : Headers} {framing : Framing} (h : Announces fields framing)
    (hlimit : ∀ n, framing.length? = some n → n < uint64Limit) (start : Bytes) :
    FramingFields (fields.map trimField) ∧
      (headOf start (fields.map trimField)).contentLength = framing.length? ∧
      (headOf start (fields.map trimField)).chunked = framing.isChunked := by
  obtain ⟨hlengths, hcodings⟩ := elements_of_announces h
  have hlength : (headOf start (fields.map trimField)).contentLength =
      lengthOf (elements (fields.map trimField) (bytes "Content-Length")) := rfl
  have hchunked : (headOf start (fields.map trimField)).chunked =
      !(elements (fields.map trimField) (bytes "Transfer-Encoding")).isEmpty := rfl
  rw [hlength, hchunked, hlengths, hcodings]
  refine ⟨⟨?_, ?_⟩, ?_, ?_⟩
  · rw [hlengths]
    cases framing with
    | none => exact ⟨0, by simp [Framing.contentLength]⟩
    | chunked => exact ⟨0, by simp [Framing.contentLength]⟩
    | length n =>
      refine ⟨n, ?_⟩
      simpa [Framing.contentLength] using
        fromChars_toChars (by norm_num : 1 < 10) (by norm_num) (hlimit n rfl)
  · rw [hlengths, hcodings]
    cases framing with
    | none => exact Or.inl rfl
    | chunked => exact Or.inr ⟨bytes "chunked", rfl, by decide, rfl⟩
    | length n => exact Or.inl rfl
  · cases framing with
    | none => rfl
    | chunked => rfl
    | length n =>
      exact fromChars_toChars (by norm_num : 1 < 10) (by norm_num) (hlimit n rfl)
  · cases framing <;> rfl

/-! ### Written bodies -/

/-- The size line of a written chunk. -/
lemma sizeLine_toChars {n : ℕ} (hn : n ≤ blockSize) : SizeLine (toChars 16 n) n := by
  have hlimit : n < uint64Limit := by
    simp only [blockSize, uint64Limit] at hn ⊢
    omega
  refine ⟨⟨toChars 16 n, [], by simp,
    fromChars_toChars (by norm_num) (by norm_num) hlimit, Or.inl rfl⟩, ?_⟩
  rw [toChars, List.length_map, Numeral.digits]
  split_ifs
  · simp [maxSizeLine]
  · have hdigits : (Nat.digits 16 n).length ≤ 5 := by
      rw [Nat.digits_length_le_iff (by norm_num)]
      simp only [blockSize] at hn
      omega
    rw [List.length_reverse, maxSizeLine]
    omega

/-- The frame of written chunks. -/
def writtenFrame (pieces : List Bytes) : ChunkedFrame where
  chunks := pieces.map fun piece => (toChars 16 piece.length, piece)
  last := bytes "0"
  trailers := []

/-- Written chunks are a valid frame of their data. -/
lemma writtenFrame_valid {data : Bytes} {pieces : List Bytes} (h : Pieces data pieces)
    {maxHeaderSize : ℕ} (hroom : 2 ≤ maxHeaderSize) :
    (writtenFrame pieces).Valid maxHeaderSize [] ∧ (writtenFrame pieces).payload = data ∧
      (writtenFrame pieces).encode = pieces.flatMap makeChunkFrame ++ bytes "0\r\n\r\n" := by
  refine ⟨⟨?_, ⟨⟨bytes "0", [], rfl, rfl, Or.inl rfl⟩, ?_⟩, .nil, by simp [writtenFrame], ?_⟩,
    ?_, ?_⟩
  · intro chunk hchunk
    obtain ⟨piece, hpiece, rfl⟩ := List.mem_map.mp hchunk
    obtain ⟨hne, hsize⟩ := h.piece piece hpiece
    exact ⟨sizeLine_toChars hsize, hne⟩
  · exact (by decide : (bytes "0").length ≤ maxSizeLine)
  · simpa [writtenFrame, lineBytes] using hroom
  · rw [ChunkedFrame.payload, writtenFrame, List.flatMap_map, ← h.flatten]
    simp [List.flatMap_def]
  · rw [ChunkedFrame.encode, writtenFrame, List.flatMap_map]
    rfl

end Chhttp
