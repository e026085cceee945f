import Chhttp.Common.Headers
import Chhttp.Common.Message
import Chhttp.Lib.Loop

/-!
# Parameters and part heads of multipart bodies

The text functions of `streaming_body.cpp`: how the parameters of a field value are split and
decoded, which boundaries are valid, how the boundary is taken from the content type, and how the
head of a part is parsed.
-/

namespace Chhttp.Multipart

/-- `MultipartPart`; the incremental parser delivers the content as data and leaves it empty here. -/
structure MultipartPart where
  name : Bytes := []
  filename : Bytes := []
  contentType : Bytes := []
  headers : Headers := []
  content : Bytes := []
  deriving DecidableEq

/-- `"--"`. -/
def dashes : Bytes := [0x2d, 0x2d]

/-- The errors of the multipart parsers. -/
def multipartError (message : String) : ErrorInfo := { code := .multipart, message }

/-- The loop of `split_parameters`, where `piece` is the part of the value from `start` on. -/
def splitParametersFrom : (piece : Bytes) → (quoted escaped : Bool) → Bytes → List Bytes
  -- the end of the value counts as a semicolon
  | piece, quoted, escaped, [] => if escaped || quoted then [] else [trim piece]
  | piece, quoted, escaped, ch :: rest =>
    if escaped then splitParametersFrom (piece ++ [ch]) quoted false rest
    else if quoted && ch == backslash then splitParametersFrom (piece ++ [ch]) quoted true rest
    else
      let quoted := if ch == quotationMark then !quoted else quoted
      if ch == semicolon && !quoted then trim piece :: splitParametersFrom [] quoted false rest
      else splitParametersFrom (piece ++ [ch]) quoted false rest

/-- `split_parameters`. -/
def splitParameters (value : Bytes) : List Bytes := splitParametersFrom [] false false value

example : splitParameters (bytes "form-data; name=\"a;\\\"b\" ;x=y") =
    [bytes "form-data", bytes "name=\"a;\\\"b\"", bytes "x=y"] := by decide +kernel

/-- The text between quotation marks: a backslash that is not the last byte is dropped, and the byte
after it is taken as it is. -/
def unescape : Bytes → Bytes
  | [] => []
  | [ch] => [ch]
  | ch :: next :: rest => if ch = backslash then next :: unescape rest else ch :: unescape (next :: rest)

/-- `decode_parameter`. -/
def decodeParameter (value : Bytes) : Result Bytes :=
  let text := trim value
  if text.head? ≠ some quotationMark then .ok text
  else if text.length < 2 ∨ text.getLast? ≠ some quotationMark then
    .error (multipartError "Unterminated quoted parameter")
  else .ok (unescape text.tail.dropLast)

/-- `std::isalnum` in the C locale. -/
def isAlnum (ch : UInt8) : Bool :=
  (decide (0x30 ≤ ch) && decide (ch ≤ 0x39)) || (decide (0x41 ≤ ch) && decide (ch ≤ 0x5a)) ||
    (decide (0x61 ≤ ch) && decide (ch ≤ 0x7a))

/-- The characters of a boundary. -/
def boundaryCharacter (ch : UInt8) : Bool := isAlnum ch || (bytes "'()+_,-./:=? ").contains ch

/-- `valid_boundary`: one to seventy characters of the boundary alphabet, the last of them no space.
-/
def validBoundary (boundary : Bytes) : Bool :=
  !(boundary.isEmpty || decide (70 < boundary.length) || boundary.getLast? == some sp) &&
    boundary.all boundaryCharacter

/-- The name and the encoded value of a parameter, if it has a `'='`. -/
def splitAssignment (parameter : Bytes) : Option (Bytes × Bytes) :=
  (ListSearch.find [equalSign] parameter).map fun equal =>
    (trim (parameter.take equal), parameter.drop (equal + 1))

/-- The first parameter that is called `boundary`. -/
def boundaryParameter : List Bytes → Option Bytes
  | [] => none
  | parameter :: parameters =>
    match splitAssignment parameter with
    | none => boundaryParameter parameters
    | some (name, value) =>
      if iequals name (bytes "boundary") then some value else boundaryParameter parameters

/-- `multipart_boundary`. -/
def multipartBoundary (contentType : Bytes) : Result Bytes :=
  match splitParameters contentType with
  | [] => .error (multipartError "Content-Type is not multipart/form-data")
  | first :: parameters =>
    if !iequals first (bytes "multipart/form-data") then
      .error (multipartError "Content-Type is not multipart/form-data")
    else
      match boundaryParameter parameters with
      | none => .error (multipartError "Missing multipart boundary")
      | some value =>
        match decodeParameter value with
        | .error e => .error e
        | .ok boundary =>
          if !validBoundary boundary then .error (multipartError "Invalid multipart boundary")
          else .ok boundary

/-- The effect of one parameter of a content disposition. -/
def dispositionParameter (part : MultipartPart) (parameter : Bytes) : Result MultipartPart :=
  match splitAssignment parameter with
  | none => .ok part
  | some (key, value) =>
    match decodeParameter value with
    | .error e => .error e
    | .ok decoded =>
      let part := if iequals key (bytes "name") then { part with name := decoded } else part
      .ok (if iequals key (bytes "filename") then { part with filename := decoded } else part)

/-- The effect of a content disposition. -/
def contentDisposition (part : MultipartPart) (value : Bytes) : Result MultipartPart :=
  match splitParameters value with
  | [] => .error (multipartError "Unsupported multipart content disposition")
  | first :: parameters =>
    if !iequals first (bytes "form-data") then
      .error (multipartError "Unsupported multipart content disposition")
    else parameters.foldlM dispositionParameter part

/-- One line of a part head. -/
def partHeadLine (part : MultipartPart) (line : Bytes) : Result MultipartPart :=
  if lf ∈ line then .error (multipartError "Bare LF in multipart header")
  else
    match ListSearch.find [colon] line with
    | none => .error (multipartError "Malformed multipart header")
    | some colonAt =>
      let name := trim (line.take colonAt)
      let value := trim (line.drop (colonAt + 1))
      if !validHeaderName name || !validHeaderValue value then
        .error (multipartError "Invalid multipart header")
      else
        let part := { part with headers := part.headers.add name value }
        let part :=
          if iequals name (bytes "Content-Type") then { part with contentType := value } else part
        if iequals name (bytes "Content-Disposition") then contentDisposition part value
        else .ok part

/-- One iteration of the loop of `parse_part_head`, with the input from `cursor` on. -/
def partHeadStep :
    MultipartPart × Bytes → Loop.Next (MultipartPart × Bytes) (Result MultipartPart)
  | (part, input) =>
    if input.isEmpty then .leave (.ok part)
    else
      let lineEnd := ListSearch.find crlf input
      match partHeadLine part (input.take (lineEnd.getD input.length)) with
      | .error e => .leave (.error e)
      | .ok part =>
        match lineEnd with
        | none => .leave (.ok part)
        | some lineEnd => .again (part, input.drop (lineEnd + 2))

/-- An iteration behind which there is another one. -/
lemma partHeadStep_again {part part' : MultipartPart} {input rest : Bytes}
    (h : partHeadStep (part, input) = .again (part', rest)) :
    input ≠ [] ∧ ∃ lineEnd, ListSearch.find crlf input = some lineEnd ∧
      partHeadLine part (input.take lineEnd) = .ok part' ∧ rest = input.drop (lineEnd + 2) := by
  unfold partHeadStep at h
  dsimp only at h
  split_ifs at h with hempty
  refine ⟨fun hnil => hempty (by rw [hnil]; rfl), ?_⟩
  split at h
  · cases h
  · rename_i hline
    split at h
    · cases h
    · rename_i lineEnd hfind
      rw [hfind, Option.getD_some] at hline
      cases h
      exact ⟨lineEnd, hfind, hline, rfl⟩

/-- The last iteration, if it succeeds. -/
lemma partHeadStep_leave {part part' : MultipartPart} {input : Bytes}
    (h : partHeadStep (part, input) = .leave (.ok part')) :
    (input = [] ∧ part' = part) ∨
      (input ≠ [] ∧ ListSearch.find crlf input = none ∧ partHeadLine part input = .ok part') := by
  unfold partHeadStep at h
  dsimp only at h
  split_ifs at h with hempty
  · cases h
    exact .inl ⟨List.isEmpty_iff.mp hempty, rfl⟩
  · split at h
    · cases h
    · rename_i hline
      split at h
      · rename_i hfind
        rw [hfind, Option.getD_none, List.take_length] at hline
        cases h
        exact .inr ⟨fun hnil => hempty (by rw [hnil]; rfl), hfind, hline⟩
      · cases h

/-- Every iteration consumes a line. -/
lemma partHeadStep_decreases : Loop.Decreases partHeadStep fun v => v.2.length := by
  rintro ⟨part, input⟩ ⟨part', rest⟩ h
  obtain ⟨hne, lineEnd, -, -, rfl⟩ := partHeadStep_again h
  have hlength := List.length_pos_iff.mpr hne
  simp only [List.length_drop]
  omega

/-- `parse_part_head`. -/
def parsePartHead (input : Bytes) : Result MultipartPart :=
  match Loop.run partHeadStep (fun v => v.2.length) partHeadStep_decreases ({}, input) with
  | .error e => .error e
  | .ok part =>
    if (part.headers.getAll (bytes "Content-Disposition")).length ≠ 1 then
      .error (multipartError "Multipart part requires one Content-Disposition")
    else if 1 < (part.headers.getAll (bytes "Content-Type")).length then
      .error (multipartError "Multipart part has ambiguous Content-Type headers")
    else .ok part

example : parsePartHead (bytes "Content-Disposition: form-data; name=\"a\"\r\nX: y") =
    .ok { name := bytes "a"
          headers := [(bytes "Content-Disposition", bytes "form-data; name=\"a\""),
            (bytes "X", bytes "y")] } := by decide +kernel

end Chhttp.Multipart
