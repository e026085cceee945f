import Chhttp.Common.Base64
import Chhttp.Lib.Loop
import Chhttp.Multipart.Head
import Chhttp.Protocol.Output

/-!
# Streamed JSON

`json_escape` and `JsonStreamWriter` of `streaming_body.cpp`.  A string is escaped in pieces of 16
KiB, and a Base64 string is written over several calls, with a carry in the encoder and a flag that
keeps other calls out.

`Quotes` says that a text is one JSON string with a given value.  `string_spec` is about a string
written at once, `base64String_spec` about a Base64 string and all calls that are made while it is
open.
-/

namespace Chhttp

namespace Json

/-! ### The source -/

/-- The characters that have an escape of their own. -/
def shortEscape (ch : UInt8) : Option UInt8 :=
  if ch = quotationMark then some quotationMark
  else if ch = backslash then some backslash
  else if ch = 0x08 then some 0x62
  else if ch = 0x0c then some 0x66
  else if ch = 0x0a then some 0x6e
  else if ch = 0x0d then some 0x72
  else if ch = 0x09 then some 0x74
  else none

/-- One character in `json_escape`. -/
def jsonEscapeChar (ch : UInt8) : Bytes :=
  match shortEscape ch with
  | some code => [backslash, code]
  | none =>
    if ch < 0x20 then
      bytes "\\u00" ++ [digitByte (ch.toNat / 16), digitByte (ch.toNat % 16)]
    else [ch]

/-- `json_escape`. -/
def jsonEscape (value : Bytes) : Bytes := value.flatMap jsonEscapeChar

/-- `JsonStreamWriter`, without the writer.  Between `begin_base64_string` and its end, only
`base64` writes anything. -/
structure JsonStreamWriter where
  base64 : Base64Encoder := {}
  base64StringOpen : Bool := false

namespace JsonStreamWriter

/-- The size of the pieces that are escaped at once. -/
def chunkSize : ℕ := 16 * 1024

section

variable {σ : Type} (ops : SinkOps σ)

/-- `raw`: the text as it is, unless a Base64 string is open. -/
def raw (json : Bytes) (w : JsonStreamWriter) (s : σ) : Bool × JsonStreamWriter × σ :=
  if w.base64StringOpen then (false, w, s)
  else ((ops.write s json).1, w, (ops.write s json).2)

/-- One piece of a string. -/
def stringStep (value : Bytes) (t : ℕ × σ) : Loop.Next (ℕ × σ) (Bool × σ) :=
  if t.1 < value.length then
    let escaped := jsonEscape ((value.drop t.1).take chunkSize)
    if escaped = [] then .again (t.1 + chunkSize, t.2)
    else if (ops.write t.2 escaped).1 then .again (t.1 + chunkSize, (ops.write t.2 escaped).2)
    else .leave (false, (ops.write t.2 escaped).2)
  else .leave (true, t.2)

/-- The loop over the pieces comes to an end. -/
lemma stringStep_decreases (value : Bytes) :
    Loop.Decreases (stringStep ops value) (fun t => value.length - t.1) := by
  intro t u h
  have hpos : 0 < chunkSize := by decide
  rw [stringStep] at h
  dsimp only at h
  split_ifs at h
  · cases h
    dsimp only
    omega
  · cases h
    dsimp only
    omega

/-- `string`: the value is escaped in pieces, between quotation marks. -/
def string (value : Bytes) (w : JsonStreamWriter) (s : σ) : Bool × JsonStreamWriter × σ :=
  if w.base64StringOpen then (false, w, s)
  else if (ops.write s [quotationMark]).1 then
    match Loop.run (stringStep ops value) (fun t => value.length - t.1)
        (stringStep_decreases ops value) (0, (ops.write s [quotationMark]).2) with
    | (false, s) => (false, w, s)
    | (true, s) => ((ops.write s [quotationMark]).1, w, (ops.write s [quotationMark]).2)
  else (false, w, (ops.write s [quotationMark]).2)

/-- `begin_base64_string`: it does nothing while such a string is open. -/
def beginBase64String (start : Bytes) (w : JsonStreamWriter) (s : σ) :
    Bool × JsonStreamWriter × σ :=
  if w.base64StringOpen then (false, w, s)
  else if (ops.write s (quotationMark :: jsonEscape start)).1 then
    (true, { base64 := {}, base64StringOpen := true },
      (ops.write s (quotationMark :: jsonEscape start)).2)
  else (false, { w with base64 := {} }, (ops.write s (quotationMark :: jsonEscape start)).2)

/-- `base64`, which throws what the encoder throws. -/
def base64Data (data : Bytes) (w : JsonStreamWriter) (s : σ) :
    Except Base64Fault (Bool × JsonStreamWriter × σ) :=
  if !w.base64StringOpen then .ok (false, w, s)
  else
    match w.base64.update data with
    | .error fault => .error fault
    | .ok (encoded, encoder) =>
      .ok (if encoded = [] then (true, { w with base64 := encoder }, s)
        else
          ((ops.write s encoded).1, { w with base64 := encoder }, (ops.write s encoded).2))

/-- `end_base64_string`: the last characters with their padding, and the closing quotation mark. -/
def endBase64String (w : JsonStreamWriter) (s : σ) : Bool × JsonStreamWriter × σ :=
  if !w.base64StringOpen then (false, w, s)
  else
    let tail := w.base64.finish.1
    let closed : JsonStreamWriter := { base64 := w.base64.finish.2, base64StringOpen := false }
    if tail = [] then ((ops.write s [quotationMark]).1, closed, (ops.write s [quotationMark]).2)
    else if (ops.write s tail).1 then
      ((ops.write (ops.write s tail).2 [quotationMark]).1, closed,
        (ops.write (ops.write s tail).2 [quotationMark]).2)
    else (false, { w with base64 := w.base64.finish.2 }, (ops.write s tail).2)

/-- The calls of a writer.  They may come in any order, and a call out of place does nothing. -/
inductive Call where
  | raw (json : Bytes)
  | string (value : Bytes)
  | beginBase64String (start : Bytes)
  | base64 (data : Bytes)
  | endBase64String

/-- One call. -/
def call (w : JsonStreamWriter) (s : σ) : Call → Except Base64Fault (Bool × JsonStreamWriter × σ)
  | .raw json => .ok (raw ops json w s)
  | .string value => .ok (string ops value w s)
  | .beginBase64String start => .ok (beginBase64String ops start w s)
  | .base64 data => base64Data ops data w s
  | .endBase64String => .ok (endBase64String ops w s)

/-- Calls one after the other, with their results.  What a sink does in between is its own state, so
other writers may share it. -/
def calls : List Call → JsonStreamWriter → σ →
    Except Base64Fault (List Bool × JsonStreamWriter × σ)
  | [], w, s => .ok ([], w, s)
  | c :: cs, w, s =>
    match call ops w s c with
    | .error fault => .error fault
    | .ok (result, w, s) =>
      match calls cs w s with
      | .error fault => .error fault
      | .ok (results, w, s) => .ok (result :: results, w, s)

end

end JsonStreamWriter

/-! ### JSON strings -/

/-- The characters behind a backslash, without `u`. -/
def escaped (code : UInt8) : Option UInt8 :=
  if code = quotationMark ∨ code = backslash ∨ code = slash then some code
  else if code = 0x62 then some 0x08
  else if code = 0x66 then some 0x0c
  else if code = 0x6e then some 0x0a
  else if code = 0x72 then some 0x0d
  else if code = 0x74 then some 0x09
  else none

/-- Four hexadecimal digits. -/
def codeUnit (a b c d : UInt8) : Option ℕ :=
  ([a, b, c, d].mapM (digitOf 16)).map (Numeral.value 16)

/-- A character in UTF-8. -/
def utf8 (code : ℕ) : Bytes := String.utf8EncodeChar (Char.ofNat code)

/-- The value of the text between the quotation marks of a JSON string. -/
def jsonUnescape : Bytes → Option Bytes
  | [] => some []
  | ch :: rest =>
    if ch = quotationMark ∨ ch < 0x20 then none
    else if ch = backslash then
      match rest with
      | [] => none
      | code :: rest =>
        if code = 0x75 then
          match rest with
          | a :: b :: c :: d :: rest =>
            (codeUnit a b c d).bind fun unit =>
              if unit < 0xd800 ∨ 0xdfff < unit then
                (jsonUnescape rest).map (utf8 unit ++ ·)
              else if unit < 0xdc00 then
                -- a surrogate pair
                match rest with
                | e :: f :: g :: h :: i :: j :: rest =>
                  if e = backslash ∧ f = 0x75 then
                    (codeUnit g h i j).bind fun low =>
                      if 0xdc00 ≤ low ∧ low ≤ 0xdfff then
                        (jsonUnescape rest).map
                          (utf8 (0x10000 + (unit - 0xd800) * 1024 + (low - 0xdc00)) ++ ·)
                      else none
                  else none
                | _ => none
              else none
          | _ => none
        else (escaped code).bind fun c => (jsonUnescape rest).map (c :: ·)
    else (jsonUnescape rest).map (ch :: ·)

/-- No quotation mark, backslash or control character is outside an escape.  Every byte of it is
then inside the string for a JSON reader. -/
inductive Clean : Bytes → Prop where
  | nil : Clean []
  | plain {ch : UInt8} {rest : Bytes} (hcontrol : 0x20 ≤ ch) (hmark : ch ≠ quotationMark)
      (hslash : ch ≠ backslash) (hrest : Clean rest) : Clean (ch :: rest)
  | escape {code : UInt8} {rest : Bytes} (hcontrol : 0x20 ≤ code) (hrest : Clean rest) :
    Clean (backslash :: code :: rest)

/-- A text is a JSON string with a value.  It is said by an unescaper of its own, not by the escaper
of the source. -/
def Quotes (text value : Bytes) : Prop :=
  ∃ body, text = quotationMark :: (body ++ [quotationMark]) ∧ Clean body ∧
    jsonUnescape body = some value

/-! ### Escapes -/

/-- A short escape is undone. -/
lemma escaped_of_shortEscape {ch code : UInt8} (h : shortEscape ch = some code) :
    escaped code = some ch ∧ code ≠ 0x75 ∧ 0x20 ≤ code := by
  rw [shortEscape] at h
  split_ifs at h with h1 h2 h3 h4 h5 h6 h7
  · rw [h1]
    cases h
    decide
  · rw [h2]
    cases h
    decide
  · rw [h3]
    cases h
    decide
  · rw [h4]
    cases h
    decide
  · rw [h5]
    cases h
    decide
  · rw [h6]
    cases h
    decide
  · rw [h7]
    cases h
    decide

/-- A character without a short escape is neither a quotation mark nor a backslash. -/
lemma ne_of_shortEscape {ch : UInt8} (h : shortEscape ch = none) :
    ch ≠ quotationMark ∧ ch ≠ backslash := by
  constructor <;> rintro rfl <;> exact absurd h (by decide)

/-- The code unit of a control character. -/
lemma codeUnit_control {ch : UInt8} (h : ch < 0x20) :
    codeUnit 0x30 0x30 (digitByte (ch.toNat / 16)) (digitByte (ch.toNat % 16)) = some ch.toNat ∧
      utf8 ch.toNat = [ch] := by
  have hall : ∀ n < 32,
      codeUnit 0x30 0x30 (digitByte (n / 16)) (digitByte (n % 16)) = some n ∧
        utf8 n = [UInt8.ofNat n] := by decide +kernel
  have := hall ch.toNat (UInt8.lt_iff_toNat_lt.mp h)
  rwa [UInt8.ofNat_toNat] at this

/-- A hexadecimal digit is a plain character. -/
lemma digitByte_plain {d : ℕ} (hd : d < 16) :
    0x20 ≤ digitByte d ∧ digitByte d ≠ quotationMark ∧ digitByte d ≠ backslash := by
  have hall : ∀ d < 16,
      0x20 ≤ digitByte d ∧ digitByte d ≠ quotationMark ∧ digitByte d ≠ backslash := by
    decide +kernel
  exact hall d hd

/-- A plain character. -/
lemma jsonUnescape_plain {ch : UInt8} (hcontrol : ¬ ch < 0x20) (hmark : ch ≠ quotationMark)
    (hslash : ch ≠ backslash) (rest : Bytes) :
    jsonUnescape (ch :: rest) = (jsonUnescape rest).map (ch :: ·) := by
  rw [jsonUnescape.eq_def]
  dsimp only
  rw [if_neg (not_or.mpr ⟨hmark, hcontrol⟩), if_neg hslash]

/-- A short escape. -/
lemma jsonUnescape_short {ch code : UInt8} (hcode : escaped code = some ch) (hu : code ≠ 0x75)
    (rest : Bytes) :
    jsonUnescape (backslash :: code :: rest) = (jsonUnescape rest).map (ch :: ·) := by
  rw [jsonUnescape.eq_def]
  dsimp only
  rw [if_neg (by decide), if_pos rfl, if_neg hu, hcode, Option.bind_some]

/-- A long escape of a character below the surrogates. -/
lemma jsonUnescape_long {a b c d : UInt8} {unit : ℕ} (hunit : codeUnit a b c d = some unit)
    (hlt : unit < 0xd800) (rest : Bytes) :
    jsonUnescape (backslash :: 0x75 :: a :: b :: c :: d :: rest) =
      (jsonUnescape rest).map (utf8 unit ++ ·) := by
  rw [jsonUnescape.eq_def]
  dsimp only
  rw [if_neg (by decide), if_pos rfl, if_pos rfl, hunit, Option.bind_some, if_pos (.inl hlt)]

/-- An escaped character is read back, and nothing in it is outside an escape. -/
lemma escapeChar_spec (ch : UInt8) (rest : Bytes) :
    jsonUnescape (jsonEscapeChar ch ++ rest) = (jsonUnescape rest).map (ch :: ·) ∧
      (Clean rest → Clean (jsonEscapeChar ch ++ rest)) := by
  rw [jsonEscapeChar]
  cases hshort : shortEscape ch with
  | some code =>
    obtain ⟨hcode, hu, hcontrol⟩ := escaped_of_shortEscape hshort
    exact ⟨jsonUnescape_short hcode hu rest, .escape hcontrol⟩
  | none =>
    obtain ⟨hmark, hslash⟩ := ne_of_shortEscape hshort
    dsimp only
    by_cases hcontrol : ch < 0x20
    · rw [if_pos hcontrol]
      obtain ⟨hunit, hutf8⟩ := codeUnit_control hcontrol
      have hlt : ch.toNat < 0xd800 := ch.toNat_lt.trans (by decide)
      have hlong := jsonUnescape_long hunit hlt rest
      rw [hutf8] at hlong
      refine ⟨hlong, fun h => ?_⟩
      obtain ⟨hhigh, hhigh', hhigh''⟩ := @digitByte_plain (ch.toNat / 16)
        (Nat.div_lt_of_lt_mul ch.toNat_lt)
      obtain ⟨hlow, hlow', hlow''⟩ := @digitByte_plain (ch.toNat % 16) (Nat.mod_lt _ (by decide))
      exact .escape (by decide) (.plain (by decide) (by decide) (by decide)
        (.plain (by decide) (by decide) (by decide)
          (.plain hhigh hhigh' hhigh'' (.plain hlow hlow' hlow'' h))))
    · rw [if_neg hcontrol]
      exact ⟨jsonUnescape_plain hcontrol hmark hslash rest,
        .plain (UInt8.not_lt.mp hcontrol) hmark hslash⟩

/-- An escaped text in front of a text. -/
lemma jsonEscape_spec (value rest : Bytes) :
    jsonUnescape (jsonEscape value ++ rest) = (jsonUnescape rest).map (value ++ ·) ∧
      (Clean rest → Clean (jsonEscape value ++ rest)) := by
  induction value with
  | nil =>
    refine ⟨?_, id⟩
    rw [jsonEscape, List.flatMap_nil, List.nil_append]
    cases jsonUnescape rest <;> rfl
  | cons ch value ih =>
    obtain ⟨hread, hclean⟩ := escapeChar_spec ch (jsonEscape value ++ rest)
    have hcons : jsonEscape (ch :: value) ++ rest =
        jsonEscapeChar ch ++ (jsonEscape value ++ rest) := by
      rw [jsonEscape, List.flatMap_cons, List.append_assoc, ← jsonEscape]
    rw [hcons]
    refine ⟨?_, fun h => hclean (ih.2 h)⟩
    rw [hread, ih.1, Option.map_map]
    rfl

/-- A text of plain characters in front of a text. -/
lemma plain_spec {value : Bytes}
    (h : ∀ ch ∈ value, ¬ ch < 0x20 ∧ ch ≠ quotationMark ∧ ch ≠ backslash) :
    jsonUnescape value = some value ∧ Clean value := by
  induction value with
  | nil => exact ⟨rfl, .nil⟩
  | cons ch value ih =>
    obtain ⟨⟨hcontrol, hmark, hslash⟩, hrest⟩ := List.forall_mem_cons.mp h
    obtain ⟨hread, hclean⟩ := ih hrest
    refine ⟨?_, .plain (UInt8.not_lt.mp hcontrol) hmark hslash hclean⟩
    rw [jsonUnescape_plain hcontrol hmark hslash, hread, Option.map_some]

/-- The characters of the alphabet are plain. -/
lemma plain_of_mem_alphabet {ch : UInt8} (h : ch ∈ base64Alphabet) :
    ¬ ch < 0x20 ∧ ch ≠ quotationMark ∧ ch ≠ backslash := by
  have hall : base64Alphabet.all
      (fun c => !decide (c < 0x20) && c != quotationMark && c != backslash) = true := by
    decide +kernel
  simpa [and_assoc] using List.all_eq_true.mp hall ch h

/-- The characters of Base64 are plain. -/
lemma plain_of_encoded {value : Bytes} :
    ∀ ch ∈ encoded value, ¬ ch < 0x20 ∧ ch ≠ quotationMark ∧ ch ≠ backslash := by
  have hmod : ¬ (encoded value).length % 4 ≠ 0 := by
    rw [length_encoded]
    omega
  obtain ⟨text, padding, htext, -, halphabet⟩ :=
    (base64Decode_ok_iff.mp ⟨value, (if_neg hmod).trans (decodeQuartets_encoded value)⟩).chars
  intro ch hch
  rw [htext] at hch
  rcases List.mem_append.mp hch with hch | hch
  · exact plain_of_mem_alphabet (halphabet ch hch)
  · rw [List.eq_of_mem_replicate hch]
    decide

/-- An escaped text and a Base64 text in quotation marks. -/
lemma quotes_append (start value : Bytes) :
    Quotes (quotationMark :: (jsonEscape start ++ encoded value ++ [quotationMark]))
      (start ++ encoded value) := by
  obtain ⟨hread, hclean⟩ := plain_spec (@plain_of_encoded value)
  obtain ⟨hread', hclean'⟩ := jsonEscape_spec start (encoded value)
  refine ⟨jsonEscape start ++ encoded value, rfl, hclean' hclean, ?_⟩
  rw [hread', hread, Option.map_some]

/-- An escaped text in quotation marks. -/
lemma quotes_jsonEscape (value : Bytes) :
    Quotes (quotationMark :: (jsonEscape value ++ [quotationMark])) value := by
  obtain ⟨hread, hclean⟩ := jsonEscape_spec value []
  rw [List.append_nil] at hread hclean
  refine ⟨jsonEscape value, rfl, hclean .nil, ?_⟩
  rw [hread]
  exact congrArg some (List.append_nil value)

/-! ### Calls -/

/-- A sink that keeps what it accepts.  What it keeps is what a reader would get. -/
def recording {σ : Type} (ops : SinkOps σ) : SinkOps (σ × Bytes) where
  write s data :=
    ((ops.write s.1 data).1, (ops.write s.1 data).2,
      if (ops.write s.1 data).1 then s.2 ++ data else s.2)
  isOpen s := ops.isOpen s.1

/-- A sink that accepts everything. -/
def Accepts {σ : Type} (ops : SinkOps σ) : Prop := ∀ s data, (ops.write s data).1 = true

namespace JsonStreamWriter

section

variable {σ : Type} (ops : SinkOps σ)

/-- What is accepted is kept. -/
lemma recording_of_true {s : σ × Bytes} {data : Bytes}
    (h : ((recording ops).write s data).1 = true) :
    ((recording ops).write s data).2.2 = s.2 ++ data :=
  if_pos h

/-- The loop over the pieces writes the whole escaped text.  Escaping looks at one byte at a time,
so the cuts do not show. -/
lemma run_stringStep (value : Bytes) (t : ℕ × (σ × Bytes)) :
    let r := Loop.run (stringStep (recording ops) value) (fun t => value.length - t.1)
      (stringStep_decreases (recording ops) value) t
    (Accepts ops → r.1 = true) ∧
      (r.1 = true → r.2.2 = t.2.2 ++ jsonEscape (value.drop t.1)) := by
  refine Loop.run_induct (stringStep_decreases (recording ops) value)
    (P := fun t r => (Accepts ops → r.1 = true) ∧
      (r.1 = true → r.2.2 = t.2.2 ++ jsonEscape (value.drop t.1))) ?_ ?_ t
  · intro t r h
    rw [stringStep] at h
    dsimp only at h
    split_ifs at h with hend hempty hwrite
    · cases h
      exact ⟨fun haccepts => absurd (haccepts _ _) hwrite, fun h => nomatch h⟩
    · cases h
      refine ⟨fun _ => rfl, fun _ => ?_⟩
      rw [List.drop_of_length_le (not_lt.mp hend), jsonEscape, List.flatMap_nil, List.append_nil]
  · intro t u r h ih
    refine ⟨ih.1, fun hr => ?_⟩
    have hsplit : jsonEscape (value.drop t.1) =
        jsonEscape ((value.drop t.1).take chunkSize) ++
          jsonEscape (value.drop (t.1 + chunkSize)) := by
      rw [jsonEscape, jsonEscape, jsonEscape, ← List.flatMap_append, ← List.drop_drop,
        List.take_append_drop]
    rw [stringStep] at h
    dsimp only at h
    split_ifs at h with hend hempty hwrite
    · cases h
      rw [ih.2 hr, hsplit, hempty, List.nil_append]
    · cases h
      rw [ih.2 hr, recording_of_true ops hwrite, hsplit, List.append_assoc]

/-- `string` writes the escaped text in quotation marks. -/
lemma string_spec {w : JsonStreamWriter} (hw : w.base64StringOpen = false) (value : Bytes)
    (s : σ × Bytes) :
    (Accepts ops → (string (recording ops) value w s).1 = true) ∧
      ((string (recording ops) value w s).1 = true →
        (string (recording ops) value w s).2.2.2 =
          s.2 ++ quotationMark :: (jsonEscape value ++ [quotationMark])) := by
  rw [string, if_neg (by rw [hw]; exact Bool.false_ne_true)]
  by_cases hopen : ((recording ops).write s [quotationMark]).1 = true
  · obtain ⟨haccepts, hwritten⟩ :=
      run_stringStep ops value (0, ((recording ops).write s [quotationMark]).2)
    rw [if_pos hopen]
    split
    · rename_i t hrun
      rw [hrun] at haccepts
      exact ⟨fun h => absurd (haccepts h) Bool.false_ne_true, fun h => nomatch h⟩
    · rename_i t hrun
      rw [hrun] at hwritten
      refine ⟨fun h => h _ _, fun hclose => ?_⟩
      have hbody := hwritten rfl
      rw [recording_of_true ops hclose, hbody, recording_of_true ops hopen]
      simp
  · rw [if_neg hopen]
    exact ⟨fun h => absurd (h _ _) hopen, fun h => nomatch h⟩

/-- Is a call one of `base64`? -/
def Call.isBase64 : Call → Bool
  | .base64 _ => true
  | _ => false

/-- The data of a call of `base64`. -/
def Call.data : Call → Bytes
  | .base64 data => data
  | _ => []

/-- A Base64 string is open, and fewer than three bytes are pending.  The encoder has what does not
make a triple yet, and keeps it for the next call. -/
structure Open (w : JsonStreamWriter) (pending : Bytes) : Prop where
  isOpen : w.base64StringOpen = true
  base64 : w.base64 = { pending := pending }
  short : pending.length < 3

/-- While a Base64 string is open, `raw`, `string` and `begin_base64_string` do nothing. -/
lemma call_of_open {w : JsonStreamWriter} (hw : w.base64StringOpen = true) (s : σ) {c : Call}
    (hc : c ≠ .endBase64String) (hbase64 : c.isBase64 = false) :
    call ops w s c = .ok (false, w, s) := by
  cases c with
  | raw json => exact congrArg _ (if_pos hw)
  | string value => exact congrArg _ (if_pos hw)
  | beginBase64String start => exact congrArg _ (if_pos hw)
  | base64 data => cases hbase64
  | endBase64String => exact absurd rfl hc

/-- A call while a Base64 string is open writes the triples that it completes. -/
lemma call_spec {w : JsonStreamWriter} {pending : Bytes} (hw : Open w pending) (s : σ × Bytes)
    {c : Call} (hc : c ≠ .endBase64String) :
    ∃ result w' s', call (recording ops) w s c = .ok (result, w', s') ∧
      Open w' (remainder (pending ++ c.data)) ∧ (Accepts ops → result = c.isBase64) ∧
      (result = c.isBase64 → s'.2 = s.2 ++ encodeTriples (pending ++ c.data)) := by
  by_cases hbase64 : c.isBase64 = true
  · obtain ⟨data, rfl⟩ : ∃ data, c = .base64 data := by
      cases c with
      | base64 data => exact ⟨data, rfl⟩
      | raw | string | beginBase64String | endBase64String => cases hbase64
    have hshort : (remainder (pending ++ data)).length < 3 := by
      rw [length_remainder]
      exact Nat.mod_lt _ (by decide)
    have hupdate : w.base64.update data = .ok (encodeTriples (pending ++ data),
        { pending := remainder (pending ++ data) }) := by
      rw [hw.base64]
      exact Base64Encoder.update_eq rfl hw.short data 0
    have hcall : call (recording ops) w s (.base64 data) =
        .ok (if encodeTriples (pending ++ data) = [] then
          (true, { w with base64 := { pending := remainder (pending ++ data) } }, s)
        else
          (((recording ops).write s (encodeTriples (pending ++ data))).1,
            { w with base64 := { pending := remainder (pending ++ data) } },
            ((recording ops).write s (encodeTriples (pending ++ data))).2)) := by
      rw [call, base64Data, hw.isOpen, hupdate]
      rfl
    rw [hcall]
    by_cases hempty : encodeTriples (pending ++ data) = []
    · rw [if_pos hempty]
      refine ⟨_, _, _, rfl, ⟨hw.isOpen, rfl, hshort⟩, fun _ => rfl, fun _ => ?_⟩
      exact ((congrArg _ hempty).trans (List.append_nil _)).symm
    · rw [if_neg hempty]
      exact ⟨_, _, _, rfl, ⟨hw.isOpen, rfl, hshort⟩, fun h => h _ _, recording_of_true ops⟩
  · have hother : c.isBase64 = false := by simpa using hbase64
    have hdata : c.data = [] := by
      cases c with
      | base64 data => cases hother
      | raw | string | beginBase64String | endBase64String => rfl
    obtain ⟨hencode, hrest⟩ := encode_of_short hw.short
    rw [call_of_open _ hw.isOpen s hc hother, hdata, List.append_nil, hencode, hrest, hother]
    exact ⟨_, _, _, rfl, hw, fun _ => rfl, fun _ => (List.append_nil _).symm⟩

/-- Calls while a Base64 string is open. -/
lemma calls_spec {w : JsonStreamWriter} {pending : Bytes} (hw : Open w pending) (s : σ × Bytes)
    {cs : List Call} (hcs : ∀ c ∈ cs, c ≠ .endBase64String) :
    ∃ results w' s', calls (recording ops) cs w s = .ok (results, w', s') ∧
      Open w' (remainder (pending ++ cs.flatMap Call.data)) ∧
      (Accepts ops → results = cs.map Call.isBase64) ∧
      (results = cs.map Call.isBase64 →
        s'.2 = s.2 ++ encodeTriples (pending ++ cs.flatMap Call.data)) := by
  induction cs generalizing w pending s with
  | nil =>
    obtain ⟨hencode, hrest⟩ := encode_of_short hw.short
    rw [List.flatMap_nil, List.append_nil, hencode, hrest]
    exact ⟨[], w, s, rfl, hw, fun _ => rfl, fun _ => (List.append_nil _).symm⟩
  | cons c cs ih =>
    obtain ⟨hc, hcs⟩ := List.forall_mem_cons.mp hcs
    obtain ⟨result, w', s', hcall, hw', haccepts, hwritten⟩ := call_spec ops hw s hc
    obtain ⟨results, w'', s'', hcalls, hw'', haccepts', hwritten'⟩ := ih hw' s' hcs
    obtain ⟨hencode, hrest⟩ := encodeTriples_append (pending ++ c.data) (cs.flatMap Call.data)
    rw [List.append_assoc] at hencode hrest
    rw [List.flatMap_cons, hencode, hrest, List.map_cons]
    refine ⟨result :: results, w'', s'', ?_, hw'', fun h => ?_, fun h => ?_⟩
    · rw [calls, hcall]
      dsimp only
      rw [hcalls]
    · rw [haccepts h, haccepts' h]
    · obtain ⟨hresult, hresults⟩ := List.cons.inj h
      rw [hwritten' hresults, hwritten hresult, List.append_assoc]

/-- Calls after calls. -/
lemma calls_append {cs more : List Call} {w w' : JsonStreamWriter} {s s' : σ} {results : List Bool}
    (h : calls ops cs w s = .ok (results, w', s')) :
    calls ops (cs ++ more) w s =
      (calls ops more w' s').map fun r => (results ++ r.1, r.2) := by
  induction cs generalizing w s results with
  | nil =>
    cases h
    rw [List.nil_append]
    cases calls ops more w' s' <;> rfl
  | cons c cs ih =>
    rw [calls] at h
    rw [List.cons_append, calls]
    cases hcall : call ops w s c with
    | error fault =>
      rw [hcall] at h
      cases h
    | ok r =>
      obtain ⟨result, v, t⟩ := r
      rw [hcall] at h
      dsimp only at h ⊢
      cases hcalls : calls ops cs v t with
      | error fault =>
        rw [hcalls] at h
        cases h
      | ok r =>
        obtain ⟨results, v', t'⟩ := r
        rw [hcalls] at h
        cases h
        rw [ih hcalls]
        cases calls ops more w' s' <;> rfl

/-- The end of a Base64 string writes the tail of the encoding and a quotation mark. -/
lemma endBase64String_spec {w : JsonStreamWriter} {pending : Bytes} (hw : Open w pending)
    (s : σ × Bytes) :
    let r := endBase64String (recording ops) w s
    (Accepts ops → r.1 = true) ∧
      (r.1 = true → r.2.1.base64StringOpen = false ∧
        r.2.2.2 = s.2 ++ ((Base64Encoder.finish { pending := pending }).1 ++ [quotationMark])) := by
  intro r
  have hr : r = endBase64String (recording ops) w s := rfl
  rw [endBase64String, hw.isOpen, if_neg (by decide), hw.base64] at hr
  dsimp only at hr
  split_ifs at hr with hempty hwrite
  · rw [hr, hempty, List.nil_append]
    exact ⟨fun h => h _ _, fun h => ⟨rfl, recording_of_true ops h⟩⟩
  · rw [hr]
    refine ⟨fun h => h _ _, fun h => ⟨rfl, ?_⟩⟩
    rw [recording_of_true ops h, recording_of_true ops hwrite, List.append_assoc]
  · rw [hr]
    exact ⟨fun h => absurd (h _ _) hwrite, fun h => nomatch h⟩

/-- A whole Base64 string, with all calls that are made while it is open.  It puts the calls between
the opening and the closing one together. -/
lemma base64String_spec {w : JsonStreamWriter} (hw : w.base64StringOpen = false) (start : Bytes)
    {cs : List Call} (hcs : ∀ c ∈ cs, c ≠ .endBase64String) (s : σ × Bytes) :
    (Accepts ops → ∃ w' s',
      calls (recording ops) (.beginBase64String start :: (cs ++ [.endBase64String])) w s =
        .ok (true :: (cs.map Call.isBase64 ++ [true]), w', s')) ∧
    ∀ w' s',
      calls (recording ops) (.beginBase64String start :: (cs ++ [.endBase64String])) w s =
          .ok (true :: (cs.map Call.isBase64 ++ [true]), w', s') →
        w'.base64StringOpen = false ∧
          s'.2 = s.2 ++ quotationMark ::
            (jsonEscape start ++ encoded (cs.flatMap Call.data) ++ [quotationMark]) := by
  have hbegin : call (recording ops) w s (.beginBase64String start) =
      .ok (beginBase64String (recording ops) start w s) := rfl
  rw [beginBase64String, if_neg (by rw [hw]; exact Bool.false_ne_true)] at hbegin
  by_cases hopen : ((recording ops).write s (quotationMark :: jsonEscape start)).1 = true
  · rw [if_pos hopen] at hbegin
    obtain ⟨t, ht⟩ : ∃ t, t = ((recording ops).write s (quotationMark :: jsonEscape start)).2 :=
      ⟨_, rfl⟩
    have htext : t.2 = s.2 ++ quotationMark :: jsonEscape start := by
      rw [ht]
      exact recording_of_true ops hopen
    rw [← ht] at hbegin
    obtain ⟨results, w₁, s₁, hcalls, hw₁, haccepts, hwritten⟩ :=
      @calls_spec _ ops { base64 := {}, base64StringOpen := true } [] ⟨rfl, rfl, by decide⟩ t _ hcs
    obtain ⟨hlast, hend⟩ := endBase64String_spec ops hw₁ s₁
    have hall : calls (recording ops) (.beginBase64String start :: (cs ++ [.endBase64String])) w s =
        .ok (true :: (results ++ [(endBase64String (recording ops) w₁ s₁).1]),
          (endBase64String (recording ops) w₁ s₁).2.1,
          (endBase64String (recording ops) w₁ s₁).2.2) := by
      rw [calls, hbegin]
      dsimp only
      rw [calls_append _ hcalls]
      rfl
    rw [hall]
    refine ⟨fun h => ⟨(endBase64String (recording ops) w₁ s₁).2.1,
      (endBase64String (recording ops) w₁ s₁).2.2, ?_⟩, fun w' s' h => ?_⟩
    · rw [haccepts h, hlast h]
    · obtain ⟨hresults, hstate⟩ := Prod.mk.inj (Except.ok.inj h)
      obtain ⟨hmiddle, hlast'⟩ := List.append_inj' (List.cons.inj hresults).2 rfl
      obtain ⟨hclosed, htail⟩ := hend (List.singleton_inj.mp hlast')
      obtain ⟨rfl, rfl⟩ := Prod.mk.inj hstate
      refine ⟨hclosed, ?_⟩
      rw [htail, hwritten hmiddle, htext, encoded, List.nil_append]
      simp only [List.append_assoc, List.cons_append]
  · rw [if_neg hopen] at hbegin
    refine ⟨fun h => absurd (h _ _) hopen, fun w' s' h => ?_⟩
    rw [calls, hbegin] at h
    dsimp only at h
    split at h
    · cases h
    · cases h

end

end JsonStreamWriter

open JsonStreamWriter in
/-- A string is written as a JSON string of its value, and a Base64 string with a prefix as one of
the prefix with the Base64 of all data, whatever other calls are made before it is ended; these
write nothing.  The text of a string does not depend on the writer, or on how it is cut. -/
theorem jsonStreamWriter_quotes :
    (∀ value, ∃ text, Quotes text value ∧
      ∀ {σ : Type} (ops : SinkOps σ) (w : JsonStreamWriter) (s : σ × Bytes),
        w.base64StringOpen = false →
          (Accepts ops → (string (recording ops) value w s).1 = true) ∧
          ((string (recording ops) value w s).1 = true →
            (string (recording ops) value w s).2.2.2 = s.2 ++ text)) ∧
    (∀ start cs, (∀ c ∈ cs, c ≠ Call.endBase64String) →
      ∃ text encoded, base64Encode (cs.flatMap Call.data) = .ok encoded ∧
        Quotes text (start ++ encoded) ∧
        ∀ {σ : Type} (ops : SinkOps σ) (w : JsonStreamWriter) (s : σ × Bytes),
          w.base64StringOpen = false →
            (Accepts ops → ∃ w' s',
              calls (recording ops) (.beginBase64String start :: (cs ++ [.endBase64String])) w s =
                .ok (true :: (cs.map Call.isBase64 ++ [true]), w', s')) ∧
            ∀ w' s',
              calls (recording ops) (.beginBase64String start :: (cs ++ [.endBase64String])) w s =
                  .ok (true :: (cs.map Call.isBase64 ++ [true]), w', s') →
                w'.base64StringOpen = false ∧ s'.2 = s.2 ++ text) ∧
    ∀ {σ : Type} (ops : SinkOps σ) (w : JsonStreamWriter) (s : σ), w.base64StringOpen = true →
      (∀ json, raw ops json w s = (false, w, s)) ∧
        ∀ value, string ops value w s = (false, w, s) := by
  refine ⟨fun value => ?_, fun start cs hcs => ?_, fun ops w s hw => ?_⟩
  · exact ⟨_, quotes_jsonEscape value, fun ops w s hw => string_spec ops hw value s⟩
  · exact ⟨_, _, base64Encode_eq _ _, quotes_append start (cs.flatMap Call.data),
      fun ops w s hw => base64String_spec ops hw start hcs s⟩
  · exact ⟨fun json => if_pos hw, fun value => if_pos hw⟩

-- the quotation mark and the line feed are escaped
example : jsonEscape (bytes "a\"\n") = bytes "a\\\"\\n" := by decide

end Json

end Chhttp
