import Chhttp.Common.Message
import Chhttp.Lib.Loop

/-!
# The parser of event streams

`SseParser` is the state of `SseParser::Impl`, with the events that it has dispatched so far.  What
the message handlers do is a function of these events: they may throw for the last one.

`feed` is the loop over the bytes that arrive together.  It hands complete lines to `processLine`,
from the bytes themselves where it can, and else from `line`, where an incomplete line waits.
-/

namespace Chhttp.Sse

/-- `SseEvent`; the retry time is in milliseconds.  As an event to be written, its empty fields are
not written. -/
structure SseEvent where
  data : Bytes := []
  event : Bytes := []
  id : Bytes := []
  retry : Option ℤ := none
  deriving DecidableEq

/-- `SseParserOptions`, with its defaults. -/
structure SseParserOptions where
  maxLineSize : ℕ := 1024 * 1024
  maxEventSize : ℕ := 8 * 1024 * 1024
  lastEventId : Bytes := []

/-- `SseParser::Impl`.  `skipLf` says that the last byte was a CR, so that a LF belongs to the same
line end, and `dispatched` are the events that the handler got. -/
structure SseParser where
  options : SseParserOptions
  handlers : List SseEvent → Option Thrown
  line : Bytes := []
  data : Bytes := []
  eventType : Bytes := []
  lastId : Bytes
  retryDelay : Option ℤ := none
  eventRetry : Option ℤ := none
  firstLine : Bool := true
  skipLf : Bool := false
  failed : Option ErrorInfo := none
  dispatched : List SseEvent := []

namespace SseParser

/-- A new parser. -/
def create (options : SseParserOptions) (handlers : List SseEvent → Option Thrown) : SseParser where
  options
  handlers
  lastId := options.lastEventId

/-- `reset`: everything but the options and the handler goes back to the start. -/
def reset (s : SseParser) : SseParser :=
  { s with
    line := [], data := [], eventType := [], lastId := s.options.lastEventId
    retryDelay := none, eventRetry := none, firstLine := true, skipLf := false, failed := none }

/-- The last line end of the data is not part of the event. -/
def popNewline (data : Bytes) : Bytes := if data.getLast? = some lf then data.dropLast else data

/-- `dispatch`. -/
def dispatch (s : SseParser) : Option ErrorInfo × SseParser :=
  if s.data.isEmpty then (none, { s with eventType := [], eventRetry := none })
  else
    let event : SseEvent :=
      { data := popNewline s.data
        event := if s.eventType.isEmpty then bytes "message" else s.eventType
        id := s.lastId
        retry := s.eventRetry }
    let dispatched := s.dispatched ++ [event]
    ((s.handlers dispatched).map (callbackFailed "SSE callback failed"),
      { s with data := [], eventType := [], eventRetry := none, dispatched })

/-- `exceeds_event_limit`. -/
def exceedsEventLimit (s : SseParser) (dataSize typeSize idSize : ℕ) : Bool :=
  decide (s.options.maxEventSize < dataSize + typeSize + idSize)

/-- The error of an event or of an id that is too large. -/
def tooLarge (message : String) : ErrorInfo := { code := .bodyTooLarge, message }

/-- The byte order mark. -/
def byteOrderMark : Bytes := [0xef, 0xbb, 0xbf]

/-- A first line loses its byte order mark. -/
def stripMark (firstLine : Bool) (value : Bytes) : Bytes :=
  if firstLine && byteOrderMark.isPrefixOf value then value.drop 3 else value

/-- The name of the field on a line. -/
def fieldName (value : Bytes) : Bytes := value.takeWhile (· != colon)

/-- The value of the field on a line. -/
def fieldValue (value : Bytes) : Bytes :=
  let fieldValue := (value.dropWhile (· != colon)).drop 1
  if fieldValue.head? = some sp then fieldValue.drop 1 else fieldValue

/-- The largest number of milliseconds. -/
def maxMilliseconds : ℕ := 2 ^ 63 - 1

/-- The retry time that a field gives. -/
def parseRetry (value : Bytes) : Option ℤ :=
  match fromChars 10 uint64Limit value with
  | none => none
  | some milliseconds => if milliseconds ≤ maxMilliseconds then some (milliseconds : ℤ) else none

/-- The effect of one field.  A field with a name that is not known has none. -/
def processField (s : SseParser) (field value : Bytes) : Option ErrorInfo × SseParser :=
  if field = bytes "data" then
    if s.options.maxEventSize ≤ value.length ∨
        s.options.maxEventSize - value.length - 1 < s.data.length ∨
        s.exceedsEventLimit (s.data.length + value.length + 1) s.eventType.length s.lastId.length then
      (some (tooLarge "SSE event exceeds configured limit"), s)
    else (none, { s with data := s.data ++ value ++ [lf] })
  else if field = bytes "event" then
    if s.exceedsEventLimit s.data.length value.length s.lastId.length then
      (some (tooLarge "SSE event exceeds configured limit"), s)
    else (none, { s with eventType := value })
  else if field = bytes "id" ∧ 0 ∉ value then
    if s.exceedsEventLimit s.data.length s.eventType.length value.length then
      (some (tooLarge "SSE event ID exceeds configured limit"), s)
    else (none, { s with lastId := value })
  else if field = bytes "retry" then
    match parseRetry value with
    | none => (none, s)
    | some delay => (none, { s with retryDelay := some delay, eventRetry := some delay })
  else (none, s)

/-- `process_line`. -/
def processLine (s : SseParser) (line : Bytes) : Option ErrorInfo × SseParser :=
  let value := stripMark s.firstLine line
  let s := { s with firstLine := false }
  if value.isEmpty then s.dispatch
  else if value.head? = some colon then (none, s)
  else s.processField (fieldName value) (fieldValue value)

/-- CR and LF. -/
def isNewline (c : UInt8) : Bool := c == cr || c == lf

/-- The error of a line that is too long. -/
def lineTooLong : ErrorInfo := tooLarge "SSE line exceeds configured limit"

/-- A LF that is the second half of a line end. -/
def skipLineFeed (s : SseParser) (bytes : Bytes) : Bytes :=
  if s.skipLf && bytes.head? == some lf then bytes.tail else bytes

/-- The bytes up to a line end, or to the end of the chunk. -/
def feedLine (s : SseParser) (bytes : Bytes) : Loop.Next (SseParser × Bytes) SseParser :=
  let lineEnd := bytes.findIdx? isNewline
  let count := lineEnd.getD bytes.length
  if s.options.maxLineSize < count ∨ s.options.maxLineSize - count < s.line.length then
    .leave { s with failed := some lineTooLong }
  else
    match lineEnd with
    | none => .leave { s with line := s.line ++ bytes }
    | some lineEnd =>
      let segment := bytes.take count
      -- a line that is complete in the chunk is not copied
      let s := if s.line.isEmpty then s else { s with line := s.line ++ segment }
      match s.processLine (if s.line.isEmpty then segment else s.line) with
      | (some e, s) => .leave { s with failed := some e }
      | (none, s) =>
        .again ({ s with line := [], skipLf := bytes[lineEnd]? == some cr },
          bytes.drop (lineEnd + 1))

/-- One iteration of the loop of `feed`. -/
def feedStep : SseParser × Bytes → Loop.Next (SseParser × Bytes) SseParser
  | (s, bytes) =>
    if bytes.isEmpty then .leave s
    else
      let bytes := s.skipLineFeed bytes
      if bytes.isEmpty then .leave { s with skipLf := false }
      else feedLine { s with skipLf := false } bytes

/-- Every iteration consumes a line end. -/
lemma feedStep_decreases : Loop.Decreases feedStep fun v => v.2.length := by
  rintro ⟨s, bytes⟩ ⟨s', rest⟩ h
  unfold feedStep feedLine at h
  dsimp only at h
  split_ifs at h with hempty hskipped hlimit
  all_goals
    split at h
    · cases h
    · split at h
      · cases h
      · cases h
        have hle : (s.skipLineFeed bytes).length ≤ bytes.length := by
          unfold skipLineFeed
          split_ifs <;> simp
        have hpos : (s.skipLineFeed bytes).length ≠ 0 := by simpa using hskipped
        simp only [List.length_drop]
        omega

/-- `feed`.  The error that it returns is `failed` of the state that it leaves. -/
def feed (s : SseParser) (bytes : Bytes) : SseParser :=
  if s.failed.isSome then s
  else Loop.run feedStep (fun v => v.2.length) feedStep_decreases (s, bytes)

/-- `finish`, which returns `failed`. -/
def finish (s : SseParser) : SseParser :=
  if s.failed.isSome then s
  else { s with line := [], data := [], eventType := [], eventRetry := none, skipLf := false }

end SseParser

end Chhttp.Sse
