import Chhttp.Common.Text
import Chhttp.Lib.Run
import Chhttp.Lib.Search

/-!
# The read buffer

`ReadBuffer` of `detail.hpp`: a string and an offset behind which the bytes start that are not
consumed yet.  The string is compacted, replaced or released under conditions of its own, none of
which can be seen from outside: every run of operations leaves a buffer whose view is what was
appended without what was consumed (`view_eq_contents`).

How a `std::string` chooses its capacity is left open, except that its text fits, and so is what a
string contains that was moved from.
-/

namespace Chhttp

open ListSearch

/-! ### The source -/

/-- A `std::string`: its text and its capacity.  The capacity is what `shrink_to_fit`, `reserve` and
the moves of the source are about; the text does not depend on it. -/
structure StdString where
  text : Bytes := []
  capacity : ℕ := 0
  fits : text.length ≤ capacity := by decide

/-- A string with a text, where `capacity` is what the implementation chooses if the text fits. -/
def StdString.of (text : Bytes) (capacity : ℕ) : StdString where
  text := text
  capacity := max text.length capacity
  fits := Nat.le_max_left _ _

/-- A string has the text that it was made of. -/
@[simp] theorem StdString.text_of (text : Bytes) (capacity : ℕ) :
    (StdString.of text capacity).text = text := rfl

/-- `ReadBuffer`: the bytes in store, and the offset up to which they have been consumed.  Consuming
moves the offset, and a compaction drops what is before it. -/
structure ReadBuffer where
  storage : StdString := {}
  offset : ℕ := 0

namespace ReadBuffer

/-- `view`: the bytes behind the offset. -/
def view (b : ReadBuffer) : Bytes := b.storage.text.drop b.offset

/-- `size`. -/
def size (b : ReadBuffer) : ℕ := b.storage.text.length - b.offset

/-- `operator[]`, which reads the storage. -/
def get? (b : ReadBuffer) (index : ℕ) : Option UInt8 := b.storage.text[b.offset + index]?

/-- `find`; a search that starts beyond the end finds nothing. -/
def find (b : ReadBuffer) (text : Bytes) (start : ℕ) : Option ℕ :=
  if b.view.length < start then none else findFrom text b.view start

/-- `find` of a character. -/
def findChar (b : ReadBuffer) (ch : UInt8) (start : ℕ) : Option ℕ := b.find [ch] start

/-- `substr`, which throws for a start beyond the end. -/
def substr (b : ReadBuffer) (start count : ℕ) : Option Bytes :=
  if b.view.length < start then none else some ((b.view.drop start).take count)

/-- `clear`; a large string is replaced by a new one. -/
def clear (b : ReadBuffer) (capacity : ℕ) : ReadBuffer :=
  { offset := 0
    storage :=
      if 64 * 1024 < b.storage.capacity then .of [] capacity else .of [] b.storage.capacity }

/-- `consume`. -/
def consume (b : ReadBuffer) (count capacity : ℕ) : ReadBuffer :=
  let b := { b with offset := b.offset + count }
  if b.offset = b.storage.text.length then b.clear capacity else b

/-- `storage_.erase(0, offset_)`. -/
def compact (b : ReadBuffer) : ReadBuffer :=
  { offset := 0, storage := .of (b.storage.text.drop b.offset) b.storage.capacity }

/-- The test before an `append`: half of the storage is consumed, or there is no room left. -/
def wantsRoom (b : ReadBuffer) (data : Bytes) : Prop :=
  b.storage.text.length / 2 ≤ b.offset ∨ b.storage.capacity - b.storage.text.length < data.length

instance (b : ReadBuffer) (data : Bytes) : Decidable (b.wantsRoom data) :=
  inferInstanceAs (Decidable (_ ∨ _))

/-- `storage_.append`. -/
def grow (b : ReadBuffer) (data : Bytes) (capacity : ℕ) : ReadBuffer :=
  { b with storage := .of (b.storage.text ++ data) capacity }

/-- `append`; an empty buffer takes the string over. -/
def append (b : ReadBuffer) (data : Bytes) (capacity : ℕ) : ReadBuffer :=
  if b.size = 0 then { storage := .of data capacity, offset := 0 }
  else (if b.wantsRoom data then b.compact else b).grow data capacity

/-- `append_view`. -/
def appendView (b : ReadBuffer) (data : Bytes) (capacity : ℕ) : ReadBuffer :=
  (if b.offset ≠ 0 ∧ b.wantsRoom data then b.compact else b).grow data capacity

/-- A buffer that was moved from, where `left` is what its string contains then. -/
def movedFrom (left : StdString) : ReadBuffer := { storage := left, offset := 0 }

/-- The operations on a family of buffers, with the choices of the implementation.  The standard
leaves open which capacity a string has after an append or a move, so the operations carry the
capacity that the implementation chooses. -/
inductive Operation where
  | append (i : ℕ) (data : Bytes) (capacity : ℕ)
  | appendView (i : ℕ) (data : Bytes) (capacity : ℕ)
  | consume (i count capacity : ℕ)
  | clear (i capacity : ℕ)
  /-- `i` is constructed from `j`, or `j` is assigned to it. -/
  | move (i j : ℕ) (left : StdString)

/-- The effect of an operation.  A caller consumes no more than there is; the assignment of a buffer
to itself does nothing. -/
def next (buffers : ℕ → ReadBuffer) : Operation → Option (ℕ → ReadBuffer)
  | .append i data capacity =>
    some (Function.update buffers i ((buffers i).append data capacity))
  | .appendView i data capacity =>
    some (Function.update buffers i ((buffers i).appendView data capacity))
  | .consume i count capacity =>
    if count ≤ (buffers i).size then
      some (Function.update buffers i ((buffers i).consume count capacity))
    else none
  | .clear i capacity => some (Function.update buffers i ((buffers i).clear capacity))
  | .move i j left =>
    some (if i = j then buffers
      else Function.update (Function.update buffers i (buffers j)) j (movedFrom left))

/-! ### The byte queue -/

/-- What has been appended to a buffer, and how much of it has been consumed.  This is the abstract
buffer: it never drops anything, and what is to be read is the one without the other. -/
structure Log where
  appended : Bytes := []
  consumed : ℕ := 0

/-- What was appended without what was consumed. -/
def Log.contents (log : Log) : Bytes := log.appended.drop log.consumed

/-- The effect of an operation on what was appended and consumed.  A buffer that is moved takes this
with it, and leaves what its string contains then. -/
def record (logs : ℕ → Log) : Operation → ℕ → Log
  | .append i data _ | .appendView i data _ =>
    Function.update logs i { logs i with appended := (logs i).appended ++ data }
  | .consume i count _ =>
    Function.update logs i { logs i with consumed := (logs i).consumed + count }
  | .clear i _ => Function.update logs i { logs i with consumed := (logs i).appended.length }
  | .move i j left =>
    if i = j then logs
    else Function.update (Function.update logs i (logs j)) j { appended := left.text }

/-! ### One operation -/

/-- The offset stays within the storage.  Every operation keeps this, so the view is never a read
behind the end. -/
def WellFormed (b : ReadBuffer) : Prop := b.offset ≤ b.storage.text.length

/-- The size is that of the view. -/
lemma size_eq (b : ReadBuffer) : b.size = b.view.length := by
  rw [size, view, List.length_drop]

/-- A cleared buffer. -/
lemma clear_spec (b : ReadBuffer) (capacity : ℕ) :
    (b.clear capacity).WellFormed ∧ (b.clear capacity).view = [] := by
  refine ⟨Nat.zero_le _, ?_⟩
  rw [view, clear]
  split_ifs <;> rfl

/-- Consuming drops bytes of the view. -/
lemma consume_spec {b : ReadBuffer} (h : b.WellFormed) {count : ℕ} (hcount : count ≤ b.size)
    (capacity : ℕ) :
    (b.consume count capacity).WellFormed ∧
      (b.consume count capacity).view = b.view.drop count := by
  rw [size] at hcount
  rw [WellFormed] at h
  rw [consume]
  by_cases hend : b.offset + count = b.storage.text.length
  · obtain ⟨hclear, hview⟩ := clear_spec { b with offset := b.offset + count } capacity
    rw [if_pos hend]
    refine ⟨hclear, hview.trans ?_⟩
    rw [view, List.drop_drop, hend, List.drop_length]
  · rw [if_neg hend]
    refine ⟨?_, ?_⟩
    · change b.offset + count ≤ b.storage.text.length
      omega
    · rw [view, view, List.drop_drop]

/-- Compaction is not seen. -/
lemma compact_spec (b : ReadBuffer) : b.compact.WellFormed ∧ b.compact.view = b.view :=
  ⟨Nat.zero_le _, rfl⟩

/-- More bytes behind the view. -/
lemma grow_spec {b : ReadBuffer} (h : b.WellFormed) (data : Bytes) (capacity : ℕ) :
    (b.grow data capacity).WellFormed ∧ (b.grow data capacity).view = b.view ++ data := by
  rw [WellFormed] at h
  refine ⟨?_, ?_⟩
  · rw [WellFormed, grow, StdString.text_of, List.length_append]
    exact Nat.le_add_right_of_le h
  · rw [view, grow, StdString.text_of, List.drop_append_of_le_length h, view]

/-- Appending puts bytes behind the view. -/
lemma append_spec {b : ReadBuffer} (h : b.WellFormed) (data : Bytes) (capacity : ℕ) :
    (b.append data capacity).WellFormed ∧ (b.append data capacity).view = b.view ++ data := by
  rw [append]
  by_cases hempty : b.size = 0
  · rw [size_eq, List.length_eq_zero_iff] at hempty
    rw [if_pos (by rw [size_eq, hempty]; rfl), hempty, List.nil_append]
    exact ⟨Nat.zero_le _, rfl⟩
  rw [if_neg hempty]
  by_cases hroom : b.wantsRoom data
  · rw [if_pos hroom, ← b.compact_spec.2]
    exact grow_spec b.compact_spec.1 data capacity
  · rw [if_neg hroom]
    exact grow_spec h data capacity

/-- So does appending a borrowed view. -/
lemma appendView_spec {b : ReadBuffer} (h : b.WellFormed) (data : Bytes) (capacity : ℕ) :
    (b.appendView data capacity).WellFormed ∧
      (b.appendView data capacity).view = b.view ++ data := by
  rw [appendView]
  by_cases hroom : b.offset ≠ 0 ∧ b.wantsRoom data
  · rw [if_pos hroom, ← b.compact_spec.2]
    exact grow_spec b.compact_spec.1 data capacity
  · rw [if_neg hroom]
    exact grow_spec h data capacity

/-! ### Runs -/

/-- A buffer holds what its log says.  The view is what the log has still to give, and the offset is
inside the storage. -/
structure Holds (b : ReadBuffer) (log : Log) : Prop where
  wellFormed : b.WellFormed
  view : b.view = log.contents
  consumed : log.consumed ≤ log.appended.length

/-- More bytes appended, in whatever way. -/
lemma Holds.append {b b' : ReadBuffer} {log : Log} (h : Holds b log) {data : Bytes}
    (hb' : b'.WellFormed ∧ b'.view = b.view ++ data) :
    Holds b' { log with appended := log.appended ++ data } where
  wellFormed := hb'.1
  view := by
    rw [hb'.2, h.view, Log.contents, Log.contents, List.drop_append_of_le_length h.consumed]
  consumed := by
    rw [List.length_append]
    exact Nat.le_add_right_of_le h.consumed

/-- Bytes consumed. -/
lemma Holds.consume {b b' : ReadBuffer} {log : Log} (h : Holds b log) {count : ℕ}
    (hcount : count ≤ b.size) (hb' : b'.WellFormed ∧ b'.view = b.view.drop count) :
    Holds b' { log with consumed := log.consumed + count } where
  wellFormed := hb'.1
  view := by rw [hb'.2, h.view, Log.contents, Log.contents, List.drop_drop]
  consumed := by
    have := h.consumed
    rw [size_eq, h.view, Log.contents, List.length_drop] at hcount
    dsimp only
    omega

/-- A whole buffer consumed. -/
lemma Holds.clear {b' : ReadBuffer} {log : Log} (hb' : b'.WellFormed ∧ b'.view = []) :
    Holds b' { log with consumed := log.appended.length } where
  wellFormed := hb'.1
  view := by rw [hb'.2, Log.contents, List.drop_length]
  consumed := Nat.le_refl _

/-- A buffer that was moved from. -/
lemma holds_movedFrom (left : StdString) :
    Holds (movedFrom left) { appended := left.text } :=
  ⟨Nat.zero_le _, rfl, Nat.zero_le _⟩

/-- Every operation keeps all buffers and their logs together. -/
lemma holds_next {buffers buffers' : ℕ → ReadBuffer} {logs : ℕ → Log} {op : Operation}
    (h : ∀ i, Holds (buffers i) (logs i)) (hnext : next buffers op = some buffers') (k : ℕ) :
    Holds (buffers' k) (record logs op k) := by
  -- an update of one buffer and of its log
  have hupdate : ∀ {i : ℕ} {b : ReadBuffer} {log : Log}, Holds b log →
      Holds (Function.update buffers i b k) (Function.update logs i log k) := by
    intro i b log hb
    rw [Function.update_apply, Function.update_apply]
    split_ifs
    · exact hb
    · exact h k
  cases op with
  | append i data capacity =>
    cases hnext
    exact hupdate ((h i).append (append_spec (h i).wellFormed data capacity))
  | appendView i data capacity =>
    cases hnext
    exact hupdate ((h i).append (appendView_spec (h i).wellFormed data capacity))
  | consume i count capacity =>
    rw [next] at hnext
    split_ifs at hnext with hcount
    cases hnext
    exact hupdate ((h i).consume hcount (consume_spec (h i).wellFormed hcount capacity))
  | clear i capacity =>
    cases hnext
    exact hupdate (Holds.clear ((buffers i).clear_spec capacity))
  | move i j left =>
    cases hnext
    rw [record]
    split_ifs
    · exact h k
    · rw [Function.update_apply, @Function.update_apply _ _ _ _ j]
      split_ifs
      · exact holds_movedFrom left
      · exact hupdate (h j)

/-- What the accessors of a buffer say about its view.  Size, emptiness, the view and the pointer to
the data all speak of the bytes behind the offset. -/
structure Agrees (b : ReadBuffer) : Prop where
  size : b.size = b.view.length
  get : ∀ index, b.get? index = b.view[index]?
  find : ∀ text start position, b.find text start = some position ↔
    start ≤ position ∧ position ≤ b.view.length ∧ text <+: b.view.drop position ∧
      ∀ m, start ≤ m → m < position → ¬ text <+: b.view.drop m
  findChar : ∀ ch start, b.findChar ch start = b.find [ch] start
  substr : ∀ start count, b.substr start count =
    if start ≤ b.view.length then some ((b.view.drop start).take count) else none

/-- The accessors agree with the view. -/
lemma agrees (b : ReadBuffer) : Agrees b where
  size := b.size_eq
  get index := by rw [get?, view, List.getElem?_drop]
  find text start position := by
    rw [ReadBuffer.find]
    by_cases hstart : b.view.length < start
    · rw [if_pos hstart]
      refine iff_of_false (fun h => nomatch h) fun h => ?_
      omega
    · rw [if_neg hstart, findFrom_eq_some_iff (not_lt.mp hstart)]
  findChar ch start := rfl
  substr start count := by
    rw [ReadBuffer.substr]
    by_cases hstart : b.view.length < start
    · rw [if_pos hstart, if_neg (not_le.mpr hstart)]
    · rw [if_neg hstart, if_pos (not_lt.mp hstart)]

/-- After every run of operations on any buffers, the view of a buffer is what was appended to it
without what was consumed, neither difference of sizes is negative, and all accessors agree with the
view. -/
theorem view_eq_contents {trace : List ((ℕ → ReadBuffer) × Operation)} {buffers : ℕ → ReadBuffer}
    (h : Transition.Run next (fun _ => {}) trace buffers) (i : ℕ) :
    (buffers i).view = ((trace.map Prod.snd).foldl record (fun _ => {}) i).contents ∧
      (buffers i).offset ≤ (buffers i).storage.text.length ∧
      (buffers i).storage.text.length ≤ (buffers i).storage.capacity ∧ Agrees (buffers i) := by
  have hholds : ∀ k, Holds (buffers k) ((trace.map Prod.snd).foldl record (fun _ => {}) k) := by
    induction h with
    | start => exact fun _ => ⟨Nat.le_refl _, rfl, Nat.le_refl _⟩
    | step hrun hnext ih =>
      intro k
      rw [List.map_append, List.foldl_append]
      exact holds_next ih hnext k
  exact ⟨(hholds i).view, (hholds i).wellFormed, (buffers i).storage.fits, agrees _⟩

/-- Two appended pieces, one byte consumed, and the rest moved to another buffer. -/
theorem view_eq_contents_of_move :
    ∃ trace buffers, Transition.Run next (fun _ => {}) trace buffers ∧
      (buffers 1).view = ((trace.map Prod.snd).foldl record (fun _ => {}) 1).contents ∧
      (buffers 1).view = [2, 3, 4] ∧ (buffers 0).view = [] := by
  obtain ⟨buffers, hbuffers, hview, hleft⟩ :
      ∃ buffers, Transition.perform next (fun _ => {})
          [.append 0 [1, 2] 15, .appendView 0 [3, 4] 15, .consume 0 1 0, .move 1 0 {}] =
            some buffers ∧
        (buffers 1).view = [2, 3, 4] ∧ (buffers 0).view = [] :=
    ⟨_, rfl, rfl, rfl⟩
  obtain ⟨trace, hrun⟩ := Transition.run_of_perform hbuffers
  exact ⟨trace, buffers, hrun, (view_eq_contents hrun 1).1, hview, hleft⟩

end ReadBuffer

end Chhttp
