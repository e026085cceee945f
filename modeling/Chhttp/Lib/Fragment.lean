import Mathlib

/-!
# Reading a byte stream that arrives in fragments

A `Source` is what an incremental reader sees: the elements received and not yet consumed, and
the outcomes of the reads still to come.  `Source.available` forgets how the elements are cut:
it is everything that arrives before the first end of stream or failure.

`Source.Took s p t` says that the word `p` was consumed on the way from `s` to `t`, and
`Source.size` is the measure of loops that read or consume.
-/

namespace Fragment

variable {α ε ρ : Type*}

/-- The outcome of one read of the transport. -/
inductive Event (α ε : Type*) where
  | data (xs : List α)
  | eof
  | failed (e : ε)

/-- Received elements that wait in a buffer, and the outcomes of the reads to come.  The two
together are the stream; where the one ends and the other begins is the cut, and a program that is
right does not depend on it. -/
structure Source (α ε : Type*) where
  buffer : List α
  reads : List (Event α ε)

/-- The elements that arrive before the stream first ends or fails. -/
def arriving : List (Event α ε) → List α
  | .data xs :: rs => xs ++ arriving rs
  | _ => []

namespace Source

/-- One read of the transport.  A script of reads that has run out is a closed stream. -/
def read (s : Source α ε) : Event α ε × Source α ε :=
  match s.reads with
  | [] => (.eof, s)
  | e :: rs => (e, { s with reads := rs })

/-- Drop elements from the front of the buffer. -/
def consume (s : Source α ε) (n : ℕ) : Source α ε := { s with buffer := s.buffer.drop n }

/-- Put elements behind those of the buffer. -/
def append (s : Source α ε) (xs : List α) : Source α ε := { s with buffer := s.buffer ++ xs }

/-- Everything there is to read.  It does not depend on the cuts, so what a reader makes of it alone
does not either. -/
def available (s : Source α ε) : List α := s.buffer ++ arriving s.reads

/-- Everything there is to read has been received.  Further reads bring an end or an error, but no
more elements. -/
def Settled (s : Source α ε) : Prop := arriving s.reads = []

@[simp] theorem consume_buffer (s : Source α ε) (n : ℕ) :
    (s.consume n).buffer = s.buffer.drop n := rfl

@[simp] theorem consume_reads (s : Source α ε) (n : ℕ) : (s.consume n).reads = s.reads := rfl

@[simp] theorem append_buffer (s : Source α ε) (xs : List α) :
    (s.append xs).buffer = s.buffer ++ xs := rfl

@[simp] theorem append_reads (s : Source α ε) (xs : List α) : (s.append xs).reads = s.reads := rfl

/-- Consuming received elements removes them from what there is to read. -/
theorem available_consume (s : Source α ε) (n : ℕ) :
    s.available = s.buffer.take n ++ (s.consume n).available := by
  rw [available, available, consume_buffer, consume_reads, ← List.append_assoc,
    List.take_append_drop]

/-- A read that returns elements only moves them into the buffer. -/
theorem available_read {s t : Source α ε} {xs : List α} (h : s.read = (.data xs, t)) :
    (t.append xs).available = s.available := by
  unfold read at h
  split at h
  · cases h
  · rename_i e rs hrs
    cases h
    simp [available, hrs, arriving]

/-- Reading elements shortens the script. -/
theorem reads_read {s t : Source α ε} {xs : List α} (h : s.read = (.data xs, t)) :
    t.buffer = s.buffer ∧ t.reads.length < s.reads.length := by
  unfold read at h
  split at h
  · cases h
  · rename_i e rs hrs
    cases h
    simp [hrs]

/-- A read that returns no elements meets the end of what there is to read.  The end and a failure
are alike here: neither brings elements, and the buffer is all that is left. -/
theorem settled_of_read {s t : Source α ε} {e : Event α ε} (h : s.read = (e, t))
    (he : ∀ xs, e ≠ .data xs) : s.Settled := by
  unfold read at h
  split at h
  · rename_i hrs
    simp [Settled, hrs, arriving]
  · rename_i e' rs hrs
    cases h
    cases e with
    | data xs => exact absurd rfl (he xs)
    | eof => simp [Settled, hrs, arriving]
    | failed e => simp [Settled, hrs, arriving]

/-- A read leaves the buffer. -/
theorem buffer_read {s t : Source α ε} {e : Event α ε} (h : s.read = (e, t)) :
    t.buffer = s.buffer := by
  unfold read at h
  split at h <;> cases h <;> rfl

/-- Nothing arrives after the stream has ended or failed. -/
def EndsOnce (s : Source α ε) : Prop :=
  ∃ (chunks : List (List α)) (end? : Option (Event α ε)),
    s.reads = chunks.map .data ++ end?.toList ∧ ∀ xs, end? ≠ some (.data xs)

/-- Consuming leaves the stream. -/
theorem EndsOnce.consume {s : Source α ε} (hs : s.EndsOnce) (n : ℕ) : (s.consume n).EndsOnce := hs

/-- This stays so, and after the end there is nothing to read.  A transport that has ended is not
asked again with success, so the end is where it is. -/
theorem EndsOnce.read {s t : Source α ε} {e : Event α ε} (hs : s.EndsOnce) (h : s.read = (e, t)) :
    t.EndsOnce ∧ ((∀ xs, e ≠ .data xs) → t.reads = []) := by
  obtain ⟨chunks, end?, hreads, hend⟩ := hs
  unfold Source.read at h
  split at h
  · rename_i hnil
    cases h
    exact ⟨⟨chunks, end?, hreads, hend⟩, fun _ => hnil⟩
  · rename_i first rest hcons
    cases h
    rw [hreads] at hcons
    cases chunks with
    | nil =>
      cases end? with
      | none => cases hcons
      | some e =>
        cases hcons
        exact ⟨⟨[], none, rfl, by simp⟩, fun _ => rfl⟩
    | cons chunk chunks =>
      cases hcons
      exact ⟨⟨chunks, end?, rfl, hend⟩, fun hnot => absurd rfl (hnot chunk)⟩

/-- While something is still to arrive, the next read returns elements. -/
theorem exists_read_of_not_settled {s : Source α ε} (h : ¬ s.Settled) :
    ∃ xs t, s.read = (.data xs, t) := by
  cases hr : s.read with
  | mk e t =>
    cases e with
    | data xs => exact ⟨xs, t, rfl⟩
    | eof => exact absurd (settled_of_read hr (by simp)) h
    | failed e => exact absurd (settled_of_read hr (by simp)) h

/-- A settled source holds everything in its buffer. -/
theorem Settled.available_eq {s : Source α ε} (h : s.Settled) : s.available = s.buffer := by
  rw [available, h, List.append_nil]

/-- The number of elements in the buffer and in all reads to come. -/
def size (s : Source α ε) : ℕ :=
  s.buffer.length + (s.reads.map fun e => match e with
    | .data xs => xs.length
    | _ => 0).sum

/-- Reading only moves elements. -/
theorem size_read {s t : Source α ε} {xs : List α} (h : s.read = (.data xs, t)) :
    (t.append xs).size = s.size := by
  unfold read at h
  split at h
  · cases h
  · rename_i e rs hrs
    cases h
    simp [size, hrs, Nat.add_assoc]

/-- Without elements to return, a read does not make the size larger.  With `size_consume` this
makes the size a measure for loops that read and consume. -/
theorem size_read_le {s t : Source α ε} {e : Event α ε} (h : s.read = (e, t)) :
    t.size ≤ s.size := by
  unfold read at h
  split at h
  · cases h
    exact le_rfl
  · rename_i e rs hrs
    cases h
    simp [size, hrs]

/-- Consuming makes the size smaller. -/
theorem size_consume {s : Source α ε} {n : ℕ} (hn : n ≤ s.buffer.length) :
    (s.consume n).size + n = s.size := by
  simp only [size, consume_buffer, consume_reads, List.length_drop]
  omega

/-- From `s` to `t` exactly the word `p` was consumed, from the buffer alone when it was there.  The
second part is what the loops of a reader need: a word that has arrived is consumed without a read,
whatever the transport would do next. -/
structure Took (s : Source α ε) (p : List α) (t : Source α ε) : Prop where
  available : s.available = p ++ t.available
  buffered : p.length ≤ s.buffer.length → t = s.consume p.length

/-- Consuming nothing. -/
lemma Took.refl (s : Source α ε) : Took s [] s :=
  ⟨rfl, fun _ => rfl⟩

/-- Consuming one word after another. -/
lemma Took.trans {s t u : Source α ε} {p q : List α} (hp : Took s p t) (hq : Took t q u) :
    Took s (p ++ q) u := by
  refine ⟨by rw [hp.available, hq.available, List.append_assoc], ?_⟩
  intro hlen
  rw [List.length_append] at hlen
  obtain rfl := hp.buffered (by omega)
  obtain rfl := hq.buffered (by rw [consume_buffer, List.length_drop]; omega)
  simp [consume, List.drop_drop]

/-- Consuming a word from the buffer. -/
lemma took_consume {s : Source α ε} {n : ℕ} (hn : n ≤ s.buffer.length) :
    Took s (s.buffer.take n) (s.consume n) := by
  refine ⟨s.available_consume n, ?_⟩
  intro _
  rw [List.length_take, Nat.min_eq_left hn]

/-- A word that is there when more has been received is there now. -/
lemma took_of_read {s t u : Source α ε} {xs p : List α} (hread : s.read = (.data xs, t))
    (hlen : s.buffer.length < p.length) (h : Took (t.append xs) p u) : Took s p u :=
  ⟨(available_read hread).symm.trans h.available, fun hle => absurd hle (by omega)⟩

/-- Consuming shortens what there is to read. -/
lemma Took.length {s t : Source α ε} {p : List α} (h : Took s p t) :
    s.available.length = p.length + t.available.length := by
  rw [h.available, List.length_append]

end Source

end Fragment
