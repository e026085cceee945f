import Chhttp.Transport.Connection

/-!
# Operations complete once

`Inv` ties the pointers of a connection to the states of its operations, and the operations that
are completed to the resumptions that have happened or are on the stack.  Once the connection is
closing, the part of `close_on_loop` that finishes a pending operation is still on the stack.
-/

namespace Chhttp.Transport

open Transition

namespace Connection

variable {s t : Connection} {kind : Kind} {op : ℕ}

/-- How often an operation in this state is to be resumed. -/
def due : OpState → ℕ
  | .completed => 1
  | _ => 0

@[simp] lemma due_completed : due .completed = 1 := rfl

@[simp] lemma due_fresh : due .fresh = 0 := rfl

@[simp] lemma due_pending (kind : Kind) : due (.pending kind) = 0 := rfl

/-- One resumption on the stack. -/
lemma count_resume (op o : ℕ) :
    [Frame.resume op].count (.resume o) = if o = op then 1 else 0 := by
  by_cases ho : o = op
  · simp [ho]
  · rw [if_neg ho, List.count_eq_zero]
    simp [ho]

/-- The invariant of a connection.  `skip` is a kind whose part of `close_on_loop` is running.  An
operation is fresh, pending in one place, or completed; and a completed one has been resumed, or is
about to be. -/
structure InvBut (skip : Option Kind) (s : Connection) : Prop where
  fresh (op : ℕ) : s.ops op = .fresh ↔ s.nextOp ≤ op
  pointer (kind : Kind) (op : ℕ) : s.pending kind = some op ↔ s.ops op = .pending kind
  /-- A completed operation has been resumed, or its resumption is on the stack. -/
  balance (op : ℕ) : s.stack.count (.resume op) + s.resumptions op = due (s.ops op)
  closed (kind : Kind) : s.closing = true → skip ≠ some kind → s.pending kind ≠ none →
    .closePending kind ∈ s.stack
  shut : s.closing = true → s.isOpen = false
  opening : .openConnect ∈ s.stack → s.stack = [.openConnect] ∧ s.closing = false ∧ s.nextOp = 0

/-- The invariant of a connection between its steps. -/
abbrev Inv (s : Connection) : Prop := InvBut none s

section complete

variable (s kind op) (frames : List Frame)

@[simp] lemma complete_pending :
    (s.complete kind op frames).pending = Function.update s.pending kind none := rfl

@[simp] lemma complete_ops :
    (s.complete kind op frames).ops = Function.update s.ops op .completed := rfl

@[simp] lemma complete_stack : (s.complete kind op frames).stack = frames ++ s.stack := rfl

@[simp] lemma complete_nextOp : (s.complete kind op frames).nextOp = s.nextOp := rfl

@[simp] lemma complete_resumptions :
    (s.complete kind op frames).resumptions = s.resumptions := rfl

end complete

/-- A pending operation is completed.  It was the only kind for which the invariant did not hold. -/
lemma InvBut.complete (h : InvBut (some kind) s) (hp : s.pending kind = some op)
    {frames : List Frame} (hcount : ∀ o, frames.count (.resume o) = if o = op then 1 else 0)
    (hopen : .openConnect ∉ frames ++ s.stack) : Inv (s.complete kind op frames) := by
  have hop := (h.pointer kind op).mp hp
  refine ⟨?_, ?_, ?_, ?_, h.shut, fun hmem => absurd hmem hopen⟩
  · intro o
    rw [complete_ops, complete_nextOp, ← h.fresh]
    by_cases ho : o = op
    · simp [ho, hop]
    · rw [Function.update_of_ne ho]
  · intro k o
    rw [complete_pending, complete_ops]
    by_cases hk : k = kind
    · subst hk
      by_cases ho : o = op
      · simp [ho]
      · have hne : s.ops o ≠ .pending k := by
          rw [Ne, ← h.pointer, hp, Option.some.injEq]
          exact fun heq => ho heq.symm
        simp [Function.update_of_ne ho, hne]
    · rw [Function.update_of_ne hk, h.pointer]
      by_cases ho : o = op
      · subst ho
        simp [hop, Ne.symm hk]
      · rw [Function.update_of_ne ho]
  · intro o
    have hbalance := h.balance o
    rw [complete_stack, complete_resumptions, complete_ops, List.count_append, hcount]
    by_cases ho : o = op
    · subst ho
      rw [hop, due_pending] at hbalance
      rw [if_pos rfl, Function.update_self, due_completed]
      omega
    · rw [if_neg ho, Function.update_of_ne ho, ← hbalance]
      omega
  · intro k hclosing _ hne
    rw [complete_pending] at hne
    by_cases hk : k = kind
    · simp [hk] at hne
    · rw [Function.update_of_ne hk] at hne
      exact List.mem_append_right _ (h.closed k hclosing (by simpa using Ne.symm hk) hne)

/-- The kind whose part of `close_on_loop` runs has no pending operation. -/
lemma InvBut.of_none (h : InvBut (some kind) s) (hp : s.pending kind = none) : Inv s := by
  refine ⟨h.fresh, h.pointer, h.balance, ?_, h.shut, h.opening⟩
  intro k hclosing _ hne
  by_cases hk : k = kind
  · exact absurd (hk ▸ hp) hne
  · exact h.closed k hclosing (by simpa using Ne.symm hk) hne

/-- One kind is left out. -/
lemma InvBut.skip (h : Inv s) (kind : Kind) : InvBut (some kind) s :=
  ⟨h.fresh, h.pointer, h.balance, fun k hclosing _ => h.closed k hclosing (by simp), h.shut,
    h.opening⟩

/-- A pending operation is not completed. -/
lemma InvBut.not_completed {skip : Option Kind} (h : InvBut skip s)
    (hp : s.pending kind = some op) : s.ops op ≠ .completed := by
  rw [(h.pointer kind op).mp hp]
  simp

/-- `finish_read` keeps the invariant, and no read is pending afterwards. -/
lemma InvBut.finishRead (h : InvBut (some .read) s) (hopen : .openConnect ∉ s.stack) :
    Inv s.finishRead ∧ s.finishRead.pending .read = none := by
  unfold Connection.finishRead
  split
  · rename_i hp
    exact ⟨h.of_none hp, hp⟩
  · rename_i op hp
    rw [if_neg (h.not_completed hp)]
    have hcomplete := h.complete hp (count_resume op) (by simpa using hopen)
    exact ⟨⟨hcomplete.fresh, hcomplete.pointer, hcomplete.balance, hcomplete.closed, hcomplete.shut,
      hcomplete.opening⟩, by simp⟩

/-- `finish_write` keeps the invariant, and no write is pending afterwards. -/
lemma InvBut.finishWrite (h : InvBut (some .write) s) (hopen : .openConnect ∉ s.stack) :
    Inv s.finishWrite ∧ s.finishWrite.pending .write = none := by
  unfold Connection.finishWrite
  split
  · rename_i hp
    exact ⟨h.of_none hp, hp⟩
  · rename_i op hp
    rw [if_neg (h.not_completed hp)]
    exact ⟨h.complete hp (count_resume op) (by simpa using hopen), by simp⟩

/-- `finish_connect` keeps the invariant, and no connect is pending afterwards.  A connection that
is closing is not opened again. -/
lemma InvBut.finishConnect (h : InvBut (some .connect) s) (hopen : .openConnect ∉ s.stack)
    {ok : Bool} (hclosing : ok = true → s.pending .connect ≠ none → s.closing = false) :
    Inv (s.finishConnect ok) ∧ (s.finishConnect ok).pending .connect = none := by
  unfold Connection.finishConnect
  split
  · rename_i hp
    exact ⟨h.of_none hp, hp⟩
  · rename_i op hp
    rw [if_neg (h.not_completed hp)]
    split_ifs with hok
    · have hcomplete := h.complete hp (count_resume op) (by simpa using hopen)
      refine ⟨⟨hcomplete.fresh, hcomplete.pointer, hcomplete.balance, hcomplete.closed, ?_,
        hcomplete.opening⟩, by simp⟩
      intro hclosed
      have hnot := hclosing hok (by simp [hp])
      exact absurd (hnot.symm.trans hclosed) (by simp)
    · refine ⟨h.complete hp ?_ (by simpa using hopen), by simp⟩
      intro o
      rw [List.count_cons_of_ne (by simp)]
      exact count_resume op o

/-- The next operation is not fresh any more. -/
lemma InvBut.fresh_issued (h : Inv s) {state : OpState} (hstate : state ≠ .fresh) (o : ℕ) :
    Function.update s.ops s.nextOp state o = .fresh ↔ s.nextOp + 1 ≤ o := by
  by_cases ho : o = s.nextOp
  · rw [ho, Function.update_self]
    exact iff_of_false hstate (Nat.not_succ_le_self _)
  · rw [Function.update_of_ne ho, h.fresh]
    omega

/-- An operation that fails when it is issued. -/
lemma InvBut.refuse (h : Inv s) (hopen : .openConnect ∉ s.stack) : Inv s.refuse := by
  unfold Connection.refuse
  refine ⟨?_, ?_, ?_, ?_, h.shut, fun hmem => absurd hmem (by simpa using hopen)⟩
  · exact h.fresh_issued OpState.noConfusion
  · intro k o
    dsimp only
    rw [h.pointer]
    by_cases ho : o = s.nextOp
    · have hfresh := (h.fresh o).mpr ho.ge
      rw [hfresh, ho, Function.update_self]
      simp
    · rw [Function.update_of_ne ho]
  · intro o
    have hbalance := h.balance o
    have hcount := count_resume s.nextOp o
    dsimp only
    rw [← List.singleton_append, List.count_append, hcount]
    by_cases ho : o = s.nextOp
    · have hfresh := (h.fresh o).mpr ho.ge
      rw [hfresh, due_fresh] at hbalance
      rw [if_pos ho, ho, Function.update_self, due_completed, ← ho]
      omega
    · rw [if_neg ho, Function.update_of_ne ho, ← hbalance, Nat.zero_add]
  · intro k hclosing hskip hne
    exact List.mem_cons_of_mem _ (h.closed k hclosing hskip hne)

/-- An operation becomes pending. -/
lemma InvBut.suspend (h : Inv s) (kind : Kind) (hopen : .openConnect ∉ s.stack)
    (hclosing : s.closing = false)
    (hp : s.pending kind = none) : Inv (s.suspend kind) := by
  unfold Connection.suspend
  refine ⟨?_, ?_, ?_, ?_, h.shut, fun hmem => absurd hmem hopen⟩
  · exact h.fresh_issued OpState.noConfusion
  · intro k o
    dsimp only
    by_cases ho : o = s.nextOp
    · have hfresh := (h.fresh o).mpr ho.ge
      have hnone : s.pending k ≠ some o := by
        rw [Ne, h.pointer, hfresh]
        simp
      subst ho
      rw [Function.update_self, OpState.pending.injEq]
      by_cases hk : k = kind
      · simp [hk]
      · simp [Function.update_of_ne hk, hnone, Ne.symm hk]
    · rw [Function.update_of_ne ho, ← h.pointer]
      by_cases hk : k = kind
      · subst hk
        simp [hp, Ne.symm ho]
      · rw [Function.update_of_ne hk]
  · intro o
    have hbalance := h.balance o
    dsimp only
    by_cases ho : o = s.nextOp
    · have hfresh := (h.fresh o).mpr ho.ge
      rw [hbalance, hfresh, ho, Function.update_self]
      rfl
    · rw [Function.update_of_ne ho, hbalance]
  · intro k hclosed
    exact absurd (hclosing.symm.trans hclosed) (by simp)

/-- An open connection is not closing. -/
lemma InvBut.not_closing {skip : Option Kind} (h : InvBut skip s) (hopen : s.isOpen = true) :
    s.closing = false := by
  by_contra hclosing
  rw [h.shut (by simpa using hclosing)] at hopen
  cases hopen

/-- The callback of a read. -/
lemma InvBut.startRead (h : Inv s) (hopen : .openConnect ∉ s.stack) (started : Bool) :
    Inv (s.startRead started) := by
  unfold Connection.startRead
  split_ifs with hclosed hpending hstarted hok
  · exact h.refuse hopen
  · exact h.refuse hopen
  all_goals
    have hsuspend := h.suspend .read hopen (h.not_closing (by simpa using hclosed))
      (by simpa using hpending)
  · exact hsuspend
  · exact ⟨hsuspend.fresh, hsuspend.pointer, hsuspend.balance, hsuspend.closed, hsuspend.shut,
      hsuspend.opening⟩
  · exact ((hsuspend.skip .read).finishRead hopen).1

/-- The callback of a write. -/
lemma InvBut.startWrite (h : Inv s) (hopen : .openConnect ∉ s.stack) (started : Bool) :
    Inv (s.startWrite started) := by
  unfold Connection.startWrite
  split_ifs with hclosed hpending hok
  · exact h.refuse hopen
  · exact h.refuse hopen
  all_goals
    have hsuspend := h.suspend .write hopen (h.not_closing (by simpa using hclosed))
      (by simpa using hpending)
  · exact ⟨hsuspend.fresh, hsuspend.pointer, hsuspend.balance, hsuspend.closed, hsuspend.shut,
      hsuspend.opening⟩
  · have hreset : Inv { s.suspend .write with immediateWrites := 0 } :=
      ⟨hsuspend.fresh, hsuspend.pointer, hsuspend.balance, hsuspend.closed, hsuspend.shut,
        hsuspend.opening⟩
    exact ((hreset.skip .write).finishWrite hopen).1

/-- A write on the loop. -/
lemma InvBut.write (h : Inv s) (hopen : .openConnect ∉ s.stack) (large : Bool) (attempt : Attempt)
    (started : Bool) : Inv (s.write large attempt started) := by
  have hcount : Inv { s with immediateWrites := s.immediateWrites + 1 } :=
    ⟨h.fresh, h.pointer, h.balance, h.closed, h.shut, h.opening⟩
  unfold Connection.write
  split_ifs
  · exact h
  · exact h
  · exact h.startWrite hopen started
  · cases attempt with
    | wholly => exact hcount
    | partly => exact hcount.startWrite hopen started
    | notNow => exact h.startWrite hopen started
    | failed => exact h

/-- Frames without resumptions are put on the stack. -/
lemma InvBut.push (h : Inv s) (hopen : .openConnect ∉ s.stack) {frames : List Frame}
    (hframes : ∀ op, .resume op ∉ frames) (hfirst : .openConnect ∉ frames) :
    Inv (s.push frames) := by
  unfold Connection.push
  refine ⟨h.fresh, h.pointer, ?_, ?_, h.shut, ?_⟩
  · intro o
    have hbalance := h.balance o
    dsimp only
    rw [List.count_append, List.count_eq_zero.mpr (hframes o), Nat.zero_add]
    exact hbalance
  · intro k hclosing hskip hne
    exact List.mem_append_right _ (h.closed k hclosing hskip hne)
  · intro hmem
    rcases List.mem_append.mp hmem with hmem | hmem
    · exact absurd hmem hfirst
    · exact absurd hmem hopen

variable {frame : Frame} {rest : List Frame}

/-- The connection is opened before anything else. -/
lemma InvBut.not_opening (h : Inv s) (hstack : s.stack = frame :: rest) :
    .openConnect ∉ rest := by
  intro hmem
  have hsingle := (h.opening (by rw [hstack]; exact List.mem_cons_of_mem _ hmem)).1
  rw [hstack] at hsingle
  cases hsingle
  cases hmem

/-- A frame is taken off the stack. -/
lemma InvBut.pop (h : Inv s) (hstack : s.stack = frame :: rest) {skip : Option Kind}
    (hresume : ∀ op, frame ≠ .resume op)
    (hclose : ∀ kind, frame = .closePending kind → skip = some kind) :
    InvBut skip { s with stack := rest } := by
  refine ⟨h.fresh, h.pointer, ?_, ?_, h.shut, fun hmem => absurd hmem (h.not_opening hstack)⟩
  · intro o
    have hbalance := h.balance o
    rw [hstack, List.count_cons_of_ne (hresume o)] at hbalance
    exact hbalance
  · intro k hclosing hskip hne
    have hmem := h.closed k hclosing (by simp) hne
    rw [hstack] at hmem
    rcases List.mem_cons.mp hmem with heq | hmem
    · exact absurd (hclose k heq.symm) hskip
    · exact hmem

/-- Nothing is pending on a new connection. -/
lemma InvBut.pending_none (h : Inv s) (hnext : s.nextOp = 0) : s.pending kind = none := by
  cases hp : s.pending kind with
  | none => rfl
  | some op =>
    have hfresh := (h.fresh op).mpr (by omega)
    rw [h.pointer, hfresh] at hp
    cases hp

/-- `start_tcp_connect` keeps the invariant. -/
lemma InvBut.startTcpConnect (h : Inv s) (hopen : .openConnect ∉ s.stack) (started : Bool) :
    Inv (s.startTcpConnect op started) := by
  unfold Connection.startTcpConnect
  split_ifs
  · exact ⟨h.fresh, h.pointer, h.balance, h.closed, h.shut, h.opening⟩
  · exact ((h.skip .connect).finishConnect hopen (by simp)).1

/-- `finish_…`, as `close_on_loop` calls it. -/
lemma InvBut.finish (h : InvBut (some kind) s) (hopen : .openConnect ∉ s.stack) :
    Inv (s.finish kind) := by
  cases kind with
  | connect => exact (InvBut.finishConnect h hopen (by simp)).1
  | read => exact (InvBut.finishRead h hopen).1
  | write => exact (InvBut.finishWrite h hopen).1

/-- The loop goes on with the first frame. -/
lemma InvBut.exec (h : Inv s) (hstack : s.stack = frame :: rest) (candidate started : Bool) :
    Inv (({ s with stack := rest } : Connection).exec candidate started frame) := by
  have hopen := h.not_opening hstack
  cases frame with
  | openConnect =>
    obtain ⟨-, hclosing, hnext⟩ := h.opening (by simp [hstack])
    have hpop : Inv { s with stack := rest } := h.pop hstack (by simp) (by simp)
    have hsuspend := hpop.suspend .connect hopen hclosing (h.pending_none hnext)
    unfold Connection.exec
    dsimp only
    split_ifs
    · exact hsuspend.push hopen (by simp) (by simp)
    · exact ((hsuspend.skip .connect).finishConnect hopen (by simp)).1
  | startConnect op =>
    have hpop : Inv { s with stack := rest } := h.pop hstack (by simp) (by simp)
    unfold Connection.exec
    dsimp only
    split_ifs
    · exact hpop
    · exact hpop.startTcpConnect hopen started
    · exact ⟨hpop.fresh, hpop.pointer, hpop.balance, hpop.closed, hpop.shut, hpop.opening⟩
    · exact ((hpop.skip .connect).finishConnect hopen (by simp)).1
  | user => exact h.pop hstack (by simp) (by simp)
  -- the frame leaves the stack as the resumption of one operation, so that its count drops by one
  | resume op =>
    refine ⟨h.fresh, h.pointer, ?_, ?_, h.shut, ?_⟩
    · intro o
      have hbalance := h.balance o
      unfold Connection.exec
      dsimp only
      rw [List.count_cons_of_ne (by simp), ← hbalance, hstack]
      by_cases ho : o = op
      · subst ho
        rw [Function.update_self, List.count_cons_self]
        omega
      · rw [Function.update_of_ne ho, List.count_cons_of_ne (by simpa using Ne.symm ho)]
    · intro k hclosing hskip hne
      have hmem := h.closed k hclosing hskip hne
      rw [hstack, List.mem_cons] at hmem
      exact List.mem_cons_of_mem _ (hmem.resolve_left (by simp))
    · intro hmem
      exact absurd ((List.mem_cons.mp hmem).resolve_left (by simp)) hopen
  | closeOnLoop =>
    have hpop : Inv { s with stack := rest } := h.pop hstack (by simp) (by simp)
    unfold Connection.exec
    dsimp only
    split_ifs
    · exact hpop
    · refine ⟨hpop.fresh, hpop.pointer, ?_, ?_, fun _ => rfl, ?_⟩
      · intro o
        simpa [Connection.push] using hpop.balance o
      · intro k _ _ _
        cases k <;> simp [Connection.push]
      · intro hmem
        exact absurd (by simpa [Connection.push] using hmem) hopen
  -- the operation that `close` found pending completes here, and with that the exception ends
  | closePending kind =>
    have hpop : InvBut (some kind) { s with stack := rest } := h.pop hstack (by simp) (by simp)
    unfold Connection.exec
    dsimp only
    split_ifs with hpending
    · exact hpop.finish hopen
    · exact hpop.of_none (by simpa using hpending)
  | closeHandles =>
    have hpop : Inv { s with stack := rest } := h.pop hstack (by simp) (by simp)
    exact ⟨hpop.fresh, hpop.pointer, hpop.balance, hpop.closed, hpop.shut, hpop.opening⟩

/-- A call of a coroutine. -/
lemma InvBut.perform (h : Inv s) (hstack : s.stack = .user :: rest) (call : Call) :
    Inv (s.perform call) := by
  have hopen : .openConnect ∉ s.stack := by
    rw [hstack, List.mem_cons]
    rintro (heq | hmem)
    · cases heq
    · exact h.not_opening hstack hmem
  cases call with
  | read started => exact h.startRead hopen started
  | write large attempt started => exact h.write hopen large attempt started
  | close =>
    have hclosed : Inv { s with isOpen := false } :=
      ⟨h.fresh, h.pointer, h.balance, h.closed, fun _ => rfl, h.opening⟩
    exact hclosed.push hopen (by simp) (by simp)

/-- Finishing an operation opens no connection. -/
lemma not_opening_finish (kind : Kind) (hopen : .openConnect ∉ s.stack) :
    .openConnect ∉ (s.finish kind).stack := by
  cases kind with
  | connect =>
    simp only [Connection.finish, Connection.finishConnect]
    split
    · exact hopen
    · split_ifs <;> simpa using hopen
  | read =>
    simp only [Connection.finish, Connection.finishRead]
    split
    · exact hopen
    · split_ifs <;> simpa using hopen
  | write =>
    simp only [Connection.finish, Connection.finishWrite]
    split
    · exact hopen
    · split_ifs <;> simpa using hopen

/-- `close_on_loop` is called when the rest is done. -/
lemma InvBut.closeAfter (h : Inv s) (hopen : .openConnect ∉ s.stack) :
    Inv { s with stack := s.stack ++ [.closeOnLoop] } := by
  refine ⟨h.fresh, h.pointer, ?_, ?_, h.shut, ?_⟩
  · intro o
    rw [← h.balance o, List.count_append]
    simp
  · intro k hclosing hskip hne
    exact List.mem_append_left _ (h.closed k hclosing hskip hne)
  · intro hmem
    exact absurd (by simpa using hmem) hopen

/-- A callback is no longer outstanding. -/
lemma InvBut.called (h : Inv s) (request : Request) : Inv (s.called request) :=
  ⟨h.fresh, h.pointer, h.balance, h.closed, h.shut, h.opening⟩

/-- An event. -/
lemma InvBut.handle (h : Inv s) (hstack : s.stack = []) {event : Event}
    (hnext : s.handle event = some t) : Inv t := by
  have hopen : .openConnect ∉ s.stack := by simp [hstack]
  cases event with
  | coroutine =>
    cases hnext
    exact h.push hopen (by simp) (by simp)
  | posted =>
    simp only [Connection.handle] at hnext
    split_ifs at hnext
    cases hnext
    have hposted : Inv { s with posted := s.posted - 1 } :=
      ⟨h.fresh, h.pointer, h.balance, h.closed, h.shut, h.opening⟩
    exact hposted.push hopen (by simp) (by simp)
  | postedRead started =>
    cases hnext
    exact h.startRead hopen started
  | postedWrite started =>
    cases hnext
    exact h.startWrite hopen started
  | readCallback something =>
    cases hnext
    split_ifs
    · exact ((h.skip .read).finishRead hopen).1
    · exact h
  | writeCallback op ok =>
    simp only [Connection.handle] at hnext
    split_ifs at hnext
    · cases hnext
      exact h.called _
    · cases hnext
      exact (((h.called _).skip .write).finishWrite hopen).1
  | resolveCallback op ok started =>
    simp only [Connection.handle] at hnext
    split_ifs at hnext
    · cases hnext
      exact h.called _
    · cases hnext
      exact (h.called _).startTcpConnect hopen started
    · cases hnext
      exact (((h.called _).skip .connect).finishConnect hopen (by simp)).1
  | connectCallback op ok =>
    simp only [Connection.handle] at hnext
    split_ifs at hnext
    · cases hnext
      exact h.called _
    · cases hnext
      refine (((h.called _).skip .connect).finishConnect hopen ?_).1
      -- nothing is left of `close_on_loop`, so nothing would be pending
      intro _ hpending
      by_contra hclosing
      have hmem := h.closed .connect (Bool.eq_true_of_not_eq_false hclosing) (by simp) hpending
      rw [hstack] at hmem
      cases hmem
  | readTimeout =>
    cases hnext
    split_ifs
    · exact ((h.skip .connect).finishConnect hopen (by simp)).1.closeAfter
        (not_opening_finish .connect hopen)
    · exact ((h.skip .read).finishRead hopen).1.closeAfter (not_opening_finish .read hopen)
  | writeTimeout =>
    cases hnext
    exact ((h.skip .write).finishWrite hopen).1.closeAfter (not_opening_finish .write hopen)

/-- Every step keeps the invariant.  The steps are the frames that the loop goes on with, the calls
of coroutines, and the events from outside. -/
theorem InvBut.next {a : Action} (h : Inv s) (hnext : s.next a = some t) : Inv t := by
  unfold Connection.next at hnext
  split at hnext
  · split at hnext
    · cases hnext
    · cases hnext
    · rename_i frame rest hstack
      cases hnext
      exact h.exec hstack _ _
  · split at hnext
    · rename_i rest hstack
      cases hnext
      exact h.perform hstack _
    · cases hnext
  · split at hnext
    · rename_i rest hstack
      cases hnext
      exact h.pop hstack (by simp) (by simp)
    · cases hnext
  · split at hnext
    · rename_i hstack
      exact h.handle hstack hnext
    · cases hnext
  · cases hnext
    exact ⟨h.fresh, h.pointer, h.balance, h.closed, fun _ => rfl, h.opening⟩

/-- An accepted connection. -/
lemma inv_accepted : Inv accepted :=
  ⟨fun op => ⟨fun _ => op.zero_le, fun _ => rfl⟩, fun kind op => by simp [accepted],
    fun op => rfl, fun kind hclosing => (nomatch hclosing), fun hclosing => (nomatch hclosing),
    fun hmem => (nomatch hmem)⟩

/-- A connection that is about to be connected. -/
lemma inv_created : Inv created := by
  refine ⟨fun op => ⟨fun _ => op.zero_le, fun _ => rfl⟩, fun kind op => by simp [created], ?_,
    fun kind hclosing => (nomatch hclosing), fun hclosing => (nomatch hclosing),
    fun _ => ⟨rfl, rfl, rfl⟩⟩
  intro op
  simp [created]

/-! ### Closing -/

/-- `close_on_loop` has returned.  Nothing is pending any more, and nothing can become pending. -/
def Closed (s : Connection) : Prop :=
  s.closing = true ∧ ∀ kind, .closePending kind ∉ s.stack

/-- What does not call `close_on_loop`: the connection is not closed, and no part of
`close_on_loop` begins. -/
def Keeps (s t : Connection) : Prop :=
  t.closing = s.closing ∧ ∀ kind, .closePending kind ∈ t.stack → .closePending kind ∈ s.stack

/-- One after the other. -/
lemma Keeps.trans {u : Connection} (h : Keeps s t) (h' : Keeps t u) : Keeps s u :=
  ⟨h'.1.trans h.1, fun kind hmem => h.2 kind (h'.2 kind hmem)⟩

/-- A closed connection stays closed. -/
lemma Keeps.closed (h : Keeps s t) (hs : s.Closed) : t.Closed :=
  ⟨h.1.trans hs.1, fun kind hmem => hs.2 kind (h.2 kind hmem)⟩

/-- Other frames are put on the stack. -/
lemma keeps_push {frames : List Frame} (hframes : ∀ kind, .closePending kind ∉ frames) :
    Keeps s (s.push frames) :=
  ⟨rfl, fun kind hmem => (List.mem_append.mp hmem).resolve_left (hframes kind)⟩

/-- `finish_connect` closes nothing by itself. -/
lemma keeps_finishConnect (ok : Bool) : Keeps s (s.finishConnect ok) := by
  unfold finishConnect
  split
  · exact ⟨rfl, fun _ hmem => hmem⟩
  · split_ifs
    · exact ⟨rfl, fun _ hmem => hmem⟩
    · exact ⟨rfl, fun kind hmem => by simpa using hmem⟩
    · exact ⟨rfl, fun kind hmem => by simpa using hmem⟩

/-- `finish_read` closes nothing. -/
lemma keeps_finishRead : Keeps s s.finishRead := by
  unfold finishRead
  split
  · exact ⟨rfl, fun _ hmem => hmem⟩
  · split_ifs
    · exact ⟨rfl, fun _ hmem => hmem⟩
    · exact ⟨rfl, fun kind hmem => by simpa using hmem⟩

/-- `finish_write` closes nothing. -/
lemma keeps_finishWrite : Keeps s s.finishWrite := by
  unfold finishWrite
  split
  · exact ⟨rfl, fun _ hmem => hmem⟩
  · split_ifs
    · exact ⟨rfl, fun _ hmem => hmem⟩
    · exact ⟨rfl, fun kind hmem => by simpa using hmem⟩

/-- Finishing an operation closes nothing by itself. -/
lemma keeps_finish (kind : Kind) : Keeps s (s.finish kind) := by
  cases kind with
  | connect => exact keeps_finishConnect false
  | read => exact keeps_finishRead
  | write => exact keeps_finishWrite

/-- An operation that fails closes nothing. -/
lemma keeps_refuse : Keeps s s.refuse := ⟨rfl, fun kind hmem => by simpa [refuse] using hmem⟩

/-- The callback of a read closes nothing. -/
lemma keeps_startRead (started : Bool) : Keeps s (s.startRead started) := by
  have hsuspend : Keeps s (s.suspend .read) := ⟨rfl, fun _ hmem => hmem⟩
  unfold startRead
  split_ifs
  · exact keeps_refuse
  · exact keeps_refuse
  · exact hsuspend
  · exact hsuspend
  · exact hsuspend.trans keeps_finishRead

/-- The callback of a write closes nothing. -/
lemma keeps_startWrite (started : Bool) : Keeps s (s.startWrite started) := by
  have hsuspend : Keeps s { s.suspend .write with immediateWrites := 0 } :=
    ⟨rfl, fun _ hmem => hmem⟩
  unfold startWrite
  split_ifs
  · exact keeps_refuse
  · exact keeps_refuse
  · exact hsuspend
  · exact hsuspend.trans keeps_finishWrite

/-- A write on the loop closes nothing. -/
lemma keeps_write (large : Bool) (attempt : Attempt) (started : Bool) :
    Keeps s (s.write large attempt started) := by
  have hsame : Keeps s s := ⟨rfl, fun _ hmem => hmem⟩
  have hcount : Keeps s { s with immediateWrites := s.immediateWrites + 1 } :=
    ⟨rfl, fun _ hmem => hmem⟩
  unfold write
  split_ifs
  · exact hsame
  · exact hsame
  · exact keeps_startWrite started
  · cases attempt with
    | wholly => exact hcount
    | partly => exact hcount.trans (keeps_startWrite started)
    | notNow => exact keeps_startWrite started
    | failed => exact hsame

/-- `start_tcp_connect` closes nothing by itself. -/
lemma keeps_startTcpConnect (started : Bool) : Keeps s (s.startTcpConnect op started) := by
  unfold startTcpConnect
  split_ifs
  · exact ⟨rfl, fun _ hmem => hmem⟩
  · exact keeps_finishConnect false

/-- The frames of a closed connection do not close it again.  This is why nothing is closed twice,
whichever operation is the last one. -/
lemma keeps_exec (hclosing : s.closing = true) (candidate started : Bool) (frame : Frame) :
    Keeps s (s.exec candidate started frame) := by
  have hsame : Keeps s s := ⟨rfl, fun _ hmem => hmem⟩
  have hsuspend : Keeps s (s.suspend .connect) := hsame
  cases frame with
  | openConnect =>
    unfold exec
    dsimp only
    split_ifs
    · exact hsuspend.trans (keeps_push (by simp))
    · exact hsuspend.trans (keeps_finishConnect false)
  | startConnect op =>
    unfold exec
    dsimp only
    split_ifs
    · exact hsame
    · exact keeps_startTcpConnect started
    · exact hsame
    · exact keeps_finishConnect false
  | user => exact hsame
  | resume op => exact ⟨rfl, fun kind hmem => by simpa [exec] using hmem⟩
  | closeOnLoop =>
    unfold exec
    dsimp only
    rw [if_pos hclosing]
    exact hsame
  | closePending kind =>
    unfold exec
    dsimp only
    split_ifs
    · exact keeps_finish kind
    · exact hsame
  | closeHandles => exact hsame

/-- An event. -/
lemma keeps_handle {event : Event} (hnext : s.handle event = some t) : Keeps s t := by
  have hsame : Keeps s s := ⟨rfl, fun _ hmem => hmem⟩
  have hcalled : ∀ request, Keeps s (s.called request) := fun _ => hsame
  -- a timeout closes behind the completion: one more frame, at the end of the stack
  have hafter : ∀ {u : Connection}, Keeps s u →
      Keeps s { u with stack := u.stack ++ [.closeOnLoop] } :=
    fun h => ⟨h.1, fun kind hmem => h.2 kind (by simpa using hmem)⟩
  cases event with
  | coroutine =>
    cases hnext
    exact keeps_push (by simp)
  | posted =>
    simp only [handle] at hnext
    split_ifs at hnext
    cases hnext
    exact Keeps.trans (t := { s with posted := s.posted - 1 }) hsame (keeps_push (by simp))
  | postedRead started =>
    cases hnext
    exact keeps_startRead started
  | postedWrite started =>
    cases hnext
    exact keeps_startWrite started
  | readCallback something =>
    cases hnext
    split_ifs
    · exact keeps_finishRead
    · exact hsame
  | writeCallback op ok =>
    simp only [handle] at hnext
    split_ifs at hnext
    · cases hnext
      exact hcalled _
    · cases hnext
      exact (hcalled _).trans keeps_finishWrite
  | resolveCallback op ok started =>
    simp only [handle] at hnext
    split_ifs at hnext
    · cases hnext
      exact hcalled _
    · cases hnext
      exact (hcalled _).trans (keeps_startTcpConnect started)
    · cases hnext
      exact (hcalled _).trans (keeps_finishConnect false)
  | connectCallback op ok =>
    simp only [handle] at hnext
    split_ifs at hnext
    · cases hnext
      exact hcalled _
    · cases hnext
      exact (hcalled _).trans (keeps_finishConnect ok)
  | readTimeout =>
    cases hnext
    split_ifs
    · exact hafter (keeps_finishConnect false)
    · exact hafter keeps_finishRead
  | writeTimeout =>
    cases hnext
    exact hafter keeps_finishWrite

/-- Once `close_on_loop` has returned, this stays so.  So whatever comes in late, from libuv or from
other threads, finds nothing pending. -/
theorem Closed.next {a : Action} (h : s.Closed) (hnext : s.next a = some t) : t.Closed := by
  have hpop : ∀ {frame rest}, s.stack = frame :: rest → Keeps s { s with stack := rest } := by
    intro frame rest hstack
    exact ⟨rfl, fun kind hmem => by rw [hstack]; exact List.mem_cons_of_mem _ hmem⟩
  unfold Connection.next at hnext
  split at hnext
  · split at hnext
    · cases hnext
    · cases hnext
    · rename_i hstack
      cases hnext
      refine ((hpop hstack).trans ?_).closed h
      apply keeps_exec
      exact h.1
  · rename_i call
    split at hnext
    · cases hnext
      cases call with
      | read started => exact (keeps_startRead started).closed h
      | write large attempt started => exact (keeps_write large attempt started).closed h
      | close =>
        have hclose : Keeps s (s.perform .close) :=
          ⟨rfl, fun kind hmem => by simpa [perform, push] using hmem⟩
        exact hclose.closed h
    · cases hnext
  · split at hnext
    · rename_i rest hstack
      cases hnext
      exact (hpop hstack).closed h
    · cases hnext
  · split at hnext
    · exact (keeps_handle hnext).closed h
    · cases hnext
  · cases hnext
    exact h

/-! ### Runs -/

/-- What holds in every state: at most one operation of each kind is pending, no operation is
resumed twice, all that are completed have been resumed when the loop is idle, and once
`close_on_loop` has returned every operation that was issued is completed. -/
structure CompletesOnce (s : Connection) : Prop where
  single (kind : Kind) (op op' : ℕ) :
    s.ops op = .pending kind → s.ops op' = .pending kind → op = op'
  once (op : ℕ) : s.resumptions op ≤ 1
  resumed (op : ℕ) : s.stack = [] → s.ops op = .completed → s.resumptions op = 1
  closed : s.Closed → ∀ op, op < s.nextOp → s.ops op = .completed

/-- The invariant implies it. -/
lemma InvBut.completesOnce (h : Inv s) : CompletesOnce s := by
  refine ⟨?_, ?_, ?_, ?_⟩
  · intro kind op op' hop hop'
    rw [← h.pointer] at hop hop'
    exact Option.some.inj (hop.symm.trans hop')
  · intro op
    have hbalance := h.balance op
    have hdue : due (s.ops op) ≤ 1 := by
      cases s.ops op <;> simp
    omega
  · intro op hstack hcompleted
    have hbalance := h.balance op
    rw [hstack, hcompleted] at hbalance
    simpa using hbalance
  · rintro ⟨hclosing, hparts⟩ op hop
    cases hstate : s.ops op with
    | fresh => exact absurd ((h.fresh op).mp hstate) (by omega)
    | pending kind =>
      have hpending := (h.pointer kind op).mpr hstate
      exact absurd (h.closed kind hclosing (by simp) (by simp [hpending])) (hparts kind)
    | completed => rfl

variable {trace : List (Connection × Action)}

/-- In every run of a connection the operations complete once.  The callback of a completed
operation has no effect, and once `close_on_loop` has returned nothing is or stays pending. -/
theorem operations_complete_once (hs : s = accepted ∨ s = created) (hrun : Run next s trace t) :
    CompletesOnce t ∧
      (∀ v ∈ trace, ∀ event request, v.2 = .event event → event.request = some request →
        v.1.ops request.op = .completed → v.1.next v.2 = some (v.1.called request)) ∧
      (∀ v ∈ trace, Closed v.1 → ∀ op, op < t.nextOp → t.ops op = .completed) := by
  have hinv : ∀ {trace t}, Run next s trace t → Inv t := by
    intro trace t hrun
    refine hrun.invariant (fun s a t h hnext => h.next hnext) ?_
    rcases hs with rfl | rfl
    · exact inv_accepted
    · exact inv_created
  refine ⟨(hinv hrun).completesOnce, ?_, ?_⟩
  · rintro ⟨u, a⟩ hv event request ha hrequest hcompleted
    obtain ⟨before, after, w, -, hnext, -⟩ := hrun.split hv
    dsimp only at ha hcompleted
    subst ha
    simp only [Connection.next] at hnext ⊢
    split at hnext
    · cases event <;> simp only [Event.request, reduceCtorEq, Option.some.injEq] at hrequest
      all_goals
        subst hrequest
        simp only [Request.op] at hcompleted
        simp only [handle] at hnext ⊢
        split_ifs at hnext ⊢
        rfl
    · cases hnext
  · rintro ⟨u, a⟩ hv hclosed
    obtain ⟨before, after, w, -, hnext, hafter⟩ := hrun.split hv
    have hlast : t.Closed :=
      hafter.invariant (fun s a t h hnext => h.next hnext) (hclosed.next hnext)
    exact (hinv hrun).completesOnce.closed hlast

/-- A read that times out, issues another read when it is resumed, and is closed. -/
theorem operations_complete_once_of_timeout :
    ∃ trace t, Run next accepted trace t ∧ t.Closed ∧ CompletesOnce t ∧
      t.resumptions 0 = 1 ∧ t.resumptions 1 = 1 := by
  have hrun : Run next accepted _ _ :=
    (((((((((((Run.start.step (a := .event .coroutine) rfl).step (a := .call (.read true)) rfl).step
      (a := .leave) rfl).step (a := .event .readTimeout) rfl).step
      (a := .run false true) rfl).step (a := .call (.read true)) rfl).step
      (a := .leave) rfl).step (a := .run false true) rfl).step
      (a := .run false true) rfl).step (a := .run false true) rfl).step
      (a := .leave) rfl)
  have hclosed := (hrun.step (a := .run false true) rfl).step (a := .run false true) rfl
  refine ⟨_, _, hclosed, ⟨rfl, ?_⟩, (operations_complete_once (Or.inl rfl) hclosed).1, rfl, rfl⟩
  intro kind
  change Frame.closePending kind ∉ [Frame.closeHandles]
  simp

end Connection

end Chhttp.Transport
