import Chhttp.Lib.LinkedList
import Chhttp.Lib.Run
import Chhttp.Lib.Tally

/-!
# The requests of a client

`AsyncClient::Impl` keeps the controls of its requests in a list whose links are in the controls, and
`Impl::cancel` cancels all of them, together with the connections in use.  The list and `active` are
guarded by a mutex.  A control is freed with its last reference; the request has one from before it
is registered until after it is removed, and a call of `cancel` one for each control that it found.

A step is a critical section, or what a thread does between two of them.  `fault` records an access
to a control that had been freed, and a loop over the list that does not end.  `registry_sound` is
about all runs.
-/

namespace Chhttp

open Transition Tally LinkedList

namespace Registry

/-! ### The source -/

/-- Where a request is.  The registration is shorter than the life of the control, which may outlive
its request in a call of `cancel`. -/
inductive Stage where
  /-- Its control has been made. -/
  | made
  | registered
  /-- `~Registration` has removed it. -/
  | removed
  /-- It has given up its reference to the control. -/
  | released

/-- A call of `Impl::cancel` behind its critical section.  It has copied the list, holding a
reference to each control, and works on its copy while requests come and go. -/
structure CancelCall where
  /-- `request_controls` and `connections`, as they were filled. -/
  controls : List ℕ
  connections : List ℕ
  /-- What is still to be cancelled and closed. -/
  todo : List ℕ := controls
  toClose : List ℕ := connections
  /-- The references that it holds. -/
  held : List ℕ := controls

/-- `AsyncClient::Impl`, as far as it is about cancellation, with its requests.  `fault` is set by
an access to a control that has been freed. -/
structure Impl where
  heap : Heap ℕ := fun _ => none
  /-- `controls_head` and `controls_tail`. -/
  controls : Ends ℕ := {}
  active : List ℕ := []
  stages : List Stage := []
  refs : ℕ → ℕ := fun _ => 0
  cancelled : ℕ → Bool := fun _ => false
  /-- The connections that `cancel` has closed. -/
  closed : List ℕ := []
  calls : List CancelCall := []
  fault : Bool := false
  /-- The registered requests, in the order of their registration. -/
  live : List ℕ := []

/-- The steps. -/
inductive Action where
  /-- A request makes its control. -/
  | make
  | register (control : ℕ)
  /-- `RequestControl::cancel`, by the stop token or the cancellation flag of the request. -/
  | cancelRequest (control : ℕ)
  /-- `~Registration`. -/
  | unregister (control : ℕ)
  /-- The request gives up its reference. -/
  | release (control : ℕ)
  | activate (connection : ℕ)
  /-- `remove_active`. -/
  | deactivate (connection : ℕ)
  /-- The critical section of `Impl::cancel`. -/
  | cancel
  /-- The next part of a call of `Impl::cancel`. -/
  | cancelNext (k : ℕ)
  | closeNext (k : ℕ)
  | dropNext (k : ℕ)

/-- `link`. -/
def Impl.link (s : Impl) (control : ℕ) : Option Impl :=
  (pushBack s.heap s.controls control).map fun (heap, controls) =>
    { s with heap := heap, controls := controls, live := s.live ++ [control] }

/-- `unlink`. -/
def Impl.unlink (s : Impl) (control : ℕ) : Option Impl :=
  (remove s.heap s.controls control).map fun (heap, controls) =>
    { s with heap := heap, controls := controls, live := s.live.erase control }

/-- An access that has no result. -/
def Impl.faulted (s : Impl) : Impl := { s with fault := true }

/-- `RequestControl::cancel`, as far as `Impl` can tell. -/
def Impl.cancelControl (s : Impl) (control : ℕ) : Impl :=
  match s.heap control with
  | some _ => { s with cancelled := Function.update s.cancelled control true }
  | none => s.faulted

/-- A reference is given up.  With the last one the control is freed, and later accesses to it are
faults. -/
def Impl.drop (s : Impl) (control : ℕ) : Impl :=
  { s with
    refs := Function.update s.refs control (s.refs control - 1)
    heap := if s.refs control - 1 = 0 then Function.update s.heap control none else s.heap }

/-- One step.  Each access to a control goes through the heap, so that one that was freed shows. -/
def Impl.next (s : Impl) : Action → Option Impl
  | .make =>
    some { s with
      stages := s.stages ++ [.made]
      heap := Function.update s.heap s.stages.length (some {})
      refs := Function.update s.refs s.stages.length 1 }
  | .register control =>
    match s.stages[control]? with
    | some .made =>
      some { (s.link control).getD s.faulted with stages := s.stages.set control .registered }
    | _ => none
  | .cancelRequest control =>
    match s.stages[control]? with
    | some .registered => some (s.cancelControl control)
    | _ => none
  | .unregister control =>
    match s.stages[control]? with
    | some .registered =>
      some { (s.unlink control).getD s.faulted with stages := s.stages.set control .removed }
    | _ => none
  | .release control =>
    match s.stages[control]? with
    | some .removed => some { s.drop control with stages := s.stages.set control .released }
    | _ => none
  | .activate connection => some { s with active := s.active ++ [connection] }
  | .deactivate connection => some { s with active := s.active.filter (· != connection) }
  | .cancel =>
    match toList s.heap s.stages.length s.controls.head with
    | some controls =>
      some { s with
        refs := fun control => s.refs control + controls.count control
        calls := s.calls ++ [{ controls := controls, connections := s.active }] }
    | none => some s.faulted
  | .cancelNext k =>
    match s.calls[k]? with
    | some call =>
      match call.todo with
      | control :: todo =>
        some { s.cancelControl control with calls := s.calls.set k { call with todo := todo } }
      | [] => none
    | none => none
  | .closeNext k =>
    match s.calls[k]? with
    | some call =>
      match call.todo, call.toClose with
      | [], connection :: toClose =>
        some { s with
          closed := s.closed ++ [connection]
          calls := s.calls.set k { call with toClose := toClose } }
      | _, _ => none
    | none => none
  | .dropNext k =>
    match s.calls[k]? with
    | some call =>
      match call.todo, call.toClose, call.held with
      | [], [], control :: held =>
        some { s.drop control with calls := s.calls.set k { call with held := held } }
      | _, _, _ => none
    | none => none

/-! ### What a step can do -/

variable {s t : Impl} {i k : ℕ}

/-- The steps, each with what it requires.  The fault is one of the results, so that its absence is
a theorem. -/
inductive Stepped (s : Impl) : Action → Impl → Prop where
  | make :
    Stepped s .make
      { s with
        stages := s.stages ++ [.made]
        heap := Function.update s.heap s.stages.length (some {})
        refs := Function.update s.refs s.stages.length 1 }
  | register {i : ℕ} (hi : s.stages[i]? = some .made) :
    Stepped s (.register i)
      { (s.link i).getD s.faulted with stages := s.stages.set i .registered }
  | cancelRequest {i : ℕ} (hi : s.stages[i]? = some .registered) :
    Stepped s (.cancelRequest i) (s.cancelControl i)
  | unregister {i : ℕ} (hi : s.stages[i]? = some .registered) :
    Stepped s (.unregister i)
      { (s.unlink i).getD s.faulted with stages := s.stages.set i .removed }
  | release {i : ℕ} (hi : s.stages[i]? = some .removed) :
    Stepped s (.release i) { s.drop i with stages := s.stages.set i .released }
  | activate {c : ℕ} : Stepped s (.activate c) { s with active := s.active ++ [c] }
  | deactivate {c : ℕ} :
    Stepped s (.deactivate c) { s with active := s.active.filter (· != c) }
  | cancel {controls : List ℕ}
    (hlist : toList s.heap s.stages.length s.controls.head = some controls) :
    Stepped s .cancel
      { s with
        refs := fun i => s.refs i + controls.count i
        calls := s.calls ++ [{ controls := controls, connections := s.active }] }
  | endless (hlist : toList s.heap s.stages.length s.controls.head = none) :
    Stepped s .cancel s.faulted
  | cancelNext {k i : ℕ} {call : CancelCall} {todo : List ℕ} (hk : s.calls[k]? = some call)
    (htodo : call.todo = i :: todo) :
    Stepped s (.cancelNext k)
      { s.cancelControl i with calls := s.calls.set k { call with todo := todo } }
  | closeNext {k c : ℕ} {call : CancelCall} {toClose : List ℕ} (hk : s.calls[k]? = some call)
    (hclose : call.toClose = c :: toClose) :
    Stepped s (.closeNext k)
      { s with
        closed := s.closed ++ [c]
        calls := s.calls.set k { call with toClose := toClose } }
  | dropNext {k i : ℕ} {call : CancelCall} {held : List ℕ} (hk : s.calls[k]? = some call)
    (htodo : call.todo = []) (hheld : call.held = i :: held) :
    Stepped s (.dropNext k) { s.drop i with calls := s.calls.set k { call with held := held } }

/-- A step is one of these. -/
lemma Impl.stepped {a : Action} (hnext : s.next a = some t) : Stepped s a t := by
  cases a with
  | make =>
    cases hnext
    exact .make
  | register i =>
    simp only [Impl.next] at hnext
    split at hnext <;> cases hnext
    rename_i hi
    exact .register hi
  | cancelRequest i =>
    simp only [Impl.next] at hnext
    split at hnext <;> cases hnext
    rename_i hi
    exact .cancelRequest hi
  | unregister i =>
    simp only [Impl.next] at hnext
    split at hnext <;> cases hnext
    rename_i hi
    exact .unregister hi
  | release i =>
    simp only [Impl.next] at hnext
    split at hnext <;> cases hnext
    rename_i hi
    exact .release hi
  | activate c =>
    cases hnext
    exact .activate
  | deactivate c =>
    cases hnext
    exact .deactivate
  | cancel =>
    simp only [Impl.next] at hnext
    split at hnext <;> cases hnext
    · rename_i controls hlist
      exact .cancel hlist
    · rename_i hlist
      exact .endless hlist
  | cancelNext k =>
    simp only [Impl.next] at hnext
    split at hnext
    · rename_i call hk
      split at hnext <;> cases hnext
      rename_i i todo htodo
      exact .cancelNext hk htodo
    · cases hnext
  | closeNext k =>
    simp only [Impl.next] at hnext
    split at hnext
    · rename_i call hk
      split at hnext <;> cases hnext
      rename_i c toClose _ hclose
      exact .closeNext hk hclose
    · cases hnext
  | dropNext k =>
    simp only [Impl.next] at hnext
    split at hnext
    · rename_i call hk
      split at hnext <;> cases hnext
      rename_i i held htodo _ hheld
      exact .dropNext hk htodo hheld
    · cases hnext

/-! ### The invariant -/

/-- The reference of the request. -/
def owned : Option Stage → ℕ
  | some .released => 0
  | none => 0
  | _ => 1

/-- The references to a control that a call holds. -/
def CancelCall.holds (i : ℕ) (call : CancelCall) : ℕ := call.held.count i

/-- What a call of `Impl::cancel` has done.  Each control of the copy is cancelled or still to be,
and each connection is closed or still to be. -/
structure CancelCall.Done (cancelled : ℕ → Bool) (closed : List ℕ) (call : CancelCall) : Prop where
  todo : ∀ i ∈ call.todo, i ∈ call.held
  cancelled : ∀ i ∈ call.controls, i ∈ call.todo ∨ cancelled i = true
  closed : ∀ c ∈ call.connections, c ∈ call.toClose ∨ c ∈ closed

/-- What has been done stays done. -/
lemma CancelCall.Done.mono {cancelled cancelled' : ℕ → Bool} {closed closed' : List ℕ}
    {call : CancelCall} (h : call.Done cancelled closed)
    (hcancelled : ∀ i, cancelled i = true → cancelled' i = true) (hclosed : closed ⊆ closed') :
    call.Done cancelled' closed' :=
  ⟨h.todo, fun i hi => (h.cancelled i hi).imp id (hcancelled i),
    fun c hc => (h.closed c hc).imp id fun hmem => hclosed hmem⟩

/-- What holds between any two steps.  The list has exactly the registered controls, and a control
is allocated as long as there is a reference to it. -/
structure Impl.Inv (s : Impl) : Prop where
  safe : s.fault = false
  list : Represents s.heap s.controls s.live
  live : ∀ i, i ∈ s.live ↔ s.stages[i]? = some .registered
  refs : ∀ i, s.refs i = owned s.stages[i]? + tally (CancelCall.holds i) s.calls
  alive : ∀ i, (s.heap i).isSome = true ↔ 0 < s.refs i
  fresh : ∀ i, s.stages.length ≤ i → s.refs i = 0
  calls : ∀ call ∈ s.calls, call.Done s.cancelled s.closed

/-- A new client. -/
lemma Impl.inv_start : ({} : Impl).Inv where
  safe := rfl
  list := ⟨rfl, rfl, trivial, List.nodup_nil⟩
  live := fun i => ⟨fun h => (List.not_mem_nil h).elim, fun h => by simp at h⟩
  refs := fun _ => rfl
  alive := fun _ => ⟨fun h => Bool.noConfusion h, fun h => absurd h (Nat.lt_irrefl 0)⟩
  fresh := fun _ _ => rfl
  calls := fun call h => (List.not_mem_nil h).elim

/-- A request is in a new stage. -/
lemma getElem?_stages {stages : List Stage} {x : Stage} (hi : stages[i]? = some x) (y : Stage)
    (j : ℕ) : (stages.set i y)[j]? = if j = i then some y else stages[j]? := by
  have hlt := (List.getElem?_eq_some_iff.mp hi).1
  by_cases hj : j = i
  · rw [if_pos hj, hj, List.getElem?_set_self hlt]
  · rw [if_neg hj, List.getElem?_set_ne (Ne.symm hj)]

/-- The control of a request that has not given up its reference. -/
lemma Impl.Inv.isSome (h : s.Inv) {x : Stage} (hi : s.stages[i]? = some x)
    (hx : owned (some x) = 1) : (s.heap i).isSome = true := by
  rw [h.alive, h.refs, hi, hx]
  omega

/-- The control of a registered request. -/
lemma Impl.Inv.lt_of_live (h : s.Inv) (hi : i ∈ s.live) : i < s.stages.length :=
  (List.getElem?_eq_some_iff.mp ((h.live i).mp hi)).1

/-- A request makes its control. -/
lemma Impl.Inv.make (h : s.Inv) :
    { s with
      stages := s.stages ++ [Stage.made]
      heap := Function.update s.heap s.stages.length (some {})
      refs := Function.update s.refs s.stages.length 1 }.Inv := by
  have hzero := h.fresh _ (Nat.le_refl _)
  have hrefs := h.refs s.stages.length
  rw [hzero] at hrefs
  refine ⟨h.safe, h.list.congr fun i hi => ?_, fun i => ?_, fun i => ?_, fun i => ?_,
    fun i hi => ?_, h.calls⟩
  · exact Function.update_of_ne (h.lt_of_live hi).ne _ _
  · dsimp only
    rw [h.live]
    rcases Nat.lt_trichotomy i s.stages.length with hlt | rfl | hgt
    · rw [List.getElem?_append_left hlt]
    · simp
    · rw [List.getElem?_eq_none hgt.le, List.getElem?_eq_none (by simp; omega)]
  · dsimp only
    rcases Nat.lt_trichotomy i s.stages.length with hlt | rfl | hgt
    · rw [Function.update_of_ne hlt.ne, List.getElem?_append_left hlt]
      exact h.refs i
    · rw [Function.update_self, List.getElem?_concat_length]
      simp only [owned]
      omega
    · rw [Function.update_of_ne hgt.ne', List.getElem?_eq_none (by simp; omega), h.refs,
        List.getElem?_eq_none hgt.le]
  · dsimp only
    by_cases hi : i = s.stages.length
    · rw [hi, Function.update_self, Function.update_self]
      exact ⟨fun _ => Nat.one_pos, fun _ => rfl⟩
    · rw [Function.update_of_ne hi, Function.update_of_ne hi]
      exact h.alive i
  · dsimp only at hi ⊢
    rw [List.length_append, List.length_singleton] at hi
    rw [Function.update_of_ne (by omega)]
    exact h.fresh i (by omega)

/-- A request changes its stage and keeps its reference, and the list is another one. -/
lemma Impl.Inv.move (h : s.Inv) {x y : Stage} (hi : s.stages[i]? = some x)
    (howned : owned (some y) = owned (some x)) {heap : Heap ℕ} {controls : Ends ℕ} {live : List ℕ}
    (hlist : Represents heap controls live)
    (hsome : ∀ j, (heap j).isSome = (s.heap j).isSome)
    (hlive : ∀ j, j ∈ live ↔ if j = i then y = .registered else j ∈ s.live) :
    { s with
      heap := heap
      controls := controls
      live := live
      stages := s.stages.set i y }.Inv := by
  refine ⟨h.safe, hlist, fun j => ?_, fun j => ?_, fun j => ?_, fun j hj => ?_, h.calls⟩
  · dsimp only
    rw [hlive, getElem?_stages hi]
    split_ifs
    · rw [Option.some.injEq]
    · exact h.live j
  · dsimp only
    rw [h.refs, getElem?_stages hi]
    split_ifs with hj
    · rw [hj, hi, howned]
    · rfl
  · dsimp only
    rw [hsome]
    exact h.alive j
  · dsimp only at hj
    rw [List.length_set] at hj
    exact h.fresh j hj

/-- A request is registered. -/
lemma Impl.Inv.register (h : s.Inv) (hi : s.stages[i]? = some .made) :
    { (s.link i).getD s.faulted with stages := s.stages.set i .registered }.Inv := by
  have hnot : i ∉ s.live := fun hmem => by
    rw [h.live, hi] at hmem
    cases hmem
  obtain ⟨heap, controls, hpush, hlist, hsome⟩ := h.list.pushBack hnot (h.isSome hi rfl)
  rw [Impl.link, hpush, Option.map_some, Option.getD_some]
  refine h.move (y := .registered) hi rfl hlist hsome fun j => ?_
  rw [List.mem_append, List.mem_singleton]
  split_ifs with hj
  · simp [hj]
  · simp [hj]

/-- `~Registration`. -/
lemma Impl.Inv.unregister (h : s.Inv) (hi : s.stages[i]? = some .registered) :
    { (s.unlink i).getD s.faulted with stages := s.stages.set i .removed }.Inv := by
  obtain ⟨heap, controls, hremove, hlist, hsome⟩ := h.list.remove ((h.live i).mpr hi)
  rw [Impl.unlink, hremove, Option.map_some, Option.getD_some]
  refine h.move (y := .removed) hi rfl hlist hsome fun j => ?_
  rw [h.list.nodup.mem_erase_iff]
  split_ifs with hj
  · simp [hj]
  · simp [hj]

/-- A reference is given up, by a request or by a call of `cancel`.  The hypotheses count the
references that are left, so that the last one to go frees the control. -/
lemma Impl.Inv.drop (h : s.Inv) {stages : List Stage} {calls : List CancelCall}
    (hone : s.refs i = owned stages[i]? + tally (CancelCall.holds i) calls + 1)
    (hrefs : ∀ j, j ≠ i → s.refs j = owned stages[j]? + tally (CancelCall.holds j) calls)
    (hlength : stages.length = s.stages.length)
    (hlive : ∀ j, j ∈ s.live ↔ stages[j]? = some .registered)
    (hcalls : ∀ call ∈ calls, call.Done s.cancelled s.closed) :
    { s.drop i with stages := stages, calls := calls }.Inv := by
  refine ⟨h.safe, h.list.congr fun j hj => ?_, hlive, fun j => ?_, fun j => ?_, fun j hj => ?_,
    hcalls⟩
  · dsimp only [Impl.drop]
    split_ifs with hzero
    · refine Function.update_of_ne ?_ _ _
      rintro rfl
      -- A registered request has its own reference.
      rw [hone, (hlive j).mp hj] at hzero
      simp only [owned] at hzero
      omega
    · rfl
  · dsimp only [Impl.drop]
    by_cases hj : j = i
    · rw [hj, Function.update_self, hone, Nat.add_sub_cancel]
    · rw [Function.update_of_ne hj]
      exact hrefs j hj
  · dsimp only [Impl.drop]
    by_cases hj : j = i
    · rw [hj, Function.update_self]
      split_ifs with hzero
      · rw [Function.update_self, hzero]
        exact ⟨fun hsome => Bool.noConfusion hsome, fun hpos => absurd hpos (Nat.lt_irrefl 0)⟩
      · rw [h.alive]
        omega
    · rw [Function.update_of_ne hj, ← h.alive]
      split_ifs
      · rw [Function.update_of_ne hj]
      · rfl
  · dsimp only [Impl.drop] at hj ⊢
    rw [hlength] at hj
    have hzero := h.fresh j hj
    have hne : j ≠ i := by
      rintro rfl
      omega
    rw [Function.update_of_ne hne]
    exact hzero

/-- Something is cancelled or closed, and the calls keep their references. -/
lemma Impl.Inv.progress (h : s.Inv) {cancelled : ℕ → Bool} {closed : List ℕ}
    {calls : List CancelCall}
    (hheld : ∀ i, tally (CancelCall.holds i) calls = tally (CancelCall.holds i) s.calls)
    (hcalls : ∀ call ∈ calls, call.Done cancelled closed) :
    { s with cancelled := cancelled, closed := closed, calls := calls }.Inv := by
  refine ⟨h.safe, h.list, h.live, fun i => ?_, h.alive, h.fresh, hcalls⟩
  dsimp only
  rw [hheld]
  exact h.refs i

/-- A control that is still allocated is cancelled. -/
lemma Impl.cancelControl_of_isSome (h : (s.heap i).isSome = true) :
    s.cancelControl i = { s with cancelled := Function.update s.cancelled i true } := by
  obtain ⟨l, hl⟩ := Option.isSome_iff_exists.mp h
  rw [Impl.cancelControl, hl]

/-- What was cancelled is cancelled. -/
lemma cancelled_mono (s : Impl) (i j : ℕ) (h : s.cancelled j = true) :
    Function.update s.cancelled i true j = true := by
  by_cases hj : j = i
  · rw [hj, Function.update_self]
  · rw [Function.update_of_ne hj]
    exact h

/-- A call of `cancel` holds a reference to each control that it has not cancelled yet. -/
lemma Impl.Inv.isSome_of_todo (h : s.Inv) {call : CancelCall} (hk : s.calls[k]? = some call)
    (hi : i ∈ call.todo) : (s.heap i).isSome = true := by
  have hheld := (h.calls call (List.mem_of_getElem? hk)).todo i hi
  have hcount : 0 < call.holds i := List.count_pos_iff.mpr hheld
  have hle : call.holds i ≤ tally (CancelCall.holds i) s.calls := le_tally hk
  rw [h.alive, h.refs]
  omega

/-- A call of `cancel` cancels its next control. -/
lemma Impl.Inv.cancelNext (h : s.Inv) {call : CancelCall} {todo : List ℕ}
    (hk : s.calls[k]? = some call) (htodo : call.todo = i :: todo) :
    { s.cancelControl i with calls := s.calls.set k { call with todo := todo } }.Inv := by
  have hdone := h.calls call (List.mem_of_getElem? hk)
  rw [Impl.cancelControl_of_isSome
    (h.isSome_of_todo hk (by rw [htodo]; exact List.mem_cons_self))]
  refine h.progress (fun j => tally_set_of_eq hk rfl) fun c hc => ?_
  rcases List.mem_or_eq_of_mem_set hc with hc | rfl
  · exact (h.calls c hc).mono (cancelled_mono s i) (List.Subset.refl _)
  · refine ⟨fun j hj => hdone.todo j ?_, fun j hj => ?_, hdone.closed⟩
    · rw [htodo]
      exact List.mem_cons_of_mem _ hj
    · rcases hdone.cancelled j hj with hmem | hcancelled
      · rw [htodo] at hmem
        rcases List.mem_cons.mp hmem with rfl | hmem
        · exact .inr (Function.update_self _ _ _)
        · exact .inl hmem
      · exact .inr (cancelled_mono s i j hcancelled)

/-- A call of `cancel` closes its next connection. -/
lemma Impl.Inv.closeNext (h : s.Inv) {call : CancelCall} {c : ℕ} {toClose : List ℕ}
    (hk : s.calls[k]? = some call) (hclose : call.toClose = c :: toClose) :
    { s with
      closed := s.closed ++ [c]
      calls := s.calls.set k { call with toClose := toClose } }.Inv := by
  have hdone := h.calls call (List.mem_of_getElem? hk)
  refine h.progress (fun j => tally_set_of_eq hk rfl) fun d hd => ?_
  rcases List.mem_or_eq_of_mem_set hd with hd | rfl
  · exact (h.calls d hd).mono (fun _ => id) (List.subset_append_left _ _)
  · refine ⟨hdone.todo, hdone.cancelled, fun d hd => ?_⟩
    rcases hdone.closed d hd with hmem | hclosed
    · rw [hclose] at hmem
      rcases List.mem_cons.mp hmem with rfl | hmem
      · exact .inr (List.mem_append_right _ List.mem_cons_self)
      · exact .inl hmem
    · exact .inr (List.mem_append_left _ hclosed)

/-- A call of `cancel` gives up its next reference. -/
lemma Impl.Inv.dropNext (h : s.Inv) {call : CancelCall} {held : List ℕ}
    (hk : s.calls[k]? = some call) (htodo : call.todo = []) (hheld : call.held = i :: held) :
    { s.drop i with calls := s.calls.set k { call with held := held } }.Inv := by
  have hdone := h.calls call (List.mem_of_getElem? hk)
  have htally : ∀ j, tally (CancelCall.holds j) (s.calls.set k { call with held := held }) +
      (i :: held).count j = tally (CancelCall.holds j) s.calls + held.count j := fun j => by
    have := tally_set (CancelCall.holds j) hk { call with held := held }
    simp only [CancelCall.holds, hheld] at this
    exact this
  refine @Impl.Inv.drop _ _ h s.stages _ ?_ (fun j hj => ?_) rfl h.live fun c hc => ?_
  · have := htally i
    rw [List.count_cons_self] at this
    have := h.refs i
    omega
  · have := htally j
    rw [List.count_cons_of_ne (Ne.symm hj)] at this
    have := h.refs j
    omega
  · rcases List.mem_or_eq_of_mem_set hc with hc | rfl
    · exact h.calls c hc
    · refine ⟨fun j hj => ?_, hdone.cancelled, hdone.closed⟩
      rw [htodo] at hj
      cases hj

/-- The loop of `cancel` finds the registered requests, in the order of their registration. -/
lemma Impl.Inv.toList (h : s.Inv) :
    toList s.heap s.stages.length s.controls.head = some s.live := by
  refine h.list.toList ?_
  have hsub : s.live ⊆ List.range s.stages.length := fun i hi =>
    List.mem_range.mpr (h.lt_of_live hi)
  have := (h.list.nodup.subperm hsub).length_le
  rwa [List.length_range] at this

/-- The critical section of `cancel`. -/
lemma Impl.Inv.cancel (h : s.Inv) :
    { s with
      refs := fun i => s.refs i + s.live.count i
      calls := s.calls ++
        [({ controls := s.live, connections := s.active } : CancelCall)] }.Inv := by
  refine ⟨h.safe, h.list, h.live, fun i => ?_, fun i => ?_, fun i hi => ?_, fun call hcall => ?_⟩
  · dsimp only
    rw [tally_append, tally_cons, tally_nil, h.refs]
    simp only [CancelCall.holds]
    omega
  · dsimp only
    rw [h.alive]
    refine ⟨fun hpos => by omega, fun hpos => ?_⟩
    by_contra hzero
    have hcount : 0 < s.live.count i := by omega
    rw [← h.alive] at hzero
    exact hzero (h.isSome ((h.live i).mp (List.count_pos_iff.mp hcount)) rfl)
  · dsimp only
    rw [h.fresh i hi, List.count_eq_zero.mpr fun hmem => ?_]
    exact absurd (h.lt_of_live hmem) (by dsimp only at hi; omega)
  · rcases List.mem_append.mp hcall with hcall | hcall
    · exact h.calls call hcall
    · rw [List.mem_singleton.mp hcall]
      exact ⟨fun i hi => hi, fun i hi => .inl hi, fun c hc => .inl hc⟩

/-- Every step preserves the invariant. -/
lemma Impl.Inv.next (h : s.Inv) {a : Action} (hnext : s.next a = some t) : t.Inv := by
  cases Impl.stepped hnext with
  | make => exact h.make
  | register hi => exact h.register hi
  | @cancelRequest i hi =>
    rw [Impl.cancelControl_of_isSome (h.isSome hi rfl)]
    exact h.progress (fun _ => rfl) fun call hcall =>
      (h.calls call hcall).mono (cancelled_mono s i) (List.Subset.refl _)
  | unregister hi => exact h.unregister hi
  | @release i hi =>
    refine @Impl.Inv.drop _ _ h _ s.calls ?_ (fun j hj => ?_) List.length_set (fun j => ?_) h.calls
    · rw [h.refs, hi, getElem?_stages hi, if_pos rfl]
      simp only [owned]
      omega
    · rw [h.refs, getElem?_stages hi, if_neg hj]
    · rw [h.live, getElem?_stages hi]
      split_ifs with hj
      · rw [hj, hi]
        simp
      · rfl
  | activate => exact ⟨h.safe, h.list, h.live, h.refs, h.alive, h.fresh, h.calls⟩
  | deactivate => exact ⟨h.safe, h.list, h.live, h.refs, h.alive, h.fresh, h.calls⟩
  | cancel hlist =>
    rw [h.toList, Option.some.injEq] at hlist
    subst hlist
    exact h.cancel
  | endless hlist =>
    rw [h.toList] at hlist
    cases hlist
  | cancelNext hk htodo => exact h.cancelNext hk htodo
  | closeNext hk hclose => exact h.closeNext hk hclose
  | dropNext hk htodo hheld => exact h.dropNext hk htodo hheld

/-! ### Runs -/

/-- In every run, whatever the threads do: no control is used after it was freed, and the loop over
the list ends.  It finds the registered requests, in the order of their registration, and so does a
call of `cancel`; when the call has cancelled its controls, all of these requests have been
cancelled, and then all connections that were in use are closed.  When the requests have given up
their references and the calls theirs, no control is left. -/
theorem registry_sound {trace : List (Impl × Action)} (h : Run Impl.next {} trace s) :
    s.fault = false ∧
      toList s.heap s.stages.length s.controls.head = some s.live ∧
      (∀ i, i ∈ s.live ↔ s.stages[i]? = some .registered) ∧
      (∀ t, s.next .cancel = some t →
        t.calls = s.calls ++ [{ controls := s.live, connections := s.active }]) ∧
      (∀ call ∈ s.calls, call.todo = [] → (∀ i ∈ call.controls, s.cancelled i = true) ∧
        (call.toClose = [] → ∀ c ∈ call.connections, c ∈ s.closed)) ∧
      ((∀ x ∈ s.stages, x = .released) → (∀ call ∈ s.calls, call.held = []) →
        ∀ i, s.heap i = none) := by
  have hinv : s.Inv := h.invariant (fun _ _ _ hs hnext => hs.next hnext) Impl.inv_start
  refine ⟨hinv.safe, hinv.toList, hinv.live, fun t hnext => ?_, fun call hcall htodo => ⟨?_, ?_⟩,
    fun hstages hcalls i => ?_⟩
  · cases Impl.stepped hnext with
    | cancel hlist =>
      rw [hinv.toList, Option.some.injEq] at hlist
      rw [hlist]
    | endless hlist =>
      rw [hinv.toList] at hlist
      cases hlist
  · intro i hi
    refine ((hinv.calls call hcall).cancelled i hi).resolve_left fun hmem => ?_
    rw [htodo] at hmem
    cases hmem
  · intro hclose c hc
    refine ((hinv.calls call hcall).closed c hc).resolve_left fun hmem => ?_
    rw [hclose] at hmem
    cases hmem
  · have howned : owned s.stages[i]? = 0 := by
      cases hi : s.stages[i]? with
      | none => rfl
      | some x =>
        rw [hstages x (List.mem_of_getElem? hi)]
        rfl
    have htally : tally (CancelCall.holds i) s.calls = 0 := by
      by_contra hne
      obtain ⟨k, call, hk, hpos⟩ := exists_of_tally_pos (Nat.pos_of_ne_zero hne)
      rw [CancelCall.holds, hcalls call (List.mem_of_getElem? hk)] at hpos
      exact absurd hpos (Nat.lt_irrefl 0)
    have hzero : s.refs i = 0 := by rw [hinv.refs, howned, htally]
    have hnot : ¬ (s.heap i).isSome = true := fun hsome => by
      have := (hinv.alive i).mp hsome
      omega
    exact Option.not_isSome_iff_eq_none.mp hnot

/-- Three requests, of which the one in the middle ends while `cancel` is in progress. -/
theorem registry_sound_of_cancel :
    ∃ (trace : List (Impl × Action)) (s : Impl), Run Impl.next {} trace s ∧
      s.fault = false ∧ s.live = [0, 2] ∧ s.cancelled 1 = true := by
  obtain ⟨s, call, hs, hlive, hcall, htodo, hcontrols⟩ : ∃ (s : Impl) (call : CancelCall),
      perform Impl.next {} [.make, .make, .make, .register 0, .register 1, .register 2,
        .activate 7, .cancel, .unregister 1, .release 1, .cancelNext 0, .cancelNext 0,
        .cancelNext 0, .closeNext 0, .dropNext 0, .dropNext 0] = some s ∧ s.live = [0, 2] ∧
      s.calls = [call] ∧ call.todo = [] ∧ call.controls = [0, 1, 2] :=
    ⟨_, _, rfl, rfl, rfl, rfl, rfl⟩
  obtain ⟨trace, hrun⟩ := run_of_perform hs
  obtain ⟨hsafe, -, -, -, hdone, -⟩ := registry_sound hrun
  refine ⟨trace, s, hrun, hsafe, hlive, ?_⟩
  refine (hdone call ?_ htodo).1 1 ?_
  · rw [hcall]
    exact List.mem_cons_self
  · rw [hcontrols]
    simp

end Registry

end Chhttp
