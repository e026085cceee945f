import Mathlib

/-!
# Doubly linked lists

Nodes are numbered or named by `α`.  A heap has the links of the nodes that are allocated, and a
list the first and the last of its nodes; an access to a node that is not allocated has no result.

`LinkedList.Represents` relates a list to the sequence of its nodes.  `Represents.pushBack` and
`Represents.remove` are the rules for the two operations, `Represents.toList` the one for a loop over
the list.
-/

namespace LinkedList

/-! ### Heaps -/

variable {α : Type*}

/-- The links of a node.  The list is intrusive: the nodes carry their links themselves, and a link
without a neighbour is null. -/
structure Links (α : Type*) where
  prev : Option α := none
  next : Option α := none

/-- The nodes that are allocated. -/
abbrev Heap (α : Type*) := α → Option (Links α)

section Heap

variable [DecidableEq α] {heap heap' : Heap α} {x y : α} {v : Option α} {l : Links α}

/-- An assignment to a node. -/
def modify (heap : Heap α) (x : α) (f : Links α → Links α) : Option (Heap α) :=
  (heap x).map fun l => Function.update heap x (some (f l))

/-- The nodes after an assignment. -/
lemma modify_of_some (f : Links α → Links α) (h : heap x = some l) :
    modify heap x f = some (Function.update heap x (some (f l))) := by
  rw [modify, h, Option.map_some]

/-- An assignment does not allocate or free anything. -/
lemma isSome_update (h : heap x = some l) (l' : Links α) (y : α) :
    (Function.update heap x (some l') y).isSome = (heap y).isSome := by
  by_cases hy : y = x
  · rw [hy, Function.update_self, h]
    rfl
  · rw [Function.update_of_ne hy]

end Heap

/-! ### Segments -/

/-- The nodes of a sequence are linked with each other, with a node before them and with one behind
them. -/
def Segment (heap : Heap α) : Option α → List α → Option α → Prop
  | _, [], _ => True
  | before, x :: xs, behind =>
    heap x = some ⟨before, xs.head?.or behind⟩ ∧ Segment heap (some x) xs behind

section Segment

variable {heap heap' : Heap α} {before behind : Option α} {x : α} {xs ys : List α}

/-- A segment depends on its own nodes only. -/
lemma Segment.congr (h : Segment heap before xs behind) (heq : ∀ x ∈ xs, heap' x = heap x) :
    Segment heap' before xs behind := by
  induction xs generalizing before with
  | nil => trivial
  | cons x xs ih =>
    exact ⟨(heq x List.mem_cons_self).trans h.1,
      ih h.2 fun y hy => heq y (List.mem_cons_of_mem _ hy)⟩

/-- One segment behind another one. -/
lemma segment_append :
    Segment heap before (xs ++ ys) behind ↔
      Segment heap before xs (ys.head?.or behind) ∧
        Segment heap (xs.getLast?.or before) ys behind := by
  induction xs generalizing before with
  | nil => simp [Segment]
  | cons x xs ih =>
    rw [List.cons_append, Segment, Segment, ih, and_assoc, List.head?_append, Option.or_assoc,
      List.getLast?_cons]
    have hlast : (some (xs.getLast?.getD x)).or before = xs.getLast?.or (some x) := by
      cases xs.getLast? <;> rfl
    rw [hlast]

/-- The links of a node in the middle. -/
lemma Segment.links (h : Segment heap before (xs ++ x :: ys) behind) :
    heap x = some ⟨xs.getLast?.or before, ys.head?.or behind⟩ :=
  (segment_append.mp h).2.1

end Segment

/-! ### Lists -/

/-- A list: its first and its last node. -/
structure Ends (α : Type*) where
  head : Option α := none
  tail : Option α := none

/-- The list has the nodes of a sequence, in this order.  The links of each node name its neighbours
in the sequence, and the ends of the list name its first and its last node. -/
structure Represents (heap : Heap α) (ends : Ends α) (xs : List α) : Prop where
  head : ends.head = xs.head?
  tail : ends.tail = xs.getLast?
  linked : Segment heap none xs none
  nodup : xs.Nodup

/-- A list depends on its own nodes only. -/
lemma Represents.congr {heap heap' : Heap α} {ends : Ends α} {xs : List α}
    (h : Represents heap ends xs) (heq : ∀ x ∈ xs, heap' x = heap x) :
    Represents heap' ends xs :=
  ⟨h.head, h.tail, h.linked.congr heq, h.nodup⟩

/-- A loop over the list by its `next` links, for so many nodes at most. -/
def toList (heap : Heap α) : ℕ → Option α → Option (List α)
  | _, none => some []
  | 0, some _ => none
  | n + 1, some x => do
    let links ← heap x
    let rest ← toList heap n links.next
    return x :: rest

/-- A loop over a segment. -/
lemma Segment.toList {heap : Heap α} {before : Option α} {xs : List α}
    (h : Segment heap before xs none) {n : ℕ} (hn : xs.length ≤ n) :
    toList heap n xs.head? = some xs := by
  induction xs generalizing before n with
  | nil => cases n <;> rfl
  | cons x xs ih =>
    obtain ⟨n, rfl⟩ := Nat.exists_eq_add_of_lt (Nat.lt_of_lt_of_le (Nat.zero_lt_succ _) hn)
    rw [Nat.zero_add, List.length_cons, Nat.add_le_add_iff_right] at hn
    rw [Nat.zero_add, List.head?_cons, LinkedList.toList, h.1, Option.or_none]
    simp only [Option.bind_eq_bind, Option.bind_some, ih h.2 hn]
    rfl

/-- A loop over the list. -/
theorem Represents.toList {heap : Heap α} {ends : Ends α} {xs : List α}
    (h : Represents heap ends xs) {n : ℕ} (hn : xs.length ≤ n) :
    toList heap n ends.head = some xs := by
  rw [h.head]
  exact h.linked.toList hn

section Operations

variable [DecidableEq α]

/-- The next node of a node is set, if there is the node. -/
def setNext (heap : Heap α) (x v : Option α) : Option (Heap α) :=
  match x with
  | some x => modify heap x fun l => { l with next := v }
  | none => some heap

/-- The previous node of a node is set, if there is the node. -/
def setPrev (heap : Heap α) (x v : Option α) : Option (Heap α) :=
  match x with
  | some x => modify heap x fun l => { l with prev := v }
  | none => some heap

/-- A node is added at the end. -/
def pushBack (heap : Heap α) (ends : Ends α) (x : α) : Option (Heap α × Ends α) := do
  let heap ← setPrev heap (some x) ends.tail
  let heap ← setNext heap (some x) none
  let heap ← setNext heap ends.tail (some x)
  -- Without a last node, there is no first one either.
  let head := if ends.tail.isSome then ends.head else some x
  return (heap, { head := head, tail := some x })

/-- A node is taken out. -/
def remove (heap : Heap α) (ends : Ends α) (x : α) : Option (Heap α × Ends α) := do
  let l ← heap x
  let heap ← setNext heap l.prev l.next
  let head := if l.prev.isSome then ends.head else l.next
  let l ← heap x
  let heap ← setPrev heap l.next l.prev
  let tail := if l.next.isSome then ends.tail else l.prev
  let heap ← setPrev heap (some x) none
  let heap ← setNext heap (some x) none
  return (heap, { head := head, tail := tail })

variable {heap : Heap α} {ends : Ends α} {before behind v : Option α} {x : α} {xs ys : List α}

/-- The last node of a segment is linked with another node behind it. -/
lemma Segment.setNext (h : Segment heap before xs behind) (hnodup : xs.Nodup)
    (hbehind : xs = [] → before = none) (v : Option α) :
    ∃ heap', setNext heap (xs.getLast?.or before) v = some heap' ∧ Segment heap' before xs v ∧
      (∀ y ∉ xs, heap' y = heap y) ∧ ∀ y, (heap' y).isSome = (heap y).isSome := by
  rcases List.eq_nil_or_concat' xs with rfl | ⟨ys, z, rfl⟩
  · rw [hbehind rfl]
    exact ⟨heap, rfl, trivial, fun _ _ => rfl, fun _ => rfl⟩
  · obtain ⟨-, -, hz⟩ := List.nodup_append.mp hnodup
    have hlinks : heap z = some ⟨ys.getLast?.or before, behind⟩ := h.links
    rw [List.getLast?_concat, Option.some_or]
    refine ⟨_, modify_of_some _ hlinks, ?_, fun y hy => ?_, isSome_update hlinks _⟩
    · refine segment_append.mpr ⟨?_, Function.update_self _ _ _, trivial⟩
      refine (segment_append.mp h).1.congr fun y hy => Function.update_of_ne ?_ _ _
      exact hz y hy z List.mem_cons_self
    · refine Function.update_of_ne (fun hyz => hy ?_) _ _
      rw [hyz]
      exact List.mem_append_right _ List.mem_cons_self

/-- The first node of a segment is linked with another node before it. -/
lemma Segment.setPrev (h : Segment heap before xs none) (hnodup : xs.Nodup) (v : Option α) :
    ∃ heap', setPrev heap xs.head? v = some heap' ∧ Segment heap' v xs none ∧
      (∀ y ∉ xs, heap' y = heap y) ∧ ∀ y, (heap' y).isSome = (heap y).isSome := by
  cases xs with
  | nil => exact ⟨heap, rfl, trivial, fun _ _ => rfl, fun _ => rfl⟩
  | cons z ys =>
    obtain ⟨hz, hrest⟩ := h
    refine ⟨_, modify_of_some _ hz, ⟨Function.update_self _ _ _, ?_⟩, fun y hy => ?_,
      isSome_update hz _⟩
    · refine hrest.congr fun y hy => Function.update_of_ne ?_ _ _
      rintro rfl
      exact (List.nodup_cons.mp hnodup).1 hy
    · refine Function.update_of_ne (fun hyz => hy ?_) _ _
      rw [hyz]
      exact List.mem_cons_self

/-- Both links of a node are set. -/
lemma setNext_setPrev {l : Links α} (h : heap x = some l) (prev next : Option α) :
    (LinkedList.setPrev heap (some x) prev).bind (LinkedList.setNext · (some x) next) =
      some (Function.update heap x (some ⟨prev, next⟩)) := by
  rw [LinkedList.setPrev, modify_of_some _ h, Option.bind_some, LinkedList.setNext,
    modify_of_some _ (Function.update_self _ _ _), Function.update_idem]

/-- The list with a node more.  Nothing is allocated or freed.  Only the links of the old last node
and of the new one are written, and the new node must not be in the list already. -/
theorem Represents.pushBack (h : Represents heap ends xs) (hx : x ∉ xs)
    (halloc : (heap x).isSome) :
    ∃ heap' ends', pushBack heap ends x = some (heap', ends') ∧
      Represents heap' ends' (xs ++ [x]) ∧ ∀ y, (heap' y).isSome = (heap y).isSome := by
  obtain ⟨l, hl⟩ := Option.isSome_iff_exists.mp halloc
  have hlinked : Segment (Function.update heap x (some ⟨ends.tail, none⟩)) none xs none :=
    h.linked.congr fun y hy => Function.update_of_ne (ne_of_mem_of_not_mem hy hx) _ _
  obtain ⟨heap', hset, hsegment, hframe, hsome⟩ := hlinked.setNext h.nodup (fun _ => rfl) (some x)
  rw [Option.or_none, ← h.tail] at hset
  refine ⟨heap', ⟨if ends.tail.isSome then ends.head else some x, some x⟩, ?_, ⟨?_, ?_, ?_, ?_⟩,
    fun y => ?_⟩
  · have hboth := setNext_setPrev hl ends.tail none
    rw [LinkedList.pushBack]
    simp only [Option.bind_eq_bind, ← Option.bind_assoc, hboth, Option.bind_some, hset]
    rfl
  · dsimp only
    rw [h.tail, h.head, List.head?_append]
    cases xs with
    | nil => rfl
    | cons z zs =>
      rw [List.getLast?_cons, Option.isSome_some, if_pos rfl]
      rfl
  · exact List.getLast?_concat.symm
  · refine segment_append.mpr ⟨hsegment, ?_, trivial⟩
    rw [hframe x hx, Function.update_self, h.tail]
    simp
  · exact List.nodup_append.mpr ⟨h.nodup, List.nodup_singleton x, by
      rintro y hy z hz rfl
      exact hx (List.mem_singleton.mp hz ▸ hy)⟩
  · rw [hsome, isSome_update hl]

/-- The list without a node.  The neighbours of the node are linked to each other, or an end of the
list moves, and the links of the removed node are cleared. -/
theorem Represents.remove (h : Represents heap ends xs) (hx : x ∈ xs) :
    ∃ heap' ends', remove heap ends x = some (heap', ends') ∧
      Represents heap' ends' (xs.erase x) ∧ ∀ y, (heap' y).isSome = (heap y).isSome := by
  obtain ⟨as, bs, rfl⟩ := List.append_of_mem hx
  obtain ⟨has, hbs, hdisjoint⟩ := List.nodup_append.mp h.nodup
  obtain ⟨hxbs, hbs⟩ := List.nodup_cons.mp hbs
  have hxas : x ∉ as := fun hmem => hdisjoint x hmem x List.mem_cons_self rfl
  have hl := h.linked.links
  obtain ⟨hsegas, -, hsegbs⟩ := segment_append.mp h.linked
  -- The nodes before the one that is taken out.
  obtain ⟨heap₁, hset₁, hseg₁, hframe₁, hsome₁⟩ := hsegas.setNext has (fun _ => rfl) bs.head?
  rw [Option.or_none] at hl hset₁
  have hl₁ : heap₁ x = some ⟨as.getLast?, bs.head?.or none⟩ := (hframe₁ x hxas).trans hl
  have hsegbs₁ : Segment heap₁ (some x) bs none := hsegbs.congr fun y hy =>
    hframe₁ y fun hmem => hdisjoint y hmem y (List.mem_cons_of_mem _ hy) rfl
  -- The nodes behind it.
  obtain ⟨heap₂, hset₂, hseg₂, hframe₂, hsome₂⟩ := hsegbs₁.setPrev hbs as.getLast?
  have hl₂ : heap₂ x = some ⟨as.getLast?, bs.head?.or none⟩ := (hframe₂ x hxbs).trans hl₁
  have hsegas₂ : Segment heap₂ none as bs.head? := hseg₁.congr fun y hy =>
    hframe₂ y fun hmem => hdisjoint y hy y (List.mem_cons_of_mem _ hmem) rfl
  have hboth := setNext_setPrev hl₂ none none
  have herase : (as ++ x :: bs).erase x = as ++ bs := by
    rw [List.erase_append_right _ hxas, List.erase_cons_head]
  rw [herase]
  refine ⟨Function.update heap₂ x (some ⟨none, none⟩),
    ⟨if as.getLast?.isSome then ends.head else bs.head?,
      if bs.head?.isSome then ends.tail else as.getLast?⟩, ?_, ⟨?_, ?_, ?_, ?_⟩, fun y => ?_⟩
  · rw [LinkedList.remove]
    simp only [Option.bind_eq_bind, hl, Option.bind_some, Option.or_none, hset₁, hl₁, hset₂,
      ← Option.bind_assoc, hboth]
    rfl
  · dsimp only
    rw [h.head, List.head?_append, List.head?_append]
    rcases List.eq_nil_or_concat' as with rfl | ⟨as', z, rfl⟩
    · simp
    · simp
  · dsimp only
    rw [h.tail]
    cases bs with
    | nil => simp
    | cons z bs' => simp
  · refine @Segment.congr _ heap₂ _ _ _ _ (segment_append.mpr ⟨?_, ?_⟩) fun y hy =>
      Function.update_of_ne (fun hyx => ?_) _ _
    · rw [Option.or_none]
      exact hsegas₂
    · rw [Option.or_none]
      exact hseg₂
    · rcases List.mem_append.mp hy with hy | hy
      · exact hxas (hyx ▸ hy)
      · exact hxbs (hyx ▸ hy)
  · exact List.nodup_append.mpr ⟨has, hbs, fun y hy z hz =>
      hdisjoint y hy z (List.mem_cons_of_mem _ hz)⟩
  · rw [isSome_update hl₂, hsome₂, hsome₁]

end Operations

end LinkedList
