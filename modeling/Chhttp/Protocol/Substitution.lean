import Chhttp.Protocol.Serialize

/-!
# Substituting header fields in place

The comments at `serialize_head` promise the semantics of `Headers::set` and `Headers::erase`
without a copy of the fields.  The plain route erases every omitted name, sets every override and
serialises the result.  Both emit the same fields, but `Headers::set` moves a field to the end, while
the substitution leaves an override where the first field of its name was.

`serializeHead_eq_plain_iff` says when this is the same: no other field stands behind an overridden
one, and the fields call for the overrides in their order.
-/

namespace Chhttp

open ListSearch

/-! ### The plain route -/

/-- The fields after `Headers::erase` of every omitted name and `Headers::set` of every override.
This is the way the comment of the source compares itself with. -/
def plainFields (overrides : List HeadOverride) (omitted : List Bytes) (headers : Headers) : Headers :=
  overrides.foldl (fun fields o => fields.set o.1 o.2) (omitted.foldl Headers.erase headers)

/-- The fields that are not omitted. -/
def keptFields (omitted : List Bytes) (headers : Headers) : Headers :=
  headers.filter fun f => !isOmitted omitted f.1

/-- An override replaces a field. -/
def isOverridden (overrides : List HeadOverride) (field : Bytes × Bytes) : Bool :=
  (overrideIndex overrides field.1).isSome

/-- The overrides that fields call for, in the order of the first calls. -/
def calledOverrides (overrides : List HeadOverride) (fields : Headers) : List ℕ :=
  (fields.filterMap fun f => overrideIndex overrides f.1).eraseDups

/-- Among the fields that are not omitted, only overridden ones stand behind an overridden one, and
they call for the overrides in their order. -/
structure Aligned (overrides : List HeadOverride) (omitted : List Bytes) (headers : Headers) :
    Prop where
  behind : (keptFields omitted headers).Pairwise fun a b =>
    isOverridden overrides a = true → isOverridden overrides b = true
  order : ∃ n, calledOverrides overrides (keptFields omitted headers) = List.range n

/-- Erasing several names. -/
lemma foldl_erase (omitted : List Bytes) (headers : Headers) :
    omitted.foldl Headers.erase headers = keptFields omitted headers := by
  induction omitted generalizing headers with
  | nil => simp [keptFields, isOmitted]
  | cons name omitted ih =>
    rw [List.foldl_cons, ih, keptFields, keptFields, Headers.erase, List.filter_filter]
    refine List.filter_congr fun f _ => ?_
    rw [isOmitted, isOmitted, List.any_cons, Bool.not_or, Bool.and_comm]

/-- A field is overridden when its name is the name of an override. -/
lemma isOverridden_eq (overrides : List HeadOverride) (field : Bytes × Bytes) :
    isOverridden overrides field = overrides.any fun o => iequals field.1 o.1 := by
  rw [isOverridden, overrideIndex, List.findIdx?_isSome]

/-- Setting several fields. -/
lemma foldl_set {overrides : List HeadOverride} (h : Distinct overrides) (headers : Headers) :
    overrides.foldl (fun fields o => Headers.set fields o.1 o.2) headers =
      (headers.filter fun f => !isOverridden overrides f) ++ overrides := by
  induction overrides generalizing headers with
  | nil => simp [isOverridden_eq]
  | cons o overrides ih =>
    obtain ⟨hfirst, hrest⟩ := List.pairwise_cons.mp h
    have hkeep : isOverridden overrides o = false := by
      rw [isOverridden_eq, List.any_eq_false]
      intro o' ho'
      rw [hfirst o' ho']
      exact Bool.false_ne_true
    have hsplit : ∀ f : Bytes × Bytes, (!isOverridden overrides f && !iequals f.1 o.1) =
        !isOverridden (o :: overrides) f := by
      intro f
      rw [isOverridden_eq, isOverridden_eq, List.any_cons, Bool.not_or, Bool.and_comm]
    rw [List.foldl_cons, ih hrest, Headers.set, Headers.add, Headers.erase, List.filter_append,
      List.filter_filter, List.filter_congr fun f _ => hsplit f]
    simp [hkeep]

/-- What the plain route serialises. -/
lemma plainFields_eq {overrides : List HeadOverride} (h : Distinct overrides) (omitted : List Bytes)
    (headers : Headers) :
    plainFields overrides omitted headers =
      ((keptFields omitted headers).filter fun f => !isOverridden overrides f) ++ overrides := by
  rw [plainFields, foldl_erase, foldl_set h]

/-! ### The merge, on the fields that are kept -/

/-- Omitted fields leave no trace. -/
lemma foldl_mergeStep (overrides : List HeadOverride) (omitted : List Bytes) (headers : Headers)
    (s : List Bool × Headers) :
    headers.foldl (mergeStep overrides omitted) s =
      (keptFields omitted headers).foldl (mergeStep overrides omitted) s := by
  rw [keptFields, List.foldl_filter]
  congr 1
  funext s f
  cases h : isOmitted omitted f.1 with
  | true => simp [mergeStep, h]
  | false => simp

/-- The state of the merge after the fields `seen`.  The overrides in the output are the ones that
were called for, in the order of the calls. -/
structure Walked (overrides : List HeadOverride) (seen : Headers) (s : List Bool × Headers) : Prop where
  length : s.1.length = overrides.length
  emitted : ∀ i, s.1.getD i false = decide (i ∈ calledOverrides overrides seen)
  called : s.2.filter (isOverridden overrides) =
    (calledOverrides overrides seen).filterMap (overrides[·]?)
  order : (s.2.Pairwise fun a b => isOverridden overrides a = true → isOverridden overrides b = true) ↔
    seen.Pairwise fun a b => isOverridden overrides a = true → isOverridden overrides b = true

/-- One more field that calls for nothing. -/
lemma calledOverrides_none {overrides : List HeadOverride} {field : Bytes × Bytes}
    (h : overrideIndex overrides field.1 = none) (seen : Headers) :
    calledOverrides overrides (seen ++ [field]) = calledOverrides overrides seen := by
  have hnone : [field].filterMap (fun f => overrideIndex overrides f.1) = [] := by
    simp [h]
  rw [calledOverrides, List.filterMap_append, hnone, List.append_nil, calledOverrides]

/-- One more field that calls for an override. -/
lemma calledOverrides_some {overrides : List HeadOverride} {field : Bytes × Bytes} {index : ℕ}
    (h : overrideIndex overrides field.1 = some index) (seen : Headers) :
    calledOverrides overrides (seen ++ [field]) =
      calledOverrides overrides seen ++
        if index ∈ calledOverrides overrides seen then [] else [index] := by
  have hsome : [field].filterMap (fun f => overrideIndex overrides f.1) = [index] := by
    simp [h]
  rw [calledOverrides, List.filterMap_append, hsome, List.eraseDups_append, calledOverrides]
  congr 1
  by_cases hmem : index ∈ seen.filterMap fun f => overrideIndex overrides f.1
  · rw [if_pos (by simpa using hmem)]
    simp [List.removeAll, hmem]
  · rw [if_neg (by simpa using hmem)]
    simp [List.removeAll, hmem, List.eraseDups_cons]

/-- The overrides that are called for exist. -/
lemma lt_of_mem_calledOverrides {overrides : List HeadOverride} {fields : Headers} {i : ℕ}
    (h : i ∈ calledOverrides overrides fields) : i < overrides.length := by
  rw [calledOverrides, List.mem_eraseDups, List.mem_filterMap] at h
  obtain ⟨f, -, hf⟩ := h
  obtain ⟨o, ho, -⟩ := exists_of_overrideIndex hf
  exact (List.getElem?_eq_some_iff.mp ho).1

/-- Nothing is called for exactly when no field is overridden. -/
lemma calledOverrides_eq_nil {overrides : List HeadOverride} {fields : Headers} :
    calledOverrides overrides fields = [] ↔ ∀ f ∈ fields, isOverridden overrides f = false := by
  have hmem : ∀ i, i ∈ calledOverrides overrides fields ↔
      ∃ f ∈ fields, overrideIndex overrides f.1 = some i := by
    intro i
    rw [calledOverrides, List.mem_eraseDups, List.mem_filterMap]
  rw [List.eq_nil_iff_forall_not_mem]
  constructor
  · intro h f hf
    rw [isOverridden, Option.isSome_eq_false_iff, Option.isNone_iff_eq_none]
    by_contra hcalls
    obtain ⟨i, hi⟩ := Option.ne_none_iff_exists'.mp hcalls
    exact h i ((hmem i).mpr ⟨f, hf, hi⟩)
  · intro h i hi
    obtain ⟨f, hf, hcalls⟩ := (hmem i).mp hi
    have hno := h f hf
    rw [isOverridden, hcalls] at hno
    cases hno

/-- Something overridden was emitted exactly when something overridden was seen. -/
lemma Walked.overridden_iff {overrides : List HeadOverride} {seen : Headers}
    {s : List Bool × Headers} (h : Walked overrides seen s) :
    (∀ f ∈ s.2, isOverridden overrides f = false) ↔ ∀ f ∈ seen, isOverridden overrides f = false := by
  have hnil : (calledOverrides overrides seen).filterMap (overrides[·]?) = [] ↔
      calledOverrides overrides seen = [] := by
    rw [List.filterMap_eq_nil_iff]
    constructor
    · intro hnone
      rw [List.eq_nil_iff_forall_not_mem]
      intro i hi
      have hlt := lt_of_mem_calledOverrides hi
      have := hnone i hi
      rw [List.getElem?_eq_none_iff] at this
      omega
    · intro hnone
      simp [hnone]
  have hfilter : (∀ f ∈ s.2, isOverridden overrides f = false) ↔
      s.2.filter (isOverridden overrides) = [] := by
    simp [List.filter_eq_nil_iff]
  rw [hfilter, h.called, hnil, calledOverrides_eq_nil]

/-- An override replaces its own name. -/
lemma overrideIndex_self {overrides : List HeadOverride} {name : Bytes} {index : ℕ} {o : HeadOverride}
    (h : overrideIndex overrides name = some index) (ho : overrides[index]? = some o) :
    overrideIndex overrides o.1 = some index := by
  obtain ⟨o', ho', hname⟩ := exists_of_overrideIndex h
  rw [ho] at ho'
  cases ho'
  rw [← overrideIndex_congr hname, h]

namespace Walked

variable {overrides : List HeadOverride} {seen : Headers} {s : List Bool × Headers}
  {field : Bytes × Bytes}

/-- Behind a field without an override, which is written as it is. -/
lemma plain (h : Walked overrides seen s) (hindex : overrideIndex overrides field.1 = none) :
    Walked overrides (seen ++ [field]) (s.1, s.2 ++ [field]) := by
  have hplain : isOverridden overrides field = false := by
    rw [isOverridden, hindex]
    rfl
  refine ⟨h.length, fun i => ?_, ?_, ?_⟩
  · rw [h.emitted, calledOverrides_none hindex]
  · rw [List.filter_append, h.called, calledOverrides_none hindex]
    simp [hplain]
  · -- a plain field must not follow an overridden one, here and there
    rw [List.pairwise_append, List.pairwise_append, h.order]
    simp only [List.pairwise_singleton, List.mem_singleton, forall_eq, hplain, Bool.false_eq_true,
      imp_false, Bool.not_eq_true, true_and]
    rw [h.overridden_iff]

/-- A field with an override may follow anything. -/
lemma order_overridden (h : Walked overrides seen s) {index : ℕ}
    (hindex : overrideIndex overrides field.1 = some index) :
    (s.2.Pairwise fun a b =>
      isOverridden overrides a = true → isOverridden overrides b = true) ↔
      (seen ++ [field]).Pairwise fun a b =>
        isOverridden overrides a = true → isOverridden overrides b = true := by
  have hreplaced : isOverridden overrides field = true := by
    rw [isOverridden, hindex]
    rfl
  rw [h.order, List.pairwise_append]
  simp [hreplaced]

/-- Behind a field whose override has been written. -/
lemma again (h : Walked overrides seen s) {index : ℕ}
    (hindex : overrideIndex overrides field.1 = some index)
    (hmem : index ∈ calledOverrides overrides seen) : Walked overrides (seen ++ [field]) s := by
  have hsame : calledOverrides overrides (seen ++ [field]) = calledOverrides overrides seen := by
    rw [calledOverrides_some hindex, if_pos hmem, List.append_nil]
  exact ⟨h.length, by rw [hsame]; exact h.emitted, by rw [hsame, h.called],
    h.order_overridden hindex⟩

/-- Behind the first field of an override, which is written in its place. -/
lemma first (h : Walked overrides seen s) {index : ℕ}
    (hindex : overrideIndex overrides field.1 = some index)
    (hmem : index ∉ calledOverrides overrides seen) {o : HeadOverride}
    (ho : overrides[index]? = some o) :
    Walked overrides (seen ++ [field]) (s.1.set index true, s.2 ++ [o]) := by
  have hlt : index < s.1.length := by
    rw [h.length]
    exact (List.getElem?_eq_some_iff.mp ho).1
  have hself : isOverridden overrides o = true := by
    rw [isOverridden, overrideIndex_self hindex ho]
    rfl
  have hmore : calledOverrides overrides (seen ++ [field]) =
      calledOverrides overrides seen ++ [index] := by
    rw [calledOverrides_some hindex, if_neg hmem]
  refine ⟨by rw [List.length_set, h.length], fun i => ?_, ?_, ?_⟩
  · rw [hmore]
    by_cases hi : i = index
    · subst hi
      rw [List.getD_eq_getElem?_getD, List.getElem?_set_self hlt]
      simp
    · rw [List.getD_eq_getElem?_getD, List.getElem?_set_ne (Ne.symm hi),
        ← List.getD_eq_getElem?_getD, h.emitted]
      simp [hi]
  · rw [List.filter_append, h.called, hmore, List.filterMap_append]
    simp [hself, ho]
  · refine Iff.trans ?_ (h.order_overridden hindex)
    rw [List.pairwise_append]
    simp [hself]

end Walked

/-- The merge of one more field that is kept. -/
lemma walked_step {overrides : List HeadOverride} {omitted : List Bytes} {seen : Headers}
    {s : List Bool × Headers} (h : Walked overrides seen s) {field : Bytes × Bytes}
    (hkept : isOmitted omitted field.1 = false) :
    Walked overrides (seen ++ [field]) (mergeStep overrides omitted s field) := by
  unfold mergeStep
  rw [hkept, if_neg Bool.false_ne_true]
  cases hindex : overrideIndex overrides field.1 with
  | none => exact h.plain hindex
  | some index =>
    dsimp only
    have hdone : s.1.getD index false = true ↔ index ∈ calledOverrides overrides seen := by
      rw [h.emitted, decide_eq_true_eq]
    split_ifs with hwritten
    · exact h.again hindex (hdone.mp hwritten)
    · obtain ⟨o, ho, -⟩ := exists_of_overrideIndex hindex
      rw [ho, Option.toList_some]
      exact h.first hindex (fun hmem => hwritten (hdone.mpr hmem)) ho

/-- The merge of the fields that are kept. -/
lemma walked_foldl {overrides : List HeadOverride} {omitted : List Bytes} (headers : Headers) :
    Walked overrides (keptFields omitted headers) (headers.foldl (mergeStep overrides omitted)
      (List.replicate overrides.length false, [])) := by
  rw [foldl_mergeStep]
  have hkept : ∀ f ∈ keptFields omitted headers, isOmitted omitted f.1 = false := by
    intro f hf
    simpa using (List.mem_filter.mp hf).2
  generalize keptFields omitted headers = kept at hkept ⊢
  induction kept using List.reverseRecOn with
  | nil =>
    refine ⟨by simp, fun i => ?_, rfl, Iff.rfl⟩
    rw [List.foldl_nil, List.getD_eq_getElem?_getD, List.getElem?_replicate]
    split_ifs <;> rfl
  | append_singleton kept field ih =>
    rw [List.foldl_append, List.foldl_cons, List.foldl_nil]
    exact walked_step (ih fun f hf => hkept f (List.mem_append_left _ hf)) (hkept field (by simp))

/-! ### When both are the same -/

/-- A list in which no element without the property follows one with it. -/
lemma eq_filter_append {α : Type*} {p : α → Bool} {l : List α}
    (h : l.Pairwise fun a b => p a = true → p b = true) :
    l = (l.filter fun a => !p a) ++ l.filter p := by
  induction l with
  | nil => rfl
  | cons a l ih =>
    obtain ⟨hfirst, hrest⟩ := List.pairwise_cons.mp h
    by_cases ha : p a = true
    · have hall : ∀ b ∈ l, p b = true := fun b hb => hfirst b hb ha
      have hnone : (a :: l).filter (fun a => !p a) = [] := by
        rw [List.filter_eq_nil_iff]
        intro b hb
        rcases List.mem_cons.mp hb with rfl | hb
        · simp [ha]
        · simp [hall b hb]
      rw [hnone, List.nil_append, List.filter_eq_self.mpr]
      intro b hb
      rcases List.mem_cons.mp hb with rfl | hb
      · exact ha
      · exact hall b hb
    · have heq := ih hrest
      rw [List.filter_cons_of_neg ha, List.filter_cons_of_pos (by simpa using ha), List.cons_append,
        ← heq]

/-- What is pending when the first overrides have been emitted. -/
lemma pendingOverrides_eq_drop {overrides : List HeadOverride} {bitmap : List Bool} {n : ℕ}
    (hlength : bitmap.length = overrides.length)
    (h : ∀ i < overrides.length, bitmap.getD i false = decide (i < n)) :
    pendingOverrides overrides bitmap = overrides.drop n := by
  induction overrides generalizing bitmap n with
  | nil => simp [pendingOverrides]
  | cons o overrides ih =>
    cases bitmap with
    | nil => simp at hlength
    | cons emitted bitmap =>
      have hfirst : emitted = decide (0 < n) := h 0 (by simp)
      have hrest : ∀ i < overrides.length, bitmap.getD i false = decide (i < n - 1) := by
        intro i hi
        have := h (i + 1) (by simpa using hi)
        rw [List.getD_cons_succ] at this
        rw [this]
        congr 1
        rw [eq_iff_iff]
        omega
      have htail := @ih bitmap (n - 1) (by simpa using hlength) hrest
      rw [pendingOverrides, htail]
      cases n with
      | zero => simp [hfirst]
      | succ n => simp [hfirst]

/-- The first elements of a list, by their positions. -/
lemma filterMap_range {α : Type*} (l : List α) (n : ℕ) :
    (List.range n).filterMap (l[·]?) = l.take n := by
  induction n with
  | zero => simp
  | succ n ih =>
    rw [List.range_succ, List.filterMap_append, ih, List.take_add_one]
    cases h : l[n]? <;> simp [h]

/-- Positions whose elements are the beginning of a list without duplicates count up. -/
lemma eq_range_of_filterMap {α : Type*} {l : List α} (hnodup : l.Nodup) {is : List ℕ} {rest : List α}
    (hlt : ∀ i ∈ is, i < l.length) (h : is.filterMap (l[·]?) ++ rest = l) :
    is = List.range is.length := by
  have hsome : ∀ is : List ℕ, (∀ i ∈ is, i < l.length) →
      (is.filterMap (l[·]?)).map some = is.map (l[·]?) := by
    intro is
    induction is with
    | nil => simp
    | cons i is ih =>
      intro hlt
      have hlti : i < l.length := hlt i List.mem_cons_self
      have hi : l[i]? = some l[i] := List.getElem?_eq_getElem hlti
      rw [List.filterMap_cons_some hi, List.map_cons, List.map_cons,
        ih fun j hj => hlt j (List.mem_cons_of_mem _ hj), hi]
  have hmap : is.map (l[·]?) ++ rest.map some = l.map some := by
    rw [← hsome is hlt, ← List.map_append, h]
  refine List.ext_getElem (by simp) fun j hj _ => ?_
  have hget : (l.map some)[j]? = some l[is[j]]? := by
    rw [← hmap, List.getElem?_append_left (by simpa using hj), List.getElem?_map,
      List.getElem?_eq_getElem hj, Option.map_some]
  have hji : l[is[j]]? = l[j]? := by
    rw [List.getElem?_map] at hget
    obtain ⟨a, ha, heq⟩ := Option.map_eq_some_iff.mp hget
    rw [ha, heq]
  rw [List.getElem_range]
  exact (List.getElem?_inj (hlt _ (List.getElem_mem hj)) hnodup).mp hji

/-- The merged fields are those of the plain route exactly when the fields are aligned.  The merge
keeps the place of the first equal field, the plain route appends at the end. -/
lemma mergeFields_eq_plain_iff {overrides : List HeadOverride} (hdistinct : Distinct overrides)
    (omitted : List Bytes) (headers : Headers) :
    mergeFields overrides omitted headers = plainFields overrides omitted headers ↔
      Aligned overrides omitted headers := by
  have hwalked := @walked_foldl overrides omitted headers
  have hothers := (merged_foldl overrides omitted headers).others
  rw [plainFields_eq hdistinct, mergeFields]
  generalize headers.foldl (mergeStep overrides omitted)
    (List.replicate overrides.length false, []) = s at hwalked hothers ⊢
  -- the fields that no override replaces are the same on both ways, and in the same order
  have hplain : s.2.filter (fun f => !isOverridden overrides f) =
      (keptFields omitted headers).filter fun f => !isOverridden overrides f := by
    have hnot : ∀ f : Bytes × Bytes,
        (!isOverridden overrides f) = (overrideIndex overrides f.1).isNone := by
      intro f
      rw [isOverridden, Option.not_isSome]
    rw [keptFields, List.filter_filter, List.filter_congr fun f _ => hnot f, hothers]
    exact List.filter_congr fun f _ => by rw [hnot]
  have hself : ∀ o ∈ overrides, isOverridden overrides o = true := by
    intro o ho
    rw [isOverridden_eq, List.any_eq_true]
    exact ⟨o, ho, iequals_refl o.1⟩
  have hnodup : overrides.Nodup := by
    refine hdistinct.imp fun hne heq => ?_
    rw [heq, iequals_refl] at hne
    cases hne
  generalize hkept : (keptFields omitted headers).filter (fun f => !isOverridden overrides f) = plain
    at hplain ⊢
  have hnone : ∀ f ∈ plain, isOverridden overrides f = false := by
    intro f hf
    rw [← hkept] at hf
    simpa using (List.mem_filter.mp hf).2
  constructor
  · intro h
    -- the plain way puts the overrides last, so behind an override there are only overrides
    have hpairwise : (plain ++ overrides).Pairwise fun a b =>
        isOverridden overrides a = true → isOverridden overrides b = true := by
      refine List.pairwise_append.mpr ⟨List.pairwise_of_forall_mem_list fun a ha _ _ hover => ?_,
        List.pairwise_of_forall_mem_list fun _ _ b hb _ => hself b hb,
        fun _ _ b hb _ => hself b hb⟩
      rw [hnone a ha] at hover
      cases hover
    have hcalled : (calledOverrides overrides (keptFields omitted headers)).filterMap
        (overrides[·]?) ++ (pendingOverrides overrides s.1).filter (isOverridden overrides) =
          overrides := by
      have hfilter := congrArg (List.filter (isOverridden overrides)) h
      have hplainNone : plain.filter (isOverridden overrides) = [] :=
        List.filter_eq_nil_iff.mpr fun f hf => by rw [hnone f hf]; exact Bool.false_ne_true
      rw [List.filter_append, List.filter_append, hwalked.called, List.filter_eq_self.mpr hself,
        hplainNone, List.nil_append] at hfilter
      exact hfilter
    rw [← h] at hpairwise
    exact ⟨hwalked.order.mp (List.pairwise_append.mp hpairwise).1,
      ⟨_, eq_range_of_filterMap hnodup (fun i => lt_of_mem_calledOverrides) hcalled⟩⟩
  · rintro ⟨hbehind, n, hrange⟩
    -- if the fields name the first overrides in order, the others follow in theirs
    have hpending : pendingOverrides overrides s.1 = overrides.drop n := by
      refine pendingOverrides_eq_drop hwalked.length fun i _ => ?_
      rw [hwalked.emitted, hrange]
      simp
    rw [eq_filter_append (hwalked.order.mpr hbehind), hplain, hwalked.called, hrange,
      filterMap_range, hpending, List.append_assoc, List.take_append_drop]

/-! ### The serialised heads -/

/-- Without overrides and omitted names the fields are emitted as they are. -/
lemma mergeFields_nil (headers : Headers) : mergeFields [] [] headers = headers := by
  have h := filter_mergeFields [] [] headers
  have hpass : ∀ fields : Headers,
      fields.filter (fun f => (overrideIndex [] f.1).isNone) = fields := by
    intro fields
    exact List.filter_eq_self.mpr fun _ _ => rfl
  rw [hpass] at h
  rw [h, List.filter_eq_self]
  exact fun _ _ => rfl

/-- Serialised fields determine the fields. -/
lemma map_fieldLine_inj {fields fields' : Headers} (h : ∀ f ∈ fields, validField f = true)
    (h' : ∀ f ∈ fields', validField f = true) (heq : fields.map fieldLine = fields'.map fieldLine) :
    fields = fields' := by
  induction fields generalizing fields' with
  | nil => exact (List.map_eq_nil_iff.mp heq.symm).symm
  | cons f fields ih =>
    cases fields' with
    | nil => cases heq
    | cons f' fields' =>
      rw [List.map_cons, List.map_cons, List.cons.injEq] at heq
      have hname := (Bool.and_eq_true _ _ ▸ h f List.mem_cons_self).1
      have hname' := (Bool.and_eq_true _ _ ▸ h' f' List.mem_cons_self).1
      rw [fieldLine_inj hname hname' heq.1,
        ih (fun g hg => h g (List.mem_cons_of_mem _ hg))
          (fun g hg => h' g (List.mem_cons_of_mem _ hg)) heq.2]

/-- Two heads with one start line are equal exactly when their fields are. -/
lemma headBytes_fieldLine_inj {startLine : Bytes} {fields fields' : Headers}
    (hstart : cr ∉ startLine ∧ lf ∉ startLine) (h : ∀ f ∈ fields, validField f = true)
    (h' : ∀ f ∈ fields', validField f = true) :
    headBytes startLine (fields.map fieldLine) ++ crlf =
      headBytes startLine (fields'.map fieldLine) ++ crlf ↔ fields = fields' := by
  constructor
  · intro heq
    have hline := lineText_of_not_mem hstart.1
    have hlines : ∀ fields : Headers, (∀ f ∈ fields, validField f = true) →
        ∀ line ∈ fields.map fieldLine, LineText line ∧ line ≠ [] := by
      intro fields hvalid line hmem
      obtain ⟨f, hf, rfl⟩ := List.mem_map.mp hmem
      exact lineText_fieldLine (hvalid f hf)
    have heq' : headBytes startLine (fields.map fieldLine) ++ (crlf ++ []) =
        headBytes startLine (fields'.map fieldLine) ++ (crlf ++ []) := heq
    obtain ⟨-, hmap, -⟩ := headBytes_append_inj hline hline (hlines _ h) (hlines _ h') heq'
    exact map_fieldLine_inj h h' hmap
  · rintro rfl
    rfl

/-- The plain route emits valid fields only. -/
lemma validField_of_mem_plainFields {overrides : List HeadOverride} (hdistinct : Distinct overrides)
    {omitted : List Bytes} {headers : Headers} (hheaders : ∀ f ∈ headers, validField f = true)
    (hoverrides : ∀ f ∈ overrides, validField f = true) :
    ∀ f ∈ plainFields overrides omitted headers, validField f = true := by
  intro f hf
  rw [plainFields_eq hdistinct, List.mem_append] at hf
  rcases hf with hf | hf
  · exact hheaders f (List.mem_filter.mp (List.mem_filter.mp hf).1).1
  · exact hoverrides f hf

/-- Substituting in place gives the bytes of the plain route exactly when the fields are aligned.
They are aligned when the fields call for the first overrides, in their order, and no other field
stands behind such a call. -/
theorem serializeHead_eq_plain_iff {startLine : Bytes} {headers : Headers}
    {overrides : List HeadOverride} {omitted : List Bytes}
    (hstart : cr ∉ startLine ∧ lf ∉ startLine) (hcount : overrides.length ≤ maxOverrides)
    (hheaders : ∀ f ∈ headers, validField f = true)
    (hoverrides : ∀ f ∈ overrides, validField f = true) (hdistinct : Distinct overrides) :
    serializeHead startLine headers overrides omitted =
        serializeHead startLine (plainFields overrides omitted headers) [] [] ↔
      Aligned overrides omitted headers := by
  have hmerged : ∀ f ∈ mergeFields overrides omitted headers, validField f = true := by
    intro f hf
    rcases mem_mergeFields hf with hf | hf
    · exact hheaders f hf
    · exact hoverrides f hf
  have hplain : ∀ f ∈ plainFields overrides omitted headers, validField f = true :=
    validField_of_mem_plainFields hdistinct hheaders hoverrides
  rw [(serializeHead_eq_ok).mpr ⟨hstart, hcount, hheaders, hoverrides, rfl⟩,
    (serializeHead_eq_ok).mpr ⟨hstart, Nat.zero_le _, hplain, by simp, rfl⟩, Except.ok.injEq,
    mergeFields_nil, headBytes_fieldLine_inj hstart hmerged hplain,
    mergeFields_eq_plain_iff hdistinct]

/-- An override of the last field is emitted where the plain route puts it. -/
theorem serializeHead_eq_plain_of_last :
    serializeHead (bytes "GET / HTTP/1.1")
        [(bytes "Accept", bytes "*/*"), (bytes "host", bytes "a")] [(bytes "Host", bytes "b")] [] =
      serializeHead (bytes "GET / HTTP/1.1")
        (plainFields [(bytes "Host", bytes "b")] []
          [(bytes "Accept", bytes "*/*"), (bytes "host", bytes "a")]) [] [] :=
  (serializeHead_eq_plain_iff (by decide +kernel) (by decide) (by decide +kernel)
    (by decide +kernel) (by decide +kernel)).mpr ⟨by decide +kernel, 1, by decide +kernel⟩

/-- An override of an earlier field stays where it was, and the plain route moves it to the end.
The comment of the source says that both orders are the same; they are only in the aligned case. -/
theorem not_serializeHead_eq_plain :
    ¬ ∀ (startLine : Bytes) (headers : Headers) (overrides : List HeadOverride) (omitted : List Bytes),
      (cr ∉ startLine ∧ lf ∉ startLine) → overrides.length ≤ maxOverrides →
      (∀ f ∈ headers, validField f = true) → (∀ f ∈ overrides, validField f = true) →
      (∀ name ∈ omitted, validHeaderName name = true) → Distinct overrides →
      (∀ o ∈ overrides, isOmitted omitted o.1 = false) →
      serializeHead startLine headers overrides omitted =
        serializeHead startLine (plainFields overrides omitted headers) [] [] := by
  intro h
  have hfalse := h (bytes "GET / HTTP/1.1")
    [(bytes "Host", bytes "a"), (bytes "Accept", bytes "*/*")] [(bytes "Host", bytes "b")] []
    (by decide +kernel) (by decide) (by decide +kernel) (by decide +kernel) (by decide)
    (by decide +kernel) (by decide +kernel)
  revert hfalse
  decide +kernel

end Chhttp
