import Chhttp.Common.Headers
import Chhttp.Protocol.Lines

/-!
# Serialising a message head

`serializeHead` is `serialize_head`: it validates the caller's fields and emits them in order while
it substitutes `overrides` at the first equal field, drops later equal fields and everything in
`omitted`, and appends the overrides that no field called for.

For pairwise different overrides that are not omitted, the emitted field list is described by
`getAll_mergeFields`: an overridden name has the override as its only value, an omitted name has
none, and every other name keeps the caller's values.
-/

namespace Chhttp

open ListSearch

/-! ### The source -/

/-- `HeadOverride`: a name and the value that replaces it. -/
abbrev HeadOverride := Bytes × Bytes

/-- The override a field name calls for. -/
def overrideIndex (overrides : List HeadOverride) (name : Bytes) : Option ℕ :=
  overrides.findIdx? fun o => iequals name o.1

/-- A field name is omitted. -/
def isOmitted (omitted : List Bytes) (name : Bytes) : Bool := omitted.any (iequals name ·)

/-- One field of the caller; the state is the bitmap `emitted` and the fields emitted so far. -/
def mergeStep (overrides : List HeadOverride) (omitted : List Bytes)
    (s : List Bool × Headers) (field : Bytes × Bytes) : List Bool × Headers :=
  if isOmitted omitted field.1 then s
  else
    match overrideIndex overrides field.1 with
    | some index =>
      if s.1.getD index false then s
      else (s.1.set index true, s.2 ++ (overrides[index]?).toList)
    | none => (s.1, s.2 ++ [field])

/-- The overrides that have not been emitted. -/
def pendingOverrides : List HeadOverride → List Bool → Headers
  | o :: overrides, emitted :: bitmap =>
    if emitted then pendingOverrides overrides bitmap
    else o :: pendingOverrides overrides bitmap
  | _, _ => []

/-- The field list that `serialize_head` emits. -/
def mergeFields (overrides : List HeadOverride) (omitted : List Bytes) (headers : Headers) :
    Headers :=
  let s := headers.foldl (mergeStep overrides omitted)
    (List.replicate overrides.length false, [])
  s.2 ++ pendingOverrides overrides s.1

/-- A field line as it is written. -/
def fieldLine (field : Bytes × Bytes) : Bytes := field.1 ++ (bytes ": " ++ field.2)

/-- `max_overrides`. -/
def maxOverrides : ℕ := 8

/-- The check of an outbound field.  It is the same check that the reader applies to the fields it
receives. -/
def validField (field : Bytes × Bytes) : Bool :=
  validHeaderName field.1 && validHeaderValue field.2

/-- `serialize_head`: every check comes before the first byte of output, so an error has written
nothing. -/
def serializeHead (startLine : Bytes) (headers : Headers) (overrides : List HeadOverride)
    (omitted : List Bytes) : Result Bytes :=
  if startLine.any fun c => c == cr || c == lf then
    .error (protocolError "Invalid HTTP start line")
  else if maxOverrides < overrides.length then
    .error { code := .internal, message := "Too many HTTP header overrides" }
  else if !headers.all validField || !overrides.all validField then
    .error (protocolError "Invalid outbound HTTP header")
  else
    .ok (headBytes startLine ((mergeFields overrides omitted headers).map fieldLine) ++ crlf)

/-! ### Overrides -/

/-- Names that are equal up to case call for the same override. -/
lemma overrideIndex_congr {overrides : List HeadOverride} {u v : Bytes}
    (h : iequals u v = true) : overrideIndex overrides u = overrideIndex overrides v := by
  simp only [overrideIndex, iequals_congr h]

/-- Names that are equal up to case are omitted together. -/
lemma isOmitted_congr {omitted : List Bytes} {u v : Bytes} (h : iequals u v = true) :
    isOmitted omitted u = isOmitted omitted v := by
  simp only [isOmitted, iequals_congr h]

/-- No two overrides have equal names.  All lists of overrides in the source are of this kind. -/
def Distinct (overrides : List HeadOverride) : Prop :=
  overrides.Pairwise fun a b => iequals a.1 b.1 = false

instance (overrides : List HeadOverride) : Decidable (Distinct overrides) :=
  inferInstanceAs (Decidable (List.Pairwise _ _))

/-- The first override decides, or the others do. -/
lemma overrideIndex_cons (o : HeadOverride) (overrides : List HeadOverride) (name : Bytes) :
    overrideIndex (o :: overrides) name =
      if iequals name o.1 then some 0 else (overrideIndex overrides name).map (· + 1) := by
  simp [overrideIndex, List.findIdx?_cons]

/-- An override found under a name has that name. -/
lemma exists_of_overrideIndex {overrides : List HeadOverride} {name : Bytes} {index : ℕ}
    (h : overrideIndex overrides name = some index) :
    ∃ o, overrides[index]? = some o ∧ iequals name o.1 = true := by
  obtain ⟨hlt, hname, -⟩ := List.findIdx?_eq_some_iff_getElem.mp h
  exact ⟨overrides[index], List.getElem?_eq_getElem hlt, hname⟩

/-- A name without an override is not the name of one. -/
lemma iequals_of_overrideIndex_none {overrides : List HeadOverride} {name : Bytes}
    (h : overrideIndex overrides name = none) : ∀ o ∈ overrides, iequals name o.1 = false := by
  intro o ho
  simpa using List.findIdx?_eq_none_iff.mp h o ho

/-- What is pending are overrides. -/
lemma mem_of_mem_pendingOverrides {overrides : List HeadOverride} {bitmap : List Bool}
    {field : Bytes × Bytes} (h : field ∈ pendingOverrides overrides bitmap) :
    field ∈ overrides := by
  induction overrides generalizing bitmap with
  | nil => simp [pendingOverrides] at h
  | cons o overrides ih =>
    cases bitmap with
    | nil => simp [pendingOverrides] at h
    | cons emitted bitmap =>
      rw [pendingOverrides] at h
      split_ifs at h
      · exact List.mem_cons_of_mem _ (ih h)
      · rcases List.mem_cons.mp h with rfl | h
        · exact List.mem_cons_self
        · exact List.mem_cons_of_mem _ (ih h)

/-- What is pending for a name.  One that has been written is not pending any more, so it is written
once. -/
lemma getAll_pendingOverrides {overrides : List HeadOverride} {bitmap : List Bool}
    (hlen : bitmap.length = overrides.length)
    (hdistinct : Distinct overrides) (name : Bytes) :
    (pendingOverrides overrides bitmap).getAll name =
      match overrideIndex overrides name with
      | none => []
      | some index =>
        if bitmap.getD index false then [] else (overrides[index]?).toList.map Prod.snd := by
  induction overrides generalizing bitmap with
  | nil => simp [pendingOverrides, overrideIndex]
  | cons o overrides ih =>
    cases bitmap with
    | nil => simp at hlen
    | cons emitted bitmap =>
      obtain ⟨hfirst, hrest⟩ := List.pairwise_cons.mp hdistinct
      have ih := @ih bitmap (by simpa using hlen) hrest
      rw [overrideIndex_cons, pendingOverrides]
      by_cases hname : iequals name o.1 = true
      · have hnone : overrideIndex overrides name = none := by
          rw [overrideIndex_congr hname]
          refine List.findIdx?_eq_none_iff.mpr ?_
          intro o' ho'
          exact hfirst o' ho'
        rw [hnone] at ih
        rw [if_pos hname]
        cases emitted with
        | true => simpa using ih
        | false =>
          have hself : iequals o.1 name = true := by rw [iequals_comm]; exact hname
          rw [if_neg (by simp), Headers.getAll_cons, if_pos hself, ih]
          simp
      · have hself : iequals o.1 name = false := by
          rw [iequals_comm]
          simpa using hname
        rw [if_neg hname]
        have hskip : (if emitted = true then pendingOverrides overrides bitmap
            else o :: pendingOverrides overrides bitmap).getAll name =
              (pendingOverrides overrides bitmap).getAll name := by
          cases emitted with
          | true => rfl
          | false => rw [if_neg (by simp), Headers.getAll_cons, hself]; simp
        rw [hskip, ih]
        cases overrideIndex overrides name <;> simp

/-- The state of the merge after the fields `headers`.  An override is emitted at the first field
that calls for it, further fields of its name are dropped, and all other fields stay unless they are
omitted. -/
structure Merged (overrides : List HeadOverride) (omitted : List Bytes) (headers : Headers)
    (s : List Bool × Headers) : Prop where
  length : s.1.length = overrides.length
  values : ∀ name, s.2.getAll name =
    match overrideIndex overrides name with
    | some index => if s.1.getD index false then (overrides[index]?).toList.map Prod.snd else []
    | none => if isOmitted omitted name then [] else headers.getAll name
  others : s.2.filter (fun f => (overrideIndex overrides f.1).isNone) =
    headers.filter fun f => (overrideIndex overrides f.1).isNone && !isOmitted omitted f.1

/-- An override answers to exactly the names that call for it. -/
lemma iequals_iff_overrideIndex {overrides : List HeadOverride} {name : Bytes} {index : ℕ}
    {o : HeadOverride} (hindex : overrideIndex overrides name = some index)
    (ho : overrides[index]? = some o) (hname : iequals name o.1 = true) (other : Bytes) :
    iequals o.1 other = true ↔ overrideIndex overrides other = some index := by
  constructor
  · intro heq
    rw [← overrideIndex_congr heq, ← overrideIndex_congr hname]
    exact hindex
  · intro hcall
    obtain ⟨o', ho', hname'⟩ := exists_of_overrideIndex hcall
    rw [ho] at ho'
    cases ho'
    rw [iequals_comm]
    exact hname'

section

variable {overrides : List HeadOverride} {omitted : List Bytes} {headers : Headers}
  {s : List Bool × Headers} {field : Bytes × Bytes} {index : ℕ}

/-- A field that calls for an override has no other name. -/
lemma getAll_append_of_overrideIndex (hindex : overrideIndex overrides field.1 = some index)
    {name : Bytes} (hnone : overrideIndex overrides name = none) :
    Headers.getAll (headers ++ [field]) name = headers.getAll name := by
  have hname : iequals field.1 name = false := by
    by_contra heq
    rw [Bool.not_eq_false] at heq
    rw [← overrideIndex_congr heq, hindex] at hnone
    cases hnone
  simp [hname]

/-- An omitted field leaves no trace, and its name has no override. -/
lemma Merged.skip (h : Merged overrides omitted headers s)
    (homit : isOmitted omitted field.1 = true) :
    Merged overrides omitted (headers ++ [field]) s := by
  refine ⟨h.length, ?_, ?_⟩
  · intro name
    rw [h.values name]
    cases hindex : overrideIndex overrides name with
    | some index => rfl
    | none =>
      by_cases hname : isOmitted omitted name = true
      · simp [hname]
      · have hne : iequals field.1 name = false := by
          by_contra heq
          rw [Bool.not_eq_false] at heq
          exact hname (isOmitted_congr heq ▸ homit)
        simp [hname, hne]
  · rw [h.others, List.filter_append]
    simp [homit]

/-- An ordinary field is kept. -/
lemma Merged.keep (h : Merged overrides omitted headers s)
    (homit : isOmitted omitted field.1 = false) (hindex : overrideIndex overrides field.1 = none) :
    Merged overrides omitted (headers ++ [field]) (s.1, s.2 ++ [field]) := by
  refine ⟨h.length, ?_, ?_⟩
  · intro name
    simp only [Headers.getAll_append, Headers.getAll_singleton, h.values name]
    by_cases hname : iequals field.1 name = true
    · rw [overrideIndex_congr hname] at hindex
      rw [isOmitted_congr hname] at homit
      simp [hindex, homit, hname]
    · cases overrideIndex overrides name with
      | none => by_cases ho : isOmitted omitted name = true <;> simp [ho, hname]
      | some index => simp [hname]
  · rw [List.filter_append, List.filter_append, h.others]
    simp [hindex, homit]

/-- A field whose override has been emitted is dropped. -/
lemma Merged.drop (h : Merged overrides omitted headers s)
    (hindex : overrideIndex overrides field.1 = some index) :
    Merged overrides omitted (headers ++ [field]) s := by
  refine ⟨h.length, ?_, ?_⟩
  · intro name
    rw [h.values name]
    cases hn : overrideIndex overrides name with
    | some i => rfl
    | none => simp only [getAll_append_of_overrideIndex hindex hn]
  · rw [List.filter_append, h.others]
    simp [hindex]

/-- The first field that calls for an override is replaced by it. -/
lemma Merged.emit (h : Merged overrides omitted headers s)
    (hindex : overrideIndex overrides field.1 = some index)
    (hdone : s.1.getD index false = false) :
    Merged overrides omitted (headers ++ [field])
      (s.1.set index true, s.2 ++ (overrides[index]?).toList) := by
  obtain ⟨o, ho, hname⟩ := exists_of_overrideIndex hindex
  have hcalls := iequals_iff_overrideIndex hindex ho hname
  have hlt : index < s.1.length := by
    rw [h.length]
    exact (List.getElem?_eq_some_iff.mp ho).1
  refine ⟨by simpa using h.length, ?_, ?_⟩
  · intro name
    rw [Headers.getAll_append, h.values name, ho]
    cases hn : overrideIndex overrides name with
    | none =>
      have hno : iequals o.1 name = false := by
        by_contra heq
        rw [Bool.not_eq_false, hcalls, hn] at heq
        cases heq
      simp [getAll_append_of_overrideIndex hindex hn, hno]
    | some i =>
      by_cases hi : i = index
      · subst hi
        have hself := (hcalls name).mpr hn
        have hset : (s.1.set i true).getD i false = true := by
          rw [List.getD_eq_getElem?_getD, List.getElem?_set_self hlt]
          rfl
        simp only [hdone, hset, Bool.false_eq_true, if_false, if_true]
        simp [hself, ho]
      · have hno : iequals o.1 name = false := by
          by_contra heq
          rw [Bool.not_eq_false, hcalls, hn] at heq
          exact hi (by simpa using heq)
        have hset : (s.1.set index true).getD i false = s.1.getD i false := by
          rw [List.getD_eq_getElem?_getD, List.getElem?_set_ne (Ne.symm hi),
            List.getD_eq_getElem?_getD]
        simp only [hset]
        simp [hno]
  · rw [List.filter_append, List.filter_append, h.others, ho]
    have hindex' : overrideIndex overrides o.1 = some index := by
      rw [← overrideIndex_congr hname]
      exact hindex
    simp [hindex, hindex']

/-- The merge of one more field. -/
lemma Merged.step (h : Merged overrides omitted headers s) (field : Bytes × Bytes) :
    Merged overrides omitted (headers ++ [field]) (mergeStep overrides omitted s field) := by
  unfold mergeStep
  split_ifs with homit
  · exact h.skip homit
  · rw [Bool.not_eq_true] at homit
    cases hindex : overrideIndex overrides field.1 with
    | none => exact h.keep homit hindex
    | some index =>
      dsimp only
      split_ifs with hdone
      · exact h.drop hindex
      · exact h.emit hindex (Bool.not_eq_true _ ▸ hdone)

end

/-- The merge of a whole field list. -/
lemma merged_foldl (overrides : List HeadOverride) (omitted : List Bytes) (headers : Headers) :
    Merged overrides omitted headers (headers.foldl (mergeStep overrides omitted)
      (List.replicate overrides.length false, [])) := by
  induction headers using List.reverseRecOn with
  | nil =>
    refine ⟨by simp, ?_, by simp⟩
    intro name
    have hget : ∀ i, (List.replicate overrides.length false).getD i false = false := by
      intro i
      rw [List.getD_eq_getElem?_getD, List.getElem?_replicate]
      split_ifs <;> rfl
    cases overrideIndex overrides name <;> simp only [List.foldl_nil, hget] <;> simp
  | append_singleton headers field ih =>
    rw [List.foldl_append, List.foldl_cons, List.foldl_nil]
    exact ih.step field

/-- The values of a name in the emitted field list.  An override has its own value and no other, an
omitted name none, and any other name those of the caller. -/
theorem getAll_mergeFields {overrides : List HeadOverride} {omitted : List Bytes}
    (hdistinct : Distinct overrides) (headers : Headers) (name : Bytes) :
    (mergeFields overrides omitted headers).getAll name =
      match overrideIndex overrides name with
      | some index => (overrides[index]?).toList.map Prod.snd
      | none => if isOmitted omitted name then [] else headers.getAll name := by
  have h := merged_foldl overrides omitted headers
  rw [mergeFields, Headers.getAll_append, h.values name,
    getAll_pendingOverrides h.length hdistinct name]
  cases overrideIndex overrides name with
  | none => simp
  | some index =>
    simp only
    split_ifs <;> simp

/-- The emitted value of an override is its only one. -/
theorem getAll_mergeFields_of_mem {overrides : List HeadOverride} {omitted : List Bytes}
    (hdistinct : Distinct overrides) (headers : Headers) {name value : Bytes}
    (h : (name, value) ∈ overrides) :
    (mergeFields overrides omitted headers).getAll name = [value] := by
  have hfirst : (overrides.find? fun o => iequals name o.1) = some (name, value) := by
    induction overrides with
    | nil => simp at h
    | cons o overrides ih =>
      obtain ⟨hne, hrest⟩ := List.pairwise_cons.mp hdistinct
      rcases List.mem_cons.mp h with rfl | h
      · simp
      · have hskip : iequals name o.1 = false := by
          rw [iequals_comm]
          exact hne _ h
        rw [List.find?_cons_of_neg (by simp [hskip])]
        exact ih hrest h
  rw [getAll_mergeFields hdistinct]
  cases hindex : overrideIndex overrides name with
  | none =>
    have := iequals_of_overrideIndex_none hindex _ h
    rw [iequals_refl] at this
    cases this
  | some index =>
    obtain ⟨o, ho, hname⟩ := exists_of_overrideIndex hindex
    have hfound : overrides.find? (fun o => iequals name o.1) = some o := by
      obtain ⟨hlt, hat, hbefore⟩ := List.findIdx?_eq_some_iff_getElem.mp hindex
      rw [List.find?_eq_some_iff_getElem]
      refine ⟨hname, index, hlt, (List.getElem?_eq_some_iff.mp ho).2, ?_⟩
      intro j hj
      simpa using hbefore j hj
    rw [hfirst] at hfound
    cases hfound
    simp [ho]

/-- An omitted name that has no override is not emitted. -/
theorem getAll_mergeFields_of_omitted {overrides : List HeadOverride} {omitted : List Bytes}
    (hdistinct : Distinct overrides) (headers : Headers) {name : Bytes}
    (hname : ∀ o ∈ overrides, iequals name o.1 = false) (homit : isOmitted omitted name = true) :
    (mergeFields overrides omitted headers).getAll name = [] := by
  have hnone : overrideIndex overrides name = none := by
    rw [overrideIndex, List.findIdx?_eq_none_iff]
    exact hname
  rw [getAll_mergeFields hdistinct, hnone]
  simp only [if_pos homit]

/-- The fields that neither an override nor an omission concerns keep their order. -/
theorem filter_mergeFields (overrides : List HeadOverride) (omitted : List Bytes)
    (headers : Headers) :
    (mergeFields overrides omitted headers).filter
        (fun f => (overrideIndex overrides f.1).isNone) =
      headers.filter fun f => (overrideIndex overrides f.1).isNone && !isOmitted omitted f.1 := by
  have h := merged_foldl overrides omitted headers
  have hnone : (pendingOverrides overrides (headers.foldl (mergeStep overrides omitted)
      (List.replicate overrides.length false, [])).1).filter
        (fun f => (overrideIndex overrides f.1).isNone) = [] := by
    rw [List.filter_eq_nil_iff]
    intro f hf hnone
    rw [Option.isNone_iff_eq_none] at hnone
    have := iequals_of_overrideIndex_none hnone f (mem_of_mem_pendingOverrides hf)
    rw [iequals_refl] at this
    cases this
  rw [mergeFields, List.filter_append, h.others, hnone, List.append_nil]

/-- Every emitted field is a field of the caller or an override. -/
theorem mem_mergeFields {overrides : List HeadOverride} {omitted : List Bytes}
    {headers : Headers} {field : Bytes × Bytes} (h : field ∈ mergeFields overrides omitted headers) :
    field ∈ headers ∨ field ∈ overrides := by
  have hfold : ∀ f ∈ (headers.foldl (mergeStep overrides omitted)
      (List.replicate overrides.length false, [])).2, f ∈ headers ∨ f ∈ overrides := by
    clear h
    induction headers using List.reverseRecOn with
    | nil => simp
    | append_singleton headers last ih =>
      rw [List.foldl_append, List.foldl_cons, List.foldl_nil]
      generalize headers.foldl (mergeStep overrides omitted)
        (List.replicate overrides.length false, []) = s at ih ⊢
      have hold : ∀ f ∈ s.2, f ∈ headers ++ [last] ∨ f ∈ overrides := by
        intro f hf
        rcases ih f hf with hh | ho
        · exact Or.inl (List.mem_append_left _ hh)
        · exact Or.inr ho
      intro f hf
      unfold mergeStep at hf
      split_ifs at hf
      · exact hold f hf
      · split at hf
        · split_ifs at hf
          · exact hold f hf
          · rw [List.mem_append, Option.mem_toList] at hf
            rcases hf with hf | hf
            · exact hold f hf
            · exact Or.inr (List.mem_of_getElem? hf)
        · rw [List.mem_append, List.mem_singleton] at hf
          rcases hf with hf | rfl
          · exact hold f hf
          · exact Or.inl (by simp)
  rw [mergeFields, List.mem_append] at h
  rcases h with h | h
  · exact hfold field h
  · exact Or.inr (mem_of_mem_pendingOverrides h)

/-! ### Serialised heads -/

/-- A head that was serialised: a start line without line breaks, and valid fields.  The number of
overrides is bounded by the array in which the source notes which of them have been emitted. -/
theorem serializeHead_eq_ok {startLine : Bytes} {headers : Headers}
    {overrides : List HeadOverride} {omitted : List Bytes} {head : Bytes} :
    serializeHead startLine headers overrides omitted = .ok head ↔
      (cr ∉ startLine ∧ lf ∉ startLine) ∧ overrides.length ≤ maxOverrides ∧
        (∀ f ∈ headers, validField f = true) ∧ (∀ f ∈ overrides, validField f = true) ∧
        head = headBytes startLine ((mergeFields overrides omitted headers).map fieldLine) ++
          crlf := by
  have hstart : (startLine.any fun c => c == cr || c == lf) = true ↔
      ¬ (cr ∉ startLine ∧ lf ∉ startLine) := by
    simp only [List.any_eq_true, Bool.or_eq_true, beq_iff_eq]
    constructor
    · rintro ⟨c, hc, rfl | rfl⟩ ⟨h1, h2⟩
      · exact h1 hc
      · exact h2 hc
    · intro h
      by_contra hno
      push Not at hno
      exact h ⟨fun hc => (hno cr hc).1 rfl, fun hc => (hno lf hc).2 rfl⟩
  have hfields : (!headers.all validField || !overrides.all validField) = true ↔
      ¬ ((∀ f ∈ headers, validField f = true) ∧ ∀ f ∈ overrides, validField f = true) := by
    rw [Bool.or_eq_true, Bool.not_eq_true', Bool.not_eq_true', ← List.all_eq_true,
      ← List.all_eq_true, not_and_or, Bool.not_eq_true, Bool.not_eq_true]
  unfold serializeHead
  split_ifs with h1 h2 h3
  · rw [hstart] at h1
    simp only [false_iff]
    exact fun h => h1 h.1
  · simp only [false_iff]
    rintro ⟨-, h, -⟩
    omega
  · rw [hfields] at h3
    simp only [false_iff]
    exact fun h => h3 ⟨h.2.2.1, h.2.2.2.1⟩
  · rw [hstart, not_not] at h1
    rw [hfields, not_not] at h3
    simp only [Except.ok.injEq]
    constructor
    · rintro rfl
      exact ⟨h1, by omega, h3.1, h3.2, rfl⟩
    · rintro ⟨-, -, -, -, rfl⟩
      rfl

/-- CR, LF and NUL. -/
def isLineControl (c : UInt8) : Bool := c == cr || c == lf || c == 0

/-- Line controls are not allowed in fields. -/
lemma fieldValueCharacter_of_lineControl {c : UInt8} (h : isLineControl c = true) :
    fieldValueCharacter c = false := by
  simp only [isLineControl, Bool.or_eq_true, beq_iff_eq] at h
  rcases h with (rfl | rfl) | rfl <;> decide

/-- No written field line contains a line control. -/
theorem not_mem_fieldLine {field : Bytes × Bytes} (h : validField field = true) {c : UInt8}
    (hc : isLineControl c = true) : c ∉ fieldLine field := by
  have hbad := fieldValueCharacter_of_lineControl hc
  rw [validField, Bool.and_eq_true] at h
  rw [fieldLine, List.mem_append, List.mem_append, not_or, not_or]
  refine ⟨not_mem_of_validHeaderValue (validHeaderValue_of_name h.1) hbad, ?_,
    not_mem_of_validHeaderValue h.2 hbad⟩
  exact not_mem_of_validHeaderValue (by decide : validHeaderValue (bytes ": ") = true) hbad

/-- A written field line is a nonempty line text. -/
lemma lineText_fieldLine {field : Bytes × Bytes} (h : validField field = true) :
    LineText (fieldLine field) ∧ fieldLine field ≠ [] := by
  refine ⟨lineText_of_not_mem (not_mem_fieldLine h (by decide)), ?_⟩
  simp [fieldLine, bytes]

/-- A written field line determines its field. -/
lemma fieldLine_inj {f g : Bytes × Bytes} (hf : validHeaderName f.1 = true)
    (hg : validHeaderName g.1 = true) (h : fieldLine f = fieldLine g) : f = g := by
  have hcolon : colon ∉ f.1 := not_mem_of_validHeaderName hf (by decide)
  have hcolon' : colon ∉ g.1 := not_mem_of_validHeaderName hg (by decide)
  have hlength : f.1.length = g.1.length := by
    have hfind := find_singleton_append (b := sp :: f.2) hcolon
    have heq : f.1 ++ colon :: sp :: f.2 = g.1 ++ colon :: sp :: g.2 := h
    rw [heq, find_singleton_append hcolon', Option.some.injEq] at hfind
    exact hfind.symm
  obtain ⟨hname, hvalue⟩ := List.append_inj h hlength
  exact Prod.ext hname (List.append_cancel_left hvalue)

end Chhttp
