import Chhttp.Common.Text

/-!
# Header field lists

`Headers` is the ordered list of fields with the operations of `Headers` in `common.cpp`; names
are compared without regard to case.  `Headers.named` selects the values of the fields of one
name, in order, which is how the framing rules below speak about repeated fields.
-/

namespace Chhttp

/-- The class `Headers`: name and value pairs in wire order. -/
abbrev Headers := List (Bytes × Bytes)

namespace Headers

/-- `Headers::add`. -/
def add (headers : Headers) (name value : Bytes) : Headers := headers ++ [(name, value)]

/-- `Headers::erase`. -/
def erase (headers : Headers) (name : Bytes) : Headers :=
  headers.filter fun item => !iequals item.1 name

/-- `Headers::set`: erase, then append. -/
def set (headers : Headers) (name value : Bytes) : Headers := (headers.erase name).add name value

/-- `Headers::contains`: there is a field of that name, in any case. -/
def contains (headers : Headers) (name : Bytes) : Bool :=
  headers.any fun item => iequals item.1 name

/-- `Headers::get_all`: the values of the fields called `name`, in order. -/
def getAll (headers : Headers) (name : Bytes) : List Bytes :=
  (headers.filter fun item => iequals item.1 name).map Prod.snd

end Headers

/-- `find_header`: the value of the first field called `name`. -/
def findHeader (headers : Headers) (name : Bytes) : Option Bytes :=
  (headers.find? fun item => iequals item.1 name).map Prod.snd

/-- `has_token`. -/
def hasToken (headers : Headers) (name token : Bytes) : Bool :=
  headers.any fun (key, value) => iequals key name && headerValueHasToken value token

namespace Headers

/-- The first field of a name is the first of all its values.  So `find_header` and `get_all` agree
on which field comes first. -/
theorem findHeader_eq_head? (headers : Headers) (name : Bytes) :
    findHeader headers name = (headers.getAll name).head? := by
  rw [findHeader, getAll, List.head?_map, List.head?_filter]

/-- A field is present exactly when it has a value. -/
theorem contains_eq_false_iff {headers : Headers} {name : Bytes} :
    headers.contains name = false ↔ headers.getAll name = [] := by
  simp [contains, getAll, List.filter_eq_nil_iff]

/-- Whether a field is present does not depend on the case of its name. -/
theorem contains_congr (headers : Headers) {name other : Bytes} (h : iequals name other = true) :
    headers.contains name = headers.contains other := by
  refine List.any_congr rfl fun item => ?_
  rw [iequals_comm, iequals_congr h, iequals_comm]

/-- Selecting by name distributes over concatenation. -/
@[simp] theorem getAll_append (u v : Headers) (name : Bytes) :
    getAll (u ++ v) name = getAll u name ++ getAll v name := by
  simp [getAll]

/-- Selecting by name from nothing. -/
@[simp] theorem getAll_nil (name : Bytes) : getAll [] name = [] := rfl

/-- Selecting by name, field by field. -/
theorem getAll_cons (item : Bytes × Bytes) (headers : Headers) (name : Bytes) :
    getAll (item :: headers) name =
      if iequals item.1 name then item.2 :: getAll headers name else getAll headers name := by
  simp only [getAll, List.filter_cons]
  split_ifs <;> rfl

/-- Selecting by name from one field. -/
@[simp] theorem getAll_singleton (item : Bytes × Bytes) (name : Bytes) :
    getAll [item] name = if iequals item.1 name then [item.2] else [] := by
  rw [getAll_cons, getAll_nil]

/-- The values selected are values of fields of that name. -/
theorem mem_getAll {headers : Headers} {name value : Bytes} :
    value ∈ headers.getAll name ↔ ∃ item ∈ headers, iequals item.1 name = true ∧ item.2 = value := by
  simp [getAll]

/-- An erased field has no values. -/
theorem getAll_erase_self (headers : Headers) (name : Bytes) :
    (headers.erase name).getAll name = [] := by
  simp [getAll, erase, List.filter_filter]

/-- Erasing a field leaves the others. -/
theorem getAll_erase_of_ne {headers : Headers} {name other : Bytes}
    (h : iequals name other = false) : (headers.erase name).getAll other = headers.getAll other := by
  rw [getAll, erase, List.filter_filter, getAll]
  refine congrArg _ (List.filter_congr fun item _ => ?_)
  cases hother : iequals item.1 other with
  | false => rfl
  | true =>
    rw [iequals_congr hother name, iequals_comm, h]
    rfl

/-- Erasing a field adds no values. -/
theorem getAll_erase_subset (headers : Headers) (name other : Bytes) :
    (headers.erase name).getAll other ⊆ headers.getAll other := by
  intro value hvalue
  obtain ⟨item, hitem, hname, rfl⟩ := (mem_getAll).mp hvalue
  exact (mem_getAll).mpr ⟨item, (List.mem_filter.mp hitem).1, hname, rfl⟩

/-- A field that was set has one value.  `Headers::set` erases every field of the name, in any case,
and appends the new one. -/
theorem getAll_set_self (headers : Headers) (name value : Bytes) :
    (headers.set name value).getAll name = [value] := by
  rw [set, add, getAll_append, getAll_erase_self, getAll_singleton, if_pos (iequals_refl name),
    List.nil_append]

/-- Setting a field leaves the others. -/
theorem getAll_set_of_ne {headers : Headers} {name other : Bytes} (value : Bytes)
    (h : iequals name other = false) :
    (headers.set name value).getAll other = headers.getAll other := by
  rw [set, add, getAll_append, getAll_erase_of_ne h, getAll_singleton, if_neg (by rw [h]; decide),
    List.append_nil]

end Headers

end Chhttp
