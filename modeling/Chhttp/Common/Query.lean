import Chhttp.Common.Url

/-!
# Encoding query strings

`urlEncode` and `makeQuery` write what `urlDecode` and `parseQuery` read.  An encoded text has only
unreserved bytes, percent escapes and `+`, hence none of the separators of a query, and every byte
is read back from where it was written (`urlDecode_urlEncode`, `parseQuery_makeQuery`).
-/

namespace Chhttp

/-! ### The source -/

/-- The bytes that `url_encode` leaves as they are. -/
def isUnreserved (c : UInt8) : Bool :=
  isAlpha c || isDigit c || c == 0x2d || c == 0x5f || c == 0x2e || c == 0x7e

/-- An entry of the table `hex` of `url_encode`. -/
def hexDigit (n : ℕ) : UInt8 := UInt8.ofNat (if n < 10 then 0x30 + n else 0x37 + n)

/-- One iteration of `url_encode`. -/
def urlEncodeByte (spaceAsPlus : Bool) (c : UInt8) : Bytes :=
  if isUnreserved c then [c]
  else if spaceAsPlus && c == sp then [0x2b]
  else [0x25, hexDigit (c.toNat / 16), hexDigit (c.toNat % 16)]

/-- `url_encode`: unreserved bytes stay, a space may become `+`, and all others are escaped. -/
def urlEncode (value : Bytes) (spaceAsPlus : Bool := false) : Bytes :=
  value.flatMap (urlEncodeByte spaceAsPlus)

/-- The part of a query for a parameter. -/
def queryPart (param : Bytes × Bytes) : Bytes :=
  urlEncode param.1 true ++ 0x3d :: urlEncode param.2 true

/-- One iteration of `make_query`. -/
def addPart (output : Bytes) (param : Bytes × Bytes) : Bytes :=
  (if output.isEmpty then output else output ++ [0x26]) ++ queryPart param

/-- `make_query`: names and values encoded for forms, with `=` and `&` between them. -/
def makeQuery (params : List (Bytes × Bytes)) : Bytes := params.foldl addPart []

/-! ### Encoded bytes -/

/-- A digit of an escape is read back. -/
lemma hexValue_hexDigit {n : ℕ} (h : n < 16) : hexValue (hexDigit n) = some n := by
  have hall : ∀ n < 16, hexValue (hexDigit n) = some n := by decide
  exact hall n h

/-- What the bytes of encoded texts are. -/
def isEncoded (c : UInt8) : Bool := isUnreserved c || c == 0x25 || c == 0x2b

/-- The digits of an escape are such bytes. -/
lemma isEncoded_hexDigit {n : ℕ} (h : n < 16) : isEncoded (hexDigit n) = true := by
  have hall : ∀ n < 16, isEncoded (hexDigit n) = true := by decide
  exact hall n h

/-- An encoded text has no other bytes. -/
lemma isEncoded_of_mem_urlEncode {value : Bytes} {spaceAsPlus : Bool} {c : UInt8}
    (h : c ∈ urlEncode value spaceAsPlus) : isEncoded c = true := by
  obtain ⟨b, -, hc⟩ := List.mem_flatMap.mp h
  have hb : b.toNat < 256 := UInt8.toNat_lt_size b
  unfold urlEncodeByte at hc
  split_ifs at hc with hplain hspace
  · rw [List.mem_singleton.mp hc, isEncoded, hplain]
    rfl
  · rw [List.mem_singleton.mp hc]
    rfl
  · simp only [List.mem_cons, List.not_mem_nil, or_false] at hc
    rcases hc with rfl | rfl | rfl
    · rfl
    · exact isEncoded_hexDigit (by omega)
    · exact isEncoded_hexDigit (by omega)

/-- A separator does not occur in an encoded text. -/
lemma not_mem_urlEncode {c : UInt8} (h : isEncoded c = false) (value : Bytes)
    (spaceAsPlus : Bool) : c ∉ urlEncode value spaceAsPlus := by
  intro hmem
  rw [isEncoded_of_mem_urlEncode hmem] at h
  cases h

/-! ### Decoding -/

/-- A byte that does not start an escape. -/
lemma urlDecodeLoop_cons {plusAsSpace : Bool} {c : UInt8} (h : c ≠ 0x25) {rest out : Bytes}
    (hrest : urlDecodeLoop plusAsSpace rest = .ok out) :
    urlDecodeLoop plusAsSpace (c :: rest) =
      .ok ((if plusAsSpace && c == 0x2b then sp else c) :: out) := by
  rw [urlDecodeLoop.eq_def]
  dsimp only
  rw [if_neg (by rwa [beq_iff_eq]), hrest]

/-- The fast path of `url_decode` computes what its loop would. -/
lemma urlDecodeLoop_of_plain {plusAsSpace : Bool} {value : Bytes} (hpercent : 0x25 ∉ value)
    (hplus : plusAsSpace = true → 0x2b ∉ value) : urlDecodeLoop plusAsSpace value = .ok value := by
  induction value with
  | nil => rfl
  | cons c value ih =>
    have hc : c ≠ 0x25 := by
      rintro rfl
      exact hpercent List.mem_cons_self
    have hspace : (plusAsSpace && c == 0x2b) = false := by
      rw [Bool.and_eq_false_imp]
      intro hmode
      rw [beq_eq_false_iff_ne]
      rintro rfl
      exact hplus hmode List.mem_cons_self
    have hrest := ih (fun h => hpercent (List.mem_cons_of_mem _ h))
      fun hmode h => hplus hmode (List.mem_cons_of_mem _ h)
    rw [urlDecodeLoop_cons hc hrest, hspace, if_neg Bool.false_ne_true]

/-- `url_decode` is its loop. -/
lemma urlDecode_eq_loop (value : Bytes) (plusAsSpace : Bool) :
    urlDecode value plusAsSpace = urlDecodeLoop plusAsSpace value := by
  unfold urlDecode
  split_ifs with hplain
  · simp only [Bool.and_eq_true, Bool.or_eq_true, Bool.not_eq_true', List.contains_eq_mem,
      decide_eq_false_iff_not] at hplain
    exact (urlDecodeLoop_of_plain hplain.1 fun hmode =>
      hplain.2.resolve_left (by rw [hmode]; exact Bool.false_ne_true.symm)).symm
  · rfl

/-- An encoded byte is read back; a space that became `+` is one where `+` is a space. -/
lemma urlDecodeLoop_urlEncodeByte {spaceAsPlus plusAsSpace : Bool}
    (hmode : spaceAsPlus = true → plusAsSpace = true) (c : UInt8) {rest out : Bytes}
    (h : urlDecodeLoop plusAsSpace rest = .ok out) :
    urlDecodeLoop plusAsSpace (urlEncodeByte spaceAsPlus c ++ rest) = .ok (c :: out) := by
  have hc : c.toNat < 256 := UInt8.toNat_lt_size c
  unfold urlEncodeByte
  split_ifs with hplain hspace
  · have hpercent : c ≠ 0x25 := by
      rintro rfl
      exact absurd hplain (by decide)
    have hplus : (c == 0x2b) = false := by
      rw [beq_eq_false_iff_ne]
      rintro rfl
      exact absurd hplain (by decide)
    rw [List.singleton_append, urlDecodeLoop_cons hpercent h, hplus, Bool.and_false,
      if_neg Bool.false_ne_true]
  · rw [Bool.and_eq_true, beq_iff_eq] at hspace
    obtain ⟨hplus, rfl⟩ := hspace
    rw [List.singleton_append, urlDecodeLoop_cons (by decide) h, hmode hplus]
    rfl
  · rw [List.cons_append, List.cons_append, List.singleton_append, urlDecodeLoop,
      if_pos (by rfl), hexValue_hexDigit (by omega), hexValue_hexDigit (by omega)]
    dsimp only
    rw [h]
    dsimp only
    rw [Nat.div_add_mod', UInt8.ofNat_toNat]

/-- `url_decode` inverts `url_encode`, also when it reads `+` as a space and none was written so.  A
space is written as `+` or as `%20`; a reader that does not expect `+` would keep it, which the
hypothesis excludes. -/
theorem urlDecode_urlEncode {spaceAsPlus plusAsSpace : Bool}
    (hmode : spaceAsPlus = true → plusAsSpace = true) (value : Bytes) :
    urlDecode (urlEncode value spaceAsPlus) plusAsSpace = .ok value := by
  rw [urlDecode_eq_loop]
  induction value with
  | nil => rfl
  | cons c value ih =>
    rw [urlEncode, List.flatMap_cons]
    exact urlDecodeLoop_urlEncodeByte hmode c ih

/-! ### Queries -/

/-- A part has at least its equal sign. -/
lemma queryPart_ne_nil (param : Bytes × Bytes) : queryPart param ≠ [] := by
  simp [queryPart]

/-- A list of parts whose first one is cut in two. -/
lemma intercalate_append (s u v : Bytes) (parts : List Bytes) :
    s.intercalate ((u ++ v) :: parts) = u ++ s.intercalate (v :: parts) := by
  cases parts with
  | nil => rw [List.intercalate_singleton, List.intercalate_singleton]
  | cons part parts =>
    rw [List.intercalate_cons_cons, List.intercalate_cons_cons, List.append_assoc,
      List.append_assoc, List.append_assoc]

/-- The loop of `make_query` joins the parts. -/
lemma foldl_addPart {output : Bytes} (h : output ≠ []) (params : List (Bytes × Bytes)) :
    params.foldl addPart output = [0x26].intercalate (output :: params.map queryPart) := by
  induction params generalizing output with
  | nil => rw [List.foldl_nil, List.map_nil, List.intercalate_singleton]
  | cons param params ih =>
    have hnext : addPart output param = output ++ ([0x26] ++ queryPart param) := by
      rw [addPart, if_neg (by rwa [List.isEmpty_iff]), List.append_assoc]
    rw [List.foldl_cons, ih (by rw [hnext]; simp), hnext, intercalate_append, intercalate_append,
      List.map_cons, List.intercalate_cons_cons, List.append_assoc]

/-- `make_query` joins the parts with `&`. -/
lemma makeQuery_eq_intercalate (params : List (Bytes × Bytes)) :
    makeQuery params = [0x26].intercalate (params.map queryPart) := by
  cases params with
  | nil => rfl
  | cons param params =>
    rw [makeQuery, List.foldl_cons, List.map_cons]
    exact foldl_addPart (queryPart_ne_nil param) params

/-- A part of a query is read back. -/
lemma parse_queryPart (param : Bytes × Bytes) :
    (queryPart param).takeWhile (· != 0x3d) = urlEncode param.1 true ∧
      (queryPart param).contains 0x3d = true ∧
      ((queryPart param).dropWhile (· != 0x3d)).tail = urlEncode param.2 true := by
  have hne : ∀ c ∈ urlEncode param.1 true, (c != 0x3d) = true := by
    intro c hc
    rw [bne_iff_ne]
    rintro rfl
    exact not_mem_urlEncode (by decide) param.1 true hc
  refine ⟨?_, ?_, ?_⟩
  · rw [queryPart, List.takeWhile_append_of_pos hne, List.takeWhile_cons_of_neg (by decide),
      List.append_nil]
  · simp [queryPart]
  · rw [queryPart, List.dropWhile_append_of_pos hne, List.dropWhile_cons_of_neg (by decide),
      List.tail_cons]

/-- A query starts with an encoded key. -/
lemma head?_makeQuery (params : List (Bytes × Bytes)) : (makeQuery params).head? ≠ some 0x3f := by
  rw [makeQuery_eq_intercalate]
  cases params with
  | nil => nofun
  | cons param params =>
    rw [List.map_cons, queryPart, intercalate_append]
    intro hhead
    cases hkey : urlEncode param.1 true with
    | nil =>
      rw [hkey, List.nil_append] at hhead
      cases hparts : params.map queryPart <;> rw [hparts] at hhead <;> cases hhead
    | cons c key =>
      rw [hkey] at hhead
      cases hhead
      exact not_mem_urlEncode (by decide) param.1 true (hkey ▸ List.mem_cons_self)

/-- `parse_query` inverts `make_query`, and `url_decode` inverts `url_encode` in both modes.  Names
and values are any bytes, the empty ones, `&`, `=` and `%` among them; repeated names keep their
order. -/
theorem parseQuery_makeQuery (params : List (Bytes × Bytes)) :
    parseQuery (makeQuery params) = params ∧
      ∀ (value : Bytes) (mode : Bool), urlDecode (urlEncode value mode) mode = .ok value := by
  refine ⟨?_, fun value mode => urlDecode_urlEncode id value⟩
  unfold parseQuery
  rw [if_neg (head?_makeQuery params), makeQuery_eq_intercalate]
  cases hparams : params with
  | nil => rfl
  | cons param rest =>
    rw [← hparams]
    dsimp only
    have hsep : ∀ part ∈ params.map queryPart, 0x26 ∉ part := by
      intro part hpart
      obtain ⟨param, -, rfl⟩ := List.mem_map.mp hpart
      rw [queryPart, List.mem_append, List.mem_cons, not_or, not_or]
      exact ⟨not_mem_urlEncode (by decide) _ _, by decide, not_mem_urlEncode (by decide) _ _⟩
    rw [List.splitOn_intercalate 0x26 hsep (by simp [hparams]), List.filterMap_map]
    conv_rhs => rw [← List.filterMap_some (l := params)]
    congr 1
    funext param
    obtain ⟨hkey, hequal, hvalue⟩ := parse_queryPart param
    simp only [Function.comp_apply, List.isEmpty_iff, queryPart_ne_nil, if_false, hkey, hequal,
      if_true, hvalue]
    rw [urlDecode_urlEncode id, urlDecode_urlEncode id]

end Chhttp
