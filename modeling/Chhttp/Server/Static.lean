import Chhttp.Common.Message
import Chhttp.Lib.Pathname
import Chhttp.Lib.Scan

/-!
# Static mounts

`Server::mount`, `serve_static` and the containment test of `path_is_within_canonical` over an
arbitrary file system.  A pathname is a POSIX pathname; `weakly_canonical` can throw.

Whatever is served is a regular file whose canonical form is inside the root of the mount that
served it (`serveStatic_contained`).  Which mount that is depends on the text of the path only:
`starts_with` also accepts a prefix that ends inside a segment.  `serveStatic_segmentwise_iff` says
when the mounts resolve by segment.
-/

namespace Chhttp

open Pathname

/-! ### The type of a file -/

/-- `'.'`. -/
def dot : UInt8 := 0x2e

/-- `path::extension`: from the last dot of the filename on, unless the filename is `.` or `..` or
has no other dot than its first character. -/
def extension (path : Bytes) : Bytes :=
  let name := filename slash path
  if name = [dot] ∨ name = [dot, dot] then []
  else
    let stem := (name.reverse.dropWhile (· != dot)).tail
    if stem.isEmpty then [] else dot :: (name.reverse.takeWhile (· != dot)).reverse

/-- `types` of `mime_type`. -/
def mimeTypes : List (Bytes × Bytes) :=
  [(bytes ".html", bytes "text/html; charset=utf-8"),
    (bytes ".htm", bytes "text/html; charset=utf-8"),
    (bytes ".css", bytes "text/css; charset=utf-8"),
    (bytes ".js", bytes "text/javascript; charset=utf-8"),
    (bytes ".json", bytes "application/json"), (bytes ".xml", bytes "application/xml"),
    (bytes ".txt", bytes "text/plain; charset=utf-8"),
    (bytes ".csv", bytes "text/csv; charset=utf-8"), (bytes ".svg", bytes "image/svg+xml"),
    (bytes ".png", bytes "image/png"), (bytes ".jpg", bytes "image/jpeg"),
    (bytes ".jpeg", bytes "image/jpeg"), (bytes ".gif", bytes "image/gif"),
    (bytes ".webp", bytes "image/webp"), (bytes ".ico", bytes "image/x-icon"),
    (bytes ".pdf", bytes "application/pdf"), (bytes ".wasm", bytes "application/wasm"),
    (bytes ".zip", bytes "application/zip"), (bytes ".gz", bytes "application/gzip"),
    (bytes ".mp3", bytes "audio/mpeg"), (bytes ".mp4", bytes "video/mp4"),
    (bytes ".woff", bytes "font/woff"), (bytes ".woff2", bytes "font/woff2")]

/-- The length of `key` in `mime_type`. -/
def mimeKeySize : ℕ := 16

/-- `mime_type`. -/
def mimeType (path : Bytes) : Bytes :=
  let fallback := bytes "application/octet-stream"
  let key := extension path
  if key.any (0x7f < ·) || mimeKeySize < key.length then fallback
  else ((mimeTypes.find? fun entry => entry.1 == lower key).map Prod.snd).getD fallback

/-- `Response::set_file`. -/
def Response.setFile (response : Response) (path contentType : Bytes) : Response :=
  { response with
    filePath := some path
    body := []
    streamHandler := none
    headers := response.headers.set (bytes "Content-Type")
      (if contentType.isEmpty then mimeType path else contentType) }

/-! ### Mounts -/

/-- What the file system says about a pathname.  It is a parameter: the results hold whatever links
and directories there are. -/
structure FileSystem where
  isDirectory : Bytes → Bool
  isRegularFile : Bytes → Bool
  weaklyCanonical : Bytes → Except Thrown Bytes

/-- `Mount`: a prefix of paths, the canonical directory that stands for it, and the fields of its
answers. -/
structure Mount where
  urlPrefix : Bytes
  root : Bytes
  headers : Headers

/-- `Server::mount`. -/
def addMount (fs : FileSystem) (started : Bool) (mounts : List Mount) (urlPrefix directory : Bytes)
    (headers : Headers) : Except Thrown (List Mount) :=
  if started then .error (.exception "Mounts cannot change while running")
  else if urlPrefix.head? ≠ some slash then
    .error (.exception "Mount prefix must start with '/'")
  else do
    let root ← fs.weaklyCanonical directory
    .ok (mounts ++ [⟨urlPrefix, root, headers⟩])

/-- The loop of `path_is_within_canonical` over the components of the root and the candidate. -/
def componentsWithin : List Bytes → List Bytes → Bool
  | [], _ => true
  | _ :: _, [] => false
  | r :: root, c :: candidate => if r ≠ c then false else componentsWithin root candidate

/-- `path_is_within_canonical`. -/
def pathIsWithinCanonical (fs : FileSystem) (canonicalRoot candidate : Bytes) :
    Except Thrown Bool := do
  let normalizedCandidate ← fs.weaklyCanonical candidate
  .ok (componentsWithin (components slash canonicalRoot) (components slash normalizedCandidate))

namespace Mount

/-- The prefix is the beginning of the path, as a text.  This is the test of the source. -/
def startsPath (mount : Mount) (path : Bytes) : Bool := mount.urlPrefix.isPrefixOf path

/-- The rest of the path: without the prefix and the slashes that follow it. -/
def rest (mount : Mount) (path : Bytes) : Bytes :=
  (path.drop mount.urlPrefix.length).dropWhile (· == slash)

/-- The file a path names in a mount, or the index of a directory.  The path behind the prefix is
appended to the root, before anything is made canonical. -/
def file (fs : FileSystem) (mount : Mount) (path : Bytes) : Bytes :=
  let file := append slash mount.root (mount.rest path)
  if fs.isDirectory file then append slash file (bytes "index.html") else file

/-- The answer of a mount with a file. -/
def answer (mount : Mount) (file : Bytes) (response : Response) : Response :=
  let response := response.setFile file []
  let headers :=
    mount.headers.foldl (fun headers field => headers.set field.1 field.2) response.headers
  { response with headers := headers.set (bytes "Accept-Ranges") (bytes "bytes") }

/-- The body of the loop of `serve_static` for the mount that decides. -/
def serve (fs : FileSystem) (mount : Mount) (path : Bytes) (response : Response) :
    Except Thrown (Bool × Response) :=
  let file := mount.file fs path
  if !fs.isRegularFile file then .ok (false, response)
  else do
    let within ← pathIsWithinCanonical fs mount.root file
    if !within then .ok (false, response) else .ok (true, mount.answer file response)

end Mount

/-- The loop of `serve_static`. -/
def serveMounts (fs : FileSystem) (path : Bytes) (response : Response) :
    List Mount → Except Thrown (Bool × Response)
  | [] => .ok (false, response)
  | mount :: mounts =>
    if !mount.startsPath path then serveMounts fs path response mounts
    else mount.serve fs path response

/-- The methods that `serve_static` answers. -/
def servesMethod (method : Bytes) : Bool :=
  iequals method (bytes "GET") || iequals method (bytes "HEAD")

/-- `serve_static`. -/
def serveStatic (fs : FileSystem) (mounts : List Mount) (request : Request) (response : Response) :
    Except Thrown (Bool × Response) :=
  if !servesMethod request.method then .ok (false, response)
  else serveMounts fs request.path response mounts

/-! ### Resolution by segment -/

/-- A prefix of a path that ends where a segment does. -/
def SegmentPrefix (start path : Bytes) : Prop :=
  path = start ∨ start.getLast? = some slash ∧ start <+: path ∨ start ++ [slash] <+: path

instance (start path : Bytes) : Decidable (SegmentPrefix start path) :=
  inferInstanceAs (Decidable (_ ∨ _))

/-- A mount whose prefix is a segment prefix of the path.  This is what a mount is for; the source
tests less than that. -/
def Mount.covers (mount : Mount) (path : Bytes) : Bool := SegmentPrefix mount.urlPrefix path

/-- A file is selected through the first mount that covers the path only, it is the one that the
rest of the path names in its root, inside which its canonical form is; and the mounts that do not
cover the path could as well be absent. -/
structure Segmentwise (fs : FileSystem) (mounts : List Mount) (request : Request)
    (response : Response) : Prop where
  selected : ∀ response', serveStatic fs mounts request response = .ok (true, response') →
    ∃ mount canonical, mounts.find? (·.covers request.path) = some mount ∧
      response' = mount.answer (mount.file fs request.path) response ∧
      fs.isRegularFile (mount.file fs request.path) = true ∧
      fs.weaklyCanonical (mount.file fs request.path) = .ok canonical ∧
      components slash mount.root <+: components slash canonical
  decided : serveStatic fs mounts request response =
    serveStatic fs (mounts.filter (·.covers request.path)) request response

/-! ### What is registered, and what is served -/

/-- A mount is added behind the others, with a prefix that starts with a slash and a canonical root.
The root is made canonical once, so that a link in it does not matter when files are checked against
it. -/
theorem addMount_eq_ok {fs : FileSystem} {started : Bool} {mounts mounts' : List Mount}
    {urlPrefix directory : Bytes} {headers : Headers} :
    addMount fs started mounts urlPrefix directory headers = .ok mounts' ↔
      started = false ∧ urlPrefix.head? = some slash ∧
        ∃ root, fs.weaklyCanonical directory = .ok root ∧
          mounts' = mounts ++ [⟨urlPrefix, root, headers⟩] := by
  unfold addMount
  cases started with
  | true => simp
  | false =>
    by_cases hslash : urlPrefix.head? = some slash
    · rw [if_neg Bool.false_ne_true, if_neg (not_not.mpr hslash), Scan.bind_eq_ok]
      simp [hslash, eq_comm]
    · simp [hslash]

/-- The components of the root begin those of the candidate. -/
lemma componentsWithin_eq_true {root candidate : List Bytes} :
    componentsWithin root candidate = true ↔ root <+: candidate := by
  induction root generalizing candidate with
  | nil => simp [componentsWithin]
  | cons r root ih =>
    cases candidate with
    | nil => simp [componentsWithin]
    | cons c candidate =>
      rw [componentsWithin, List.cons_prefix_cons, ← ih]
      by_cases hrc : r = c <;> simp [hrc]

/-- A candidate is inside a root when its canonical form is. -/
lemma pathIsWithinCanonical_eq_ok {fs : FileSystem} {root candidate : Bytes} {within : Bool} :
    pathIsWithinCanonical fs root candidate = .ok within ↔
      ∃ canonical, fs.weaklyCanonical candidate = .ok canonical ∧
        within = componentsWithin (components slash root) (components slash canonical) := by
  rw [pathIsWithinCanonical, Scan.bind_eq_ok]
  simp [eq_comm]

namespace Mount

/-- The rest of the path is relative. -/
lemma head?_rest (mount : Mount) (path : Bytes) : (mount.rest path).head? ≠ some slash := by
  intro h
  have hnot := List.head?_dropWhile_not (· == slash) (path.drop mount.urlPrefix.length)
  rw [rest] at h
  rw [h] at hnot
  simp at hnot

/-- The rest of the path stays behind the root. -/
lemma append_rest (mount : Mount) (path : Bytes) :
    append slash mount.root (mount.rest path) =
      mount.root ++ (separator slash mount.root ++ mount.rest path) :=
  append_of_relative (mount.head?_rest path)

/-- A mount that covers a path starts it. -/
lemma startsPath_of_covers {mount : Mount} {path : Bytes} (h : mount.covers path = true) :
    mount.startsPath path = true := by
  rw [startsPath, List.isPrefixOf_iff_prefix]
  rcases of_decide_eq_true h with rfl | ⟨-, h⟩ | h
  · exact List.prefix_rfl
  · exact h
  · exact (List.prefix_append _ _).trans h

/-- A file that a mount serves is a regular file inside its root. -/
lemma serve_eq_true {fs : FileSystem} {mount : Mount} {path : Bytes}
    {response response' : Response} :
    mount.serve fs path response = .ok (true, response') ↔
      fs.isRegularFile (mount.file fs path) = true ∧
        (∃ canonical, fs.weaklyCanonical (mount.file fs path) = .ok canonical ∧
          components slash mount.root <+: components slash canonical) ∧
        response' = mount.answer (mount.file fs path) response := by
  simp only [serve]
  cases hregular : fs.isRegularFile (mount.file fs path) with
  | false => simp
  | true =>
    rw [if_neg (by simp), Scan.bind_eq_ok]
    constructor
    · rintro ⟨within, hwithin, h⟩
      obtain ⟨canonical, hcanonical, rfl⟩ := (pathIsWithinCanonical_eq_ok).mp hwithin
      cases hroot : componentsWithin (components slash mount.root) (components slash canonical) with
      | false => simp [hroot] at h
      | true =>
        rw [hroot, if_neg (by simp)] at h
        cases h
        exact ⟨rfl, ⟨canonical, hcanonical, (componentsWithin_eq_true).mp hroot⟩, rfl⟩
    · rintro ⟨-, ⟨canonical, hcanonical, hroot⟩, rfl⟩
      refine ⟨true, (pathIsWithinCanonical_eq_ok).mpr ⟨canonical, hcanonical, ?_⟩, rfl⟩
      rw [(componentsWithin_eq_true).mpr hroot]

end Mount

/-- The first mount whose prefix the path starts with decides. -/
lemma serveMounts_eq (fs : FileSystem) (path : Bytes) (response : Response) (mounts : List Mount) :
    serveMounts fs path response mounts =
      ((mounts.find? (·.startsPath path)).map (·.serve fs path response)).getD
        (.ok (false, response)) := by
  induction mounts with
  | nil => rfl
  | cons mount mounts ih =>
    rw [serveMounts]
    cases hstarts : mount.startsPath path with
    | false => simp [ih, hstarts]
    | true => simp [hstarts]

/-- A file that is served is a regular file inside the root of the first mount that starts the path.
The check is on canonical forms, so neither dot segments nor links lead out of the root. -/
theorem serveStatic_contained {fs : FileSystem} {mounts : List Mount} {request : Request}
    {response response' : Response}
    (h : serveStatic fs mounts request response = .ok (true, response')) :
    servesMethod request.method = true ∧
      ∃ mount canonical, mounts.find? (·.startsPath request.path) = some mount ∧
        response' = mount.answer (mount.file fs request.path) response ∧
        fs.isRegularFile (mount.file fs request.path) = true ∧
        fs.weaklyCanonical (mount.file fs request.path) = .ok canonical ∧
        components slash mount.root <+: components slash canonical := by
  unfold serveStatic at h
  cases hmethod : servesMethod request.method with
  | false => simp [hmethod] at h
  | true =>
    rw [hmethod, if_neg (by simp), serveMounts_eq] at h
    cases hfind : mounts.find? (·.startsPath request.path) with
    | none => simp [hfind] at h
    | some mount =>
      rw [hfind, Option.map_some, Option.getD_some] at h
      obtain ⟨hregular, ⟨canonical, hcanonical, hroot⟩, hresponse⟩ := (Mount.serve_eq_true).mp h
      exact ⟨rfl, mount, canonical, rfl, hresponse, hregular, hcanonical, hroot⟩

/-! ### When the mounts resolve by segment -/

/-- The first mount that starts the path is also the first one that covers it, when it covers it. -/
lemma find?_covers {mounts : List Mount} {path : Bytes}
    (h : ∀ mount, mounts.find? (·.startsPath path) = some mount → mount.covers path = true) :
    mounts.find? (·.covers path) = mounts.find? (·.startsPath path) := by
  induction mounts with
  | nil => rfl
  | cons mount mounts ih =>
    cases hstarts : mount.startsPath path with
    | true =>
      have hcovers : mount.covers path = true := h mount (List.find?_cons_of_pos hstarts)
      simp only [List.find?_cons, hstarts, hcovers]
    | false =>
      have hcovers : mount.covers path = false := by
        by_contra hcovers
        rw [Bool.not_eq_false] at hcovers
        rw [Mount.startsPath_of_covers hcovers] at hstarts
        cases hstarts
      simp only [List.find?_cons, hstarts, hcovers] at h ⊢
      exact ih h

/-- Among the mounts that cover the path the first one starts it. -/
lemma find?_filter_covers (mounts : List Mount) (path : Bytes) :
    (mounts.filter (·.covers path)).find? (·.startsPath path) = mounts.find? (·.covers path) := by
  rw [List.find?_filter]
  congr 1
  funext mount
  cases hcovers : mount.covers path with
  | false => simp
  | true => simp [Mount.startsPath_of_covers hcovers]

/-- A prefix that ends inside a segment, and the rest of the path. -/
lemma Mount.rest_of_not_covers {mount : Mount} {path : Bytes}
    (hstarts : mount.startsPath path = true) (hnot : mount.covers path = false) :
    path = mount.urlPrefix ++ mount.rest path ∧ mount.rest path ≠ [] ∧
      mount.urlPrefix.getLast? ≠ some slash := by
  rw [Mount.startsPath, List.isPrefixOf_iff_prefix] at hstarts
  have hsegment := of_decide_eq_false hnot
  rw [SegmentPrefix, not_or, not_or] at hsegment
  obtain ⟨hne, hlast, hslash⟩ := hsegment
  obtain ⟨tail, rfl⟩ := hstarts
  have htail : tail ≠ [] := by
    rintro rfl
    exact hne (List.append_nil _)
  obtain ⟨c, tail, rfl⟩ := List.exists_cons_of_ne_nil htail
  have hc : c ≠ slash := by
    rintro rfl
    exact hslash ⟨tail, by simp⟩
  have hrest : mount.rest (mount.urlPrefix ++ c :: tail) = c :: tail := by
    rw [Mount.rest, List.drop_left, List.dropWhile_cons_of_neg (by simpa using hc)]
  rw [hrest]
  exact ⟨rfl, htail, fun h => hlast ⟨h, List.prefix_append _ _⟩⟩

/-- Where a mount that does not cover the path names the same file as one that does, the root of the
latter is deeper. -/
lemma Mount.length_names_lt {shadow mount : Mount} {path : Bytes}
    (hstarts : shadow.startsPath path = true) (hnot : shadow.covers path = false)
    (hcovers : mount.covers path = true)
    (hfile : append slash mount.root (mount.rest path) =
      append slash shadow.root (shadow.rest path)) :
    (names slash shadow.root).length < (names slash mount.root).length := by
  obtain ⟨hpath, hrest, hlast⟩ := Mount.rest_of_not_covers hstarts hnot
  have hrelative := shadow.head?_rest path
  rw [mount.append_rest, shadow.append_rest] at hfile
  -- the path behind the prefix of the covering mount, slashes apart
  obtain ⟨slashes, hslashes, hsplit⟩ : ∃ slashes, (∀ c ∈ slashes, c = slash) ∧
      path = (mount.urlPrefix ++ slashes) ++ mount.rest path := by
    have hprefix := Mount.startsPath_of_covers hcovers
    rw [Mount.startsPath, List.isPrefixOf_iff_prefix] at hprefix
    refine ⟨(path.drop mount.urlPrefix.length).takeWhile (· == slash), ?_, ?_⟩
    · intro c hc
      simpa using List.mem_takeWhile_imp hc
    · rw [List.append_assoc, Mount.rest, List.takeWhile_append_dropWhile]
      exact (List.prefix_iff_eq_append.mp hprefix).symm
  have hsame : mount.urlPrefix ++ slashes ≠ shadow.urlPrefix := by
    intro heq
    rcases List.eq_nil_or_concat slashes with rfl | ⟨init, c, rfl⟩
    · rw [List.append_nil] at heq
      rw [Mount.covers, heq] at hcovers
      rw [Mount.covers, hcovers] at hnot
      cases hnot
    · rw [← heq, List.concat_eq_append, ← List.append_assoc, List.getLast?_concat,
        hslashes c (by simp)] at hlast
      exact hlast rfl
  rcases List.append_eq_append_iff.mp (hsplit.symm.trans hpath) with
    ⟨tail, hshadow, htail⟩ | ⟨tail, hmount, htail⟩
  · -- the shadowing prefix is longer, and what it has more does not end with a slash
    exfalso
    have hne : tail ≠ [] := by
      rintro rfl
      exact hsame (by simpa using hshadow.symm)
    rw [htail, ← List.append_assoc, ← List.append_assoc, ← List.append_assoc] at hfile
    have heq := List.append_cancel_right hfile
    have hslash : (shadow.root ++ separator slash shadow.root).getLast? = some slash := by
      refine getLast?_append_separator ?_
      rw [← heq]
      simp [hne]
    rw [← heq, List.getLast?_append_of_ne_nil _ hne] at hslash
    rw [hshadow, List.getLast?_append_of_ne_nil _ hne] at hlast
    exact hlast hslash
  · -- the shadowing prefix is shorter, and the rest of the path goes down from its root first
    have hne : tail ≠ [] := by
      rintro rfl
      exact hsame (by simpa using hmount)
    rw [htail, List.head?_append_of_ne_nil _ hne] at hrelative
    rw [htail, ← List.append_assoc, ← List.append_assoc, ← List.append_assoc] at hfile
    have heq := List.append_cancel_right hfile
    rw [← names_append_separator mount.root, heq, List.append_assoc]
    exact length_names_lt_append hne hrelative

/-- The mounts resolve by segment, over every file system, exactly when the first mount that starts
the path covers it. -/
theorem serveStatic_segmentwise_iff {mounts : List Mount} {request : Request}
    (hmethod : servesMethod request.method = true) :
    (∀ fs response, Segmentwise fs mounts request response) ↔
      ∀ mount, mounts.find? (·.startsPath request.path) = some mount →
        mount.covers request.path = true := by
  constructor
  · intro h shadow hshadow
    by_contra hnot
    rw [Bool.not_eq_true] at hnot
    have hstarts : shadow.startsPath request.path = true :=
      List.find?_some (p := fun m : Mount => m.startsPath request.path) hshadow
    -- the only regular file is the one the shadowing mount names, and it is the root of that mount
    have hsegment := (h
      { isDirectory := fun _ => false
        isRegularFile := (· == append slash shadow.root (shadow.rest request.path))
        weaklyCanonical := fun _ => .ok shadow.root } {}).selected
    obtain ⟨mount, canonical, hmount, -, hregular, hcanonical, hroot⟩ := hsegment _ (by
      rw [serveStatic, hmethod, if_neg (by simp), serveMounts_eq, hshadow]
      exact (Mount.serve_eq_true).mpr
        ⟨beq_self_eq_true _, ⟨_, rfl, List.prefix_rfl⟩, rfl⟩)
    cases hcanonical
    have hcovers := List.find?_some (p := fun m : Mount => m.covers request.path) hmount
    have hdeeper := Mount.length_names_lt hstarts hnot hcovers (beq_iff_eq.mp hregular)
    have hle := length_names_le hroot
    omega
  · intro h fs response
    have hfind := find?_covers h
    refine ⟨fun response' hserved => ?_, ?_⟩
    · obtain ⟨-, mount, canonical, hmount, hanswer, hregular, hcanonical, hroot⟩ :=
        serveStatic_contained hserved
      exact ⟨mount, canonical, hfind.trans hmount, hanswer, hregular, hcanonical, hroot⟩
    · rw [serveStatic, serveStatic, serveMounts_eq, serveMounts_eq, find?_filter_covers, hfind]

/-- A file system of regular files only, without symbolic links. -/
def plainFiles : FileSystem :=
  { isDirectory := fun _ => false, isRegularFile := fun _ => true, weaklyCanonical := .ok }

/-- A mount that covers the path, behind one that does not start it. -/
theorem serveStatic_segmentwise_of_below :
    Segmentwise plainFiles [⟨bytes "/b", bytes "/srv/b", []⟩, ⟨bytes "/a", bytes "/srv/a", []⟩]
      { path := bytes "/a/index.css" } {} := by
  refine (serveStatic_segmentwise_iff (by decide +kernel)).mpr ?_ plainFiles {}
  intro mount h
  cases h
  decide +kernel

/-- A mount at `/a` answers for `/ab`, and the mount at `/ab` is never asked.  The source compares
texts, and the text `/a` starts `/ab`. -/
theorem not_serveStatic_segmentwise :
    ¬ ∀ (fs : FileSystem) (mounts : List Mount) (request : Request) (response : Response),
      servesMethod request.method = true → Segmentwise fs mounts request response := by
  intro h
  have hdecided := (h plainFiles
    [⟨bytes "/a", bytes "/srv/a", []⟩, ⟨bytes "/ab", bytes "/srv/ab", []⟩]
    { path := bytes "/ab" } {} (by decide +kernel)).decided
  have hfile := congrArg (fun outcome => outcome.toOption.bind fun o => o.2.filePath) hdecided
  revert hfile
  decide +kernel

end Chhttp
