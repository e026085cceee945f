import Chhttp.Client.Exchange

/-!
# Credentials on redirects

`Stripped` is the state of an exchange that has left an origin: it adds no credentials by itself,
and its request has none.  Every way an exchange goes on keeps it so, which is the invariant behind
`credentials_stay_in_origin`.

The credentials of the proxy have no such invariant.  `proxyValues_of_run` says what the
Proxy-Authorization fields of a hop are: from the first plain hop on, they are those of the proxy.
-/

namespace Chhttp.AsyncClient

open Transition

/-! ### Field names -/

/-- Whether a field carries credentials does not depend on the case of its name. -/
lemma isCredentialField_congr {name other : Bytes} (h : iequals name other = true) :
    isCredentialField name = isCredentialField other := by
  simp only [isCredentialField, iequals_congr h]

/-- Other fields have other names. -/
lemma iequals_of_isCredentialField {name other : Bytes} (hname : isCredentialField name = true)
    (hother : isCredentialField other = false) : iequals other name = false := by
  rw [← Bool.not_eq_true]
  intro h
  rw [isCredentialField_congr h, hname] at hother
  cases hother

/-! ### The start of an exchange -/

/-- Without automatic credentials, the defaults add none. -/
lemma getAll_addDefaults_of_isCredentialField {name : Bytes} (hname : isCredentialField name = true)
    (headers defaults : Headers) :
    (addDefaults false headers defaults).getAll name = headers.getAll name := by
  unfold addDefaults
  induction defaults generalizing headers with
  | nil => rfl
  | cons item defaults ih =>
    rw [List.foldl_cons, ih]
    split_ifs with hskip hpresent
    · rfl
    · rfl
    · have hne : iequals item.1 name = false :=
        iequals_of_isCredentialField hname (by simpa using hskip)
      rw [Headers.add, Headers.getAll_append, Headers.getAll_singleton, hne]
      exact List.append_nil _

/-- Without automatic credentials, an exchange adds none. -/
lemma getAll_prepareHeaders_of_isCredentialField (options : ClientOptions) (url : ParsedUrl)
    {name : Bytes} (hname : isCredentialField name = true) (headers : Headers) :
    (prepareHeaders options url false headers).getAll name = headers.getAll name := by
  have hset : ∀ (other value : Bytes) (h : Headers), isCredentialField other = false →
      (h.set other value).getAll name = h.getAll name := fun other value h hother =>
    Headers.getAll_set_of_ne value (iequals_of_isCredentialField hname hother)
  rw [← getAll_addDefaults_of_isCredentialField hname headers options.defaultHeaders]
  simp only [prepareHeaders, Bool.false_and, Bool.false_eq_true, if_false]
  split_ifs
  all_goals repeat rw [hset _ _ _ (by decide)]

/-! ### Origins -/

/-- An exchange that adds no credentials by itself, with a request that has none.  It holds from the
first hop to another origin on, because the request stays without the fields and automatic
authentication stays off. -/
structure Stripped (s : ExchangeState) : Prop where
  noAutomaticAuth : s.allowAutomaticAuth = false
  noCredentials : ∀ name, isCredentialField name = true → s.request.headers.getAll name = []

/-- An exchange that starts without credentials has none. -/
lemma stripped_enter (options : ClientOptions) (url : ParsedUrl) {request : Request}
    (redirects : ℕ) (digestAttempted : Bool)
    (h : ∀ name, isCredentialField name = true → request.headers.getAll name = []) :
    Stripped (enter options url request redirects digestAttempted false) where
  noAutomaticAuth := rfl
  noCredentials name hname := by
    rw [enter, getAll_prepareHeaders_of_isCredentialField options url hname, h name hname]

/-- A change of the method adds no fields. -/
lemma getAll_rewriteMethod_subset (status : ℤ) (request : Request) (name : Bytes) :
    (rewriteMethod status request).headers.getAll name ⊆ request.headers.getAll name := by
  unfold rewriteMethod
  split_ifs
  · have herase := fun headers other => Headers.getAll_erase_subset headers other name
    exact List.Subset.trans (herase _ _) (List.Subset.trans (herase _ _)
      (List.Subset.trans (herase _ _) (herase _ _)))
  · exact fun _ h => h

/-- A request whose credentials are erased has none. -/
lemma getAll_erase_credentials {name : Bytes} (hname : isCredentialField name = true)
    (headers : Headers) :
    ((headers.erase (bytes "Authorization")).erase (bytes "Cookie")).getAll name = [] := by
  rw [isCredentialField, Bool.or_eq_true] at hname
  refine List.eq_nil_iff_forall_not_mem.mpr fun value hvalue => ?_
  obtain ⟨item, hitem, heq, -⟩ := (Headers.mem_getAll).mp hvalue
  simp only [Headers.erase, List.mem_filter, Bool.not_eq_true'] at hitem
  rw [iequals_congr heq (bytes "Authorization"), iequals_congr heq (bytes "Cookie")] at hitem
  rcases hname with hname | hname
  · rw [hname] at hitem
    exact Bool.noConfusion hitem.1.2
  · rw [hname] at hitem
    exact Bool.noConfusion hitem.2

/-- The next hop has no credentials if it is on another origin, or if this one has none. -/
lemma stripped_redirected (options : ClientOptions) {s : ExchangeState} (status : ℤ)
    {nextUrl : ParsedUrl} (h : nextUrl.origin ≠ s.url.origin ∨ Stripped s) :
    Stripped (redirected options s status nextUrl) := by
  have hallow : (nextUrl.origin == s.url.origin && s.allowAutomaticAuth) = false := by
    rcases h with h | h
    · rw [beq_eq_false_iff_ne.mpr h, Bool.false_and]
    · rw [h.noAutomaticAuth, Bool.and_false]
  unfold redirected
  dsimp only
  rw [hallow]
  refine stripped_enter options nextUrl _ _ fun name hname => ?_
  refine List.eq_nil_of_subset_nil
    (List.Subset.trans (getAll_rewriteMethod_subset status _ name) ?_)
  split_ifs with hsame
  · rcases h with h | h
    · exact absurd (beq_iff_eq.mp hsame) h
    · rw [h.noCredentials name hname]
      exact List.Subset.refl _
  · rw [getAll_erase_credentials hname]
    exact List.Subset.refl _

/-- An exchange without credentials stays without. -/
lemma stripped_nextAttempt {options : ClientOptions} {s s' : ExchangeState} {a : Attempt}
    (h : Stripped s) (hnext : nextAttempt options s a = some s') : Stripped s' := by
  obtain ⟨-, -, rfl⟩ | ⟨_, -, hallow, -⟩ | ⟨status, nextUrl, -, rfl⟩ :=
    attemptStep_again (attemptStep_of_nextAttempt hnext)
  · exact ⟨h.noAutomaticAuth, h.noCredentials⟩
  · rw [h.noAutomaticAuth] at hallow
    cases hallow
  · exact stripped_redirected options status (Or.inr h)

/-- An exchange that goes on with another origin has no credentials. -/
lemma stripped_of_origin_ne {options : ClientOptions} {s s' : ExchangeState} {a : Attempt}
    (horigin : s.url.origin ≠ s'.url.origin) (hnext : nextAttempt options s a = some s') :
    Stripped s' := by
  obtain ⟨-, -, rfl⟩ | ⟨_, -, -, rfl⟩ | ⟨status, nextUrl, -, rfl⟩ :=
    attemptStep_again (attemptStep_of_nextAttempt hnext)
  · exact absurd rfl horigin
  · exact absurd rfl horigin
  · exact stripped_redirected options status (Or.inl fun h => horigin h.symm)

/-- An exchange without credentials writes none. -/
lemma getAll_fields_of_stripped {options : ClientOptions} {s : ExchangeState} {a : Attempt}
    (h : Stripped s) {m : Written} (hm : m ∈ written options (s, a)) {name : Bytes}
    (hname : isCredentialField name = true) : m.fields.getAll name = [] := by
  have hown : isOmitted ownFields name = false := by
    refine List.any_eq_false.mpr fun own hown hequal => ?_
    have hother : isCredentialField own = false :=
      (by decide : ∀ own ∈ ownFields, isCredentialField own = false) own hown
    rw [iequals_comm, iequals_of_isCredentialField hname hother] at hequal
    cases hequal
  rw [m.getAll_fields hown]
  rcases List.mem_append.mp hm with hm | hm
  · unfold tunnelled at hm
    split_ifs at hm
    · rw [List.mem_singleton] at hm
      subst hm
      have hset : ∀ (other value : Bytes) (headers : Headers), isCredentialField other = false →
          (headers.set other value).getAll name = headers.getAll name :=
        fun other value _ hother =>
          Headers.getAll_set_of_ne value (iequals_of_isCredentialField hname hother)
      simp only [tunnelRequest]
      split_ifs
      all_goals repeat rw [hset _ _ _ (by decide)]
      all_goals rfl
    · cases hm
  · unfold sent at hm
    split at hm
    · cases hm
    · rw [List.mem_singleton] at hm
      subst hm
      exact h.noCredentials name hname

/-- Once a hop is on another origin than the hop before it, no message of this hop or of a later one
carries credentials. -/
theorem credentials_stay_in_origin (options : ClientOptions) (base : Result ParsedUrl)
    (r : Request) (attempts : ℕ → Attempt) {i j : ℕ} {u v w : ExchangeState × Attempt}
    (hu : (request options base r attempts).2[i]? = some u)
    (hv : (request options base r attempts).2[i + 1]? = some v)
    (horigin : u.1.url.origin ≠ v.1.url.origin)
    (hw : (request options base r attempts).2[j]? = some w) (hij : i + 1 ≤ j) :
    ∀ m ∈ written options w, ∀ field ∈ m.fields, isCredentialField field.1 = false := by
  obtain hnone | ⟨url, target, hrequest⟩ := request_history options base r attempts
  · rw [hnone] at hu
    cases hu
  rw [hrequest] at hu hv hw
  obtain ⟨trace, t, hrun, hhistory, -⟩ := exchange_history options attempts
    (enter options url { r with target := target } 0 false true)
  rw [hhistory] at hu hv hw
  have hstart : Stripped v.1 := stripped_of_origin_ne horigin (hrun.next_of_getElem? _ hu hv)
  have hstripped : Stripped w.1 :=
    hrun.invariant_from (fun _ _ _ => stripped_nextAttempt) _ hv hw hij hstart
  intro m hm field hfield
  rw [← Bool.not_eq_true]
  intro hname
  have hmem : field.2 ∈ m.fields.getAll field.1 :=
    (Headers.mem_getAll).mpr ⟨field, hfield, iequals_refl _, rfl⟩
  rw [getAll_fields_of_stripped hstripped hm hname] at hmem
  cases hmem

/-- The attempts of a call on a good connection that is redirected to `location`, once. -/
def redirectedOnce (location : Bytes) : ℕ → Attempt
  | 0 => { outcome := .received { status := 302, headers := [(bytes "Location", location)] } none }
  | _ => { outcome := .received {} none }

/-- A call with a cookie and a token that is redirected from one host to another. -/
def crossOriginCall : Result Response × List (ExchangeState × Attempt) :=
  request { authentication := { type := .bearer, token := bytes "t" } }
    (parseUrl (bytes "http://a/")) { headers := [(bytes "cookie", bytes "k=v")] }
    (redirectedOnce (bytes "http://b/"))

/-- The request to the second host has neither. -/
theorem credentials_stay_in_origin_crossOriginCall :
    ∃ u v, crossOriginCall.2[0]? = some u ∧ crossOriginCall.2[1]? = some v ∧
      u.1.url.origin ≠ v.1.url.origin ∧
      ∀ m ∈ written { authentication := { type := .bearer, token := bytes "t" } } v,
        ∀ field ∈ m.fields, isCredentialField field.1 = false := by
  obtain ⟨u, hu⟩ := Option.isSome_iff_exists.mp
    (by decide +kernel : crossOriginCall.2[0]?.isSome = true)
  obtain ⟨v, hv⟩ := Option.isSome_iff_exists.mp
    (by decide +kernel : crossOriginCall.2[1]?.isSome = true)
  have horigins : crossOriginCall.2[0]?.map (fun w => w.1.url.origin) ≠
      crossOriginCall.2[1]?.map fun w => w.1.url.origin := by decide +kernel
  have horigin : u.1.url.origin ≠ v.1.url.origin := by simpa [hu, hv] using horigins
  exact ⟨u, v, hu, hv, horigin, credentials_stay_in_origin _ _ _ _ hu hv horigin hv le_rfl⟩

/-! ### The credentials of the proxy -/

/-- The values of a field that the defaults complete. -/
def defaulted (options : ClientOptions) (name : Bytes) (values : List Bytes) : List Bytes :=
  if values = [] then (options.defaultHeaders.getAll name).take 1 else values

/-- Values that are complete stay as they are. -/
lemma defaulted_defaulted (options : ClientOptions) (name : Bytes) (values : List Bytes) :
    defaulted options name (defaulted options name values) = defaulted options name values := by
  unfold defaulted
  split_ifs with hvalues hdefaults
  · rw [hdefaults]
  · rfl
  · rfl

/-- The defaults complete the fields that are no credentials for the origin. -/
lemma getAll_addDefaults {name : Bytes} (hname : isCredentialField name = false)
    (allowAutomaticAuth : Bool) (headers defaults : Headers) :
    (addDefaults allowAutomaticAuth headers defaults).getAll name =
      if headers.getAll name = [] then (defaults.getAll name).take 1 else headers.getAll name := by
  unfold addDefaults
  induction defaults generalizing headers with
  | nil => split_ifs with h <;> simp [h]
  | cons item defaults ih =>
    rw [List.foldl_cons, ih, Headers.getAll_cons]
    by_cases hitem : iequals item.1 name = true
    · have hcredential : isCredentialField item.1 = false := by rw [isCredentialField_congr hitem, hname]
      rw [hcredential, Bool.and_false, if_neg Bool.false_ne_true, Headers.contains_congr _ hitem,
        if_pos hitem]
      by_cases hpresent : headers.getAll name = []
      · rw [(Headers.contains_eq_false_iff).mpr hpresent, Headers.add]
        simp [hpresent, hitem]
      · have : headers.contains name = true := by
          rw [← Bool.not_eq_false, Headers.contains_eq_false_iff]
          exact hpresent
        rw [this, if_pos rfl, if_neg hpresent, if_neg hpresent]
    · rw [if_neg hitem]
      split_ifs <;> simp_all [Headers.add]

/-- The Proxy-Authorization fields at the start of an exchange. -/
lemma proxyValues_enter (options : ClientOptions) (url : ParsedUrl) (request : Request)
    (redirects : ℕ) (digestAttempted allowAutomaticAuth : Bool) (hproxy : options.proxy.url ≠ [])
    (husername : options.proxy.username ≠ []) :
    (enter options url request redirects digestAttempted allowAutomaticAuth).request.headers.getAll
        (bytes "Proxy-Authorization") =
      if url.secure then
        defaulted options (bytes "Proxy-Authorization")
          (request.headers.getAll (bytes "Proxy-Authorization"))
      else [options.proxy.authorization] := by
  have hset : ∀ (other value : Bytes) (h : Headers),
      iequals other (bytes "Proxy-Authorization") = false →
      (h.set other value).getAll (bytes "Proxy-Authorization") =
        h.getAll (bytes "Proxy-Authorization") := fun other value h hother =>
    Headers.getAll_set_of_ne value hother
  have hauth : ∀ h : Headers, (addAuthentication options.authentication h).getAll
      (bytes "Proxy-Authorization") = h.getAll (bytes "Proxy-Authorization") := by
    intro h
    unfold addAuthentication
    split
    · exact hset _ _ _ (by decide)
    · exact hset _ _ _ (by decide)
    · rfl
  have hdefaults := @getAll_addDefaults (bytes "Proxy-Authorization") (by decide)
    allowAutomaticAuth request.headers options.defaultHeaders
  simp only [enter, prepareHeaders, List.isEmpty_eq_false_iff.mpr hproxy,
    List.isEmpty_eq_false_iff.mpr husername, Bool.not_false, Bool.true_and, Bool.and_true,
    Bool.not_eq_true']
  cases url.secure with
  | false => exact Headers.getAll_set_self _ _ _
  | true =>
    rw [if_neg (by decide), if_pos rfl, defaulted, ← hdefaults]
    split_ifs <;> simp only [hauth, hset _ _ _ (by decide : iequals (bytes "Host")
      (bytes "Proxy-Authorization") = false), hset _ _ _ (by decide : iequals
      (bytes "Accept-Encoding") (bytes "Proxy-Authorization") = false)]

/-- A change of the method leaves the credentials of the proxy. -/
lemma proxyValues_rewriteMethod (status : ℤ) (request : Request) :
    (rewriteMethod status request).headers.getAll (bytes "Proxy-Authorization") =
      request.headers.getAll (bytes "Proxy-Authorization") := by
  unfold rewriteMethod
  split_ifs
  · dsimp only
    repeat rw [Headers.getAll_erase_of_ne (by decide)]
  · rfl

/-- The Proxy-Authorization fields of the next hop. -/
lemma proxyValues_redirected (options : ClientOptions) (s : ExchangeState) (status : ℤ)
    (nextUrl : ParsedUrl) (hproxy : options.proxy.url ≠ []) (husername : options.proxy.username ≠ []) :
    (redirected options s status nextUrl).request.headers.getAll (bytes "Proxy-Authorization") =
      if nextUrl.secure then
        defaulted options (bytes "Proxy-Authorization")
          (s.request.headers.getAll (bytes "Proxy-Authorization"))
      else [options.proxy.authorization] := by
  unfold redirected
  dsimp only
  rw [proxyValues_enter options _ _ _ _ _ hproxy husername, proxyValues_rewriteMethod]
  split_ifs
  · rfl
  · dsimp only
    repeat rw [Headers.getAll_erase_of_ne (by decide)]
  · rfl

/-- The Proxy-Authorization fields that a request has by itself or from the defaults.  They are the
caller's business, so the theorems set them apart from what the client adds. -/
def ownProxyValues (options : ClientOptions) (r : Request) : List Bytes :=
  defaulted options (bytes "Proxy-Authorization")
    (r.headers.getAll (bytes "Proxy-Authorization"))

/-- The Proxy-Authorization fields of a hop after hops with the URLs of `trace`: from the first
plain hop on, the credentials of the proxy. -/
theorem proxyValues_of_run {options : ClientOptions} {url : ParsedUrl} {r : Request}
    {trace : List (ExchangeState × Attempt)} {t : ExchangeState}
    (hproxy : options.proxy.url ≠ []) (husername : options.proxy.username ≠ [])
    (h : Run (nextAttempt options) (enter options url r 0 false true) trace t) :
    t.request.headers.getAll (bytes "Proxy-Authorization") =
      if t.url.secure = true ∧ ∀ u ∈ trace, u.1.url.secure = true then ownProxyValues options r
      else [options.proxy.authorization] := by
  induction h with
  | start =>
    rw [proxyValues_enter options _ _ _ _ _ hproxy husername]
    simp [enter, ownProxyValues]
  | @step trace t t' a hrun hnext ih =>
    have hkept : defaulted options (bytes "Proxy-Authorization")
        (t.request.headers.getAll (bytes "Proxy-Authorization")) =
        t.request.headers.getAll (bytes "Proxy-Authorization") := by
      rw [ih, ownProxyValues]
      split_ifs
      · exact defaulted_defaulted options _ _
      · rfl
    -- The hops before `t'` are those before `t`, and `t`.
    have hall : (∀ u ∈ trace ++ [(t, a)], u.1.url.secure = true) ↔
        t.url.secure = true ∧ ∀ u ∈ trace, u.1.url.secure = true := by
      rw [List.forall_mem_append, List.forall_mem_singleton, and_comm]
    -- Until now the values were the request's own, or they were those of the proxy.
    obtain ⟨values, hvalues, hcondition⟩ : ∃ values,
        t.request.headers.getAll (bytes "Proxy-Authorization") = values ∧
        (if t'.url.secure = true ∧ ∀ u ∈ trace ++ [(t, a)], u.1.url.secure = true then
          ownProxyValues options r else [options.proxy.authorization]) =
          if t'.url.secure = true then values else [options.proxy.authorization] := by
      refine ⟨_, ih, ?_⟩
      rw [if_congr (and_congr_right' hall) rfl rfl, ite_and]
    rw [hcondition]
    obtain ⟨-, -, rfl⟩ | ⟨value, -, -, rfl⟩ | ⟨status, nextUrl, -, rfl⟩ :=
      attemptStep_again (attemptStep_of_nextAttempt hnext)
    · rw [← hvalues, ih]
      split_ifs with hplain hsecure
      · rfl
      · exact absurd hplain.1 hsecure
      · rfl
      · rfl
    · rw [authenticated, proxyValues_enter options _ _ _ _ _ hproxy husername,
        Headers.getAll_set_of_ne _ (by decide), hkept, hvalues]
      rfl
    · rw [proxyValues_redirected options _ _ _ hproxy husername, hkept, hvalues]
      rfl

/-- No message for an origin carries the credentials of the proxy.  Messages to the proxy itself are
not meant: there they belong. -/
def ProxyCredentialsConfined (options : ClientOptions)
    (history : List (ExchangeState × Attempt)) : Prop :=
  ∀ v ∈ history, ∀ m ∈ written options v, m.toProxy = false →
    options.proxy.authorization ∉ m.fields.getAll (bytes "Proxy-Authorization")

/-- With a proxy, the messages for an origin are the requests of its secure hops. -/
lemma mem_written_toOrigin {options : ClientOptions} (hproxy : options.proxy.url ≠ [])
    {v : ExchangeState × Attempt} {m : Written} :
    m ∈ written options v ∧ m.toProxy = false ↔
      m ∈ sent options v.1 v.2 ∧ v.1.url.secure = true := by
  rw [written, List.mem_append]
  constructor
  · rintro ⟨hm | hm, horigin⟩
    · unfold tunnelled at hm
      split_ifs at hm
      · rw [List.mem_singleton] at hm
        subst hm
        cases horigin
      · cases hm
    · refine ⟨hm, ?_⟩
      unfold sent at hm
      split at hm
      · cases hm
      · rw [List.mem_singleton] at hm
        subst hm
        simpa [hproxy] using horigin
  · rintro ⟨hm, hsecure⟩
    refine ⟨Or.inr hm, ?_⟩
    unfold sent at hm
    split at hm
    · cases hm
    · rw [List.mem_singleton] at hm
      subst hm
      simp [hsecure]

/-- The credentials of the proxy are confined exactly if no request is sent on a secure hop after a
plain hop, or with credentials that the caller gave it. -/
theorem proxy_credentials_confined_iff (options : ClientOptions) (base : Result ParsedUrl)
    (r : Request) (attempts : ℕ → Attempt) (hproxy : options.proxy.url ≠ [])
    (husername : options.proxy.username ≠ []) :
    ProxyCredentialsConfined options (request options base r attempts).2 ↔
      ∀ (j : ℕ) (v : ExchangeState × Attempt), (request options base r attempts).2[j]? = some v →
        v.1.url.secure = true → sent options v.1 v.2 ≠ [] →
        (∀ u ∈ (request options base r attempts).2.take j, u.1.url.secure = true) ∧
          options.proxy.authorization ∉ ownProxyValues options r := by
  obtain hnone | ⟨url, target, hrequest⟩ := request_history options base r attempts
  · simp [hnone, ProxyCredentialsConfined]
  rw [hrequest]
  obtain ⟨trace, t, hrun, hhistory, -⟩ := exchange_history options attempts
    (enter options url { r with target := target } 0 false true)
  rw [hhistory]
  -- The values on a secure hop, by the run that leads to it.
  have hvalues : ∀ (j : ℕ) (v : ExchangeState × Attempt),
      (trace ++ [(t, attempts trace.length)])[j]? = some v → v.1.url.secure = true →
      ∀ m ∈ sent options v.1 v.2,
        (options.proxy.authorization ∉ m.fields.getAll (bytes "Proxy-Authorization") ↔
          (∀ u ∈ (trace ++ [(t, attempts trace.length)]).take j, u.1.url.secure = true) ∧
            options.proxy.authorization ∉ ownProxyValues options r) := by
    intro j v hv hsecure m hm
    have hstarts := proxyValues_of_run hproxy husername (hrun.take _ hv)
    rw [m.getAll_fields (by decide)]
    have hmrequest : m.request = v.1.request := by
      unfold sent at hm
      split at hm
      · cases hm
      · rw [List.mem_singleton.mp hm]
    rw [hmrequest, hstarts]
    split_ifs with hplain
    · exact (and_iff_right hplain.2).symm
    · have : ¬∀ u ∈ (trace ++ [(t, attempts trace.length)]).take j, u.1.url.secure = true :=
        fun h => hplain ⟨hsecure, h⟩
      simp only [List.mem_singleton, not_true_eq_false, this, false_and]
  constructor
  · intro h j v hv hsecure hsent
    obtain ⟨m, hm⟩ := List.exists_mem_of_ne_nil _ hsent
    have htoOrigin := (mem_written_toOrigin hproxy).mpr ⟨hm, hsecure⟩
    exact (hvalues j v hv hsecure m hm).mp
      (h v (List.mem_of_getElem? hv) m htoOrigin.1 htoOrigin.2)
  · intro h v hv m hm horigin
    obtain ⟨j, hj⟩ := List.mem_iff_getElem?.mp hv
    obtain ⟨hsent, hsecure⟩ := (mem_written_toOrigin hproxy).mp ⟨hm, horigin⟩
    exact (hvalues j v hj hsecure m hsent).mpr (h j v hj hsecure (List.ne_nil_of_mem hsent))

/-- The options of a client with a proxy that has credentials. -/
def proxiedOptions : ClientOptions where
  proxy := { url := bytes "http://p:1", username := bytes "u", password := bytes "w" }

/-- A call that is redirected from a plain to a secure hop sends the secure one the credentials of
the proxy. -/
theorem proxy_credentials_leak :
    ¬ProxyCredentialsConfined proxiedOptions
      (request proxiedOptions (parseUrl (bytes "http://a/")) {}
        (redirectedOnce (bytes "https://b/"))).2 := by
  intro h
  have hleak : ((request proxiedOptions (parseUrl (bytes "http://a/")) {}
      (redirectedOnce (bytes "https://b/"))).2.flatMap (written proxiedOptions)).any
        (fun m => !m.toProxy && (m.fields.getAll (bytes "Proxy-Authorization")).contains
          proxiedOptions.proxy.authorization) = true := by
    decide +kernel
  obtain ⟨m, hm, hleak⟩ := List.any_eq_true.mp hleak
  obtain ⟨v, hv, hm⟩ := List.mem_flatMap.mp hm
  simp only [Bool.and_eq_true, Bool.not_eq_true', List.contains_iff_mem] at hleak
  exact h v hv m hm hleak.1 hleak.2

/-- A call that stays on secure hops keeps them. -/
theorem proxy_credentials_confined_secure :
    ProxyCredentialsConfined proxiedOptions
      (request proxiedOptions (parseUrl (bytes "https://b/")) {}
        (redirectedOnce (bytes "/c"))).2 := by
  have hsecure : ((request proxiedOptions (parseUrl (bytes "https://b/")) {}
      (redirectedOnce (bytes "/c"))).2.all fun u => u.1.url.secure) = true := by decide +kernel
  exact (proxy_credentials_confined_iff proxiedOptions _ {} _ (by decide) (by decide)).mpr
    fun j v _ _ _ => ⟨fun u hu => List.all_eq_true.mp hsecure u (List.mem_of_mem_take hu),
      by decide +kernel⟩

end Chhttp.AsyncClient
