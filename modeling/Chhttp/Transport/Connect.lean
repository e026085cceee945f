import Chhttp.Common.Text

/-!
# Trying the addresses of a host

The loop of `Connection::connect` over the addresses that a host name resolves to.  How the resolver
and the addresses answer is given, in milliseconds of the loop's clock; the caller does not
cancel.  An attempt is a `PendingConnect` together with its connection, and its callbacks run in the
order of their times, the timer first when they are due together.

Every attempt may use up all that remains of the caller's timeout, and a timeout ends the walk.  So
an address that stays silent keeps those behind it from being tried: `connect_fallback_iff` says
when an address that would accept is reached.

The deadline is computed in nanoseconds of 64 bits.  A timeout of more than 292 years overflows
them, and what is left of it, `connectBudget`, is less and can be nothing.
-/

namespace Chhttp.Transport

/-! ### The answers -/

/-- How an address answers an attempt: it accepts or fails after a delay, `uv_tcp_connect` fails at
once, or nothing is heard of it. -/
inductive AddressOutcome where
  | accepts (delay : ℕ)
  | fails (delay : ℕ) (reason : String)
  | failsAtStart (reason : String)
  | silent

/-- An entry of the `addrinfo` list.  A pointer into that list is the list from there on.  What
comes of a connection to it, and when, is part of the entry, for the environment decides it. -/
structure ResolvedAddress where
  description : String
  outcome : AddressOutcome

/-- How the resolver answers.  A resolver that is silent is ended by the timeout, as a connection
is. -/
inductive Resolution where
  | resolved (delay : ℕ) (addresses : List ResolvedAddress)
  | failed (delay : ℕ) (reason : String)
  | failedAtStart (reason : String)
  | silent

/-- The addresses that the resolver has. -/
def Resolution.addresses : Resolution → List ResolvedAddress
  | .resolved _ addresses => addresses
  | _ => []

/-! ### One attempt -/

/-- `PendingConnect`, and what becomes of its connection.  `candidate` is the address of the
attempt, and `next` what is behind it. -/
structure PendingConnect where
  host : String
  addresses : List ResolvedAddress
  candidate : List ResolvedAddress
  next : List ResolvedAddress := []
  resolving : Bool := true
  completed : Bool := false
  result : Result ResolvedAddress :=
    .error { code := .internal, message := "Connect not completed" }
  isOpen : Bool := false
  closed : Bool := false

/-- The error of an attempt whose time is over. -/
def connectTimeout : ErrorInfo := { code := .timeout, message := "Connection attempt timed out" }

/-- The connect errors. -/
def connectError (message : String) : ErrorInfo := { code := .connect, message }

/-- The resolve errors. -/
def resolveError (message : String) : ErrorInfo := { code := .resolve, message }

namespace PendingConnect

/-- `describe_address` on the candidate. -/
def describeAddress (p : PendingConnect) : String :=
  (p.candidate.head?.map ResolvedAddress.description).getD ""

/-- `finish_connect`.  The timer is stopped, which is why it does not run behind it. -/
def finishConnect (p : PendingConnect) (result : Result ResolvedAddress) : PendingConnect :=
  if p.completed then p
  else
    match result with
    | .ok _ => { p with completed := true, result := result, isOpen := true }
    | .error _ => { p with completed := true, result := result, closed := true }

/-- `read_timeout`. -/
def readTimeout (p : PendingConnect) : PendingConnect :=
  { p.finishConnect (.error connectTimeout) with closed := true }

/-- The callback of `uv_tcp_connect`. -/
def connectCallback (p : PendingConnect) (status : Option String) : PendingConnect :=
  if p.completed then p
  else
    match status, p.candidate with
    | none, address :: _ => p.finishConnect (.ok address)
    | none, [] => p
    | some reason, _ =>
      p.finishConnect (.error (connectError
        ("Unable to connect to " ++ p.host ++ " (" ++ p.describeAddress ++ "): " ++ reason)))

/-- `start_tcp_connect`. -/
def startTcpConnect (p : PendingConnect) : PendingConnect :=
  let p := { p with next := p.candidate.tail }
  match p.candidate.head?.map ResolvedAddress.outcome with
  | some (.failsAtStart reason) =>
    p.finishConnect (.error (connectError
      ("Unable to start connection to " ++ p.host ++ " (" ++ p.describeAddress ++ "): " ++ reason)))
  | _ => p

/-- The callback of `uv_getaddrinfo`. -/
def resolveCallback (p : PendingConnect) (answer : Except String (List ResolvedAddress)) :
    PendingConnect :=
  let p := { p with resolving := false }
  if p.completed then p
  else
    match answer with
    | .error reason =>
      p.finishConnect (.error (resolveError ("Unable to resolve " ++ p.host ++ ": " ++ reason)))
    | .ok [] =>
      p.finishConnect (.error (resolveError
        ("Unable to resolve " ++ p.host ++ ": Unknown system error 0")))
    | .ok addresses => startTcpConnect { p with addresses := addresses, candidate := addresses }

/-- The loop runs the callback, or before it the timer that is due at `due`, which closes the
connection and so cancels the request. -/
def awaitConnect (now due : ℕ) (p : PendingConnect) : ℕ × PendingConnect :=
  if p.completed then (now, p)
  else
    match p.candidate.head?.map ResolvedAddress.outcome with
    | some (.accepts delay) =>
      if now + delay < due then (now + delay, p.connectCallback none)
      else (due, p.readTimeout.connectCallback (some "operation canceled"))
    | some (.fails delay reason) =>
      if now + delay < due then (now + delay, p.connectCallback (some reason))
      else (due, p.readTimeout.connectCallback (some "operation canceled"))
    | _ => (due, p.readTimeout.connectCallback (some "operation canceled"))

end PendingConnect

open PendingConnect in
/-- `ConnectAwaiter`: one attempt on the candidate, or on the first address after resolving. -/
def connectAwaiter (resolution : Resolution) (now due : ℕ) (p : PendingConnect) :
    ℕ × PendingConnect :=
  if p.candidate ≠ [] then awaitConnect now due p.startTcpConnect
  else
    match resolution with
    | .resolved delay addresses =>
      if now + delay < due then awaitConnect (now + delay) due (p.resolveCallback (.ok addresses))
      else (due, p.readTimeout.resolveCallback (.ok addresses))
    | .failed delay reason =>
      if now + delay < due then (now + delay, p.resolveCallback (.error reason))
      else (due, p.readTimeout.resolveCallback (.error "operation canceled"))
    | .failedAtStart reason =>
      (now, p.finishConnect (.error (resolveError ("Unable to start DNS resolution: " ++ reason))))
    | .silent => (due, p.readTimeout.resolveCallback (.error "operation canceled"))

/-! ### The loop -/

/-- A run of `Connection::connect`: the attempts, and when it returns what.  The last attempt is the
one whose result it is. -/
structure Walk where
  attempts : List PendingConnect
  returned : ℕ
  result : Result ResolvedAddress

/-- What `connect` does with an attempt that ended. -/
def continueConnect (again : ℕ → List ResolvedAddress → List ResolvedAddress → Option Walk)
    (attempt : ℕ × PendingConnect) : Option Walk :=
  let p := attempt.2
  match p.result with
  | .ok address => some ⟨[p], attempt.1, .ok address⟩
  | .error failure =>
    if failure.code = .cancelled ∨ failure.code = .timeout then
      some ⟨[p], attempt.1, .error failure⟩
    else if p.addresses = [] ∨ p.next = [] then some ⟨[p], attempt.1, .error failure⟩
    else (again attempt.1 p.addresses p.next).map fun w => { w with attempts := p :: w.attempts }

/-- The loop of `Connection::connect`, with at most `fuel` iterations. -/
def connectLoop (host : String) (resolution : Resolution) (deadline : ℕ) :
    ℕ → ℕ → List ResolvedAddress → List ResolvedAddress → Option Walk
  | 0, _, _, _ => none
  | fuel + 1, now, addresses, candidate =>
    let remaining := deadline - now
    if remaining = 0 then some ⟨[], now, .error connectTimeout⟩
    else
      continueConnect (connectLoop host resolution deadline fuel)
        (connectAwaiter resolution now (now + max remaining 1) { host, addresses, candidate })

/-- `ceil<milliseconds>(deadline - steady_clock::now())` at the start: the milliseconds that all
attempts have together.  A timeout below one counts as one.  `deadline` is a `std::int64_t` of
nanoseconds, which wraps around as it is compiled; the time since the clock's epoch, which is added
and subtracted again, does not matter to it. -/
def connectBudget (timeout : ℤ) : ℤ :=
  ((max timeout 1 * 1000000).bmod (2 ^ 64) + 999999) / 1000000

/-- `Connection::connect`, started at time 0.  The budget is what the timeout comes to in the
arithmetic of the clock. -/
def connect (host : String) (resolution : Resolution) (timeout : ℤ) : Option Walk :=
  connectLoop host resolution (connectBudget timeout).toNat (resolution.addresses.length + 1) 0
    [] []

/-! ### The time of all attempts -/

/-- A timeout whose nanoseconds fit is what the attempts have. -/
lemma connectBudget_of_fits {timeout : ℤ} (h : max timeout 1 * 1000000 < 2 ^ 63) :
    connectBudget timeout = max timeout 1 := by
  have hwrap : (max timeout 1 * 1000000).bmod (2 ^ 64) = max timeout 1 * 1000000 :=
    Int.bmod_eq_of_le (by omega) (by omega)
  rw [connectBudget, hwrap]
  omega

/-- The longest timeout leaves no time at all. -/
example : connectBudget (2 ^ 63 - 1) = -1 := by decide +kernel

/-- The attempts never have more than the timeout. -/
lemma connectBudget_le (timeout : ℤ) : connectBudget timeout ≤ max timeout 1 := by
  by_cases h : max timeout 1 * 1000000 < 2 ^ 63
  · exact (connectBudget_of_fits h).le
  · -- a wrapped number is below all numbers that do not fit
    have hwrap : (max timeout 1 * 1000000).bmod (2 ^ 64) < (2 ^ 64 + 1) / 2 :=
      Int.bmod_lt (by decide)
    unfold connectBudget
    omega

/-! ### What an attempt can do -/

namespace AddressOutcome

/-- The time after which an attempt fails. -/
def failureDelay : AddressOutcome → Option ℕ
  | fails delay _ => some delay
  | failsAtStart _ => some 0
  | _ => none

end AddressOutcome

namespace ResolvedAddress

/-- The address accepts within a time. -/
def AcceptsWithin (bound : ℕ) (address : ResolvedAddress) : Prop :=
  ∃ delay ≤ bound, address.outcome = .accepts delay

end ResolvedAddress

namespace PendingConnect

/-- `finish_connect` completes, once. -/
@[simp] lemma completed_finishConnect (p : PendingConnect) (result : Result ResolvedAddress) :
    (p.finishConnect result).completed = true := by
  unfold finishConnect
  split_ifs with h
  · exact h
  · cases result <;> rfl

/-- A callback that comes after the end changes nothing. -/
lemma connectCallback_of_completed {p : PendingConnect} (h : p.completed = true)
    (status : Option String) : p.connectCallback status = p := if_pos h

/-- An attempt that ends without a connection. -/
lemma finishConnect_error {p : PendingConnect} (h : p.completed = false) (e : ErrorInfo) :
    p.finishConnect (.error e) =
      { p with completed := true, result := .error e, closed := true } := by
  rw [finishConnect, h, if_neg Bool.false_ne_true]

/-- An attempt whose time is over, with the callback that the cancelled request still gets. -/
lemma readTimeout_connectCallback {p : PendingConnect} (h : p.completed = false)
    (status : Option String) :
    p.readTimeout.connectCallback status =
      { p with completed := true, result := .error connectTimeout, closed := true } := by
  have hcompleted : p.readTimeout.completed = true := completed_finishConnect p _
  rw [connectCallback_of_completed hcompleted, readTimeout, finishConnect_error h]

/-- How an attempt on the address `address`, tried at `start`, can end. -/
inductive Ended (p : PendingConnect) (start due : ℕ) (address : ResolvedAddress) :
    ℕ × PendingConnect → Prop
  | accepted (delay : ℕ) (q : PendingConnect) (houtcome : address.outcome = .accepts delay)
      (hdue : start + delay < due) (hresult : q.result = .ok address) (hopen : q.isOpen = true)
      (hclosed : q.closed = p.closed) (hcandidate : q.candidate = p.candidate) :
      Ended p start due address (start + delay, q)
  | failed (delay : ℕ) (q : PendingConnect) (e : ErrorInfo)
      (houtcome : address.outcome.failureDelay = some delay) (hdue : start + delay < due)
      (hresult : q.result = .error e) (hcode : e.code = .connect) (hclosed : q.closed = true)
      (hcandidate : q.candidate = p.candidate) (haddresses : q.addresses = p.addresses)
      (hnext : q.next = p.candidate.tail) :
      Ended p start due address (start + delay, q)
  | timedOut (q : PendingConnect)
      (hlate : ∀ delay, address.outcome = .accepts delay ∨
        address.outcome.failureDelay = some delay → due ≤ start + delay)
      (hresult : q.result = .error connectTimeout) (hclosed : q.closed = true)
      (hcandidate : q.candidate = p.candidate) :
      Ended p start due address (due, q)

/-- What an attempt waits for, once `uv_tcp_connect` has started. -/
lemma ended_awaitConnect {p q : PendingConnect} {start due : ℕ} {address : ResolvedAddress}
    {rest : List ResolvedAddress} (hcompleted : q.completed = false)
    (hcandidate : p.candidate = address :: rest) (hq : q = { p with next := p.candidate.tail })
    (houtcome : ∀ reason, address.outcome ≠ .failsAtStart reason) :
    Ended p start due address (awaitConnect start due q) := by
  have hqcandidate : q.candidate = address :: rest := by rw [hq]; exact hcandidate
  have hhead : q.candidate.head?.map ResolvedAddress.outcome = some address.outcome := by
    rw [hqcandidate]
    rfl
  -- whatever comes when the time is up, the timer has already ended the call
  have hlate : (∀ delay, address.outcome = .accepts delay ∨
      address.outcome.failureDelay = some delay → due ≤ start + delay) →
      Ended p start due address
        (due, q.readTimeout.connectCallback (some "operation canceled")) := by
    intro hlate
    rw [readTimeout_connectCallback hcompleted, hq]
    exact .timedOut _ hlate rfl rfl rfl
  rw [awaitConnect, hcompleted, if_neg Bool.false_ne_true]
  cases hreason : address.outcome with
  | accepts delay =>
    simp only [hhead, hreason]
    by_cases hdue : start + delay < due
    · have haccepted : q.connectCallback none =
          { q with completed := true, result := .ok address, isOpen := true } := by
        simp only [connectCallback, hcompleted, hqcandidate, finishConnect]
        rfl
      rw [if_pos hdue, haccepted, hq]
      exact .accepted delay _ hreason hdue rfl rfl rfl rfl
    · rw [if_neg hdue]
      refine hlate fun d hd => ?_
      rw [hreason] at hd
      rcases hd with hd | hd <;> cases hd
      omega
  | fails delay reason =>
    simp only [hhead, hreason]
    by_cases hdue : start + delay < due
    · have hfailed : q.connectCallback (some reason) =
          q.finishConnect (.error (connectError ("Unable to connect to " ++ q.host ++ " (" ++
            q.describeAddress ++ "): " ++ reason))) := by
        rw [connectCallback, hcompleted, if_neg Bool.false_ne_true]
      rw [if_pos hdue, hfailed, finishConnect_error hcompleted, hq]
      exact .failed delay _ _ (by rw [hreason]; rfl) hdue rfl rfl rfl rfl rfl rfl
    · rw [if_neg hdue]
      refine hlate fun d hd => ?_
      rw [hreason] at hd
      rcases hd with hd | hd <;> cases hd
      omega
  | failsAtStart reason => exact absurd hreason (houtcome reason)
  | silent =>
    simp only [hhead, hreason]
    refine hlate fun d hd => ?_
    rw [hreason] at hd
    rcases hd with hd | hd <;> cases hd

/-- An attempt on a candidate ends in one of these ways. -/
lemma ended_startTcpConnect {p : PendingConnect} {start due : ℕ} {address : ResolvedAddress}
    {rest : List ResolvedAddress} (hcompleted : p.completed = false)
    (hcandidate : p.candidate = address :: rest) (hstart : start < due) :
    Ended p start due address (awaitConnect start due p.startTcpConnect) := by
  have hhead : p.candidate.head?.map ResolvedAddress.outcome = some address.outcome := by
    rw [hcandidate]
    rfl
  have hwaits : (∀ reason, address.outcome ≠ .failsAtStart reason) →
      Ended p start due address (awaitConnect start due p.startTcpConnect) := by
    intro hne
    have hstarted : p.startTcpConnect = { p with next := p.candidate.tail } := by
      simp only [startTcpConnect, hhead]
      split
      · next reason h => exact absurd (Option.some.inj h) (hne reason)
      · rfl
    refine ended_awaitConnect ?_ hcandidate hstarted hne
    rw [hstarted]
    exact hcompleted
  cases houtcome : address.outcome with
  | failsAtStart reason =>
    set q : PendingConnect := { p with next := p.candidate.tail } with hq
    have hfailed : p.startTcpConnect = { q with
        completed := true
        result := .error (connectError ("Unable to start connection to " ++ q.host ++ " (" ++
          q.describeAddress ++ "): " ++ reason))
        closed := true } := by
      simp only [startTcpConnect, hhead, houtcome]
      exact finishConnect_error (p := q) hcompleted _
    rw [hfailed, awaitConnect, if_pos rfl]
    exact .failed 0 _ _ (by rw [houtcome]; rfl) hstart rfl rfl rfl rfl rfl rfl
  | accepts delay => exact hwaits (by simp [houtcome])
  | fails delay reason => exact hwaits (by simp [houtcome])
  | silent => exact hwaits (by simp [houtcome])

end PendingConnect

/-! ### What a run can do -/

/-- The addresses that were tried. -/
def Walk.tried (w : Walk) : List ResolvedAddress := w.attempts.filterMap (·.candidate.head?)

/-- An attempt started at `start` is followed by failures, in time, until an address accepts. -/
def Reaches (deadline : ℕ) : ℕ → List ResolvedAddress → Prop
  | _, [] => False
  | start, address :: rest =>
    (∃ delay, address.outcome = .accepts delay ∧ start + delay < deadline) ∨
      ∃ delay, address.outcome.failureDelay = some delay ∧ start + delay < deadline ∧
        Reaches deadline (start + delay) rest

/-- A run over `addresses` whose first attempt starts at `start`.  Addresses are tried in their
order, each failed connection is closed, the deadline is kept, and success comes exactly if it is
reached in time. -/
structure WalkSpec (deadline start : ℕ) (addresses : List ResolvedAddress) (w : Walk) : Prop where
  order : w.tried <+: addresses
  closed : ∀ p ∈ w.attempts, ∀ e, p.result = .error e → p.closed = true
  opened : ∀ p ∈ w.attempts, ∀ address, p.result = .ok address → p.isOpen = true ∧ p.closed = false
  returned : w.returned ≤ deadline
  connected : ∀ address, w.result = .ok address →
    address ∈ addresses ∧ ∃ delay, address.outcome = .accepts delay
  reaches : (∃ address, w.result = .ok address) ↔ Reaches deadline start addresses

/-- An address that fails in time passes on to the addresses behind it. -/
lemma reaches_cons_of_failed {deadline start delay : ℕ} {address : ResolvedAddress}
    {rest : List ResolvedAddress} (houtcome : address.outcome.failureDelay = some delay)
    (hdue : start + delay < deadline) :
    Reaches deadline start (address :: rest) ↔ Reaches deadline (start + delay) rest := by
  constructor
  · rintro (⟨d, hd, -⟩ | ⟨d, hd, -, hreach⟩)
    · rw [hd] at houtcome
      cases houtcome
    · rw [houtcome] at hd
      cases hd
      exact hreach
  · exact fun hreach => Or.inr ⟨delay, houtcome, hdue, hreach⟩

/-- An address that says nothing in time ends the run. -/
lemma not_reaches_of_late {deadline start : ℕ} {address : ResolvedAddress}
    {rest : List ResolvedAddress}
    (hlate : ∀ delay, address.outcome = .accepts delay ∨
      address.outcome.failureDelay = some delay → deadline ≤ start + delay) :
    ¬ Reaches deadline start (address :: rest) := by
  rintro (⟨d, hd, hlt⟩ | ⟨d, hd, hlt, -⟩)
  · have := hlate d (Or.inl hd)
    omega
  · have := hlate d (Or.inr hd)
    omega

namespace WalkSpec

variable {deadline start : ℕ} {address : ResolvedAddress} {rest : List ResolvedAddress}
  {q : PendingConnect}

/-- A run that ends with an address that accepted. -/
lemma accepted {delay : ℕ} (hhead : q.candidate.head? = some address)
    (hresult : q.result = .ok address) (hopen : q.isOpen = true) (hclosed : q.closed = false)
    (houtcome : address.outcome = .accepts delay) (hdue : start + delay < deadline) :
    WalkSpec deadline start (address :: rest) ⟨[q], start + delay, .ok address⟩ where
  order := by simp [Walk.tried, hhead]
  closed := by simp [hresult]
  opened := by simp [hresult, hopen, hclosed]
  returned := hdue.le
  connected := by
    intro a ha
    cases ha
    exact ⟨List.mem_cons_self, delay, houtcome⟩
  reaches := ⟨fun _ => Or.inl ⟨delay, houtcome, hdue⟩, fun _ => ⟨address, rfl⟩⟩

/-- A run that ends with an attempt that failed. -/
lemma ended {returned : ℕ} {e : ErrorInfo} (hhead : q.candidate.head? = some address)
    (hresult : q.result = .error e) (hclosed : q.closed = true) (hreturned : returned ≤ deadline)
    (hreach : ¬ Reaches deadline start (address :: rest)) :
    WalkSpec deadline start (address :: rest) ⟨[q], returned, .error e⟩ where
  order := by simp [Walk.tried, hhead]
  closed := by simp [hclosed]
  opened := by simp [hresult]
  returned := hreturned
  connected := by
    intro a ha
    cases ha
  reaches := by
    refine ⟨?_, fun h => absurd h hreach⟩
    rintro ⟨a, ha⟩
    cases ha

/-- A run that goes on behind an attempt that failed. -/
lemma cons {delay : ℕ} {e : ErrorInfo} {w : Walk} (h : WalkSpec deadline (start + delay) rest w)
    (hhead : q.candidate.head? = some address) (hresult : q.result = .error e)
    (hclosed : q.closed = true) (houtcome : address.outcome.failureDelay = some delay)
    (hdue : start + delay < deadline) :
    WalkSpec deadline start (address :: rest) { w with attempts := q :: w.attempts } where
  order := by
    simp only [Walk.tried, List.filterMap_cons, hhead]
    exact List.cons_prefix_cons.mpr ⟨rfl, h.order⟩
  closed := by
    intro q' hq'
    rcases List.mem_cons.mp hq' with rfl | hq'
    · exact fun _ _ => hclosed
    · exact h.closed q' hq'
  opened := by
    intro q' hq'
    rcases List.mem_cons.mp hq' with rfl | hq'
    · intro b hb
      rw [hresult] at hb
      cases hb
    · exact h.opened q' hq'
  returned := h.returned
  connected := by
    intro b hb
    obtain ⟨hmem, hacc⟩ := h.connected b hb
    exact ⟨List.mem_cons_of_mem _ hmem, hacc⟩
  reaches := h.reaches.trans (reaches_cons_of_failed houtcome hdue).symm

end WalkSpec

open PendingConnect in
/-- An attempt, and what the loop makes of it. -/
lemma walkSpec_continueConnect {again : ℕ → List ResolvedAddress → List ResolvedAddress → Option Walk}
    {deadline start : ℕ} {p : PendingConnect} {address : ResolvedAddress}
    {rest : List ResolvedAddress} {attempt : ℕ × PendingConnect}
    (hagain : ∀ now < deadline, ∀ a rest', rest = a :: rest' →
      ∃ w, again now p.addresses rest = some w ∧ WalkSpec deadline now rest w)
    (hcandidate : p.candidate = address :: rest) (haddresses : p.addresses ≠ [])
    (hclosed : p.closed = false) (h : Ended p start deadline address attempt) :
    ∃ w, continueConnect again attempt = some w ∧ WalkSpec deadline start (address :: rest) w := by
  have hhead : ∀ q : PendingConnect, q.candidate = p.candidate →
      q.candidate.head? = some address := by
    intro q hq
    rw [hq, hcandidate]
    rfl
  cases h with
  | accepted delay q houtcome hdue hresult hopen hqclosed hqcandidate =>
    exact ⟨_, by simp [continueConnect, hresult], .accepted (hhead q hqcandidate) hresult hopen
      (hqclosed.trans hclosed) houtcome hdue⟩
  | failed delay q e houtcome hdue hresult hcode hqclosed hqcandidate hqaddresses hqnext =>
    have hnext : q.next = rest := by
      rw [hqnext, hcandidate]
      rfl
    cases rest with
    | nil =>
      -- nothing is left to try
      refine ⟨⟨[q], start + delay, .error e⟩, by simp [continueConnect, hresult, hcode, hnext], ?_⟩
      refine .ended (hhead q hqcandidate) hresult hqclosed hdue.le ?_
      rw [reaches_cons_of_failed houtcome hdue]
      exact id
    | cons a rest' =>
      obtain ⟨w, hw, hspec⟩ := hagain (start + delay) hdue a rest' rfl
      exact ⟨_, by simp [continueConnect, hresult, hcode, hnext, hqaddresses, haddresses, hw],
        hspec.cons (hhead q hqcandidate) hresult hqclosed houtcome hdue⟩
  | timedOut q hlate hresult hqclosed hqcandidate =>
    exact ⟨⟨[q], deadline, .error connectTimeout⟩,
      by simp [continueConnect, hresult, connectTimeout],
      .ended (hhead q hqcandidate) hresult hqclosed le_rfl (not_reaches_of_late hlate)⟩

/-- The loop over the candidates that are left. -/
lemma walkSpec_connectLoop {host : String} {resolution : Resolution} {deadline : ℕ}
    {addresses : List ResolvedAddress} (haddresses : addresses ≠ [])
    {candidate : List ResolvedAddress} {fuel now : ℕ} (hfuel : candidate.length ≤ fuel)
    (hcandidate : candidate ≠ []) (hnow : now < deadline) :
    ∃ w, connectLoop host resolution deadline fuel now addresses candidate = some w ∧
      WalkSpec deadline now candidate w := by
  induction candidate generalizing fuel now with
  | nil => exact absurd rfl hcandidate
  | cons address rest ih =>
    cases fuel with
    | zero => simp at hfuel
    | succ fuel =>
      have hdue : now + max (deadline - now) 1 = deadline := by omega
      rw [connectLoop, if_neg (by omega), hdue]
      unfold connectAwaiter
      rw [if_pos (by simp)]
      refine walkSpec_continueConnect ?_ rfl haddresses rfl
        (PendingConnect.ended_startTcpConnect rfl rfl hnow)
      rintro now' hnow' a rest' rfl
      exact ih (by simpa using hfuel) (by simp) hnow'

/-- A run without any time. -/
lemma walkSpec_zero (delay : ℕ) (addresses : List ResolvedAddress) :
    WalkSpec 0 delay addresses ⟨[], 0, .error connectTimeout⟩ where
  order := List.nil_prefix
  closed := by simp
  opened := by simp
  returned := le_rfl
  connected := by
    intro address h
    cases h
  reaches := by
    constructor
    · rintro ⟨address, h⟩
      cases h
    · intro h
      cases addresses with
      | nil => exact h.elim
      | cons address rest => rcases h with ⟨d, -, hlt⟩ | ⟨d, -, hlt, -⟩ <;> omega

/-- A whole run, on a host name that resolves.  The budget is what `connectBudget` leaves of the
timeout in nanoseconds that wrap around. -/
lemma walkSpec_connect (host : String) (timeout : ℤ) (delay : ℕ) {addresses : List ResolvedAddress}
    (haddresses : addresses ≠ []) :
    ∃ w, connect host (.resolved delay addresses) timeout = some w ∧
      WalkSpec (connectBudget timeout).toNat delay addresses w := by
  obtain ⟨address, rest, rfl⟩ := List.exists_cons_of_ne_nil haddresses
  rw [connect, Resolution.addresses]
  generalize (connectBudget timeout).toNat = deadline
  rcases Nat.eq_zero_or_pos deadline with rfl | hpos
  · exact ⟨_, rfl, walkSpec_zero delay _⟩
  have hdue : 0 + max (deadline - 0) 1 = deadline := by omega
  rw [connectLoop, if_neg (by omega), hdue]
  unfold connectAwaiter
  rw [if_neg (by simp)]
  simp only [Nat.zero_add]
  by_cases hdelay : delay < deadline
  · have hresolved : PendingConnect.resolveCallback { host, addresses := [], candidate := [] }
        (.ok (address :: rest)) = PendingConnect.startTcpConnect
          { host, addresses := address :: rest, candidate := address :: rest, resolving := false } := by
      rfl
    rw [if_pos hdelay, hresolved]
    refine walkSpec_continueConnect ?_ rfl haddresses rfl
      (PendingConnect.ended_startTcpConnect rfl rfl hdelay)
    rintro now hnow a rest' rfl
    exact walkSpec_connectLoop haddresses (by simp) (by simp) hnow
  · rw [if_neg hdelay]
    refine ⟨⟨[_], deadline, .error connectTimeout⟩, rfl, ?_⟩
    refine ⟨List.nil_prefix, ?_, ?_, le_rfl, ?_, ?_⟩
    · simp [PendingConnect.resolveCallback, PendingConnect.readTimeout]
    · simp [PendingConnect.resolveCallback, PendingConnect.readTimeout,
        PendingConnect.finishConnect]
    · intro a ha
      cases ha
    · constructor
      · rintro ⟨a, ha⟩
        cases ha
      · rintro (⟨d, -, hlt⟩ | ⟨d, -, hlt, -⟩) <;> omega

/-! ### When a later address is reached -/

/-- The addresses before an accepting one all fail, and resolving, the failures and the acceptance
take less than the deadline together. -/
def AcceptsInTime (deadline start : ℕ) (addresses : List ResolvedAddress) : Prop :=
  ∃ before address after delay, addresses = before ++ address :: after ∧
    (∀ b ∈ before, b.outcome.failureDelay.isSome = true) ∧
    address.outcome = .accepts delay ∧
    start + (before.map fun b => b.outcome.failureDelay.getD 0).sum + delay < deadline

/-- The walk reaches an accepting address exactly when one accepts in time. -/
lemma reaches_iff {deadline start : ℕ} {addresses : List ResolvedAddress} :
    Reaches deadline start addresses ↔ AcceptsInTime deadline start addresses := by
  induction addresses generalizing start with
  | nil => simp [Reaches, AcceptsInTime]
  | cons address rest ih =>
    rw [Reaches]
    constructor
    · rintro (⟨delay, hdelay, hlt⟩ | ⟨delay, hdelay, -, hreach⟩)
      · exact ⟨[], address, rest, delay, rfl, by simp, hdelay, by simpa using hlt⟩
      · obtain ⟨before, a, after, d, rfl, hbefore, ha, hlt⟩ := ih.mp hreach
        refine ⟨address :: before, a, after, d, rfl, ?_, ha, ?_⟩
        · exact List.forall_mem_cons.mpr ⟨by simp [hdelay], hbefore⟩
        · rw [List.map_cons, List.sum_cons, hdelay, Option.getD_some]
          omega
    · rintro ⟨before, a, after, d, heq, hbefore, ha, hlt⟩
      cases before with
      | nil =>
        cases heq
        exact Or.inl ⟨d, ha, by simpa using hlt⟩
      | cons b before =>
        rw [List.cons_append, List.cons.injEq] at heq
        obtain ⟨rfl, rfl⟩ := heq
        obtain ⟨hfirst, hrest⟩ := List.forall_mem_cons.mp hbefore
        obtain ⟨delay, hdelay⟩ := Option.isSome_iff_exists.mp hfirst
        rw [List.map_cons, List.sum_cons, hdelay, Option.getD_some] at hlt
        exact Or.inr ⟨delay, hdelay, by omega,
          ih.mpr ⟨before, a, after, d, rfl, hrest, ha, by omega⟩⟩

/-- Every address gets its chance: the addresses are tried in order, failed attempts are closed, the
run returns within the timeout, where less than a millisecond counts as one, and it returns a
connection when some address would accept within `bound`. -/
structure Fallback (bound : ℕ) (timeout : ℤ) (addresses : List ResolvedAddress) (w : Walk) :
    Prop where
  order : w.tried <+: addresses
  closed : ∀ p ∈ w.attempts, ∀ e, p.result = .error e → p.closed = true
  returned : (w.returned : ℤ) ≤ max timeout 1
  connects : (∃ address ∈ addresses, address.AcceptsWithin bound) →
    ∃ address ∈ addresses, (∃ delay, address.outcome = .accepts delay) ∧ w.result = .ok address

/-- Every address gets its chance exactly when none would accept promptly, or one accepts in the
time that the attempts have although those before it are tried first.  That time is the timeout, as
long as its nanoseconds fit in 64 bits (`connectBudget_of_fits`). -/
theorem connect_fallback_iff (host : String) (timeout : ℤ) (bound delay : ℕ)
    {addresses : List ResolvedAddress} (haddresses : addresses ≠ []) :
    ∃ w, connect host (.resolved delay addresses) timeout = some w ∧
      (Fallback bound timeout addresses w ↔
        (∀ address ∈ addresses, ¬ address.AcceptsWithin bound) ∨
          AcceptsInTime (connectBudget timeout).toNat delay addresses) := by
  obtain ⟨w, hw, hspec⟩ := walkSpec_connect host timeout delay haddresses
  refine ⟨w, hw, ?_⟩
  rw [← reaches_iff, ← hspec.reaches]
  constructor
  · intro h
    by_cases hprompt : ∃ address ∈ addresses, address.AcceptsWithin bound
    · obtain ⟨address, -, -, hresult⟩ := h.connects hprompt
      exact Or.inr ⟨address, hresult⟩
    · left
      intro address hmem haccepts
      exact hprompt ⟨address, hmem, haccepts⟩
  · intro h
    refine ⟨hspec.order, hspec.closed, ?_, ?_⟩
    · have hreturned := hspec.returned
      have hbudget := connectBudget_le timeout
      omega
    · rintro ⟨address, hmem, haccepts⟩
      rcases h with h | ⟨a, ha⟩
      · exact absurd haccepts (h address hmem)
      · obtain ⟨hamem, haccepted⟩ := hspec.connected a ha
        exact ⟨a, hamem, haccepted, ha⟩

/-- A refused connection is followed by one to the next address. -/
theorem connect_fallback_of_refused :
    ∃ w, connect "localhost"
        (.resolved 2 [⟨"::1", .fails 1 "connection refused"⟩, ⟨"127.0.0.1", .accepts 1⟩]) 1000 =
          some w ∧
      Fallback 5 1000 [⟨"::1", .fails 1 "connection refused"⟩, ⟨"127.0.0.1", .accepts 1⟩] w := by
  have hne : [(⟨"::1", .fails 1 "connection refused"⟩ : ResolvedAddress),
      ⟨"127.0.0.1", .accepts 1⟩] ≠ [] := by simp
  obtain ⟨w, hw, hiff⟩ := connect_fallback_iff "localhost" 1000 5 2 hne
  refine ⟨w, hw, hiff.mpr (Or.inr ?_)⟩
  exact ⟨[⟨"::1", .fails 1 "connection refused"⟩], ⟨"127.0.0.1", .accepts 1⟩, [], 1, rfl, by
    simp [AddressOutcome.failureDelay], rfl, by decide⟩

/-- A silent address uses up the whole timeout, and the next one, which would accept at once, is not
tried. -/
theorem not_connect_fallback :
    ¬ ∀ (host : String) (timeout : ℤ) (delay : ℕ) (addresses : List ResolvedAddress),
      addresses ≠ [] → ∃ w, connect host (.resolved delay addresses) timeout = some w ∧
        Fallback 0 timeout addresses w := by
  intro h
  obtain ⟨w, hw, hfallback⟩ := h "localhost" 10000 0
    [⟨"2001:db8::1", .silent⟩, ⟨"127.0.0.1", .accepts 0⟩] (by simp)
  obtain ⟨address, -, -, hresult⟩ :=
    hfallback.connects ⟨⟨"127.0.0.1", .accepts 0⟩, by simp, 0, le_rfl, rfl⟩
  have htimeout : (connect "localhost"
      (.resolved 0 [⟨"2001:db8::1", .silent⟩, ⟨"127.0.0.1", .accepts 0⟩]) 10000).map
        (fun w => w.result.toOption.isSome) = some false := rfl
  rw [hw, Option.map_some, hresult] at htimeout
  cases htimeout

end Chhttp.Transport
