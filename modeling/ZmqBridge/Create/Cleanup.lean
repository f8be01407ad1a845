import ZmqBridge.Model.Create

/-!
# ZmqBridge — what a failed creation leaves behind

`zmqBridgeMamaTransport_create` returns at the first call that fails and closes
nothing. A `Plan` is the calls a function makes when all of them succeed and what
it opens and starts on the way; each function of the model is shown to follow its
plan, so a creation gets through exactly when every call of its plan succeeds.

* `init_follows`, `start_follows` — the plans of the two halves of a creation;
* `create_cleans_up_iff` — a creation that fails leaves nothing open or running if
  and only if it fails before there is a context;
* `timeout_keeps_running` — what is left when the naming service is not there.
-/

namespace ZmqBridge

open Lib

-- ---------------------------------------------------------------------------
-- Plans
-- ---------------------------------------------------------------------------

/-- What is opened in addition. -/
def Creation.add (c d : Creation) : Creation :=
  ⟨c.context || d.context, c.sockets ++ d.sockets, c.threads ++ d.threads,
    c.endpoints ++ d.endpoints⟩

theorem Creation.add_empty (c : Creation) : c.add .empty = c := by
  simp [Creation.add, Creation.empty]

theorem Creation.add_assoc (c d e : Creation) : (c.add d).add e = c.add (d.add e) := by
  simp [Creation.add, Bool.or_assoc]

/-- The calls a function makes, and what it opens. -/
structure Plan where
  calls : List LibCall
  opens : Creation

def Plan.skip : Plan := ⟨[], .empty⟩

/-- One after another. -/
def Plan.seq (p q : Plan) : Plan := ⟨p.calls ++ q.calls, p.opens.add q.opens⟩

def Plan.call (c : LibCall) : Plan := ⟨[c], .empty⟩

def Plan.open (d : Creation) : Plan := ⟨[], d⟩

def Plan.when (c : Prop) [Decidable c] (p : Plan) : Plan := if c then p else .skip

def Plan.all : List Plan → Plan := List.foldr Plan.seq .skip

theorem Plan.seq_skip (p : Plan) : p.seq .skip = p := by
  simp [Plan.seq, Plan.skip, Creation.add_empty]

theorem Plan.when_skip (c : Prop) [Decidable c] : Plan.when c .skip = .skip := by
  rw [Plan.when, ite_self]

/-- Every call of the plan succeeds. -/
def Plan.Succeeds (p : Plan) (calls : LibCall → Bool) : Prop := ∀ c ∈ p.calls, calls c = true

/-- There is a context. -/
def Creation.HasContext (c : Creation) : Prop := c.context = true

/-- **A function follows its plan**, and gets through if every call of the plan succeeds
and `E` holds as well. -/
def Follows (calls : LibCall → Bool) (p : Plan) (E : Prop) (m : CreateM) : Prop :=
  Attempts Creation.HasContext (p.Succeeds calls ∧ E) (fun c => c.add p.opens) m

section Rules

variable {calls : LibCall → Bool} {p q : Plan} {E F : Prop} {m n : CreateM}

theorem Creation.HasContext.add {c : Creation} (h : c.HasContext) (d : Creation) :
    (c.add d).HasContext := by
  show (c.context || d.context) = true
  rw [show c.context = true from h]
  rfl

theorem Follows.congr (h : Follows calls p E m) (hE : E ↔ F) : Follows calls p F m :=
  Attempts.congr h (and_congr_right fun _ => hE)

theorem Follows.seq (hm : Follows calls p E m) (hn : Follows calls q F n) :
    Follows calls (p.seq q) (E ∧ F) (m >>= fun _ => n) := by
  refine (Attempts.seq hm hn).cast ?_ (fun c => Creation.add_assoc c p.opens q.opens)
  rw [Plan.Succeeds, Plan.Succeeds, Plan.Succeeds, Plan.seq, List.forall_mem_append]
  tauto

theorem Follows.skip : Follows calls .skip True (pure ()) :=
  Attempts.cast attempts_pure (by simp [Plan.Succeeds, Plan.skip])
    (fun c => (Creation.add_empty c).symm)

theorem follows_call (c : LibCall) (error : MamaStatus) :
    Follows calls (.call c) True (Attempt.check (calls c) error) :=
  Attempts.cast (attempts_check _ error) (by simp [Plan.Succeeds, Plan.call])
    (fun c => (Creation.add_empty c).symm)

theorem follows_check (ok : Bool) (error : MamaStatus) :
    Follows calls .skip (ok = true) (Attempt.check ok error) :=
  Attempts.cast (attempts_check _ error) (by simp [Plan.Succeeds, Plan.skip])
    (fun c => (Creation.add_empty c).symm)

theorem follows_demand (ok : Bool) (fault : Fault) :
    Follows calls .skip (ok = true) (Attempt.demand ok fault) :=
  Attempts.cast (attempts_demand _ fault) (by simp [Plan.Succeeds, Plan.skip])
    (fun c => (Creation.add_empty c).symm)

theorem follows_open {f : Creation → Creation} {d : Creation} (hf : ∀ c, f c = c.add d) :
    Follows calls (.open d) True (modify f) := by
  refine Attempts.cast (attempts_modify ?_) (by simp [Plan.Succeeds, Plan.open]) hf
  intro c hc
  rw [hf c]
  exact hc.add d

theorem Follows.whenever (c : Prop) [Decidable c] (h : Follows calls p E m) :
    Follows calls (.when c p) (c → E) (Attempt.whenever c m) := by
  by_cases hc : c
  · rw [Attempt.whenever, Plan.when, if_pos hc, if_pos hc]
    exact h.congr ⟨fun hE _ => hE, fun hE => hE hc⟩
  · rw [Attempt.whenever, Plan.when, if_neg hc, if_neg hc]
    exact Follows.skip.congr ⟨fun _ h => absurd h hc, fun _ => trivial⟩

theorem Follows.each {α : Type} {body : Nat → α → CreateM} {plan : Nat → α → Plan}
    {R : α → Prop} (h : ∀ i a, Follows calls (plan i a) (R a) (body i a)) (as : List α)
    (i : Nat) :
    Follows calls (.all ((as.zipIdx i).map fun p => plan p.2 p.1)) (∀ a ∈ as, R a)
      (Attempt.each body as i) := by
  induction as generalizing i with
  | nil => exact Follows.skip.congr (by simp)
  | cons a rest ih =>
    rw [Attempt.each]
    exact ((h i a).seq (ih (i + 1))).congr List.forall_mem_cons.symm

end Rules

-- ---------------------------------------------------------------------------
-- The plans of the functions
-- ---------------------------------------------------------------------------

section Functions

variable {calls : LibCall → Bool} {params : TransportParams}

def socketPlan (s : SocketName) (monitor : Int) : Plan :=
  (Plan.call (.socket s)).seq <| (Plan.open ⟨false, [s], [], []⟩).seq <|
    (Plan.call (.setIdentity s)).seq <|
    (Plan.when (monitor ≠ 0) (.call (.monitorSocket s))).seq <| .call (.setLinger s)

theorem createSocket_follows (s : SocketName) (monitor : Int) :
    Follows calls (socketPlan s monitor) True (TransportImpl.createSocket calls s monitor) := by
  refine ((follows_call _ _).seq <| (follows_open ?_).seq <| (follows_call _ _).seq <|
    ((follows_call _ _).whenever _).seq <| follows_call _ _).congr (by tauto)
  intro c
  simp [Creation.add]

def connectPlan (s : SocketName) (i : Nat) (uri : List Byte) : Plan :=
  (Plan.call (.setHeartbeat s i)).seq <| (Plan.call (.setReconnect s i)).seq <|
    (Plan.call (.connect s i)).seq <| .open ⟨false, [], [], [⟨s, false, uri⟩]⟩

theorem connectNewSocket_follows (s : SocketName) (i : Nat) (uri : List Byte) :
    Follows calls (connectPlan s i uri) True (TransportImpl.connectNewSocket calls s i uri) := by
  refine ((follows_call _ _).seq <| (follows_call _ _).seq <| (follows_call _ _).seq <|
    follows_open ?_).congr (by tauto)
  intro c
  simp [Creation.add]

def bindPlan (s : SocketName) (i : Nat) (uri : List Byte) (endpointName : Bool) : Plan :=
  (Plan.call (.bind s i)).seq <| (Plan.open ⟨false, [], [], [⟨s, true, uri⟩]⟩).seq <|
    .when (endpointName = true) (.call (.lastEndpoint s))

theorem bindSocket_follows (s : SocketName) (i : Nat) (uri : List Byte) (endpointName : Bool) :
    Follows calls (bindPlan s i uri endpointName) True
      (TransportImpl.bindSocket calls s i uri endpointName) := by
  refine ((follows_call _ _).seq <| (follows_open ?_).seq <|
    (follows_call _ _).whenever _).congr (by tauto)
  intro c
  simp [Creation.add]

def optionsPlan (s : SocketName) : Plan :=
  ⟨[.setRcvHwm s, .setSndHwm s, .setBacklog s], .empty⟩

theorem setCommonSocketOptions_follows (s : SocketName) :
    Follows calls (optionsPlan s) True (TransportImpl.setCommonSocketOptions calls s) := by
  refine Attempts.cast (attempts_check _ _) ?_ (fun c => (Creation.add_empty c).symm)
  simp [Plan.Succeeds, optionsPlan, and_assoc]

theorem subscribeSocket_follows (s : SocketName) (topic : Bool) :
    Follows calls (.call (.subscribe s)) (topic = true)
      (TransportImpl.subscribeSocket calls s topic) := by
  have hDemand : Follows calls .skip (topic = true) (Attempt.demand topic .badPointer) :=
    follows_demand topic .badPointer
  refine Attempts.cast (hDemand.seq (follows_call (.subscribe s) .platform)) ?_ ?_
  · simp [Plan.Succeeds, Plan.seq, Plan.skip, Plan.call, and_comm]
  · intro c
    simp [Plan.seq, Plan.skip, Plan.call, Creation.add, Creation.empty]

def bindOrConnectPlan (s : SocketName) (direction : ZmqTransportDirection) (i : Nat)
    (uri : List Byte) : Plan :=
  match transportType uri with
  | none => .skip
  | some type =>
    if isBinding direction type uri then bindPlan s i uri false else connectPlan s i uri

theorem bindOrConnect_follows (s : SocketName) (direction : ZmqTransportDirection) (i : Nat)
    (uri : List Byte) :
    Follows calls (bindOrConnectPlan s direction i uri) (transportType uri ≠ none)
      (TransportImpl.bindOrConnect calls s direction i uri) := by
  rw [bindOrConnectPlan, TransportImpl.bindOrConnect]
  cases transportType uri with
  | none => exact (follows_check false .invalidArg).congr (by simp)
  | some type =>
    by_cases hBind : isBinding direction type uri = true
    · simp only [hBind, if_true]
      exact (bindSocket_follows s i uri false).congr (by simp)
    · simp only [hBind]
      exact (connectNewSocket_follows s i uri).congr (by simp)

def threadPlan (t : TransportThread) : Plan :=
  (Plan.call (.createThread t)).seq <| .open ⟨false, [], [t], []⟩

theorem createThread_follows (t : TransportThread) :
    Follows calls (threadPlan t) True (TransportImpl.createThread calls t) := by
  refine ((follows_call _ _).seq <| follows_open ?_).congr (by tauto)
  intro c
  simp [Creation.add]

def monitorPlan : Plan :=
  (socketPlan .monitorSub 0).seq <| (bindPlan .monitorSub 0 zmqMonitorEndpoint false).seq <|
    (socketPlan .monitorPub 0).seq <| (connectPlan .monitorPub 0 zmqMonitorEndpoint).seq <|
    threadPlan .monitor

theorem startMonitor_follows :
    Follows calls monitorPlan True (TransportImpl.startMonitor calls) :=
  ((createSocket_follows _ _).seq <| (bindSocket_follows _ _ _ _).seq <|
    (createSocket_follows _ _).seq <| (connectNewSocket_follows _ _ _).seq <|
    createThread_follows _).congr (by tauto)

def commonPlan (params : TransportParams) : Plan :=
  (socketPlan .controlSub 0).seq <| (bindPlan .controlSub 0 zmqControlEndpoint false).seq <|
    (socketPlan .controlPub 0).seq <| (connectPlan .controlPub 0 zmqControlEndpoint).seq <|
    (socketPlan .dataPub params.mSocketMonitor).seq <|
    (socketPlan .dataSub params.mSocketMonitor).seq <|
    (optionsPlan .dataPub).seq <| (optionsPlan .dataSub).seq <| .call (.subscribe .dataSub)

theorem initCommon_follows (inboxSubject : Bool) :
    Follows calls (commonPlan params) (inboxSubject = true)
      (TransportImpl.initCommon calls params inboxSubject) :=
  ((createSocket_follows _ _).seq <| (bindSocket_follows _ _ _ _).seq <|
    (createSocket_follows _ _).seq <| (connectNewSocket_follows _ _ _).seq <|
    (createSocket_follows _ _).seq <| (createSocket_follows _ _).seq <|
    (setCommonSocketOptions_follows _).seq <| (setCommonSocketOptions_follows _).seq <|
    subscribeSocket_follows _ _).congr (by tauto)

def namingPlan (params : TransportParams) : Plan :=
  (Plan.call (.reconnectStop .dataSub)).seq <|
    (socketPlan .namingPub params.mSocketMonitor).seq <|
    (Plan.call (.reconnectStop .namingPub)).seq <|
    (socketPlan .namingSub params.mSocketMonitor).seq <| .call (.subscribe .namingSub)

theorem initNaming_follows :
    Follows calls (namingPlan params) True (TransportImpl.initNaming calls params) :=
  ((follows_call _ _).seq <| (createSocket_follows _ _).seq <| (follows_call _ _).seq <|
    (createSocket_follows _ _).seq <| subscribeSocket_follows _ _).congr (by tauto)

def connectNamingPlan (params : TransportParams) : Plan :=
  Plan.skip.seq <| (bindPlan .dataPub 0 (publishUri params.mPublishAddress) true).seq <|
    .all ((params.mNamingAddress.upToNull.zipIdx 0).map fun p => connectPlan .namingSub p.2 p.1)

/-- The address of the data publisher fits `endpointAddress`. -/
def TransportParams.PublishFits (params : TransportParams) : Prop :=
  (publishUri params.mPublishAddress).length ≤ zmqMaxEndpointLength

theorem connectNaming_follows :
    Follows calls (connectNamingPlan params) params.PublishFits
      (TransportImpl.connectNaming calls params) := by
  refine ((follows_demand _ _).seq <| (bindSocket_follows _ _ _ _).seq <|
    Follows.each (R := fun _ => True) (fun i uri => connectNewSocket_follows .namingSub i uri)
      params.mNamingAddress.upToNull 0).congr ?_
  simp [TransportParams.PublishFits]

def connectNonNamingPlan (params : TransportParams) : Plan :=
  (Plan.all ((params.mOutgoingAddress.upToNull.zipIdx 0).map fun p =>
    bindOrConnectPlan .dataPub .outgoing p.2 p.1)).seq <|
  .all ((params.mIncomingAddress.upToNull.zipIdx 0).map fun p =>
    bindOrConnectPlan .dataSub .incoming p.2 p.1)

/-- Every configured address is of a known transport type. -/
def TransportParams.UrisKnown (params : TransportParams) : Prop :=
  ∀ uri ∈ params.mOutgoingAddress.upToNull ++ params.mIncomingAddress.upToNull,
    transportType uri ≠ none

theorem connectNonNaming_follows :
    Follows calls (connectNonNamingPlan params) params.UrisKnown
      (TransportImpl.connectNonNaming calls params) := by
  refine ((Follows.each (fun i uri => bindOrConnect_follows .dataPub .outgoing i uri)
    params.mOutgoingAddress.upToNull 0).seq
    (Follows.each (fun i uri => bindOrConnect_follows .dataSub .incoming i uri)
      params.mIncomingAddress.upToNull 0)).congr ?_
  exact List.forall_mem_append.symm

/-- What `init` does once there is a context. -/
def initPlan (params : TransportParams) : Plan :=
  (commonPlan params).seq <| (Plan.when (params.mIsNaming = 1) (namingPlan params)).seq <|
    (Plan.when (params.mSocketMonitor ≠ 0) monitorPlan).seq <|
    (Plan.when (params.mIsNaming = 1) (connectNamingPlan params)).seq <|
    .when (params.mIsNaming ≠ 1) (connectNonNamingPlan params)

/-- The addresses a transport is given can be used. -/
def TransportParams.AddressesOk (params : TransportParams) : Prop :=
  (params.mIsNaming = 1 → params.PublishFits) ∧ (params.mIsNaming ≠ 1 → params.UrisKnown)

theorem init_follows (inboxSubject : Bool) :
    Follows calls (initPlan params) (inboxSubject = true ∧ params.AddressesOk)
      (TransportImpl.initSockets calls params inboxSubject) := by
  refine ((initCommon_follows _).seq <| (initNaming_follows.whenever _).seq <|
    (startMonitor_follows.whenever _).seq <| (connectNaming_follows.whenever _).seq <|
    connectNonNaming_follows.whenever _).congr ?_
  rw [TransportParams.AddressesOk]
  tauto

def startPlan (params : TransportParams) (naming : NamingRun) : Plan :=
  (threadPlan .dispatch).seq <|
    .when (params.mIsNaming = 1 ∧ naming.publishing = true)
      (.open ⟨false, [], [.publishEndpoints], []⟩)

/-- `mNamingConnected` is set in time, if it is waited for. -/
def NamingRun.InTime (naming : NamingRun) (params : TransportParams) : Prop :=
  params.mIsNaming = 1 ∧ params.mNamingWaitForConnect = 1 →
    naming.connects params.mNamingConnectRetries = true

theorem start_follows (naming : NamingRun) :
    Follows calls (startPlan params naming) (naming.InTime params)
      (TransportImpl.start calls params naming) := by
  have hRead : Follows calls .skip (naming.connects params.mNamingConnectRetries = true)
      (Attempt.check (naming.connects params.mNamingConnectRetries) .timeout) :=
    follows_check _ _
  have hWait := hRead.whenever (params.mIsNaming = 1 ∧ params.mNamingWaitForConnect = 1)
  rw [Plan.when_skip] at hWait
  have hOpen : Follows calls (.open ⟨false, [], [.publishEndpoints], []⟩) True
      (modify fun c => { c with threads := c.threads ++ [.publishEndpoints] }) :=
    follows_open fun c => by simp [Creation.add]
  have hPublish := (hOpen.whenever (params.mIsNaming = 1 ∧ naming.publishing = true)).seq hWait
  rw [Plan.seq_skip] at hPublish
  exact ((createThread_follows _).seq hPublish).congr (by rw [NamingRun.InTime]; tauto)

end Functions

-- ---------------------------------------------------------------------------
-- A creation
-- ---------------------------------------------------------------------------

def allocateCalls : List LibCall :=
  [.calloc, .listCreate, .createPeers, .createInboxes, .endpointPoolCreate, .generateUuid]

/-- The calls up to and including the one that makes the context. -/
def earlyCalls : List LibCall := allocateCalls ++ [.ctxNew]

/-- The calls after that. -/
def laterCalls (params : TransportParams) : List LibCall :=
  .strdupInboxSubject :: (initPlan params).calls ++ [.createThread .dispatch]

/-- **A failed creation leaves nothing running.** The call returns, and unless it returns
`MAMA_STATUS_OK` no context or socket is open and no thread was started. -/
def CleansUp (out : Except Fault (Except MamaStatus Unit × Creation)) : Prop :=
  ∃ result c, out = .ok (result, c) ∧ ∀ status, result = .error status → c = .empty

section Create

variable {calls : LibCall → Bool} {params : TransportParams} {naming : NamingRun}

/-- An allocation that fails leaves everything as it was. -/
theorem allocate_attempts :
    Attempts (fun c => c = Creation.empty)
      (∀ c ∈ allocateCalls, calls c = true) id (Transport.allocate calls) := by
  refine ((attempts_check _ _).seq <| (attempts_check _ _).seq <| (attempts_check _ _).seq <|
    (attempts_check _ _).seq <| (attempts_check _ _).seq <| attempts_check _ _).congr ?_
  simp [allocateCalls]

theorem allocate_safe : Attempt.Safe (Transport.allocate calls) :=
  (safe_check _ _).seq <| (safe_check _ _).seq <| (safe_check _ _).seq <|
    (safe_check _ _).seq <| (safe_check _ _).seq <| safe_check _ _

theorem createContext_of_ok (h : calls .ctxNew = true) :
    (TransportImpl.createContext calls).outcome .empty = .ok (.ok (), ⟨true, [], [], []⟩) := by
  rw [TransportImpl.createContext, h]
  rfl

theorem createContext_of_fail (h : calls .ctxNew = false) :
    (TransportImpl.createContext calls).outcome .empty = .ok (.error .platform, .empty) := by
  rw [TransportImpl.createContext, h]
  rfl

/-- A call that fails before there is a context. -/
theorem create_early (params : TransportParams) (naming : NamingRun) {c : LibCall}
    (hEarly : c ∈ earlyCalls) (hFail : calls c = false) :
    ∃ status, (Transport.create calls params naming).outcome .empty =
      .ok (.error status, .empty) := by
  by_cases hAlloc : ∀ c ∈ allocateCalls, calls c = true
  · have hCtx : calls .ctxNew = false := by
      rcases List.mem_append.mp hEarly with hc | hc
      · rw [hAlloc c hc] at hFail
        cases hFail
      · rw [← List.mem_singleton.mp hc]
        exact hFail
    refine ⟨.platform, ?_⟩
    rw [Transport.create, Attempt.outcome_seq_of_ok (allocate_attempts.succeeds hAlloc _)]
    exact Attempt.outcome_seq_of_error
      (Attempt.outcome_seq_of_error (createContext_of_fail hCtx))
  · obtain ⟨status, c', hOut, rfl⟩ := allocate_attempts.stops allocate_safe hAlloc rfl
    exact ⟨status, Attempt.outcome_seq_of_error hOut⟩

/-- With a context, a creation is what `init` and `start` do from there. -/
theorem create_later (hEarly : ∀ c ∈ earlyCalls, calls c = true) :
    (Transport.create calls params naming).outcome .empty =
      Attempt.outcome (do
        TransportImpl.initSockets calls params (calls .strdupInboxSubject)
        TransportImpl.start calls params naming) ⟨true, [], [], []⟩ := by
  have hAlloc : ∀ c ∈ allocateCalls, calls c = true :=
    fun c hc => hEarly c (List.mem_append_left _ hc)
  rw [Transport.create, Attempt.outcome_seq_of_ok (allocate_attempts.succeeds hAlloc _),
    TransportImpl.init, bind_assoc]
  have hContext : calls .ctxNew = true :=
    hEarly .ctxNew (List.mem_append_right _ (List.mem_singleton_self _))
  exact Attempt.outcome_seq_of_ok (createContext_of_ok hContext)

theorem startPlan_calls : (startPlan params naming).calls = [.createThread .dispatch] := by
  rw [startPlan, Plan.when]
  split <;> rfl

/-- From a context on, a creation follows its plan. -/
theorem create_follows :
    Attempts Creation.HasContext
      ((∀ c ∈ laterCalls params, calls c = true) ∧ params.AddressesOk ∧ naming.InTime params)
      (fun c => c.add ((initPlan params).seq (startPlan params naming)).opens) (do
        TransportImpl.initSockets calls params (calls .strdupInboxSubject)
        TransportImpl.start calls params naming) := by
  refine Attempts.congr ((init_follows _).seq (start_follows naming)) ?_
  rw [Plan.Succeeds, Plan.seq, startPlan_calls, laterCalls, List.cons_append,
    List.forall_mem_cons]
  tauto

/--
**What a failed creation leaves behind.** For every outcome of the calls
`zmqBridgeMamaTransport_create` makes, every configuration and every behaviour of the
other threads: the call returns, and leaves nothing open or running if it fails, if and
only if

* a call up to and including `zmq_ctx_new` fails, or
* every later call succeeds, the addresses can be used, and the naming service is
  reached in time if it is waited for, so that the creation does not fail.
-/
theorem create_cleans_up_iff (calls : LibCall → Bool) (params : TransportParams)
    (naming : NamingRun) :
    CleansUp ((Transport.create calls params naming).outcome .empty) ↔
      (∃ c ∈ earlyCalls, calls c = false) ∨
      (∀ c ∈ laterCalls params, calls c = true) ∧ params.AddressesOk ∧
        naming.InTime params := by
  by_cases hEarly : ∃ c ∈ earlyCalls, calls c = false
  · obtain ⟨c, hc, hFail⟩ := hEarly
    obtain ⟨status, hOut⟩ := create_early params naming hc hFail
    refine iff_of_true ⟨_, _, hOut, fun _ _ => rfl⟩ (Or.inl ⟨c, hc, hFail⟩)
  · have hOk : ∀ c ∈ earlyCalls, calls c = true := by
      intro c hc
      by_contra hNot
      exact hEarly ⟨c, hc, by simpa using hNot⟩
    rw [create_later hOk, or_iff_right hEarly]
    constructor
    · rintro ⟨result, c, hOut, hClean⟩
      by_contra hNot
      obtain ⟨crash, hCrash⟩ | ⟨error, c', hError, hCtx⟩ :=
        create_follows.fails hNot ⟨true, [], [], []⟩ rfl
      · rw [hCrash] at hOut
        cases hOut
      · rw [hError] at hOut
        cases hOut
        -- the context is still there
        rw [hClean error rfl] at hCtx
        cases hCtx
    · intro hLater
      refine ⟨_, _, create_follows.succeeds hLater _, ?_⟩
      intro status hStatus
      cases hStatus

end Create

/-- A naming transport that waits for the naming service, with the defaults. -/
def namingParams : TransportParams where
  mSocketMonitor := 1
  mIsNaming := 1
  mPublishAddress := [0x6c, 0x6f]
  mNamingAddress := ⟨some [0x6e, 0x73] :: List.replicate 7 none, by decide⟩
  mIncomingAddress := .null _ _
  mOutgoingAddress := .null _ _
  mNamingWaitForConnect := 1
  mNamingConnectRetries := 100

/-- **A creation that times out leaves a transport behind.** Every call succeeds, but
nobody answers. -/
theorem timeout_keeps_running :
    ∃ c, (Transport.create (fun _ => true) namingParams ⟨fun _ => false, true⟩).outcome .empty =
        .ok (.error .timeout, c) ∧
      c.context = true ∧ c.threads = [.monitor, .dispatch, .publishEndpoints] ∧
      c.sockets = [.controlSub, .controlPub, .dataPub, .dataSub, .namingPub, .namingSub,
        .monitorSub, .monitorPub] :=
  ⟨_, rfl, rfl, rfl, rfl⟩

end ZmqBridge
