import ZmqBridge.Create.Cleanup
import ZmqBridge.Model.Params

/-!
# ZmqBridge — the addresses of a transport without naming

The configured addresses of one direction are the one of index 0, or else the one
without an index, or else the default, and then those of index 1, 2, … up to the
first that is not set. `parseNonNamingParams` looks for index 0 first and stops
there if it is not set, writes as many addresses as it finds into an array of 512,
and looks for names that are cut off after 1023 bytes.

* `parseUrls_of_gap`, `parseUrls_without_gap` — what the loop leaves in the array;
* `lookup_before_gap` — names that are cut off do no harm in front of the first
  index that is not found;
* `init_uses_iff` — what `init` makes of the two arrays;
* `addresses_used_iff` — exactly when the configured addresses are used;
* `addresses_dropped` — the documented form, and too many addresses.
-/

namespace ZmqBridge

open Lib

-- ---------------------------------------------------------------------------
-- What is configured
-- ---------------------------------------------------------------------------

/-- The addresses in front of index `k`, of which `bare` stands in for index 0. -/
def addressesBefore (get : Nat → Option (List Byte)) (bare : List Byte) (k : Nat) :
    List (List Byte) :=
  (get 0).getD bare :: (List.range' 1 (k - 1)).filterMap get

/-- **The configured addresses**: `k` is the first index behind 0 that is not set. -/
def IsConfigured (get : Nat → Option (List Byte)) (bare : List Byte)
    (addresses : List (List Byte)) : Prop :=
  ∃ k, 0 < k ∧ get k = none ∧ (∀ i, 0 < i → i < k → get i ≠ none) ∧
    addresses = addressesBefore get bare k

/-- A direction of a transport: its name, its parameter and the default. -/
structure UrlParam where
  name : List Byte
  property : List Byte
  defaultUrl : List Byte

def incomingUrls (name : List Byte) : UrlParam :=
  ⟨name, tportParamIncomingUrl, defaultIncomingUrl name⟩

def outgoingUrls (name : List Byte) : UrlParam :=
  ⟨name, tportParamOutgoingUrl, defaultOutgoingUrl name⟩

/-- The address that is configured for an index. -/
def UrlParam.indexed (u : UrlParam) (properties : Properties) (i : Nat) : Option (List Byte) :=
  properties (tportParamIndexed u.name u.property i)

/-- The address that is configured without an index, or the default. -/
def UrlParam.bare (u : UrlParam) (properties : Properties) : List Byte :=
  (properties (tportParam u.name u.property)).getD u.defaultUrl

/-- The properties as a lookup sees them, by names that are cut off. -/
def Properties.cut (properties : Properties) : Properties := fun text =>
  properties (paramName text)

-- ---------------------------------------------------------------------------
-- The loop
-- ---------------------------------------------------------------------------

section Scan

variable {n : Nat} {get : Nat → Option (List Byte)} {addresses : PtrArray (List Byte) n}
  {l : List (List Byte)}

/-- From the end of the array on, up to the first index that is not found. -/
theorem scanUrls_of_gap {d : Nat} (rounds : Nat) (hHolds : addresses.Holds l)
    (hSet : ∀ i, l.length ≤ i → i < l.length + d → get i ≠ none)
    (hGap : get (l.length + d) = none) (hFits : l.length + d ≤ n) (hRounds : d < rounds) :
    ∃ a, TransportImpl.scanUrls get rounds l.length addresses = .ok a ∧
      a.Holds (l ++ (List.range' l.length d).filterMap get) := by
  induction d generalizing rounds l addresses with
  | zero =>
    obtain ⟨rounds, rfl⟩ := Nat.exists_eq_add_of_lt hRounds
    rw [Nat.add_zero] at hGap
    refine ⟨addresses, ?_, by rwa [List.range'_zero, List.filterMap_nil, List.append_nil]⟩
    rw [Nat.zero_add, TransportImpl.scanUrls, hGap]
    rfl
  | succ d ih =>
    obtain ⟨rounds, rfl⟩ : ∃ r, rounds = r + 1 := ⟨rounds - 1, by omega⟩
    obtain ⟨uri, hUri⟩ := Option.ne_none_iff_exists'.mp (hSet l.length le_rfl (by omega))
    obtain ⟨next, hWrite, hNext⟩ := hHolds.write_next (by omega) uri
    have hLen : (l ++ [uri]).length = l.length + 1 := by
      rw [List.length_append, List.length_singleton]
    obtain ⟨a, hScan, hEnd⟩ := ih rounds hNext
      (fun i hLow hHigh => hSet i (by omega) (by omega))
      (by rw [hLen, show l.length + 1 + d = l.length + (d + 1) by omega]; exact hGap)
      (by omega) (by omega)
    refine ⟨a, ?_, ?_⟩
    · rw [TransportImpl.scanUrls, hUri]
      show (addresses.write l.length uri >>= _) = _
      rw [hWrite, ok_bind, ← hLen]
      exact hScan
    · rw [List.range'_succ, List.filterMap_cons, hUri]
      rwa [hLen, List.append_assoc] at hEnd

/-- If every index is found the loop writes behind the array. -/
theorem scanUrls_without_gap (rounds i : Nat) (hAll : ∀ j ≤ n, get j ≠ none)
    (addresses : PtrArray (List Byte) n) (hi : i ≤ n) :
    TransportImpl.scanUrls get rounds i addresses = .error .writeOutside := by
  induction rounds generalizing i addresses with
  | zero => rfl
  | succ rounds ih =>
    obtain ⟨uri, hUri⟩ := Option.ne_none_iff_exists'.mp (hAll i hi)
    rw [TransportImpl.scanUrls, hUri]
    show (addresses.write i uri >>= _) = _
    by_cases hLt : i < n
    · rw [PtrArray.write, if_pos hLt, ok_bind]
      exact ih (i + 1) _ hLt
    · rw [addresses.write_outside (by omega), error_bind]

end Scan

section Parse

variable {n : Nat} {properties : Properties} (u : UrlParam)

/-- The two lookups, by names that are cut off. -/
theorem parseUrls_eq (addresses : PtrArray (List Byte) n) :
    TransportImpl.parseUrls properties u.name u.property u.defaultUrl addresses =
      (addresses.write 0 (u.bare properties.cut) >>= fun a =>
        TransportImpl.scanUrls (u.indexed properties.cut) (n + 1) 0 a) := by
  have hIndexed : (fun i => TransportImpl.getParameter properties none
      (tportParamIndexed u.name u.property i)) = u.indexed properties.cut := by
    funext i
    exact Option.or_none
  have hBare : (TransportImpl.getParameter properties (some u.defaultUrl)
      (tportParam u.name u.property)).getD u.defaultUrl = u.bare properties.cut := by
    rw [UrlParam.bare, Properties.cut, TransportImpl.getParameter]
    cases properties (paramName (tportParam u.name u.property)) <;> rfl
  rw [TransportImpl.parseUrls, hIndexed, hBare]

/-- **What is read**, if `k` is the first index that is not found. -/
theorem parseUrls_of_gap {k : Nat} (hn : 0 < n) (hk : k ≤ n)
    (hGap : u.indexed properties.cut k = none)
    (hSet : ∀ i < k, u.indexed properties.cut i ≠ none) :
    ∃ a, TransportImpl.parseUrls properties u.name u.property u.defaultUrl
        (PtrArray.null (List Byte) n) = .ok a ∧
      a.Holds (addressesBefore (u.indexed properties.cut) (u.bare properties.cut) k) := by
  obtain ⟨start, hWrite, hStart⟩ :=
    (PtrArray.holds_null n).write_next hn (u.bare properties.cut)
  have hWrite' : (PtrArray.null (List Byte) n).write 0 (u.bare properties.cut) = .ok start :=
    hWrite
  rw [parseUrls_eq, hWrite', ok_bind, TransportImpl.scanUrls, addressesBefore]
  cases hFirst : u.indexed properties.cut 0 with
  | none =>
    have hk0 : k = 0 := by
      by_contra hNe
      exact hSet 0 (Nat.pos_of_ne_zero hNe) hFirst
    subst hk0
    exact ⟨start, rfl, hStart⟩
  | some uri =>
    have hkPos : 0 < k := by
      by_contra hNot
      rw [Nat.eq_zero_of_not_pos hNot, hFirst] at hGap
      cases hGap
    obtain ⟨next, hNextWrite, hNext⟩ := PtrArray.Holds.write_first hStart uri
    show ∃ a, (start.write 0 uri >>= _) = .ok a ∧ _
    rw [hNextWrite, ok_bind]
    have hEnd : 1 + (k - 1) = k := by omega
    exact scanUrls_of_gap (l := [uri]) (d := k - 1) n hNext
      (fun i _ hHigh => hSet i (hEnd ▸ hHigh)) (hEnd.symm ▸ hGap) (hEnd.symm ▸ hk) (by omega)

/-- If index 0 is not found, nothing behind it is looked for. -/
theorem parseUrls_without_first (hn : 0 < n) (hFirst : u.indexed properties.cut 0 = none) :
    ∃ a, TransportImpl.parseUrls properties u.name u.property u.defaultUrl
        (PtrArray.null (List Byte) n) = .ok a ∧ a.upToNull = [u.bare properties.cut] := by
  obtain ⟨a, hParse, hHolds⟩ :=
    parseUrls_of_gap u hn (Nat.zero_le n) hFirst (fun i hi => absurd hi (Nat.not_lt_zero i))
  refine ⟨a, hParse, ?_⟩
  rw [hHolds.upToNull, addressesBefore, hFirst]
  rfl

theorem parseUrls_without_gap (hAll : ∀ i ≤ n, u.indexed properties.cut i ≠ none) :
    TransportImpl.parseUrls properties u.name u.property u.defaultUrl
      (PtrArray.null (List Byte) n) = .error .writeOutside := by
  rw [parseUrls_eq, PtrArray.write]
  split
  · rw [ok_bind]
    exact scanUrls_without_gap (n + 1) 0 hAll _ (Nat.zero_le n)
  · rfl

end Parse

-- ---------------------------------------------------------------------------
-- Names that are cut off
-- ---------------------------------------------------------------------------

section Names

variable {properties : Properties} (u : UrlParam)

/-- What stands in front of the index. -/
def UrlParam.stem (u : UrlParam) : List Byte := tportParam u.name u.property ++ [0x5f]

theorem UrlParam.indexed_cut (i : Nat) :
    u.indexed properties.cut i =
      properties (u.stem.take 1023 ++ (numeral 10 i).take (1023 - u.stem.length)) := by
  show properties ((u.stem ++ numeral 10 i).take 1023) = _
  rw [List.take_append]

/-- A name that fits is looked up as it is. -/
theorem UrlParam.indexed_of_fits {i : Nat} (hStem : u.stem.length ≤ 1023)
    (hFits : (numeral 10 i).length ≤ 1023 - u.stem.length) :
    u.indexed properties.cut i = u.indexed properties i := by
  rw [UrlParam.indexed_cut, List.take_of_length_le hFits, List.take_of_length_le hStem]
  rfl

/-- **Cutting names off does no harm before the first index that is not found**: a name
that is cut off is the name of a smaller index, which was found. -/
theorem lookup_before_gap {k : Nat} (hGap : u.indexed properties.cut k = none)
    (hSet : ∀ i < k, u.indexed properties.cut i ≠ none) (hk : 0 < k) :
    ∀ i ≤ k, u.indexed properties.cut i = u.indexed properties i := by
  have hStem : u.stem.length < 1023 := by
    -- with no room for a digit all names are the same
    by_contra hLong
    have hRoom : 1023 - u.stem.length = 0 := by omega
    refine hSet 0 hk ?_
    rw [UrlParam.indexed_cut, hRoom, List.take_zero] at hGap ⊢
    exact hGap
  have hFits : (numeral 10 k).length ≤ 1023 - u.stem.length := by
    by_contra hLong
    have hTake := numeral_take (b := 10) (n := k) (m := 1023 - u.stem.length) (by omega)
      (by omega)
    have hLess : k / 10 ^ ((numeral 10 k).length - (1023 - u.stem.length)) < k :=
      Nat.div_lt_self hk (Nat.one_lt_pow (by omega) (by decide))
    refine hSet _ hLess ?_
    rw [UrlParam.indexed_cut] at hGap ⊢
    rw [← hTake, List.take_take, min_self]
    exact hGap
  intro i hi
  refine u.indexed_of_fits (by omega) ?_
  have hLog : Nat.log 10 i ≤ Nat.log 10 k := Nat.log_mono_right hi
  rw [length_numeral] at hFits ⊢
  omega

end Names

-- ---------------------------------------------------------------------------
-- One direction
-- ---------------------------------------------------------------------------

section Direction

variable {n : Nat} {properties : Properties} {u : UrlParam}

/-- The addresses of a direction can be read. -/
structure UrlParam.Readable (u : UrlParam) (n : Nat) (properties : Properties) : Prop where
  /-- An index the array has room for is not found. -/
  gap : ∃ k ≤ n, u.indexed properties.cut k = none
  /-- Without an index 0 there is no other one, and the address that is configured is the
  one that is found without an index. -/
  first : u.indexed properties.cut 0 = none →
    u.indexed properties 1 = none ∧
      (u.indexed properties 0).getD (u.bare properties) = u.bare properties.cut

/-- The array that is read holds the configured addresses. -/
def UrlParam.ReadsConfigured (u : UrlParam) (n : Nat) (properties : Properties)
    (l : List (List Byte)) (a : PtrArray (List Byte) n) : Prop :=
  IsConfigured (u.indexed properties) (u.bare properties) l ∧
    TransportImpl.parseUrls properties u.name u.property u.defaultUrl
      (PtrArray.null (List Byte) n) = .ok a ∧ a.upToNull = l

theorem length_addressesBefore {get : Nat → Option (List Byte)} {k : Nat} (bare : List Byte)
    (hk : 0 < k) (hSet : ∀ i, 0 < i → i < k → get i ≠ none) :
    (addressesBefore get bare k).length = k := by
  have hRange : ((List.range' 1 (k - 1)).filterMap get).length = k - 1 := by
    rw [List.length_filterMap_eq_countP, List.countP_eq_length.mpr, List.length_range']
    intro i hi
    obtain ⟨hLow, hHigh⟩ := List.mem_range'_1.mp hi
    exact Option.isSome_iff_ne_none.mpr (hSet i (by omega) (by omega))
  rw [addressesBefore, List.length_cons, hRange]
  omega

/-- The first index that is not found. -/
theorem exists_first_gap {get : Nat → Option (List Byte)} (h : ∃ k ≤ n, get k = none) :
    ∃ k ≤ n, get k = none ∧ ∀ i < k, get i ≠ none := by
  classical
  have hEx : ∃ k, get k = none := h.imp fun _ hk => hk.2
  obtain ⟨k, hk, hNone⟩ := h
  exact ⟨Nat.find hEx, (Nat.find_min' hEx hNone).trans hk, Nat.find_spec hEx,
    fun i hi => Nat.find_min hEx hi⟩

theorem addressesBefore_congr {get get' : Nat → Option (List Byte)} {bare bare' : List Byte}
    {k : Nat} (hk : 0 < k) (hSet : get 0 ≠ none) (hGet : ∀ i ≤ k, get i = get' i) :
    addressesBefore get bare k = addressesBefore get' bare' k := by
  obtain ⟨uri, hUri⟩ := Option.ne_none_iff_exists'.mp hSet
  have hRange : (List.range' 1 (k - 1)).filterMap get =
      (List.range' 1 (k - 1)).filterMap get' := by
    refine List.filterMap_congr fun i hi => hGet i ?_
    have hHigh := (List.mem_range'_1.mp hi).2
    omega
  rw [addressesBefore, addressesBefore, hRange, ← hGet 0 (Nat.zero_le k), hUri]
  rfl

/-- **One direction**: the configured addresses are read if and only if they are
readable. -/
theorem readsConfigured_iff (hn : 0 < n) :
    (∃ l a, u.ReadsConfigured n properties l a) ↔ u.Readable n properties := by
  constructor
  · rintro ⟨l, a, ⟨m, hm, hNone, hSet, hList⟩, hParse, hUpTo⟩
    have hGap : ∃ k ≤ n, u.indexed properties.cut k = none := by
      by_contra hNot
      rw [parseUrls_without_gap u fun i hi hNone => hNot ⟨i, hi, hNone⟩] at hParse
      cases hParse
    refine ⟨hGap, fun hZero => ?_⟩
    obtain ⟨a', hParse', hUpTo'⟩ := parseUrls_without_first u hn hZero
    cases hParse.symm.trans hParse'
    -- only one address was read, so only one is configured
    have hOne : addressesBefore (u.indexed properties) (u.bare properties) m =
        [u.bare properties.cut] := by
      rw [← hList, ← hUpTo, hUpTo']
    have hm1 : m = 1 := by
      rw [← length_addressesBefore (u.bare properties) hm hSet, hOne, List.length_singleton]
    subst hm1
    exact ⟨hNone, (List.cons.inj hOne).1⟩
  · intro hReadable
    obtain ⟨k, hk, hGap, hSet⟩ := exists_first_gap hReadable.gap
    obtain ⟨a, hParse, hHolds⟩ := parseUrls_of_gap u hn hk hGap hSet
    by_cases hkPos : 0 < k
    · have hAgree := lookup_before_gap u hGap hSet hkPos
      refine ⟨_, a, ⟨k, hkPos, ?_, ?_, rfl⟩, hParse, ?_⟩
      · rw [← hAgree k le_rfl]
        exact hGap
      · intro i _ hi
        rw [← hAgree i hi.le]
        exact hSet i hi
      · rw [hHolds.upToNull]
        exact addressesBefore_congr hkPos (hSet 0 hkPos) hAgree
    · obtain rfl : k = 0 := Nat.eq_zero_of_not_pos hkPos
      obtain ⟨hNone, hFirst⟩ := hReadable.first hGap
      refine ⟨_, a, ⟨1, Nat.one_pos, hNone, fun i _ _ => by omega, rfl⟩, hParse, ?_⟩
      rw [hHolds.upToNull, addressesBefore, addressesBefore, hGap, hFirst]
      rfl

end Direction

-- ---------------------------------------------------------------------------
-- What init binds and connects
-- ---------------------------------------------------------------------------

section Init

variable {params : TransportParams}

/-- The addresses a socket is bound or connected to. -/
def Creation.urisOf (c : Creation) (s : SocketName) : List (List Byte) :=
  (c.endpoints.filter fun e => e.socket = s).map SocketEndpoint.uri

/-- **`init` uses these addresses**, if the calls it makes succeed. -/
def TransportParams.Uses (params : TransportParams) (incoming outgoing : List (List Byte)) :
    Prop :=
  ∃ c, (TransportImpl.init (fun _ => true) params true).outcome .empty = .ok (.ok (), c) ∧
    c.urisOf .dataSub = incoming ∧ c.urisOf .dataPub = outgoing

theorem Creation.urisOf_add (c d : Creation) (s : SocketName) :
    (c.add d).urisOf s = c.urisOf s ++ d.urisOf s := by
  rw [Creation.urisOf, Creation.add, List.filter_append, List.map_append]
  rfl

theorem Plan.urisOf_seq (p q : Plan) (s : SocketName) :
    (p.seq q).opens.urisOf s = p.opens.urisOf s ++ q.opens.urisOf s :=
  Creation.urisOf_add p.opens q.opens s

theorem Plan.urisOf_when_nil {c : Prop} [Decidable c] {p : Plan} {s : SocketName}
    (h : p.opens.urisOf s = []) : (Plan.when c p).opens.urisOf s = [] := by
  rw [Plan.when]
  split
  · exact h
  · rfl

/-- A socket that is made has no address yet. -/
theorem urisOf_socketPlan (t : SocketName) (monitor : Int) (s : SocketName) :
    (socketPlan t monitor).opens.urisOf s = [] := by
  have hMonitor : (Plan.when (monitor ≠ 0) (.call (.monitorSocket t))).opens.urisOf s = [] :=
    Plan.urisOf_when_nil rfl
  rw [socketPlan, Plan.urisOf_seq, Plan.urisOf_seq, Plan.urisOf_seq, Plan.urisOf_seq, hMonitor]
  rfl

/-- Before the addresses are used, no data socket has one. -/
theorem urisOf_commonPlan {s : SocketName} (hSub : s ≠ .controlSub) (hPub : s ≠ .controlPub) :
    (commonPlan params).opens.urisOf s = [] := by
  simp only [commonPlan, Plan.urisOf_seq, urisOf_socketPlan]
  cases s with
  | controlSub => exact absurd rfl hSub
  | controlPub => exact absurd rfl hPub
  | _ => rfl

theorem urisOf_monitorPlan {s : SocketName} (hSub : s ≠ .monitorSub) (hPub : s ≠ .monitorPub) :
    monitorPlan.opens.urisOf s = [] := by
  simp only [monitorPlan, Plan.urisOf_seq, urisOf_socketPlan]
  cases s with
  | monitorSub => exact absurd rfl hSub
  | monitorPub => exact absurd rfl hPub
  | _ => rfl

/-- An address of a known type is bound or connected. -/
theorem urisOf_bindOrConnectPlan (t : SocketName) (direction : ZmqTransportDirection) (i : Nat)
    {uri : List Byte} (hKnown : transportType uri ≠ none) (s : SocketName) :
    (bindOrConnectPlan t direction i uri).opens.urisOf s = if t = s then [uri] else [] := by
  obtain ⟨type, hType⟩ := Option.ne_none_iff_exists'.mp hKnown
  have hOpens : ∃ bound, (bindOrConnectPlan t direction i uri).opens =
      ⟨false, [], [], [⟨t, bound, uri⟩]⟩ := by
    rw [bindOrConnectPlan, hType]
    by_cases hBind : isBinding direction type uri = true
    · exact ⟨true, by simp only [hBind]; rfl⟩
    · exact ⟨false, by simp only [hBind]; rfl⟩
  obtain ⟨bound, hEq⟩ := hOpens
  rw [hEq, Creation.urisOf]
  by_cases hs : t = s
  · rw [if_pos hs, List.filter_cons_of_pos (by simpa using hs)]
    rfl
  · rw [if_neg hs, List.filter_cons_of_neg (by simpa using hs)]
    rfl

/-- The loop over the addresses of a socket. -/
theorem urisOf_all (t : SocketName) (direction : ZmqTransportDirection)
    (uris : List (List Byte)) (i : Nat) (hKnown : ∀ uri ∈ uris, transportType uri ≠ none)
    (s : SocketName) :
    (Plan.all ((uris.zipIdx i).map fun p =>
      bindOrConnectPlan t direction p.2 p.1)).opens.urisOf s = if t = s then uris else [] := by
  induction uris generalizing i with
  | nil => rw [ite_self]; rfl
  | cons uri rest ih =>
    obtain ⟨hUri, hRest⟩ := List.forall_mem_cons.mp hKnown
    rw [List.zipIdx_cons, List.map_cons]
    show ((bindOrConnectPlan t direction i uri).seq (Plan.all _)).opens.urisOf s = _
    rw [Plan.urisOf_seq, ih (i + 1) hRest, urisOf_bindOrConnectPlan t direction i hUri]
    split <;> rfl

theorem urisOf_initPlan (hNaming : params.mIsNaming ≠ 1) (hKnown : params.UrisKnown)
    {s : SocketName} (hData : s = .dataPub ∨ s = .dataSub) :
    (initPlan params).opens.urisOf s =
      (if .dataPub = s then params.mOutgoingAddress.upToNull else []) ++
        if .dataSub = s then params.mIncomingAddress.upToNull else [] := by
  obtain ⟨hOut, hIn⟩ := List.forall_mem_append.mp hKnown
  have hCommon : (commonPlan params).opens.urisOf s = [] :=
    urisOf_commonPlan (by rcases hData with rfl | rfl <;> decide)
      (by rcases hData with rfl | rfl <;> decide)
  have hMonitor : (Plan.when (params.mSocketMonitor ≠ 0) monitorPlan).opens.urisOf s = [] :=
    Plan.urisOf_when_nil (urisOf_monitorPlan (by rcases hData with rfl | rfl <;> decide)
      (by rcases hData with rfl | rfl <;> decide))
  rw [initPlan, Plan.urisOf_seq, Plan.urisOf_seq, Plan.urisOf_seq, Plan.urisOf_seq, hCommon,
    hMonitor, Plan.when, if_neg hNaming, Plan.when, if_neg hNaming, Plan.when, if_pos hNaming,
    connectNonNamingPlan, Plan.urisOf_seq, urisOf_all _ _ _ _ hOut, urisOf_all _ _ _ _ hIn]
  rfl

theorem init_outcome (hNaming : params.mIsNaming ≠ 1) {c : Creation} :
    (TransportImpl.init (fun _ => true) params true).outcome .empty = .ok (.ok (), c) ↔
      params.UrisKnown ∧ c = Creation.add ⟨true, [], [], []⟩ (initPlan params).opens := by
  rw [TransportImpl.init, Attempt.outcome_seq_of_ok (createContext_of_ok rfl)]
  have hFollows : Follows (fun _ => true) (initPlan params) (true = true ∧ params.AddressesOk)
      (TransportImpl.initSockets (fun _ => true) params true) := init_follows true
  have hOk : params.AddressesOk ↔ params.UrisKnown :=
    ⟨fun h => h.2 hNaming, fun h => ⟨fun hOne => absurd hOne hNaming, fun _ => h⟩⟩
  by_cases hKnown : params.UrisKnown
  · rw [hFollows.succeeds ⟨fun _ _ => rfl, rfl, hOk.mpr hKnown⟩]
    constructor
    · intro h
      cases h
      exact ⟨hKnown, rfl⟩
    · rintro ⟨-, rfl⟩
      rfl
  · refine iff_of_false (fun h => ?_) (fun h => hKnown h.1)
    obtain ⟨crash, hCrash⟩ | ⟨error, c', hError, -⟩ :=
      hFollows.fails (fun h => hKnown (hOk.mp h.2.2)) ⟨true, [], [], []⟩ rfl
    · cases hCrash.symm.trans h
    · cases hError.symm.trans h

/-- **What `init` makes of the two arrays.** -/
theorem init_uses_iff (hNaming : params.mIsNaming ≠ 1) {incoming outgoing : List (List Byte)} :
    params.Uses incoming outgoing ↔ params.UrisKnown ∧
      params.mIncomingAddress.upToNull = incoming ∧
      params.mOutgoingAddress.upToNull = outgoing := by
  have hSub : params.UrisKnown →
      (Creation.add ⟨true, [], [], []⟩ (initPlan params).opens).urisOf .dataSub =
        params.mIncomingAddress.upToNull := by
    intro hKnown
    rw [Creation.urisOf_add, urisOf_initPlan hNaming hKnown (Or.inr rfl)]
    rfl
  have hPub : params.UrisKnown →
      (Creation.add ⟨true, [], [], []⟩ (initPlan params).opens).urisOf .dataPub =
        params.mOutgoingAddress.upToNull := by
    intro hKnown
    rw [Creation.urisOf_add, urisOf_initPlan hNaming hKnown (Or.inl rfl)]
    exact List.append_nil _
  constructor
  · rintro ⟨c, hOut, hIncoming, hOutgoing⟩
    obtain ⟨hKnown, rfl⟩ := (init_outcome hNaming).mp hOut
    exact ⟨hKnown, (hSub hKnown).symm.trans hIncoming, (hPub hKnown).symm.trans hOutgoing⟩
  · rintro ⟨hKnown, hIncoming, hOutgoing⟩
    exact ⟨_, (init_outcome hNaming).mpr ⟨hKnown, rfl⟩, (hSub hKnown).trans hIncoming,
      (hPub hKnown).trans hOutgoing⟩

end Init

-- ---------------------------------------------------------------------------
-- Both directions
-- ---------------------------------------------------------------------------

section Both

variable {properties : Properties} {name : List Byte} {params : TransportParams}

/-- A transport without naming before its addresses are read: `calloc` has left the
arrays empty. -/
structure TransportParams.NonNaming (params : TransportParams) : Prop where
  isNaming : params.mIsNaming ≠ 1
  incoming : params.mIncomingAddress = .null (List Byte) zmqMaxIncomingUris
  outgoing : params.mOutgoingAddress = .null (List Byte) zmqMaxOutgoingUris

/-- **The configured addresses are used**: they are read without a write outside the
arrays, and `init` binds or connects exactly those. -/
def UsesConfigured (properties : Properties) (name : List Byte) (params : TransportParams) :
    Prop :=
  ∃ incoming outgoing impl,
    IsConfigured ((incomingUrls name).indexed properties) ((incomingUrls name).bare properties)
      incoming ∧
    IsConfigured ((outgoingUrls name).indexed properties) ((outgoingUrls name).bare properties)
      outgoing ∧
    TransportImpl.parseNonNamingParams properties name params = .ok impl ∧
    impl.Uses incoming outgoing

/-- Every configured address of the direction is of a known transport type. -/
def UrlParam.Known (u : UrlParam) (properties : Properties) : Prop :=
  ∀ l, IsConfigured (u.indexed properties) (u.bare properties) l →
    ∀ uri ∈ l, transportType uri ≠ none

theorem IsConfigured.unique {get : Nat → Option (List Byte)} {bare : List Byte}
    {l l' : List (List Byte)} (h : IsConfigured get bare l) (h' : IsConfigured get bare l') :
    l = l' := by
  obtain ⟨k, hk, hNone, hSet, rfl⟩ := h
  obtain ⟨k', hk', hNone', hSet', rfl⟩ := h'
  have hEq : k = k' := by
    rcases Nat.lt_trichotomy k k' with hLt | hEq | hGt
    · exact absurd hNone (hSet' k hk hLt)
    · exact hEq
    · exact absurd hNone' (hSet k' hk' hGt)
  rw [hEq]

theorem parseNonNamingParams_eq_ok (h : params.NonNaming) {impl : TransportParams} :
    TransportImpl.parseNonNamingParams properties name params = .ok impl ↔
      ∃ incoming outgoing,
        TransportImpl.parseUrls properties name tportParamIncomingUrl (defaultIncomingUrl name)
          (PtrArray.null (List Byte) zmqMaxIncomingUris) = .ok incoming ∧
        TransportImpl.parseUrls properties name tportParamOutgoingUrl (defaultOutgoingUrl name)
          (PtrArray.null (List Byte) zmqMaxOutgoingUris) = .ok outgoing ∧
        impl = { params with mIncomingAddress := incoming, mOutgoingAddress := outgoing } := by
  rw [TransportImpl.parseNonNamingParams, h.incoming, h.outgoing]
  constructor
  · intro hParse
    obtain ⟨incoming, hIncoming, hRest⟩ := bind_eq_ok hParse
    obtain ⟨outgoing, hOutgoing, hEnd⟩ := bind_eq_ok hRest
    cases hEnd
    exact ⟨incoming, outgoing, hIncoming, hOutgoing, rfl⟩
  · rintro ⟨incoming, outgoing, hIncoming, hOutgoing, rfl⟩
    rw [hIncoming, ok_bind, hOutgoing, ok_bind]
    rfl

/-- What is read into the two arrays is used, if it is of a known type. -/
theorem uses_of_parseUrls (h : params.NonNaming)
    {incoming : PtrArray (List Byte) zmqMaxIncomingUris}
    {outgoing : PtrArray (List Byte) zmqMaxOutgoingUris}
    (hIncoming : TransportImpl.parseUrls properties name tportParamIncomingUrl
      (defaultIncomingUrl name) (PtrArray.null (List Byte) zmqMaxIncomingUris) = .ok incoming)
    (hOutgoing : TransportImpl.parseUrls properties name tportParamOutgoingUrl
      (defaultOutgoingUrl name) (PtrArray.null (List Byte) zmqMaxOutgoingUris) = .ok outgoing)
    (hInKnown : ∀ uri ∈ incoming.upToNull, transportType uri ≠ none)
    (hOutKnown : ∀ uri ∈ outgoing.upToNull, transportType uri ≠ none) :
    ∃ impl, TransportImpl.parseNonNamingParams properties name params = .ok impl ∧
      impl.Uses incoming.upToNull outgoing.upToNull := by
  obtain ⟨impl, hImpl⟩ : ∃ impl : TransportParams, impl =
    { params with mIncomingAddress := incoming, mOutgoingAddress := outgoing } := ⟨_, rfl⟩
  have hNaming : impl.mIsNaming ≠ 1 := by
    rw [hImpl]
    exact h.isNaming
  refine ⟨impl, (parseNonNamingParams_eq_ok h).mpr ⟨incoming, outgoing, hIncoming, hOutgoing,
    hImpl⟩, (init_uses_iff hNaming).mpr ?_⟩
  subst hImpl
  exact ⟨List.forall_mem_append.mpr ⟨hOutKnown, hInKnown⟩, rfl, rfl⟩

/--
**When the configured addresses are used.** For every property map and every name of a
transport without naming: `parseNonNamingParams` returns without a write outside its two
arrays, and `init` then binds or connects, in each direction, exactly the address of
index 0 (or else the one without an index, or else the default) and those of index 1, 2,
… up to the first that is not set, if and only if in each direction

* among the first 513 indices there is one that is not found, and
* if index 0 is not found then index 1 is not set, and the first address is the one
  that is found without an index (names are looked up as cut off after 1023 bytes), and
* every configured address is of a known transport type.
-/
theorem addresses_used_iff (properties : Properties) (name : List Byte)
    (params : TransportParams) (h : params.NonNaming) :
    UsesConfigured properties name params ↔
      ((incomingUrls name).Readable zmqMaxIncomingUris properties ∧
        (incomingUrls name).Known properties) ∧
      (outgoingUrls name).Readable zmqMaxOutgoingUris properties ∧
        (outgoingUrls name).Known properties := by
  constructor
  · rintro ⟨incoming, outgoing, impl, hInConf, hOutConf, hParse, hUses⟩
    obtain ⟨inArray, outArray, hInParse, hOutParse, hImpl⟩ :=
      (parseNonNamingParams_eq_ok h).mp hParse
    have hNaming : impl.mIsNaming ≠ 1 := by
      rw [hImpl]
      exact h.isNaming
    obtain ⟨hKnown, hIn, hOut⟩ := (init_uses_iff hNaming).mp hUses
    subst hImpl
    have hTypes := List.forall_mem_append.mp hKnown
    refine ⟨⟨(readsConfigured_iff (by decide)).mp ⟨incoming, inArray, hInConf, hInParse, hIn⟩,
      ?_⟩, (readsConfigured_iff (by decide)).mp ⟨outgoing, outArray, hOutConf, hOutParse, hOut⟩,
      ?_⟩
    · intro l hl
      rw [hl.unique hInConf, ← hIn]
      exact hTypes.2
    · intro l hl
      rw [hl.unique hOutConf, ← hOut]
      exact hTypes.1
  · rintro ⟨⟨hInRead, hInKnown⟩, hOutRead, hOutKnown⟩
    obtain ⟨incoming, inArray, hInConf, hInParse, hIn⟩ :=
      (readsConfigured_iff (by decide)).mpr hInRead
    obtain ⟨outgoing, outArray, hOutConf, hOutParse, hOut⟩ :=
      (readsConfigured_iff (by decide)).mpr hOutRead
    obtain ⟨impl, hParse, hUses⟩ := uses_of_parseUrls h hInParse hOutParse
      (by rw [hIn]; exact hInKnown incoming hInConf)
      (by rw [hOut]; exact hOutKnown outgoing hOutConf)
    rw [hIn, hOut] at hUses
    exact ⟨incoming, outgoing, impl, hInConf, hOutConf, hParse, hUses⟩

end Both

/-- The name `sub`, which has the defaults of every name but `pub`. -/
def subName : List Byte := [0x73, 0x75, 0x62]

/-- A transport without naming and without a monitor. -/
def plainParams : TransportParams where
  mSocketMonitor := 0
  mIsNaming := 0
  mPublishAddress := []
  mNamingAddress := .null _ _
  mIncomingAddress := .null _ _
  mOutgoingAddress := .null _ _
  mNamingWaitForConnect := 0
  mNamingConnectRetries := 0

/-- The addresses `tcp://a:1` and `tcp://b:1`. -/
def urlA : List Byte := [0x74, 0x63, 0x70, 0x3a, 0x2f, 0x2f, 0x61, 0x3a, 0x31]

def urlB : List Byte := [0x74, 0x63, 0x70, 0x3a, 0x2f, 0x2f, 0x62, 0x3a, 0x31]

/-- `incoming_url_0` and `incoming_url_1`. -/
def indexedUrls : Properties := fun key =>
  if key = tportParamIndexed subName tportParamIncomingUrl 0 then some urlA
  else if key = tportParamIndexed subName tportParamIncomingUrl 1 then some urlB
  else none

theorem indexedUrls_incoming :
    IsConfigured ((incomingUrls subName).indexed indexedUrls)
      ((incomingUrls subName).bare indexedUrls) [urlA, urlB] := by
  refine ⟨2, by decide, by decide +kernel, fun i hLow hHigh => ?_, by decide +kernel⟩
  obtain rfl : i = 1 := by omega
  decide +kernel

theorem indexedUrls_outgoing :
    IsConfigured ((outgoingUrls subName).indexed indexedUrls)
      ((outgoingUrls subName).bare indexedUrls) [defaultOutgoingUrl subName] :=
  ⟨1, by decide, by decide +kernel, fun i hLow hHigh => by omega, by decide +kernel⟩

/-- Both addresses are used, and the default in the other direction. -/
theorem addresses_used_indexed :
    IsConfigured ((incomingUrls subName).indexed indexedUrls)
        ((incomingUrls subName).bare indexedUrls) [urlA, urlB] ∧
      UsesConfigured indexedUrls subName plainParams := by
  have hInKnown : (incomingUrls subName).Known indexedUrls := by
    intro l hl
    rw [hl.unique indexedUrls_incoming]
    decide
  have hOutKnown : (outgoingUrls subName).Known indexedUrls := by
    intro l hl
    rw [hl.unique indexedUrls_outgoing]
    decide
  refine ⟨indexedUrls_incoming, (addresses_used_iff indexedUrls subName plainParams
    ⟨by decide, rfl, rfl⟩).mpr ⟨⟨⟨⟨2, by decide, by decide +kernel⟩, fun hNone => ?_⟩, hInKnown⟩,
      ⟨⟨0, by decide, by decide +kernel⟩, fun _ => ⟨by decide +kernel, by decide +kernel⟩⟩,
      hOutKnown⟩⟩
  revert hNone
  decide +kernel

/-- The documented form: `incoming_url` and `incoming_url_1`. -/
def documentedUrls : Properties := fun key =>
  if key = tportParam subName tportParamIncomingUrl then some urlA
  else if key = tportParamIndexed subName tportParamIncomingUrl 1 then some urlB
  else none

theorem documentedUrls_configured :
    IsConfigured ((incomingUrls subName).indexed documentedUrls)
      ((incomingUrls subName).bare documentedUrls) [urlA, urlB] := by
  refine ⟨2, by decide, by decide +kernel, fun i hLow hHigh => ?_, by decide +kernel⟩
  obtain rfl : i = 1 := by omega
  decide +kernel

theorem documentedUrls_used :
    ∃ impl, TransportImpl.parseNonNamingParams documentedUrls subName plainParams = .ok impl ∧
      impl.Uses [urlA] [defaultOutgoingUrl subName] := by
  have hPlain : plainParams.NonNaming := ⟨by decide, rfl, rfl⟩
  have hInFirst : (incomingUrls subName).indexed documentedUrls.cut 0 = none := by
    decide +kernel
  have hOutFirst : (outgoingUrls subName).indexed documentedUrls.cut 0 = none := by
    decide +kernel
  have hInUrl : (incomingUrls subName).bare documentedUrls.cut = urlA := by decide +kernel
  have hOutUrl : (outgoingUrls subName).bare documentedUrls.cut = defaultOutgoingUrl subName := by
    decide +kernel
  obtain ⟨inArray, hInParse, hIn⟩ :=
    parseUrls_without_first (n := zmqMaxIncomingUris) _ (by decide) hInFirst
  obtain ⟨outArray, hOutParse, hOut⟩ :=
    parseUrls_without_first (n := zmqMaxOutgoingUris) _ (by decide) hOutFirst
  rw [hInUrl] at hIn
  rw [hOutUrl] at hOut
  have hUses := uses_of_parseUrls hPlain hInParse hOutParse (by rw [hIn]; decide)
    (by rw [hOut]; decide)
  rwa [hIn, hOut] at hUses

/-- The properties `incoming_url_0`, `incoming_url_1`, …, as many as `count`. -/
def numberedUrls (count : Nat) : Properties := fun key =>
  if ∃ i, i < count ∧ key = tportParamIndexed subName tportParamIncomingUrl i then some urlA
  else none

theorem numberedUrls_found {count i : Nat} (hi : i < count) :
    (incomingUrls subName).indexed (numberedUrls count) i = some urlA :=
  if_pos ⟨i, hi, rfl⟩

theorem numberedUrls_end (count : Nat) :
    (incomingUrls subName).indexed (numberedUrls count) count = none := by
  refine if_neg ?_
  rintro ⟨i, hi, hEq⟩
  have hIndex : count = i := numeral_injective (List.append_cancel_left hEq)
  omega

/-- One address more than the array has room for. -/
theorem numberedUrls_outside :
    TransportImpl.parseNonNamingParams (numberedUrls (zmqMaxIncomingUris + 1)) subName
      plainParams = .error .writeOutside := by
  have hFound : ∀ i ≤ zmqMaxIncomingUris, (incomingUrls subName).indexed
      (Properties.cut (numberedUrls (zmqMaxIncomingUris + 1))) i ≠ none := by
    intro i hi
    have hLog : Nat.log 10 i ≤ i := Nat.log_le_self 10 i
    have hMax : zmqMaxIncomingUris = 512 := rfl
    have hStem : (incomingUrls subName).stem.length = 36 := rfl
    rw [UrlParam.indexed_of_fits _ (by omega) (by rw [length_numeral]; omega),
      numberedUrls_found (by omega)]
    exact Option.some_ne_none urlA
  have hParse := parseUrls_without_gap (incomingUrls subName) hFound
  rw [TransportImpl.parseNonNamingParams]
  show (TransportImpl.parseUrls _ (incomingUrls subName).name (incomingUrls subName).property
    (incomingUrls subName).defaultUrl (PtrArray.null (List Byte) zmqMaxIncomingUris) >>= _) = _
  rw [hParse, error_bind]

/-- **Configured addresses are left out, or written outside the array.** With
`incoming_url` and `incoming_url_1` only the first is used; with `incoming_url_0` to
`incoming_url_512` the last one is written behind the array. -/
theorem addresses_dropped :
    (IsConfigured ((incomingUrls subName).indexed documentedUrls)
        ((incomingUrls subName).bare documentedUrls) [urlA, urlB] ∧
      ∃ impl, TransportImpl.parseNonNamingParams documentedUrls subName plainParams = .ok impl ∧
        impl.Uses [urlA] [defaultOutgoingUrl subName]) ∧
    (∃ l, IsConfigured ((incomingUrls subName).indexed (numberedUrls (zmqMaxIncomingUris + 1)))
        ((incomingUrls subName).bare (numberedUrls (zmqMaxIncomingUris + 1))) l) ∧
      TransportImpl.parseNonNamingParams (numberedUrls (zmqMaxIncomingUris + 1)) subName
        plainParams = .error .writeOutside := by
  refine ⟨⟨documentedUrls_configured, documentedUrls_used⟩, ?_, numberedUrls_outside⟩
  refine ⟨_, zmqMaxIncomingUris + 1, Nat.succ_pos _, numberedUrls_end _, fun i _ hi => ?_, rfl⟩
  rw [numberedUrls_found hi]
  exact Option.some_ne_none urlA

end ZmqBridge
