import Mathlib.Data.List.Permutation
import OSPortfolio.Chubby.KeyRequests
import OSPortfolio.Lib.Linearizable

namespace OSPortfolio.Chubby.Httpd

open OSPortfolio.Utf8 OSPortfolio.Json OSPortfolio.Chubby.Fsm
open OSPortfolio.Lts OSPortfolio.Linearizability

/-!
# Concurrent key requests

The handler of `/key` requests makes its store calls one at a time, and the handlers of
different requests interleave between calls.  The calls go to one leader, whose log entries are
applied at once and without error.

* `performCall` — the next store call of a handler, for `GET`, `POST` with one key, and
  `DELETE`, which calls `Delete` twice;
* `ServiceStep` — a request arrives, a handler makes a store call, or a response goes out;
* `serves_alone` — a request without others around it is answered as `handleKeyRequest` answers;
* `atomicRequest` — what each request is to look like: one read, set or delete of its key;
* `serviceStep_refines` — a step is a step of the atomic machine, or none, unless it is a
  `Delete` call that meets another key, or the second one of a handler and finds the key there;
* `service_linearizable` — a run without such a step is linearizable;
* `service_not_linearizable` — and a run with one need not be.
-/

/-- The one entry of a `POST` body.  The body is decoded from JSON, so both are text. -/
structure PostEntry where
  key : Bytes
  value : Bytes
  validKey : Valid key
  validValue : Valid value

/-- A key request: its URL path, or the entry of its body. -/
inductive KeyRequest
  | GET (path : Bytes)
  | POST (e : PostEntry)
  | DELETE (path : Bytes)

/-- A response: its status and its body. -/
structure Response where
  status : Nat
  body : Bytes := []
  deriving DecidableEq

/-- Where the handler of a request is. -/
inductive Handler
  | idle
  | called (q : KeyRequest)
  | deleteAgain (q : KeyRequest) (k : Bytes)
  | ready (q : KeyRequest) (r : Response)
  | responded (q : KeyRequest) (r : Response)

/-- `handleKeyRequest` up to the next store call and with it.  A `GET` without a key writes
    the status 400 and goes on; a `DELETE` without one returns. -/
def performCall : Handler → StringMap → Option (Handler × StringMap)
  | .called (.GET path), m =>
    let k := getKey path
    -- there is no `return` behind the status 400, so the map is read all the same
    some (.ready (.GET path)
      ⟨if k = [] then 400 else 200, marshalMap (Finmap.singleton k (Fsm.get k m))⟩, m)
  | .called (.POST e), m => some (.ready (.POST e) ⟨200, []⟩, applied (.set e.key e.value) m)
  | .called (.DELETE path), m =>
    let k := getKey path
    if k = [] then some (.ready (.DELETE path) ⟨400, []⟩, m)
    else some (.deleteAgain (.DELETE path) k, applied (.delete k) m)
  -- the call after the one whose error is checked; its own error is not
  | .deleteAgain q k, m => some (.ready q ⟨200, []⟩, applied (.delete k) m)
  | _, _ => none

/-- The map of the leader and the handlers of the requests, which are numbered. -/
structure ServiceState where
  m : StringMap
  handler : Nat → Handler

/-- Set one handler. -/
def ServiceState.setHandler (s : ServiceState) (i : Nat) (h : Handler) : ServiceState :=
  { s with handler := fun j => if j = i then h else s.handler j }

@[simp] theorem setHandler_same (s : ServiceState) (i : Nat) (h : Handler) :
    (s.setHandler i h).handler i = h := if_pos rfl

@[simp] theorem setHandler_m (s : ServiceState) (i : Nat) (h : Handler) :
    (s.setHandler i h).m = s.m := rfl

/-- What happens: a request arrives, its handler makes a store call, its response is sent. -/
inductive Label
  | request (i : Nat) (q : KeyRequest)
  | call (i : Nat)
  | respond (i : Nat) (r : Response)

/-- One step of the service. -/
inductive ServiceStep : ServiceState → Label → ServiceState → Prop
  | request (s : ServiceState) (i : Nat) (q : KeyRequest) (h : s.handler i = .idle) :
      ServiceStep s (.request i q) (s.setHandler i (.called q))
  | call (s : ServiceState) (i : Nat) (h : Handler) (m : StringMap)
      (hcall : performCall (s.handler i) s.m = some (h, m)) :
      ServiceStep s (.call i) (({ s with m := m } : ServiceState).setHandler i h)
  | respond (s : ServiceState) (i : Nat) (q : KeyRequest) (r : Response)
      (h : s.handler i = .ready q r) :
      ServiceStep s (.respond i r) (s.setHandler i (.responded q r))

/-- A store call of a handler whose place is known. -/
theorem ServiceStep.of_handler {s : ServiceState} {i : Nat} {h₀ h : Handler} {m : StringMap}
    (hi : s.handler i = h₀) (hcall : performCall h₀ s.m = some (h, m)) :
    ServiceStep s (.call i) (({ s with m := m } : ServiceState).setHandler i h) :=
  .call s i h m (by rw [hi]; exact hcall)

/-- No request has arrived. -/
def ServiceState.start (m : StringMap) : ServiceState := ⟨m, fun _ => .idle⟩

/-- The event a client sees of a step. -/
def Label.event : Label → Option (Event KeyRequest Response)
  | .request i q => some (.call i q)
  | .call _ => none
  | .respond i r => some (.response i r)

/-- What the clients see of a run. -/
def eventsOf (as : List Label) : List (Event KeyRequest Response) := as.filterMap Label.event

/-- A request as one read, set or delete of its key. -/
def atomicRequest : KeyRequest → StringMap → Response × StringMap
  | .GET path, m =>
    let k := getKey path
    (⟨if k = [] then 400 else 200, marshalMap (Finmap.singleton k (Fsm.get k m))⟩, m)
  | .POST e, m => (⟨200, []⟩, m.insert e.key e.value)
  | .DELETE path, m =>
    let k := getKey path
    if k = [] then (⟨400, []⟩, m) else (⟨200, []⟩, m.erase k)

/-! ### One request alone -/

/-- The store of a leader that takes every write. -/
def leaderStore : StoreInterface StringMap where
  get key m := (some (Fsm.get key m), m)
  set key value m := (true, applied (.set key value) m)
  delete key m := (true, applied (.delete key) m)
  join _ _ m := (true, m)

/-- The key request that an HTTP request is. -/
inductive Asks : Request → KeyRequest → Prop
  | GET (path body : Bytes) : Asks ⟨"GET", path, body⟩ (.GET path)
  | POST (path body : Bytes) (e : PostEntry)
      (h : decodeMap body = some (some (Finmap.singleton e.key e.value))) :
      Asks ⟨"POST", path, body⟩ (.POST e)
  | DELETE (path body : Bytes) : Asks ⟨"DELETE", path, body⟩ (.DELETE path)

/-- A body that decodes to one entry is a `POST` with one key. -/
theorem exists_asks_post (path : Bytes) {body k v : Bytes}
    (h : decodeMap body = some (some (Finmap.singleton k v))) :
    ∃ e, e.key = k ∧ e.value = v ∧ Asks ⟨"POST", path, body⟩ (.POST e) := by
  obtain ⟨hk, hv⟩ := decodeMap_valid h k v (Finmap.lookup_singleton_eq)
  exact ⟨⟨k, v, hk, hv⟩, rfl, rfl, .POST path body ⟨k, v, hk, hv⟩ h⟩

/-- A request whose handler makes one store call. -/
theorem run_oneCall {q : KeyRequest} {m m' : StringMap} {r : Response}
    (hcall : performCall (.called q) m = some (.ready q r, m')) :
    ∃ s, Run ServiceStep (.start m) [.request 0 q, .call 0, .respond 0 r] s ∧ s.m = m' := by
  have h₁ := ServiceStep.request (.start m) 0 q rfl
  have h₂ := ServiceStep.of_handler (setHandler_same (.start m) 0 (.called q)) hcall
  exact ⟨_, ((Run.single h₁).snoc h₂).snoc (.respond _ 0 q r (setHandler_same _ 0 _)), rfl⟩

/-- A request whose handler makes two. -/
theorem run_twoCalls {q : KeyRequest} {r : Response} {m m₂ : StringMap} (k : Bytes)
    (m₁ : StringMap)
    (hcall₁ : performCall (.called q) m = some (.deleteAgain q k, m₁))
    (hcall₂ : performCall (.deleteAgain q k) m₁ = some (.ready q r, m₂)) :
    ∃ s, Run ServiceStep (.start m) [.request 0 q, .call 0, .call 0, .respond 0 r] s ∧
      s.m = m₂ := by
  have h₁ := ServiceStep.request (.start m) 0 q rfl
  have h₂ := ServiceStep.of_handler (setHandler_same (.start m) 0 (.called q)) hcall₁
  have h₃ := ServiceStep.of_handler (setHandler_same
    ⟨m₁, ((ServiceState.start m).setHandler 0 (.called q)).handler⟩ 0 (.deleteAgain q k)) hcall₂
  exact ⟨_, (((Run.single h₁).snoc h₂).snoc h₃).snoc (.respond _ 0 q r (setHandler_same _ 0 _)),
    rfl⟩

/-- **A request alone** is answered, and changes the map, as `handleKeyRequest` says. -/
theorem serves_alone (ord : RangeOrder) {r : Request} {q : KeyRequest} (h : Asks r q)
    (m : StringMap) :
    let x := handleKeyRequest leaderStore ord r (.start m)
    ∃ n s, Run ServiceStep (.start m)
        (.request 0 q :: List.replicate n (.call 0) ++ [.respond 0 ⟨x.status, x.w.body⟩]) s ∧
      s.m = x.store := by
  intro x
  cases h with
  | GET path body =>
    refine ⟨1, run_oneCall ?_⟩
    by_cases hk : getKey path = []
    · simp [x, performCall, handleKeyRequest, handleGET, Exchange.perform, Exchange.writeHeader,
        Exchange.writeString, Exchange.status, Exchange.start, leaderStore, hk]
    · simp [x, performCall, handleKeyRequest, handleGET, Exchange.perform, Exchange.writeString,
        Exchange.status, Exchange.start, leaderStore, hk]
  | POST path body e hbody =>
    refine ⟨1, run_oneCall ?_⟩
    simp [x, performCall, handleKeyRequest, handlePOST, hbody, entries_singleton, setAll,
      Exchange.perform, Exchange.status, Exchange.start, leaderStore]
  | DELETE path body =>
    by_cases hk : getKey path = []
    · refine ⟨1, run_oneCall ?_⟩
      simp [x, performCall, handleKeyRequest, handleDELETE, Exchange.writeHeader, Exchange.status,
        Exchange.start, hk]
    · refine ⟨2, run_twoCalls (getKey path) (applied (.delete (getKey path)) m) ?_ ?_⟩
      · simp [performCall, hk]
      · simp [x, performCall, handleKeyRequest, handleDELETE, Exchange.perform, Exchange.status,
          Exchange.start, leaderStore, hk]

/-! ### Refinement -/

/-- Where the operation of a handler is: a `DELETE` has taken effect with its first call. -/
def Handler.phase : Handler → Phase KeyRequest Response
  | .idle => .idle
  | .called q => .called q
  | .deleteAgain q _ => .effected q ⟨200, []⟩
  | .ready q r => .effected q r
  | .responded q r => .responded q r

/-- The state of the atomic machine. -/
def ServiceState.atomic (s : ServiceState) : AtomicState StringMap KeyRequest Response :=
  ⟨s.m, fun i => (s.handler i).phase⟩

@[simp] theorem atomic_setHandler (s : ServiceState) (i : Nat) (h : Handler) :
    (s.setHandler i h).atomic = ⟨s.m, setPhase s.atomic.phase i h.phase⟩ := by
  unfold ServiceState.atomic ServiceState.setHandler setPhase
  congr 1
  funext j
  by_cases hj : j = i <;> simp [hj]

/-- The first `Delete` of a handler removes its key and no other: the key is text, or neither
    it nor the key that is read back in its place is in the map. -/
def RemovesKey (k : Bytes) (m : StringMap) : Prop :=
  Valid k ∨ m.lookup k = none ∧ m.lookup (toValid k) = none

/-- What a step needs: a first `Delete` removes its key and no other, and a second one finds
    nothing to remove. -/
def DeletesOnce (s : ServiceState) : Label → Prop
  | .call i =>
    match s.handler i with
    | .called (.DELETE path) => RemovesKey (getKey path) s.m
    | .deleteAgain _ k => s.m.lookup (toValid k) = none
    | _ => True
  | _ => True

/-- Under the guard the entry of `Delete` erases the key. -/
theorem applied_delete_of_removesKey {k : Bytes} {m : StringMap} (h : RemovesKey k m) :
    applied (.delete k) m = m.erase k := by
  rw [applied_eq, LogCall.effect]
  rcases h with hk | ⟨hnone, hnone'⟩
  · rw [hk.toValid_eq]
  · rw [erase_eq_self hnone, erase_eq_self hnone']

/-- A second `Delete` that finds nothing. -/
theorem applied_delete_of_absent {k : Bytes} {m : StringMap} (h : m.lookup (toValid k) = none) :
    applied (.delete k) m = m := by
  rw [applied_eq, LogCall.effect, erase_eq_self h]

/-- The entry of a `POST`, whose key and value are text, binds the one to the other. -/
theorem applied_set_post (e : PostEntry) (m : StringMap) :
    applied (.set e.key e.value) m = m.insert e.key e.value := by
  rw [applied_eq, LogCall.effect, e.validKey.toValid_eq, e.validValue.toValid_eq]

/-- A store call of a handler that has just been called is the effect of its request. -/
theorem performCall_called {q : KeyRequest} {m m' : StringMap} {h : Handler}
    (hguard : ∀ path, q = .DELETE path → RemovesKey (getKey path) m)
    (hcall : performCall (.called q) m = some (h, m')) :
    h.phase = .effected q (atomicRequest q m).1 ∧ m' = (atomicRequest q m).2 := by
  cases q with
  | GET path =>
    obtain ⟨rfl, rfl⟩ := Prod.mk.inj (Option.some.inj hcall)
    exact ⟨rfl, rfl⟩
  | POST e =>
    obtain ⟨rfl, rfl⟩ := Prod.mk.inj (Option.some.inj hcall)
    exact ⟨rfl, applied_set_post e m⟩
  | DELETE path =>
    simp only [performCall] at hcall
    simp only [atomicRequest]
    split at hcall
    · rename_i hk
      obtain ⟨rfl, rfl⟩ := Prod.mk.inj (Option.some.inj hcall)
      rw [if_pos hk]
      exact ⟨rfl, rfl⟩
    · rename_i hk
      obtain ⟨rfl, rfl⟩ := Prod.mk.inj (Option.some.inj hcall)
      rw [if_neg hk]
      exact ⟨rfl, applied_delete_of_removesKey (hguard path rfl)⟩

/-- **A step of the service** that deletes once is a step of the atomic machine, or nothing to
    it. -/
theorem serviceStep_refines {s s' : ServiceState} {a : Label}
    (h : guarded ServiceStep DeletesOnce s a s') :
    ∃ as, Run (AtomicStep atomicRequest) s.atomic as s'.atomic ∧
      historyOf as = a.event.toList := by
  obtain ⟨hguard, hstep⟩ := h
  cases hstep with
  | request i q hidle =>
    refine ⟨[some (.call i q)], ?_, rfl⟩
    rw [atomic_setHandler]
    exact Run.single (.call s.atomic i q (by simp [ServiceState.atomic, hidle, Handler.phase]))
  | call i h m hcall =>
    rw [atomic_setHandler]
    -- the first store call of a handler is its effect
    cases hi : s.handler i with
    | called q =>
      rw [hi] at hcall
      have hremoves : ∀ path, q = .DELETE path → RemovesKey (getKey path) s.m := by
        rintro path rfl
        simpa only [DeletesOnce, hi] using hguard
      obtain ⟨hphase, rfl⟩ := performCall_called hremoves hcall
      refine ⟨[none], ?_, rfl⟩
      rw [hphase]
      exact Run.single (.effect s.atomic i q (by simp [ServiceState.atomic, hi, Handler.phase]))
    | deleteAgain q k =>
      -- the key is gone already, so the machine stands still
      rw [hi] at hcall
      obtain ⟨rfl, rfl⟩ := Prod.mk.inj (Option.some.inj hcall)
      refine ⟨[], ?_, rfl⟩
      have habsent : s.m.lookup (toValid k) = none := by simpa only [DeletesOnce, hi] using hguard
      have hsame : (⟨applied (.delete k) s.m,
          setPhase s.atomic.phase i (Handler.ready q ⟨200, []⟩).phase⟩ :
            AtomicState StringMap KeyRequest Response) = s.atomic := by
        rw [applied_delete_of_absent habsent]
        unfold ServiceState.atomic setPhase
        congr 1
        funext j
        split
        · rename_i hj; rw [hj, hi]; rfl
        · rfl
      show Run (AtomicStep atomicRequest) s.atomic [] ⟨applied (.delete k) s.m,
        setPhase s.atomic.phase i (Handler.ready q ⟨200, []⟩).phase⟩
      rw [hsame]
      exact Run.nil _
    | idle => rw [hi] at hcall; simp [performCall] at hcall
    | ready q r => rw [hi] at hcall; simp [performCall] at hcall
    | responded q r => rw [hi] at hcall; simp [performCall] at hcall
  | respond i q r hready =>
    refine ⟨[some (.response i r)], ?_, rfl⟩
    rw [atomic_setHandler]
    exact Run.single
      (.response s.atomic i q r (by simp [ServiceState.atomic, hready, Handler.phase]))

/-- **Runs whose deletions take effect once are linearizable**: some order of the requests that
    respects real time explains every response and the final map. -/
theorem service_linearizable {m : StringMap} {as : List Label} {s : ServiceState}
    (h : Run (guarded ServiceStep DeletesOnce) (ServiceState.start m) as s) :
    ∃ ops, Linearization atomicRequest (eventsOf as) m s.m ops := by
  have hsim : ∃ bs, Run (AtomicStep atomicRequest) (AtomicState.start m) bs s.atomic ∧
      historyOf bs = eventsOf as := by
    refine h.invariantTrace (fun as s => ∃ bs, Run (AtomicStep atomicRequest)
      (AtomicState.start m) bs s.atomic ∧ historyOf bs = eventsOf as) ?_ ⟨[], Run.nil _, rfl⟩
    rintro as s a t ⟨bs, hrun, hhist⟩ hstep
    obtain ⟨cs, hrun', hevent⟩ := serviceStep_refines hstep
    refine ⟨bs ++ cs, hrun.append hrun', ?_⟩
    have happ : historyOf (bs ++ cs) = historyOf bs ++ historyOf cs := List.filterMap_append
    rw [happ, hhist, hevent]
    unfold eventsOf
    rw [List.filterMap_append]
    cases ha : a.event <;> simp [ha]
  obtain ⟨bs, hrun, hhist⟩ := hsim
  obtain ⟨ops, hlin⟩ := AtomicStep.run_linearization hrun
  rw [hhist] at hlin
  exact ⟨ops, hlin⟩

/-! ### Two runs -/

/-- The key of the two runs, and its path. -/
def sampleKey : Bytes := encode ['x']

def samplePath : Bytes := keyPath sampleKey

theorem getKey_samplePath : getKey samplePath = sampleKey := getKey_keyPath (by decide)

theorem toValid_sampleKey : toValid sampleKey = sampleKey := (valid_encode ['x']).toValid_eq

/-- Binding the key. -/
def samplePost (cs : List Char) : PostEntry :=
  ⟨sampleKey, encode cs, valid_encode ['x'], valid_encode cs⟩

/-- The first call for a `DELETE` of the key. -/
theorem performCall_sampleDelete (m : StringMap) :
    performCall (.called (.DELETE samplePath)) m =
      some (.deleteAgain (.DELETE samplePath) sampleKey, applied (.delete sampleKey) m) := by
  simp only [performCall, getKey_samplePath]
  rfl

/-- The call for a `GET` of the key. -/
theorem performCall_sampleGet (m : StringMap) :
    performCall (.called (.GET samplePath)) m =
      some (.ready (.GET samplePath)
        ⟨200, marshalMap (Finmap.singleton sampleKey (Fsm.get sampleKey m))⟩, m) := by
  simp only [performCall, getKey_samplePath]
  rfl

/-- Behind a `Delete` the key is gone. -/
theorem lookup_applied_delete (m : StringMap) :
    (applied (.delete sampleKey) m).lookup sampleKey = none := by
  rw [applied_eq, LogCall.effect, toValid_sampleKey, Finmap.lookup_erase]

/-- A deletion on its own. -/
theorem service_linearizable_delete : ∃ s ops,
    Linearization atomicRequest (eventsOf [.request 0 (.DELETE samplePath), .call 0, .call 0,
      .respond 0 ⟨200, []⟩]) (Finmap.singleton sampleKey (encode ['v'])) s ops ∧
      s.lookup sampleKey = none := by
  have hstart : guarded ServiceStep DeletesOnce
      (ServiceState.start (Finmap.singleton sampleKey (encode ['v'])))
      (.request 0 (.DELETE samplePath)) _ := ⟨trivial, .request _ 0 _ rfl⟩
  have hremoves : RemovesKey (getKey samplePath) (Finmap.singleton sampleKey (encode ['v'])) := by
    rw [getKey_samplePath]
    exact Or.inl (valid_encode ['x'])
  have hfirst := (Run.single hstart).snoc (a := Label.call 0)
    ⟨hremoves, .of_handler rfl (performCall_sampleDelete _)⟩
  -- the second call finds nothing
  have habsent : (applied (.delete sampleKey) (Finmap.singleton sampleKey (encode ['v']))).lookup
      (toValid sampleKey) = none := by
    rw [toValid_sampleKey]
    exact lookup_applied_delete _
  have hsecond := hfirst.snoc (a := Label.call 0) ⟨habsent, .of_handler rfl rfl⟩
  have hrun := hsecond.snoc (a := Label.respond 0 ⟨200, []⟩) ⟨trivial, .respond _ 0 _ _ rfl⟩
  obtain ⟨ops, hops⟩ := service_linearizable hrun
  exact ⟨_, ops, hops, lookup_applied_delete _⟩

/-- A key is posted, deleted, read and posted again, and only then does the handler of the
    deletion make its second call. -/
def lostUpdate : List Label :=
  [.request 0 (.POST (samplePost ['o', 'l', 'd'])), .call 0, .respond 0 ⟨200, []⟩,
    .request 1 (.DELETE samplePath), .call 1,
    .request 2 (.GET samplePath), .call 2,
    .respond 2 ⟨200, marshalMap (Finmap.singleton sampleKey [])⟩,
    .request 3 (.POST (samplePost ['n', 'e', 'w'])), .call 3, .respond 3 ⟨200, []⟩,
    .call 1, .respond 1 ⟨200, []⟩]

/-- The requests of that run with their responses. -/
def lostUpdateOp : Nat → Op KeyRequest Response
  | 0 => ⟨0, .POST (samplePost ['o', 'l', 'd']), ⟨200, []⟩⟩
  | 1 => ⟨1, .DELETE samplePath, ⟨200, []⟩⟩
  | 2 => ⟨2, .GET samplePath, ⟨200, marshalMap (Finmap.singleton sampleKey [])⟩⟩
  | _ => ⟨3, .POST (samplePost ['n', 'e', 'w']), ⟨200, []⟩⟩

/-- The service goes through it, and the key is gone at the end. -/
theorem run_lostUpdate :
    ∃ s, Run ServiceStep (ServiceState.start ∅) lostUpdate s ∧ s.m.lookup sampleKey = none := by
  have h₁ := (Run.single (ServiceStep.request (ServiceState.start ∅) 0
    (.POST (samplePost ['o', 'l', 'd'])) rfl)).snoc (a := Label.call 0) (.of_handler rfl rfl)
  have h₂ := h₁.snoc (.respond _ 0 _ ⟨200, []⟩ rfl)
  have h₃ := h₂.snoc (.request _ 1 (.DELETE samplePath) rfl)
  have h₄ := h₃.snoc (a := Label.call 1) (.of_handler rfl (performCall_sampleDelete _))
  have h₅ := h₄.snoc (.request _ 2 (.GET samplePath) rfl)
  have h₆ := h₅.snoc (a := Label.call 2) (.of_handler rfl (performCall_sampleGet _))
  -- the read sees the deletion
  have hread : Fsm.get sampleKey (applied (.delete sampleKey)
      (applied (.set sampleKey (encode ['o', 'l', 'd'])) ∅)) = [] := by
    rw [Fsm.get, lookup_applied_delete, Option.getD_none]
  have h₇ := h₆.snoc (.respond _ 2 (.GET samplePath)
    ⟨200, marshalMap (Finmap.singleton sampleKey [])⟩ (by rw [← hread]; rfl))
  have h₈ := h₇.snoc (.request _ 3 (.POST (samplePost ['n', 'e', 'w'])) rfl)
  have h₉ := h₈.snoc (a := Label.call 3) (.of_handler rfl rfl)
  have h₁₀ := h₉.snoc (.respond _ 3 _ ⟨200, []⟩ rfl)
  have h₁₁ := h₁₀.snoc (a := Label.call 1) (.of_handler rfl rfl)
  exact ⟨_, h₁₁.snoc (.respond _ 1 _ ⟨200, []⟩ rfl), lookup_applied_delete _⟩

/-- Every linearization of the run lists its four requests in an order in which the first
    `POST` comes before the `DELETE` and the `GET`, and the `GET` before the second `POST`. -/
theorem lostUpdate_orders {m m' : StringMap} {ops : List (Op KeyRequest Response)}
    (h : Linearization atomicRequest (eventsOf lostUpdate) m m' ops) :
    ∃ ids, ids ∈ [[0, 1, 2, 3], [0, 2, 1, 3], [0, 2, 3, 1]] ∧ ops = ids.map lostUpdateOp := by
  have hids : ∀ o ∈ ops, o.id ∈ [0, 1, 2, 3] ∧ o.req = (lostUpdateOp o.id).req := by
    intro o ho
    have hcall := h.called o ho
    simp only [eventsOf, lostUpdate, List.filterMap_cons, Label.event, List.filterMap_nil,
      List.mem_cons, Event.call.injEq, reduceCtorEq, false_or, or_false, List.not_mem_nil] at hcall
    rcases hcall with ⟨hi, hq⟩ | ⟨hi, hq⟩ | ⟨hi, hq⟩ | ⟨hi, hq⟩ <;> rw [hi, hq] <;>
      exact ⟨by decide, rfl⟩
  have hres : ∀ i ∈ [0, 1, 2, 3], ∃ o ∈ ops, o.id = i ∧ o.res = (lostUpdateOp i).res := by
    intro i hi
    refine h.completed i _ ?_
    simp only [List.mem_cons, List.not_mem_nil, or_false] at hi
    rcases hi with rfl | rfl | rfl | rfl <;> simp [eventsOf, lostUpdate, Label.event, lostUpdateOp]
  -- a linearization holds each of the four once, with the response it got
  have hop : ∀ o ∈ ops, o = lostUpdateOp o.id := by
    intro o ho
    obtain ⟨hi, hq⟩ := hids o ho
    obtain ⟨o', ho', hid, hr⟩ := hres o.id hi
    obtain rfl : o' = o := List.inj_on_of_nodup_map h.nodup ho' ho hid
    have hid' : (lostUpdateOp o'.id).id = o'.id := by
      generalize o'.id = i at hi
      simp only [List.mem_cons, List.not_mem_nil, or_false] at hi
      rcases hi with rfl | rfl | rfl | rfl <;> rfl
    exact Op.ext hid'.symm hq hr
  have hperm : (ops.map Op.id).Perm [0, 1, 2, 3] := by
    refine (List.perm_ext_iff_of_nodup h.nodup (by decide)).mpr fun i => ⟨?_, ?_⟩
    · intro hi
      obtain ⟨o, ho, rfl⟩ := List.mem_map.mp hi
      exact (hids o ho).1
    · intro hi
      obtain ⟨o, ho, rfl, -⟩ := hres i hi
      exact List.mem_map_of_mem ho
  have hbefore : ∀ i j, j ∈ [0, 1, 2, 3] → Precedes (eventsOf lostUpdate) i j →
      (ops.map Op.id).idxOf i < (ops.map Op.id).idxOf j := fun i j _ hp =>
    h.realTime i j hp (hperm.mem_iff.mpr ‹_›)
  -- of the 24 orders, three respect what happened before what
  have h01 := hbefore 0 1 (by decide)
    ⟨[.call 0 (.POST (samplePost ['o', 'l', 'd']))], _, _, .DELETE samplePath, rfl,
      by simp [Label.event]⟩
  have h02 := hbefore 0 2 (by decide)
    ⟨[.call 0 (.POST (samplePost ['o', 'l', 'd']))], _, _, .GET samplePath, rfl,
      by simp [Label.event]⟩
  have h23 := hbefore 2 3 (by decide)
    ⟨[.call 0 (.POST (samplePost ['o', 'l', 'd'])), .response 0 ⟨200, []⟩,
      .call 1 (.DELETE samplePath), .call 2 (.GET samplePath)], _, _,
      .POST (samplePost ['n', 'e', 'w']), rfl, by simp [Label.event]⟩
  refine ⟨ops.map Op.id, ?_, ?_⟩
  · have hmem := List.mem_permutations'.mpr hperm
    generalize ops.map Op.id = ids at hmem h01 h02 h23
    revert ids
    decide
  · rw [List.map_map]
    exact (List.map_id' ops).symm.trans (List.map_congr_left hop)

/-- A `GET` of the key right behind the first `POST` shows the posted value. -/
theorem sampleGet_shows_value (m : StringMap) :
    (atomicRequest (.GET samplePath) (m.insert sampleKey (encode ['o', 'l', 'd']))).1 ≠
      ⟨200, marshalMap (Finmap.singleton sampleKey [])⟩ := by
  intro heq
  have hbody : marshalMap (Finmap.singleton (getKey samplePath) (Fsm.get (getKey samplePath)
      (m.insert sampleKey (encode ['o', 'l', 'd'])))) =
        marshalMap (Finmap.singleton sampleKey []) := congrArg Response.body heq
  rw [getKey_samplePath, Fsm.get, Finmap.lookup_insert, Option.getD_some] at hbody
  have hkey : Valid sampleKey := valid_encode ['x']
  have hread := congrArg decodeMap hbody
  rw [decodeMap_marshalMap (allValid_singleton hkey (valid_encode _)),
    decodeMap_marshalMap (allValid_singleton hkey valid_nil)] at hread
  -- two different maps would be read back as one
  have hlookup := congrArg (Finmap.lookup sampleKey) (Option.some.inj (Option.some.inj hread))
  rw [Finmap.lookup_singleton_eq, Finmap.lookup_singleton_eq] at hlookup
  exact absurd (Option.some.inj hlookup) (by decide)

/-- **A second `Delete` can lose an acknowledged write.** The run goes through, and no order
    of its requests explains it: the read saw the key gone, so the deletion was visible, and
    the value posted after that read is gone at the end. -/
theorem service_not_linearizable :
    ∃ s, Run ServiceStep (ServiceState.start ∅) lostUpdate s ∧
      ∀ ops, ¬ Linearization atomicRequest (eventsOf lostUpdate) ∅ s.m ops := by
  obtain ⟨s, hrun, hx⟩ := run_lostUpdate
  refine ⟨s, hrun, fun ops h => ?_⟩
  obtain ⟨ids, hids, rfl⟩ := lostUpdate_orders h
  have hlegal := h.legal
  simp only [List.mem_cons, List.not_mem_nil, or_false] at hids
  rcases hids with rfl | rfl | rfl
  · -- the deletion first: the posted value is still there
    simp only [List.map_cons, List.map_nil, lostUpdateOp, Replays] at hlegal
    rw [← hlegal.2.2.2.2] at hx
    have hposted : ∀ m,
        ((atomicRequest (.POST (samplePost ['n', 'e', 'w'])) m).2).lookup sampleKey =
          some (encode ['n', 'e', 'w']) := fun m => Finmap.lookup_insert m
    rw [hposted] at hx
    exact absurd hx (by simp)
  · simp only [List.map_cons, List.map_nil, lostUpdateOp, Replays] at hlegal
    exact sampleGet_shows_value ∅ hlegal.2.1
  · simp only [List.map_cons, List.map_nil, lostUpdateOp, Replays] at hlegal
    exact sampleGet_shows_value ∅ hlegal.2.1

end OSPortfolio.Chubby.Httpd
