import OSPortfolio.Lib.Run
import OSPortfolio.Chubby.Membership

namespace OSPortfolio.Chubby.Membership

open OSPortfolio.Utf8 OSPortfolio.Lts

/-!
# Nodes that join at the same time

The leader serves each join request on its own, so between two Raft operations of one call of
`Store.Join` come operations of other calls, and the servers that the call walks over are those
that it has read.

* `Pc`, `Call`, `Call.step` — a call, one Raft operation at a time;
* `Call.alone_join` — without other calls it does what `join` does;
* `Joining`, `joinEvent`, `JoinStep` — any number of calls, in any order;
* `Call.Targets` — the call has the ID, or has read a server with the ID at its own address;
* `joins_safe` — **a call that returns nil leaves its node in the configuration, and a server
  goes only through a call that targets it**;
* `joins_owned` — if no two nodes use one address, that is a call of its own node.
-/

/-- The Raft operation that a call waits for, or what it has returned. -/
inductive Pc
  | reading
  | removing (srv : Server) (rest : List Server)
  | adding
  | returned (error : Option Error)
  deriving DecidableEq

/-- A call of `Store.Join(nodeID, addr)`, with the servers of the configuration it has read. -/
structure Call where
  nodeID : Bytes
  addr : Bytes
  config : List Server := []
  pc : Pc := .reading
  deriving DecidableEq

/-- The loop over the servers, up to the next operation. -/
def Call.walk (c : Call) : List Server → Call
  | [] => { c with pc := .adding }
  | srv :: rest =>
    if srv.ID = c.nodeID ∨ srv.address = c.addr then
      if srv.address = c.addr ∧ srv.ID = c.nodeID then { c with pc := .returned none }
      else { c with pc := .removing srv rest }
    else c.walk rest

/-- One operation, with the error of its future, on the servers of the configuration. -/
def Call.step (R : Ops) (error : Option Error) (c : Call) (servers : List Server) :
    Option (Call × List Server) :=
  match c.pc, error with
  | .reading, none => some ({ c with config := servers }.walk servers, servers)
  | .reading, some e => some ({ c with pc := .returned (some e) }, servers)
  | .removing srv rest, none => some (c.walk rest, R.removeServer srv.ID servers)
  | .removing _ _, some e =>
    some ({ c with pc := .returned (some (removingError c.nodeID c.addr e)) }, servers)
  | .adding, none => some ({ c with pc := .returned none }, R.addVoter c.nodeID c.addr servers)
  | .adding, some e => some ({ c with pc := .returned (some e) }, servers)
  | .returned _, _ => none

/-! ### A call alone -/

section
variable (R : Ops)

/-- The next operation with the next answer. -/
def Call.Alone (s : Call × RaftState) (_ : Unit) (t : Call × RaftState) : Prop :=
  s.1.step R (s.2.answers 0).error s.2.servers = some (t.1, t.2.servers) ∧
    t.2.answers = fun i => s.2.answers (i + 1)

/-- `s` comes to the end `x`. -/
def Call.Ends (s : Call × RaftState) (x : Option Error × RaftState) : Prop :=
  ∃ us c, Run (Call.Alone R) s us (c, x.2) ∧ c.pc = .returned x.1

/-- A step in front of the end. -/
theorem Call.Ends.step {s t : Call × RaftState} {x : Option Error × RaftState}
    (hstep : Call.Alone R s () t) (h : Call.Ends R t x) : Call.Ends R s x := by
  obtain ⟨us, c, hrun, hc⟩ := h
  exact ⟨() :: us, c, Run.cons hstep hrun, hc⟩

/-- A call that has returned is at its end. -/
theorem Call.Ends.of_returned {c : Call} {e : Option Error} (r : RaftState)
    (hc : c.pc = .returned e) : Call.Ends R (c, r) (e, r) :=
  ⟨[], c, Run.nil _, hc⟩

/-- The loop, and the addition behind it. -/
theorem Call.ends_walk {nodeID addr : Bytes} (rest : List Server) (c : Call)
    (hID : c.nodeID = nodeID) (haddr : c.addr = addr) (r : RaftState) :
    Call.Ends R (c.walk rest, r) ((removeMatching R nodeID addr rest r).finish R nodeID addr) := by
  subst hID haddr
  induction rest generalizing c r with
  | nil =>
    -- `AddVoter`
    show Call.Ends R _ (r.call (R.addVoter c.nodeID c.addr))
    rw [RaftState.call]
    cases herr : (r.answers 0).error with
    | some e =>
      refine Call.Ends.step R (t := ({ c with pc := .returned (some e) }, r.skip 1)) ⟨?_, rfl⟩
        (Call.Ends.of_returned R _ rfl)
      rw [herr]
      rfl
    | none =>
      refine Call.Ends.step R (t := ({ c with pc := .returned none },
        { r.skip 1 with servers := R.addVoter c.nodeID c.addr r.servers })) ⟨?_, rfl⟩
        (Call.Ends.of_returned R _ rfl)
      rw [herr]
      rfl
  | cons srv rest ih =>
    rw [Call.walk, removeMatching]
    by_cases hm : srv.ID = c.nodeID ∨ srv.address = c.addr
    · rw [if_pos hm, if_pos hm]
      by_cases hfull : srv.address = c.addr ∧ srv.ID = c.nodeID
      · rw [if_pos hfull, if_pos hfull]
        exact Call.Ends.of_returned R _ rfl
      · rw [if_neg hfull, if_neg hfull, RaftState.call]
        cases herr : (r.answers 0).error with
        | some e =>
          refine Call.Ends.step R (t := (_, r.skip 1)) ⟨?_, rfl⟩
            (Call.Ends.of_returned R (c := { c with pc := .returned _ }) _ rfl)
          rw [herr]
          rfl
        | none =>
          refine Call.Ends.step R ⟨?_, rfl⟩ (ih { c with pc := .removing srv rest }
            { r.skip 1 with servers := R.removeServer srv.ID r.servers })
          rw [herr]
          rfl
    · rw [if_neg hm, if_neg hm]
      exact ih c r

/-- **A call without others** does what `join` does. -/
theorem Call.alone_join (nodeID addr : Bytes) (r : RaftState) :
    Call.Ends R ({ nodeID := nodeID, addr := addr }, r) (join R nodeID addr r) := by
  rw [join, RaftState.call]
  cases herr : (r.answers 0).error with
  | some e =>
    refine Call.Ends.step R (t := (_, r.skip 1)) ⟨?_, rfl⟩
      (Call.Ends.of_returned R (c := { nodeID, addr, pc := .returned (some e) }) _ rfl)
    rw [herr]
    rfl
  | none =>
    refine Call.Ends.step R ⟨?_, rfl⟩ (Call.ends_walk R r.servers
      { nodeID, addr, config := r.servers } rfl rfl { r.skip 1 with servers := r.servers })
    rw [herr]
    rfl

end

/-! ### Calls at the same time -/

/-- The servers of the configuration, and the calls in the order in which they came. -/
structure Joining where
  servers : List Server
  calls : List Call
  deriving DecidableEq

/-- A request comes, or Raft completes the operation that a call waits for. -/
inductive JoinEvent
  | call (nodeID addr : Bytes)
  | complete (i : Nat) (error : Option Error)

def joinEvent (R : Ops) (s : Joining) : JoinEvent → Option Joining
  | .call nodeID addr => some { s with calls := s.calls ++ [{ nodeID := nodeID, addr := addr }] }
  | .complete i error =>
    s.calls[i]?.bind fun c => (c.step R error s.servers).bind fun x =>
      -- Raft refuses configurations in which two servers have the same ID or address
      if Distinct x.2 then some ⟨x.2, s.calls.set i x.1⟩ else none

/-- `joinEvent` as a relation. -/
def JoinStep (R : Ops) (s : Joining) (e : JoinEvent) (t : Joining) : Prop :=
  joinEvent R s e = some t

/-- What else is known of `AddVoter`: the server is in the configuration behind it, those with
    other IDs stay, and there are no others. -/
structure Ops.Adds (R : Ops) : Prop extends R.Lawful where
  addVoter_mem : ∀ id addr c, IsMember id addr (R.addVoter id addr c)
  addVoter_other : ∀ id addr c, ∀ srv ∈ c, srv.ID ≠ id → srv ∈ R.addVoter id addr c
  addVoter_old : ∀ id addr c, ∀ srv ∈ R.addVoter id addr c, srv ∈ c ∨ Member id addr srv

/-- `raftOps` adds as Raft does. -/
theorem raftOps_adds : raftOps.Adds where
  toLawful := raftOps_lawful
  addVoter_mem id addr c := by
    show IsMember id addr (if _ then _ else _)
    split
    · rename_i h
      obtain ⟨srv, hsrv, hID⟩ := h
      exact ⟨_, List.mem_map.mpr ⟨srv, hsrv, if_pos hID⟩, rfl, rfl⟩
    · exact ⟨⟨.voter, id, addr⟩, by simp, rfl, rfl⟩
  addVoter_other id addr c srv hsrv hID := by
    show srv ∈ if _ then _ else _
    split
    · exact List.mem_map.mpr ⟨srv, hsrv, if_neg hID⟩
    · exact List.mem_append_left _ hsrv
  addVoter_old id addr c srv hsrv := by
    rw [show raftOps.addVoter id addr c = if _ then _ else _ from rfl] at hsrv
    split at hsrv
    · obtain ⟨s, hs, rfl⟩ := List.mem_map.mp hsrv
      by_cases hID : s.ID = id
      · rw [if_pos hID]
        exact .inr ⟨rfl, rfl⟩
      · rw [if_neg hID]
        exact .inl hs
    · rcases List.mem_append.mp hsrv with hsrv | hsrv
      · exact .inl hsrv
      · obtain rfl := List.mem_singleton.mp hsrv
        exact .inr ⟨rfl, rfl⟩

/-- The call has the ID, or it has read a server with the ID that has its address. -/
def Call.Targets (c : Call) (id : Bytes) : Prop :=
  c.nodeID = id ∨ ∃ srv ∈ c.config, srv.ID = id ∧ srv.address = c.addr

/-- A call in the middle of its loop has read the server that it removes, which is in the way,
    and those behind it, in a configuration that Raft allows. -/
structure Call.Walking (c : Call) : Prop where
  distinct : Distinct c.config
  removing : ∀ srv rest, c.pc = .removing srv rest →
    srv ∈ c.config ∧ rest ⊆ c.config ∧ Matches c.nodeID c.addr srv ∧
      ¬ Member c.nodeID c.addr srv

/-- How far the loop comes. -/
theorem Call.walk_spec (c : Call) (l : List Server) :
    ∃ pc, c.walk l = { c with pc := pc } ∧
      (pc = .returned none → IsMember c.nodeID c.addr l) ∧
      ∀ srv rest, pc = .removing srv rest →
        srv ∈ l ∧ rest ⊆ l ∧ Matches c.nodeID c.addr srv ∧ ¬ Member c.nodeID c.addr srv := by
  induction l with
  | nil => exact ⟨.adding, rfl, fun h => (nomatch h), fun _ _ h => (nomatch h)⟩
  | cons srv rest ih =>
    rw [Call.walk]
    by_cases hm : srv.ID = c.nodeID ∨ srv.address = c.addr
    · rw [if_pos hm]
      by_cases hfull : srv.address = c.addr ∧ srv.ID = c.nodeID
      · rw [if_pos hfull]
        exact ⟨_, rfl, fun _ => ⟨srv, List.mem_cons_self, hfull⟩, fun _ _ h => (nomatch h)⟩
      · rw [if_neg hfull]
        refine ⟨_, rfl, fun h => (nomatch h), fun srv' rest' h => ?_⟩
        obtain ⟨rfl, rfl⟩ := Pc.removing.inj h
        exact ⟨List.mem_cons_self, List.subset_cons_self .., hm, hfull⟩
    · rw [if_neg hm]
      obtain ⟨pc, hpc, hmember, hremoving⟩ := ih
      refine ⟨pc, hpc, fun h => ?_, fun srv' rest' h => ?_⟩
      · obtain ⟨s, hs, hsfull⟩ := hmember h
        exact ⟨s, List.mem_cons_of_mem _ hs, hsfull⟩
      · obtain ⟨hsrv, hrest, hmatch⟩ := hremoving srv' rest' h
        exact ⟨List.mem_cons_of_mem _ hsrv, List.subset_cons_of_subset _ hrest, hmatch⟩

/-- A call that still has a server to remove will not find itself behind that. -/
theorem Call.Walking.not_isMember {c : Call} (h : c.Walking) {srv : Server} {rest : List Server}
    (hpc : c.pc = .removing srv rest) : ¬ IsMember c.nodeID c.addr rest := by
  obtain ⟨hsrv, hrest, hm, hnot⟩ := h.removing srv rest hpc
  rintro ⟨s, hs, hfull⟩
  exact hnot (h.distinct.eq_member hsrv (hrest hs) hm hfull ▸ hfull)

/-- What one operation of a call does. -/
structure Call.StepSpec (c : Call) (servers : List Server) (c' : Call) (servers' : List Server) :
    Prop where
  nodeID : c'.nodeID = c.nodeID
  addr : c'.addr = c.addr
  walking : c'.Walking
  config : c'.config = c.config ∨ c'.config = servers
  isMember : c'.pc = .returned none → IsMember c.nodeID c.addr servers'
  targets : ∀ srv ∈ servers, srv ∉ servers' → c.Targets srv.ID
  old : ∀ srv ∈ servers', srv ∈ servers ∨ Member c.nodeID c.addr srv

/-- A call that gets an error, changes nothing. -/
theorem Call.Walking.fail {c : Call} (h : c.Walking) (servers : List Server) (e : Error) :
    c.StepSpec servers { c with pc := .returned (some e) } servers :=
  ⟨rfl, rfl, ⟨h.distinct, fun _ _ hpc => (nomatch hpc)⟩, .inl rfl, fun hpc => (nomatch hpc),
    fun _ hsrv hnot => absurd hsrv hnot, fun _ hsrv => .inl hsrv⟩

/-- **One operation of a call.** -/
theorem Call.step_spec {R : Ops} (hR : R.Adds) {c c' : Call} {servers servers' : List Server}
    (hd : Distinct servers) (hc : c.Walking) {error : Option Error}
    (hstep : c.step R error servers = some (c', servers')) :
    c.StepSpec servers c' servers' := by
  cases hpc : c.pc with
  | reading =>
    cases error with
    | some e =>
      simp only [Call.step, hpc] at hstep
      obtain ⟨rfl, rfl⟩ := Prod.mk.inj (Option.some.inj hstep)
      exact hc.fail _ e
    | none =>
      simp only [Call.step, hpc] at hstep
      obtain ⟨hwalk, rfl⟩ := Prod.mk.inj (Option.some.inj hstep)
      obtain ⟨pc, heq, hmember, hremoving⟩ :=
        Call.walk_spec { c with config := servers, pc := .reading } servers
      rw [heq] at hwalk
      subst hwalk
      exact ⟨rfl, rfl, ⟨hd, hremoving⟩, .inr rfl, hmember, fun _ hsrv hnot => absurd hsrv hnot,
        fun _ hsrv => .inl hsrv⟩
  | removing srv rest =>
    cases error with
    | some e =>
      simp only [Call.step, hpc] at hstep
      obtain ⟨rfl, rfl⟩ := Prod.mk.inj (Option.some.inj hstep)
      exact hc.fail _ _
    | none =>
      simp only [Call.step, hpc] at hstep
      obtain ⟨hwalk, rfl⟩ := Prod.mk.inj (Option.some.inj hstep)
      obtain ⟨hsrv, hrest, hm, -⟩ := hc.removing srv rest hpc
      obtain ⟨pc, heq, hmember, hremoving⟩ := c.walk_spec rest
      rw [heq] at hwalk
      subst hwalk
      refine ⟨rfl, rfl, ⟨hc.distinct, fun srv' rest' h => ?_⟩, .inl rfl, fun h => ?_, ?_,
        fun s hs => .inl ?_⟩
      · obtain ⟨hsrv', hrest', hmatch⟩ := hremoving srv' rest' h
        exact ⟨hrest hsrv', fun s hs => hrest (hrest' hs), hmatch⟩
      · exact absurd (hmember h) (hc.not_isMember hpc)
      · -- what goes has the ID of the server that was read
        intro s hs hnot
        have hID : s.ID = srv.ID := by
          by_contra hne
          refine hnot ?_
          rw [hR.removeServer_eq]
          exact (List.mem_eraseP_of_neg (by simpa using hne)).mpr hs
        rcases hm with hown | haddr
        · exact .inl (hown.symm.trans hID.symm)
        · exact .inr ⟨srv, hsrv, hID.symm, haddr⟩
      · rw [hR.removeServer_eq] at hs
        exact List.mem_of_mem_eraseP hs
  | adding =>
    cases error with
    | some e =>
      simp only [Call.step, hpc] at hstep
      obtain ⟨rfl, rfl⟩ := Prod.mk.inj (Option.some.inj hstep)
      exact hc.fail _ e
    | none =>
      simp only [Call.step, hpc] at hstep
      obtain ⟨rfl, rfl⟩ := Prod.mk.inj (Option.some.inj hstep)
      refine ⟨rfl, rfl, ⟨hc.distinct, fun _ _ h => (nomatch h)⟩, .inl rfl,
        fun _ => hR.addVoter_mem .., fun s hs hnot => .inl ?_, hR.addVoter_old _ _ _⟩
      by_contra hne
      exact hnot (hR.addVoter_other _ _ _ s hs fun h => hne h.symm)
  | returned e =>
    simp only [Call.step, hpc] at hstep
    exact nomatch hstep

/-! ### Runs -/

/-- Raft allows the configuration, and no call has lost its way. -/
structure Joining.Sound (s : Joining) : Prop where
  distinct : Distinct s.servers
  walking : ∀ c ∈ s.calls, c.Walking

/-- A step that completes an operation. -/
theorem joinStep_complete {R : Ops} {s t : Joining} {i : Nat} {error : Option Error}
    (h : JoinStep R s (.complete i error) t) :
    ∃ c c', s.calls[i]? = some c ∧ c.step R error s.servers = some (c', t.servers) ∧
      Distinct t.servers ∧ t.calls = s.calls.set i c' := by
  obtain ⟨c, hc, h⟩ := Option.bind_eq_some_iff.mp h
  obtain ⟨⟨c', servers'⟩, hstep, h⟩ := Option.bind_eq_some_iff.mp h
  obtain ⟨hd, heq⟩ := Option.ite_none_right_eq_some.mp h
  obtain rfl := Option.some.inj heq
  exact ⟨c, c', hc, hstep, hd, rfl⟩

/-- **A step keeps it sound.** -/
theorem Joining.Sound.step {R : Ops} (hR : R.Adds) {s t : Joining} (hs : s.Sound) {e : JoinEvent}
    (h : JoinStep R s e t) : t.Sound := by
  cases e with
  | call nodeID addr =>
    obtain rfl := Option.some.inj h
    refine ⟨hs.distinct, fun c hc => ?_⟩
    rcases List.mem_append.mp hc with hc | hc
    · exact hs.walking c hc
    · obtain rfl := List.mem_singleton.mp hc
      exact ⟨⟨.nil, .nil⟩, fun _ _ hpc => (nomatch hpc)⟩
  | complete i error =>
    obtain ⟨c, c', hc, hstep, hd, hcalls⟩ := joinStep_complete h
    have hspec := Call.step_spec hR hs.distinct (hs.walking c (List.mem_of_getElem? hc)) hstep
    refine ⟨hd, fun d hmem => ?_⟩
    rw [hcalls] at hmem
    rcases List.mem_or_eq_of_mem_set hmem with hold | rfl
    · exact hs.walking d hold
    · exact hspec.walking

/-- What goes in a step goes through a call that targets it. -/
theorem Joining.Sound.gone {R : Ops} (hR : R.Adds) {s t : Joining} (hs : s.Sound) {e : JoinEvent}
    (h : JoinStep R s e t) {srv : Server} (hsrv : srv ∈ s.servers) (hgone : srv ∉ t.servers) :
    ∃ i error c, e = .complete i error ∧ s.calls[i]? = some c ∧ c.Targets srv.ID := by
  cases e with
  | call nodeID addr =>
    obtain rfl := Option.some.inj h
    exact absurd hsrv hgone
  | complete i error =>
    obtain ⟨c, c', hc, hstep, -, -⟩ := joinStep_complete h
    have hspec := Call.step_spec hR hs.distinct (hs.walking c (List.mem_of_getElem? hc)) hstep
    exact ⟨i, error, c, rfl, hc, hspec.targets srv hsrv hgone⟩

/-- A call that returns nil has its node in the configuration. -/
theorem Joining.Sound.joined {R : Ops} (hR : R.Adds) {s t : Joining} (hs : s.Sound) {i : Nat}
    {error : Option Error} (h : JoinStep R s (.complete i error) t) {c : Call}
    (hc : t.calls[i]? = some c) (hpc : c.pc = .returned none) :
    IsMember c.nodeID c.addr t.servers := by
  obtain ⟨d, d', hd, hstep, -, hcalls⟩ := joinStep_complete h
  have hspec := Call.step_spec hR hs.distinct (hs.walking d (List.mem_of_getElem? hd)) hstep
  obtain ⟨hlt, -⟩ := List.getElem?_eq_some_iff.mp hd
  rw [hcalls, List.getElem?_set_self hlt] at hc
  obtain rfl := Option.some.inj hc
  rw [hspec.nodeID, hspec.addr]
  exact hspec.isMember hpc

/-- No call that targets the ID completes an operation. -/
def Untargeted (id : Bytes) (s : Joining) (e : JoinEvent) : Prop :=
  ∀ i error c, e = .complete i error → s.calls[i]? = some c → ¬ c.Targets id

/-- **Joins at the same time.**  In every state of every run no two servers have the same ID or
    address, a call that returns nil leaves its node in the configuration, and a server stays in
    it as long as no call completes an operation that has its ID or has read a server with its ID
    at the address that it joins with. -/
theorem joins_safe {R : Ops} (hR : R.Adds) {servers : List Server} (hd : Distinct servers)
    {es : List JoinEvent} {s : Joining} (h : Run (JoinStep R) ⟨servers, []⟩ es s) :
    Distinct s.servers ∧
      (∀ i error t c, JoinStep R s (.complete i error) t → t.calls[i]? = some c →
        c.pc = .returned none → IsMember c.nodeID c.addr t.servers) ∧
      ∀ srv ∈ s.servers, ∀ es' t, Run (guarded (JoinStep R) (Untargeted srv.ID)) s es' t →
        srv ∈ t.servers := by
  have hstart : Joining.Sound ⟨servers, []⟩ := ⟨hd, fun _ h => absurd h List.not_mem_nil⟩
  have hs : s.Sound := h.invariant (fun _ _ _ hs hstep => hs.step hR hstep) hstart
  refine ⟨hs.distinct, fun i error t c hstep hc hpc => hs.joined hR hstep hc hpc, ?_⟩
  intro srv hsrv es' t hrun
  have hstay : ∀ u e v, u.Sound ∧ srv ∈ u.servers →
      guarded (JoinStep R) (Untargeted srv.ID) u e v → v.Sound ∧ srv ∈ v.servers := by
    rintro u e v ⟨hu, hmem⟩ ⟨huntargeted, hstep⟩
    refine ⟨hu.step hR hstep, ?_⟩
    by_contra hgone
    obtain ⟨i, error, c, rfl, hc, htargets⟩ := hu.gone hR hstep hmem hgone
    exact huntargeted i error c rfl hc htargets
  exact (hrun.invariant hstay ⟨hs, hsrv⟩).2

/-- Two nodes that join the two voters at the same time; the first one takes the address of a
    voter that has failed. -/
theorem joins_safe_twoJoins :
    ∃ es s, Run (JoinStep raftOps) ⟨twoVoters, []⟩ es s ∧
      s.calls.map Call.pc = [.returned none, .returned none] ∧ Distinct s.servers ∧
      (∀ i error t c, JoinStep raftOps s (.complete i error) t → t.calls[i]? = some c →
        c.pc = .returned none → IsMember c.nodeID c.addr t.servers) ∧
      ∀ srv ∈ s.servers, ∀ es' t,
        Run (guarded (JoinStep raftOps) (Untargeted srv.ID)) s es' t → srv ∈ t.servers := by
  have hrun : Run (JoinStep raftOps) ⟨twoVoters, []⟩
      [.call (encode ['n', '3']) (encode ['a', '2']), .call (encode ['n', '4']) (encode ['a', '4']),
        .complete 0 none, .complete 1 none, .complete 0 none, .complete 1 none, .complete 0 none]
      _ := Run.ofFold (by rfl)
  exact ⟨_, _, hrun, by decide, joins_safe raftOps_adds (by decide) hrun⟩

-- One node takes the old address of a voter, which moves to a new one at the same time: both
-- calls return nil, and the voter is gone.
example :
    ([.call (encode ['n', '3']) (encode ['a', '2']), .complete 0 none,
        .call (encode ['n', '2']) (encode ['a', '5']), .complete 1 none, .complete 1 none,
        .complete 1 none, .complete 0 none, .complete 0 none].foldlM (joinEvent raftOps)
      ⟨twoVoters, []⟩).map (fun s => (s.calls.map Call.pc, s.servers.map Server.ID)) =
    some ([.returned none, .returned none], [encode ['n', '1'], encode ['n', '3']]) := by rfl

/-! ### Addresses of their own -/

section
variable (owner : Bytes → Bytes)

/-- All addresses are those of their owners. -/
structure Joining.Owned (s : Joining) : Prop where
  servers : ∀ srv ∈ s.servers, owner srv.address = srv.ID
  calls : ∀ c ∈ s.calls, owner c.addr = c.nodeID ∧ ∀ srv ∈ c.config, owner srv.address = srv.ID

/-- Nodes join with addresses of their own. -/
def OwnAddress (_ : Joining) (e : JoinEvent) : Prop :=
  ∀ nodeID addr, e = .call nodeID addr → owner addr = nodeID

/-- No call of the node completes an operation. -/
def OtherNode (id : Bytes) (s : Joining) (e : JoinEvent) : Prop :=
  ∀ i error c, e = .complete i error → s.calls[i]? = some c → c.nodeID ≠ id

variable {owner}

/-- **A step keeps the addresses with their owners.** -/
theorem Joining.Owned.step {R : Ops} (hR : R.Adds) {s t : Joining} (hs : s.Sound)
    (hown : s.Owned owner) {e : JoinEvent} (he : OwnAddress owner s e) (h : JoinStep R s e t) :
    t.Owned owner := by
  cases e with
  | call nodeID addr =>
    obtain rfl := Option.some.inj h
    refine ⟨hown.servers, fun c hc => ?_⟩
    rcases List.mem_append.mp hc with hc | hc
    · exact hown.calls c hc
    · obtain rfl := List.mem_singleton.mp hc
      exact ⟨he nodeID addr rfl, fun _ h => absurd h List.not_mem_nil⟩
  | complete i error =>
    obtain ⟨c, c', hc, hstep, -, hcalls⟩ := joinStep_complete h
    have hmem := List.mem_of_getElem? hc
    have hspec := Call.step_spec hR hs.distinct (hs.walking c hmem) hstep
    obtain ⟨hc₁, hc₂⟩ := hown.calls c hmem
    refine ⟨fun srv hsrv => ?_, fun d hd => ?_⟩
    · rcases hspec.old srv hsrv with hold | ⟨haddr, hID⟩
      · exact hown.servers srv hold
      · rw [haddr, hID, hc₁]
    · rw [hcalls] at hd
      rcases List.mem_or_eq_of_mem_set hd with hold | rfl
      · exact hown.calls d hold
      · refine ⟨by rw [hspec.addr, hspec.nodeID, hc₁], fun srv hsrv => ?_⟩
        rcases hspec.config with heq | heq
        · exact hc₂ srv (heq ▸ hsrv)
        · exact hown.servers srv (heq ▸ hsrv)

/-- A call targets its own node only. -/
theorem Joining.Owned.eq_of_targets {s : Joining} (hown : s.Owned owner) {c : Call}
    (hc : c ∈ s.calls) {id : Bytes} (h : c.Targets id) : c.nodeID = id := by
  obtain ⟨hc₁, hc₂⟩ := hown.calls c hc
  rcases h with hID | ⟨srv, hsrv, hID, haddr⟩
  · exact hID
  · rw [← hc₁, ← haddr, hc₂ srv hsrv, hID]

/-- **Joins of nodes with addresses of their own.**  If no two nodes ever use one address, then
    whatever joins are under way, a server stays in the configuration as long as no call of its
    own node completes an operation; so a join that has returned nil is not undone by others. -/
theorem joins_owned {R : Ops} (hR : R.Adds) {servers : List Server} (hd : Distinct servers)
    (hservers : ∀ srv ∈ servers, owner srv.address = srv.ID) {es : List JoinEvent} {s : Joining}
    (h : Run (guarded (JoinStep R) (OwnAddress owner)) ⟨servers, []⟩ es s) :
    ∀ srv ∈ s.servers, ∀ es' t,
      Run (guarded (JoinStep R) fun u e => OwnAddress owner u e ∧ OtherNode srv.ID u e) s es' t →
        srv ∈ t.servers := by
  have hstart : Joining.Sound ⟨servers, []⟩ ∧ Joining.Owned owner ⟨servers, []⟩ :=
    ⟨⟨hd, fun _ h => absurd h List.not_mem_nil⟩, ⟨hservers, fun _ h => absurd h List.not_mem_nil⟩⟩
  have hkeep : ∀ u e v, u.Sound ∧ u.Owned owner →
      guarded (JoinStep R) (OwnAddress owner) u e v → v.Sound ∧ v.Owned owner := by
    rintro u e v ⟨hu, hown⟩ ⟨howner, hstep⟩
    exact ⟨hu.step hR hstep, hown.step hR hu howner hstep⟩
  have hs : s.Sound ∧ s.Owned owner := h.invariant hkeep hstart
  intro srv hsrv es' t hrun
  have hstay : ∀ u e v, (u.Sound ∧ u.Owned owner) ∧ srv ∈ u.servers →
      guarded (JoinStep R) (fun u e => OwnAddress owner u e ∧ OtherNode srv.ID u e) u e v →
      (v.Sound ∧ v.Owned owner) ∧ srv ∈ v.servers := by
    rintro u e v ⟨⟨hu, hown⟩, hmem⟩ ⟨⟨howner, hother⟩, hstep⟩
    refine ⟨⟨hu.step hR hstep, hown.step hR hu howner hstep⟩, ?_⟩
    by_contra hgone
    obtain ⟨i, error, c, rfl, hc, htargets⟩ := hu.gone hR hstep hmem hgone
    exact hother i error c rfl hc (hown.eq_of_targets (List.mem_of_getElem? hc) htargets)
  exact (hrun.invariant hstay ⟨hs, hsrv⟩).2

end

/-- The owners of three addresses. -/
def threeOwners (addr : Bytes) : Bytes :=
  if addr = encode ['a', '1'] then encode ['n', '1']
  else if addr = encode ['a', '2'] then encode ['n', '2']
  else encode ['n', '3']

/-- A third node joins, and is a server until it joins again. -/
theorem joins_owned_third :
    ∃ s, s.servers.map Server.ID = [encode ['n', '1'], encode ['n', '2'], encode ['n', '3']] ∧
      ∀ srv ∈ s.servers, ∀ es' t,
        Run (guarded (JoinStep raftOps) fun u e =>
          OwnAddress threeOwners u e ∧ OtherNode srv.ID u e) s es' t → srv ∈ t.servers := by
  have hown : ∀ e ∈ [JoinEvent.call (encode ['n', '3']) (encode ['a', '3']), .complete 0 none,
      .complete 0 none], ∀ s, OwnAddress threeOwners s e := by
    rintro e he s nodeID addr rfl
    obtain ⟨rfl, rfl⟩ : nodeID = encode ['n', '3'] ∧ addr = encode ['a', '3'] := by simpa using he
    decide
  have hrun : Run (JoinStep raftOps) ⟨twoVoters, []⟩
      [.call (encode ['n', '3']) (encode ['a', '3']), .complete 0 none, .complete 0 none] _ :=
    Run.ofFold (by rfl)
  exact ⟨_, by decide, joins_owned raftOps_adds (by decide) (by decide) (hrun.guard hown)⟩

end OSPortfolio.Chubby.Membership
