import Mathlib.Data.List.Nodup
import OSPortfolio.Lib.Utf8

namespace OSPortfolio.Chubby.Membership

open OSPortfolio.Utf8

/-!
# Joining a cluster

`Store.Join` reads the Raft configuration, removes the servers that have the ID or the address
of the joining node, and adds the node as a voter.  Each of these is a Raft operation of its
own, which may fail.

* `Ops`, `Ops.Lawful` — what Raft does to the configuration when an operation succeeds;
* `join` — the code, on a configuration and the answers Raft will give;
* `removeMatching_spec` — the loop, for every way a configuration is walked through;
* `join_error_iff` — `join` fails with the first operation it needs and Raft refuses;
* `join_normal_form`, `join_error_removed` — the configuration after a success and a failure.
-/

/-! ### Configurations -/

/-- `raft.ServerSuffrage`. -/
inductive Suffrage
  | voter | nonvoter | staging
  deriving DecidableEq

/-- `raft.Server`. -/
structure Server where
  suffrage : Suffrage
  ID : Bytes
  address : Bytes
  deriving DecidableEq

/-- What Raft makes of the servers of a configuration. -/
structure Ops where
  removeServer : Bytes → List Server → List Server
  addVoter : Bytes → Bytes → List Server → List Server

/-- `RemoveServer` removes the server with the ID; `AddVoter` appends a voter if no server has
    the ID. -/
structure Ops.Lawful (R : Ops) : Prop where
  removeServer_eq : ∀ id c, R.removeServer id c = c.eraseP (·.ID = id)
  addVoter_new : ∀ id addr c, (∀ srv ∈ c, srv.ID ≠ id) →
    R.addVoter id addr c = c ++ [⟨.voter, id, addr⟩]

/-- No two servers have the same ID, and no two the same address. -/
def Distinct (c : List Server) : Prop :=
  (c.map Server.ID).Nodup ∧ (c.map Server.address).Nodup

instance (c : List Server) : Decidable (Distinct c) := inferInstanceAs (Decidable (_ ∧ _))

/-! ### Raft as the code sees it -/

/-- The text of an error. -/
abbrev Error := Bytes

/-- What Raft answers to an operation: whether the node is the leader when it is asked, and
    the error of the future. -/
structure Answer where
  leader : Bool := true
  error : Option Error := none

/-- The servers of the configuration, and the answers to the operations to come. -/
structure RaftState where
  servers : List Server
  answers : Nat → Answer

/-- The answers behind the first `n`. -/
def RaftState.skip (r : RaftState) (n : Nat) : RaftState :=
  { r with answers := fun i => r.answers (i + n) }

/-- An operation on the configuration, and the error of its future. -/
def RaftState.call (r : RaftState) (f : List Server → List Server) : Option Error × RaftState :=
  match (r.answers 0).error with
  | some e => (some e, r.skip 1)
  | none => (none, { r.skip 1 with servers := f r.servers })

/-! ### `Store.Join` -/

/-- `error removing existing node %s at %s: %s` -/
def removingError (nodeID addr : Bytes) (e : Error) : Error :=
  encode "error removing existing node ".toList ++ nodeID ++ encode " at ".toList ++ addr ++
    encode ": ".toList ++ e

/-- How the loop over the servers ends. -/
inductive LoopResult
  | alreadyMember (r : RaftState)
  | failed (e : Error) (r : RaftState)
  | done (r : RaftState)

/-- The loop over the servers of the configuration that was read. -/
def removeMatching (R : Ops) (nodeID addr : Bytes) : List Server → RaftState → LoopResult
  | [], r => .done r
  | srv :: rest, r =>
    if srv.ID = nodeID ∨ srv.address = addr then
      if srv.address = addr ∧ srv.ID = nodeID then .alreadyMember r
      else
        match r.call (R.removeServer srv.ID) with
        | (some e, r) => .failed (removingError nodeID addr e) r
        | (none, r) => removeMatching R nodeID addr rest r
    else removeMatching R nodeID addr rest r

/-- Behind the loop: the node is added unless the loop returned. -/
def LoopResult.finish (R : Ops) (nodeID addr : Bytes) : LoopResult → Option Error × RaftState
  | .alreadyMember r => (none, r)
  | .failed e r => (some e, r)
  | .done r => r.call (R.addVoter nodeID addr)

/-- `Store.Join(nodeID, addr)`: the error it returns, and the configuration behind it. -/
def join (R : Ops) (nodeID addr : Bytes) (r : RaftState) : Option Error × RaftState :=
  -- `GetConfiguration` changes nothing, but it can fail
  match r.call id with
  | (some e, r) => (some e, r)
  | (none, r) => (removeMatching R nodeID addr r.servers r).finish R nodeID addr

/-! ### The loop -/

/-- The server has the ID or the address. -/
def Matches (nodeID addr : Bytes) (srv : Server) : Prop := srv.ID = nodeID ∨ srv.address = addr

instance (nodeID addr : Bytes) : DecidablePred (Matches nodeID addr) :=
  fun _ => inferInstanceAs (Decidable (_ ∨ _))

/-- The server has the ID and the address. -/
def Member (nodeID addr : Bytes) (srv : Server) : Prop := srv.address = addr ∧ srv.ID = nodeID

instance (nodeID addr : Bytes) : DecidablePred (Member nodeID addr) :=
  fun _ => inferInstanceAs (Decidable (_ ∧ _))

/-- A member with the ID and the address matches. -/
theorem Member.matches {nodeID addr : Bytes} {srv : Server} (h : Member nodeID addr srv) :
    Matches nodeID addr srv := Or.inl h.2

/-- The servers that are in the way, and the others. -/
def matching (nodeID addr : Bytes) (c : List Server) : List Server :=
  c.filter fun srv => Matches nodeID addr srv

def others (nodeID addr : Bytes) (c : List Server) : List Server :=
  c.filter fun srv => ¬ Matches nodeID addr srv

section

variable (R : Ops) {nodeID addr : Bytes} {srv : Server} (rest : List Server) (r : RaftState)

/-- The loop passes over a server that is not in the way. -/
theorem removeMatching_of_not (h : ¬ Matches nodeID addr srv) :
    removeMatching R nodeID addr (srv :: rest) r = removeMatching R nodeID addr rest r := by
  rw [removeMatching]
  exact if_neg h

/-- The loop stops at the joining node. -/
theorem removeMatching_of_member (h : Member nodeID addr srv) :
    removeMatching R nodeID addr (srv :: rest) r = .alreadyMember r := by
  rw [removeMatching]
  exact (if_pos h.matches).trans (if_pos h)

/-- The loop removes any other server that is in the way. -/
theorem removeMatching_of_matches (h : Matches nodeID addr srv) (h' : ¬ Member nodeID addr srv) :
    removeMatching R nodeID addr (srv :: rest) r
      = match r.call (R.removeServer srv.ID) with
        | (some e, r) => .failed (removingError nodeID addr e) r
        | (none, r) => removeMatching R nodeID addr rest r := by
  rw [removeMatching]
  exact (if_pos h).trans (if_neg h')

end

/-- Fewer servers are still distinct. -/
theorem Distinct.sublist {c c' : List Server} (h : Distinct c) (hs : c'.Sublist c) :
    Distinct c' := ⟨h.1.sublist (hs.map _), h.2.sublist (hs.map _)⟩

/-- A server behind another one has another ID. -/
theorem Distinct.ID_ne {pre rest : List Server} {srv : Server}
    (h : Distinct (pre ++ srv :: rest)) : ∀ s ∈ pre, s.ID ≠ srv.ID := by
  intro s hs heq
  have hnodup := h.1
  rw [List.map_append, List.nodup_append] at hnodup
  refine hnodup.2.2 s.ID (List.mem_map_of_mem hs) srv.ID ?_ heq
  exact List.mem_map_of_mem List.mem_cons_self

/-- Removing a server by its ID removes it, wherever the servers before it were removed. -/
theorem removeServer_head {R : Ops} (hR : R.Lawful) {nodeID addr : Bytes}
    {pre rest : List Server} {srv : Server} (hd : Distinct (pre ++ srv :: rest)) :
    R.removeServer srv.ID (others nodeID addr pre ++ srv :: rest)
      = others nodeID addr pre ++ rest := by
  rw [hR.removeServer_eq, List.eraseP_append_right]
  · rw [List.eraseP_cons_of_pos (by simp)]
  · intro s hs
    have hmem : s ∈ pre := List.mem_of_mem_filter hs
    simpa using hd.ID_ne s hmem

/-- A server in the way, at the head. -/
theorem matching_cons_of_matches {nodeID addr : Bytes} {srv : Server}
    (h : Matches nodeID addr srv) (c : List Server) :
    matching nodeID addr (srv :: c) = srv :: matching nodeID addr c :=
  List.filter_cons_of_pos (decide_eq_true h)

/-- One that is not in the way. -/
theorem matching_cons_of_not {nodeID addr : Bytes} {srv : Server}
    (h : ¬ Matches nodeID addr srv) (c : List Server) :
    matching nodeID addr (srv :: c) = matching nodeID addr c :=
  List.filter_cons_of_neg (by simpa using h)

/-- The others of a configuration, from its parts. -/
theorem others_append (nodeID addr : Bytes) (c c' : List Server) :
    others nodeID addr (c ++ c') = others nodeID addr c ++ others nodeID addr c' :=
  List.filter_append ..

/-- A server in the way is none of the others. -/
theorem others_singleton_of_matches {nodeID addr : Bytes} {srv : Server}
    (h : Matches nodeID addr srv) : others nodeID addr [srv] = [] :=
  List.filter_cons_of_neg (by simpa using h)

/-- One that is not in the way is. -/
theorem others_singleton_of_not {nodeID addr : Bytes} {srv : Server}
    (h : ¬ Matches nodeID addr srv) : others nodeID addr [srv] = [srv] :=
  List.filter_cons_of_pos (decide_eq_true h)

/-- The first `n` operations succeed. -/
def Succeed (answers : Nat → Answer) (n : Nat) : Prop := ∀ i < n, (answers i).error = none

/-- One more operation in front. -/
theorem Succeed.succ {answers : Nat → Answer} {n : Nat} (h₀ : (answers 0).error = none)
    (h : Succeed (fun i => answers (i + 1)) n) : Succeed answers (n + 1) := by
  intro i hi
  cases i with
  | zero => exact h₀
  | succ i => exact h i (Nat.lt_of_succ_lt_succ hi)

/-- No operation has to succeed. -/
theorem succeed_zero (answers : Nat → Answer) : Succeed answers 0 :=
  fun i hi => absurd hi (Nat.not_lt_zero i)

/-- How the loop over `rest` may end when the servers before it are `pre` and Raft gives these
    answers: with a server that is the joining node, with a removal that fails, or with every
    server in the way removed. -/
def LoopSpec (nodeID addr : Bytes) (pre rest : List Server) (answers : Nat → Answer) :
    LoopResult → Prop
  | .alreadyMember r => ∃ a srv b, rest = a ++ srv :: b ∧ Member nodeID addr srv ∧
      r.servers = others nodeID addr (pre ++ a) ++ srv :: b
  | .failed e r => ∃ a srv b err, rest = a ++ srv :: b ∧ Matches nodeID addr srv ∧
      ¬ Member nodeID addr srv ∧ r.servers = others nodeID addr (pre ++ a) ++ srv :: b ∧
      e = removingError nodeID addr err ∧ Succeed answers (matching nodeID addr a).length ∧
      (answers (matching nodeID addr a).length).error = some err
  | .done r => (∀ srv ∈ rest, ¬ Member nodeID addr srv) ∧
      r = ⟨others nodeID addr (pre ++ rest),
        fun i => answers (i + (matching nodeID addr rest).length)⟩ ∧
      Succeed answers (matching nodeID addr rest).length

/-- A server in the way is removed before the rest of the loop. -/
theorem LoopSpec.cons_matching {nodeID addr : Bytes} {pre rest : List Server} {srv : Server}
    {answers : Nat → Answer} {x : LoopResult} (hm : Matches nodeID addr srv)
    (hnot : ¬ Member nodeID addr srv) (h₀ : (answers 0).error = none)
    (h : LoopSpec nodeID addr (pre ++ [srv]) rest (fun i => answers (i + 1)) x) :
    LoopSpec nodeID addr pre (srv :: rest) answers x := by
  have happ : ∀ a, pre ++ [srv] ++ a = pre ++ srv :: a := by simp
  cases x with
  | alreadyMember r =>
    obtain ⟨a, s, b, rfl, hs, hr⟩ := h
    exact ⟨srv :: a, s, b, rfl, hs, by rw [hr, happ]⟩
  | failed e r =>
    obtain ⟨a, s, b, err, rfl, hs, hs', hr, he, hok, herr⟩ := h
    refine ⟨srv :: a, s, b, err, rfl, hs, hs', by rw [hr, happ], he, ?_, ?_⟩
    · rw [matching_cons_of_matches hm]
      exact Succeed.succ h₀ hok
    · rw [matching_cons_of_matches hm]
      exact herr
  | done r =>
    obtain ⟨hrest, hr, hok⟩ := h
    refine ⟨List.forall_mem_cons.mpr ⟨hnot, hrest⟩, ?_, ?_⟩
    · rw [hr, happ, matching_cons_of_matches hm]
      rfl
    · rw [matching_cons_of_matches hm]
      exact Succeed.succ h₀ hok

/-- A server that is not in the way is passed over. -/
theorem LoopSpec.cons_other {nodeID addr : Bytes} {pre rest : List Server} {srv : Server}
    {answers : Nat → Answer} {x : LoopResult} (hm : ¬ Matches nodeID addr srv)
    (h : LoopSpec nodeID addr (pre ++ [srv]) rest answers x) :
    LoopSpec nodeID addr pre (srv :: rest) answers x := by
  have happ : ∀ a, pre ++ [srv] ++ a = pre ++ srv :: a := by simp
  cases x with
  | alreadyMember r =>
    obtain ⟨a, s, b, rfl, hs, hr⟩ := h
    exact ⟨srv :: a, s, b, rfl, hs, by rw [hr, happ]⟩
  | failed e r =>
    obtain ⟨a, s, b, err, rfl, hs, hs', hr, he, hok, herr⟩ := h
    refine ⟨srv :: a, s, b, err, rfl, hs, hs', by rw [hr, happ], he, ?_, ?_⟩
    · rwa [matching_cons_of_not hm]
    · rwa [matching_cons_of_not hm]
  | done r =>
    obtain ⟨hrest, hr, hok⟩ := h
    refine ⟨List.forall_mem_cons.mpr ⟨fun hfull => hm hfull.matches, hrest⟩, ?_, ?_⟩
    · rw [hr, happ, matching_cons_of_not hm]
    · rwa [matching_cons_of_not hm]

/-- **The loop over the servers.** -/
theorem removeMatching_spec {R : Ops} (hR : R.Lawful) {nodeID addr : Bytes}
    {pre rest : List Server} (hd : Distinct (pre ++ rest)) {r : RaftState}
    (hr : r.servers = others nodeID addr pre ++ rest) :
    LoopSpec nodeID addr pre rest r.answers (removeMatching R nodeID addr rest r) := by
  -- by the servers that are left; what was walked over grows at its end
  induction rest generalizing pre r with
  | nil =>
    refine ⟨fun _ h => absurd h List.not_mem_nil, ?_, succeed_zero r.answers⟩
    rw [List.append_nil] at hr ⊢
    rw [← hr]
    rfl
  | cons srv rest ih =>
    have hd' : Distinct (pre ++ [srv] ++ rest) := by simpa using hd
    by_cases hm : Matches nodeID addr srv
    · by_cases hfull : Member nodeID addr srv
      · rw [removeMatching_of_member R rest r hfull]
        exact ⟨[], srv, rest, rfl, hfull, by rw [List.append_nil, hr]⟩
      · rw [removeMatching_of_matches R rest r hm hfull, RaftState.call]
        cases hans : (r.answers 0).error with
        | some e =>
          refine ⟨[], srv, rest, e, rfl, hm, hfull, ?_, rfl, succeed_zero r.answers, hans⟩
          rw [List.append_nil, ← hr]
          rfl
        | none =>
          refine LoopSpec.cons_matching hm hfull hans (ih hd' ?_)
          show R.removeServer srv.ID r.servers = _
          rw [hr, removeServer_head hR hd, others_append, others_singleton_of_matches hm,
            List.append_nil]
    · rw [removeMatching_of_not R rest r hm]
      refine LoopSpec.cons_other hm (ih hd' ?_)
      rw [hr, others_append, others_singleton_of_not hm, List.append_assoc]
      rfl

/-! ### How `join` ends -/

/-- The only server with the ID or the address of a member is the member. -/
theorem Distinct.eq_member {nodeID addr : Bytes} {c : List Server} (h : Distinct c)
    {s srv : Server} (hs : s ∈ c) (hsrv : srv ∈ c) (hm : Matches nodeID addr s)
    (hfull : Member nodeID addr srv) : s = srv := by
  rcases hm with hID | haddr
  · exact List.inj_on_of_nodup_map h.1 hs hsrv (hID.trans hfull.2.symm)
  · exact List.inj_on_of_nodup_map h.2 hs hsrv (haddr.trans hfull.1.symm)

/-- No server in front of a member is in the way. -/
theorem Distinct.others_before_member {nodeID addr : Bytes} {a b : List Server} {srv : Server}
    (h : Distinct (a ++ srv :: b)) (hfull : Member nodeID addr srv) :
    others nodeID addr a = a := by
  refine List.filter_eq_self.mpr fun s hs => decide_eq_true fun hm => ?_
  refine h.ID_ne s hs ?_
  rw [h.eq_member (List.mem_append_left _ hs) (by simp) hm hfull]

/-- Some server is the joining node. -/
def IsMember (nodeID addr : Bytes) (c : List Server) : Prop := ∃ srv ∈ c, Member nodeID addr srv

instance (nodeID addr : Bytes) (c : List Server) : Decidable (IsMember nodeID addr c) :=
  inferInstanceAs (Decidable (∃ srv ∈ c, _))

/-- How many Raft operations `join` needs: one to read the configuration, one for each server in
    the way, and one to add the node. -/
def callsNeeded (nodeID addr : Bytes) (c : List Server) : Nat :=
  if IsMember nodeID addr c then 1 else (matching nodeID addr c).length + 2

/-- The configuration with the node. -/
def joined (nodeID addr : Bytes) (c : List Server) : List Server :=
  if IsMember nodeID addr c then c else others nodeID addr c ++ [⟨.voter, nodeID, addr⟩]

/-- `join` returns nil with all the operations it needs. -/
def Joins (nodeID addr : Bytes) (r : RaftState) (x : Option Error × RaftState) : Prop :=
  x.1 = none ∧ Succeed r.answers (callsNeeded nodeID addr r.servers) ∧
    x.2.servers = joined nodeID addr r.servers

/-- `join` returns an error after its operation number `i`, when the servers in the way among
    the first ones are gone. -/
def Fails (nodeID addr : Bytes) (r : RaftState) (x : Option Error × RaftState) (i : Nat) : Prop :=
  x.1 ≠ none ∧ i < callsNeeded nodeID addr r.servers ∧ Succeed r.answers i ∧
    (r.answers i).error ≠ none ∧
    ∃ pre rest, r.servers = pre ++ rest ∧ (matching nodeID addr pre).length = i - 1 ∧
      x.2.servers = others nodeID addr pre ++ rest

/-- The servers in the way, from the parts of a configuration. -/
theorem matching_append (nodeID addr : Bytes) (c c' : List Server) :
    matching nodeID addr (c ++ c') = matching nodeID addr c ++ matching nodeID addr c' :=
  List.filter_append ..

/-- A member that joins again needs the configuration only. -/
theorem callsNeeded_of_member {nodeID addr : Bytes} {c : List Server}
    (h : IsMember nodeID addr c) : callsNeeded nodeID addr c = 1 := if_pos h

/-- Another node needs the configuration, the removals and the addition. -/
theorem callsNeeded_of_not {nodeID addr : Bytes} {c : List Server}
    (h : ¬ IsMember nodeID addr c) :
    callsNeeded nodeID addr c = (matching nodeID addr c).length + 2 := if_neg h

/-- The configuration is always read. -/
theorem callsNeeded_pos (nodeID addr : Bytes) (c : List Server) :
    0 < callsNeeded nodeID addr c := by
  by_cases h : IsMember nodeID addr c
  · rw [callsNeeded_of_member h]
    exact Nat.one_pos
  · rw [callsNeeded_of_not h]
    exact Nat.succ_pos _

/-- No server that was left has the ID. -/
theorem others_ID_ne {nodeID addr : Bytes} {c : List Server} :
    ∀ srv ∈ others nodeID addr c, srv.ID ≠ nodeID := by
  intro srv hsrv hID
  exact of_decide_eq_true (List.mem_filter.mp hsrv).2 (Or.inl hID)

/-- The configuration cannot be read. -/
theorem join_of_unread {R : Ops} {nodeID addr : Bytes} {r : RaftState} {e : Error}
    (h : (r.answers 0).error = some e) : join R nodeID addr r = (some e, r.skip 1) := by
  rw [join, RaftState.call, h]

/-- It is read, and the loop runs over its servers. -/
theorem join_of_read {R : Ops} {nodeID addr : Bytes} {r : RaftState}
    (h : (r.answers 0).error = none) :
    join R nodeID addr r
      = (removeMatching R nodeID addr r.servers (r.skip 1)).finish R nodeID addr := by
  rw [join, RaftState.call, h]
  rfl

/-- Behind a loop that has removed every server in the way, `AddVoter` decides. -/
theorem addVoter_cases {R : Ops} (hR : R.Lawful) {nodeID addr : Bytes} {r r' : RaftState}
    (hnone : ¬ IsMember nodeID addr r.servers)
    (hservers : r'.servers = others nodeID addr r.servers)
    (hanswer : r'.answers 0 = r.answers ((matching nodeID addr r.servers).length + 1))
    (hok : Succeed r.answers ((matching nodeID addr r.servers).length + 1)) :
    Joins nodeID addr r (r'.call (R.addVoter nodeID addr)) ∨
      ∃ i, Fails nodeID addr r (r'.call (R.addVoter nodeID addr)) i := by
  have hneeded := callsNeeded_of_not hnone
  rw [RaftState.call, hanswer]
  cases hlast : (r.answers ((matching nodeID addr r.servers).length + 1)).error with
  | some e =>
    refine Or.inr ⟨_, Option.some_ne_none e, ?_, hok, ?_, r.servers, [], ?_, rfl, ?_⟩
    · rw [hneeded]
      exact Nat.lt_succ_self _
    · rw [hlast]
      exact Option.some_ne_none e
    · rw [List.append_nil]
    · rw [List.append_nil]
      exact hservers
  | none =>
    refine Or.inl ⟨rfl, ?_, ?_⟩
    · rw [hneeded]
      intro i hi
      rcases Nat.lt_succ_iff_lt_or_eq.mp hi with hi | rfl
      · exact hok i hi
      · exact hlast
    · show R.addVoter nodeID addr r'.servers = _
      rw [hservers, hR.addVoter_new _ _ _ others_ID_ne, joined, if_neg hnone]

/-- **`join` does one of the two.** -/
theorem join_cases {R : Ops} (hR : R.Lawful) {nodeID addr : Bytes} {r : RaftState}
    (hd : Distinct r.servers) :
    Joins nodeID addr r (join R nodeID addr r) ∨
      ∃ i, Fails nodeID addr r (join R nodeID addr r) i := by
  cases h₀ : (r.answers 0).error with
  | some e =>
    -- the configuration cannot be read
    rw [join_of_unread h₀]
    have herr : (r.answers 0).error ≠ none := h₀ ▸ Option.some_ne_none e
    exact Or.inr ⟨0, Option.some_ne_none e, callsNeeded_pos .., succeed_zero _, herr, [],
      r.servers, rfl, rfl, rfl⟩
  | none =>
    have hloop := @removeMatching_spec R hR nodeID addr [] r.servers hd (r.skip 1) rfl
    rw [join_of_read h₀]
    cases hx : removeMatching R nodeID addr r.servers (r.skip 1) with
    | alreadyMember r' =>
      rw [hx] at hloop
      obtain ⟨a, srv, b, hsplit, hfull, hr'⟩ := hloop
      have hmem : IsMember nodeID addr r.servers := ⟨srv, by rw [hsplit]; simp, hfull⟩
      refine Or.inl ⟨rfl, ?_, ?_⟩
      · rw [callsNeeded_of_member hmem]
        exact Succeed.succ h₀ (succeed_zero _)
      · show r'.servers = joined nodeID addr r.servers
        rw [joined, if_pos hmem, hr', hsplit, List.nil_append]
        rw [hsplit] at hd
        rw [hd.others_before_member hfull]
    | failed e r' =>
      rw [hx] at hloop
      obtain ⟨a, srv, b, err, hsplit, hm, hnot, hr', -, hok, herr⟩ := hloop
      have hsrv : srv ∈ r.servers := by rw [hsplit]; simp
      have hnone : ¬ IsMember nodeID addr r.servers := by
        rintro ⟨s, hs, hfull⟩
        exact hnot (hd.eq_member hsrv hs hm hfull ▸ hfull)
      refine Or.inr ⟨(matching nodeID addr a).length + 1, Option.some_ne_none e, ?_,
        Succeed.succ h₀ hok, ?_, a, srv :: b, hsplit, rfl, hr'⟩
      · rw [callsNeeded_of_not hnone, hsplit, matching_append, List.length_append]
        omega
      · exact fun h => absurd (herr.symm.trans h) (Option.some_ne_none err)
    | done r' =>
      rw [hx] at hloop
      obtain ⟨hno, rfl, hok⟩ := hloop
      have hnone : ¬ IsMember nodeID addr r.servers := fun ⟨s, hs, hfull⟩ => hno s hs hfull
      refine addVoter_cases hR hnone rfl ?_ (Succeed.succ h₀ hok)
      show r.answers (0 + _ + 1) = _
      rw [Nat.zero_add]

/-- **`join` returns nil exactly if every operation it needs succeeds.** -/
theorem join_eq_none_iff {R : Ops} (hR : R.Lawful) {nodeID addr : Bytes} {r : RaftState}
    (hd : Distinct r.servers) :
    (join R nodeID addr r).1 = none ↔ Succeed r.answers (callsNeeded nodeID addr r.servers) := by
  rcases join_cases hR hd with ⟨hnone, hok, -⟩ | ⟨i, hsome, hi, -, herr, -⟩
  · exact ⟨fun _ => hok, fun _ => hnone⟩
  · exact ⟨fun h => absurd h hsome, fun h => absurd (h i hi) herr⟩

/-- **A join without an error** leaves the others and the node. -/
theorem join_servers {R : Ops} (hR : R.Lawful) {nodeID addr : Bytes} {r : RaftState}
    (hd : Distinct r.servers) (h : (join R nodeID addr r).1 = none) :
    (join R nodeID addr r).2.servers = joined nodeID addr r.servers := by
  rcases join_cases hR hd with ⟨-, -, hservers⟩ | ⟨i, hsome, -⟩
  · exact hservers
  · exact absurd h hsome

/-! ### After a success -/

/-- The servers `c'` are what joining a node makes of `c`: no two share an ID or an address, the
    node is the only one with its ID and the only one with its address, and the servers that
    were not in the way are there as they were. -/
structure NormalForm (nodeID addr : Bytes) (c c' : List Server) : Prop where
  distinct : Distinct c'
  unique : ∃ srv, c'.filter (·.ID = nodeID) = [srv] ∧ c'.filter (·.address = addr) = [srv]
  others_eq : others nodeID addr c' = others nodeID addr c

/-- The joining node is in the configuration, and it is every server with its ID or address. -/
theorem NormalForm.exists_member {nodeID addr : Bytes} {c c' : List Server}
    (h : NormalForm nodeID addr c c') : ∃ srv ∈ c', Member nodeID addr srv ∧
      ∀ s ∈ c', Matches nodeID addr s → s = srv := by
  obtain ⟨srv, hID, haddr⟩ := h.unique
  have hmemID : srv ∈ c'.filter (·.ID = nodeID) := hID ▸ List.mem_singleton_self _
  have hmemaddr : srv ∈ c'.filter (·.address = addr) := haddr ▸ List.mem_singleton_self _
  have hfull : Member nodeID addr srv := ⟨of_decide_eq_true (List.mem_filter.mp hmemaddr).2,
    of_decide_eq_true (List.mem_filter.mp hmemID).2⟩
  have hsrv : srv ∈ c' := (List.mem_filter.mp hmemID).1
  exact ⟨srv, hsrv, hfull, fun s hs hm => h.distinct.eq_member hs hsrv hm hfull⟩

/-- In a list without repetitions of `f`, one element has the value it has. -/
theorem filter_eq_singleton {c : List Server} {f : Server → Bytes} (h : (c.map f).Nodup)
    {srv : Server} (hsrv : srv ∈ c) : c.filter (fun s => f s = f srv) = [srv] := by
  induction c with
  | nil => exact absurd hsrv List.not_mem_nil
  | cons s c ih =>
    rw [List.map_cons, List.nodup_cons] at h
    rcases List.mem_cons.mp hsrv with rfl | hsrv
    · have hnil : c.filter (fun s => f s = f srv) = [] := by
        refine List.filter_eq_nil_iff.mpr fun s hs hf => h.1 ?_
        exact of_decide_eq_true hf ▸ List.mem_map_of_mem hs
      rw [List.filter_cons_of_pos (by simp), hnil]
    · rw [List.filter_cons_of_neg, ih h.2 hsrv]
      intro hf
      exact h.1 (of_decide_eq_true hf ▸ List.mem_map_of_mem hsrv)

/-- A member is the only server with its ID, and the only one with its address. -/
theorem Member.unique {nodeID addr : Bytes} {c : List Server} (hd : Distinct c) {srv : Server}
    (hsrv : srv ∈ c) (hfull : Member nodeID addr srv) :
    c.filter (·.ID = nodeID) = [srv] ∧ c.filter (·.address = addr) = [srv] := by
  obtain ⟨rfl, rfl⟩ := hfull
  exact ⟨filter_eq_singleton hd.1 hsrv, filter_eq_singleton hd.2 hsrv⟩

/-- The others are the servers that are not in the way. -/
theorem mem_others {nodeID addr : Bytes} {c : List Server} {srv : Server} :
    srv ∈ others nodeID addr c ↔ srv ∈ c ∧ ¬ Matches nodeID addr srv := by
  rw [others, List.mem_filter, decide_eq_true_iff]

/-- A new server can be put behind the ones that are not in the way. -/
theorem distinct_others_append {nodeID addr : Bytes} {c : List Server} (hd : Distinct c)
    (suffrage : Suffrage) : Distinct (others nodeID addr c ++ [⟨suffrage, nodeID, addr⟩]) := by
  have hsub : (others nodeID addr c).Sublist c := List.filter_sublist
  obtain ⟨hID, haddr⟩ := hd.sublist hsub
  rw [Distinct, List.map_append, List.map_append]
  refine ⟨List.nodup_append.mpr ⟨hID, List.nodup_singleton _, ?_⟩,
    List.nodup_append.mpr ⟨haddr, List.nodup_singleton _, ?_⟩⟩
  · intro x hx y hy
    obtain ⟨srv, hsrv, rfl⟩ := List.mem_map.mp hx
    obtain rfl := List.mem_singleton.mp hy
    exact fun h => (mem_others.mp hsrv).2 (Or.inl h)
  · intro x hx y hy
    obtain ⟨srv, hsrv, rfl⟩ := List.mem_map.mp hx
    obtain rfl := List.mem_singleton.mp hy
    exact fun h => (mem_others.mp hsrv).2 (Or.inr h)

/-- What a join leaves is the normal form. -/
theorem joined_normalForm {nodeID addr : Bytes} {c : List Server} (hd : Distinct c) :
    NormalForm nodeID addr c (joined nodeID addr c) := by
  by_cases hmem : IsMember nodeID addr c
  · rw [joined, if_pos hmem]
    obtain ⟨srv, hsrv, hfull⟩ := hmem
    exact ⟨hd, ⟨srv, hfull.unique hd hsrv⟩, rfl⟩
  · rw [joined, if_neg hmem]
    have hd' : Distinct (others nodeID addr c ++ [⟨.voter, nodeID, addr⟩]) :=
      distinct_others_append hd _
    have hsrv : (⟨.voter, nodeID, addr⟩ : Server)
        ∈ others nodeID addr c ++ [⟨.voter, nodeID, addr⟩] := by simp
    refine ⟨hd', ⟨_, Member.unique hd' hsrv ⟨rfl, rfl⟩⟩, ?_⟩
    have hself : others nodeID addr (others nodeID addr c) = others nodeID addr c :=
      List.filter_eq_self.mpr fun srv hsrv => (List.mem_filter.mp hsrv).2
    have hnew : others nodeID addr [⟨.voter, nodeID, addr⟩] = [] :=
      others_singleton_of_matches (Or.inl rfl)
    rw [others_append, hself, hnew, List.append_nil]

/-- **After a success the node is in the configuration once**, and the other servers are as
    they were. -/
theorem join_normal_form {R : Ops} (hR : R.Lawful) {nodeID addr : Bytes} {r : RaftState}
    (hd : Distinct r.servers) (h : (join R nodeID addr r).1 = none) :
    NormalForm nodeID addr r.servers (join R nodeID addr r).2.servers := by
  rw [join_servers hR hd h]
  exact joined_normalForm hd

/-- The operations of Raft on a configuration of voters. -/
def raftOps : Ops where
  removeServer id c := c.eraseP (·.ID = id)
  addVoter id addr c :=
    if ∃ srv ∈ c, srv.ID = id then
      c.map fun srv => if srv.ID = id then ⟨.voter, id, addr⟩ else srv
    else c ++ [⟨.voter, id, addr⟩]

/-- `raftOps` behaves as Raft does. -/
theorem raftOps_lawful : raftOps.Lawful where
  removeServer_eq _ _ := rfl
  addVoter_new _ _ _ h := if_neg fun ⟨srv, hsrv, hID⟩ => h srv hsrv hID

/-- Two voters. -/
def twoVoters : List Server :=
  [⟨.voter, encode ['n', '1'], encode ['a', '1']⟩, ⟨.voter, encode ['n', '2'], encode ['a', '2']⟩]

/-- Three voters. -/
def threeVoters : List Server := twoVoters ++ [⟨.voter, encode ['n', '3'], encode ['a', '3']⟩]

/-- A node takes the ID of one voter and the address of another; both go, and the third stays. -/
theorem join_normal_form_threeVoters :
    NormalForm (encode ['n', '1']) (encode ['a', '2']) threeVoters
      (join raftOps (encode ['n', '1']) (encode ['a', '2']) ⟨threeVoters, fun _ => {}⟩).2.servers :=
  join_normal_form raftOps_lawful (r := ⟨threeVoters, fun _ => {}⟩) (by decide) (by decide)

/-! ### After a failure -/

/-- At most one server has the ID and one the address. -/
theorem matching_length_le {nodeID addr : Bytes} {c : List Server} (hd : Distinct c) :
    (matching nodeID addr c).length ≤ 2 := by
  have hdm : Distinct (matching nodeID addr c) := hd.sublist List.filter_sublist
  have hall : ∀ srv ∈ matching nodeID addr c, Matches nodeID addr srv := fun srv hsrv =>
    of_decide_eq_true (List.mem_filter.mp hsrv).2
  generalize matching nodeID addr c = l at hdm hall
  match l with
  | [] | [_] | [_, _] => simp
  | x :: y :: z :: l =>
    -- two of three servers would share the ID or the address
    have hx := hall x (by simp)
    have hy := hall y (by simp)
    have hz := hall z (by simp)
    simp only [Distinct, List.map_cons, List.nodup_cons, List.mem_cons, not_or] at hdm
    simp only [Matches] at hx hy hz
    grind

/-- **After a failure some of the servers in the way are gone.** They are the ones that were
    removed before the operation that failed, which was number `i`, counted from 0; nothing was
    added.  None is gone if the configuration could not be read or the next operation failed. -/
theorem join_error_removed {R : Ops} (hR : R.Lawful) {nodeID addr : Bytes} {r : RaftState}
    (hd : Distinct r.servers) (h : (join R nodeID addr r).1 ≠ none) :
    ∃ i ≤ 3, Succeed r.answers i ∧ (r.answers i).error ≠ none ∧
      (∃ pre rest, r.servers = pre ++ rest ∧ (matching nodeID addr pre).length = i - 1 ∧
        (join R nodeID addr r).2.servers = others nodeID addr pre ++ rest) ∧
      (i ≤ 1 → (join R nodeID addr r).2.servers = r.servers) := by
  rcases join_cases hR hd with ⟨hnone, -⟩ | ⟨i, -, hi, hok, herr, pre, rest, hsplit, hlen, hres⟩
  · exact absurd hnone h
  · have hbound : callsNeeded nodeID addr r.servers ≤ 4 := by
      rw [callsNeeded]
      split
      · omega
      · have hlen : (matching nodeID addr r.servers).length ≤ 2 := matching_length_le hd
        omega
    refine ⟨i, by omega, hok, herr, ⟨pre, rest, hsplit, hlen, hres⟩, fun hi => ?_⟩
    have hpre : matching nodeID addr pre = [] := List.eq_nil_of_length_eq_zero (by omega)
    have hkept : others nodeID addr pre = pre :=
      List.filter_eq_self.mpr fun srv hsrv => decide_eq_true fun hm =>
        absurd (decide_eq_true hm) (List.filter_eq_nil_iff.mp hpre srv hsrv)
    rw [hres, hkept, hsplit]

/-- Raft loses the leadership before the third operation. -/
def lostLeadership : Nat → Answer := fun i =>
  if i < 2 then {} else { leader := false, error := some (encode "leadership lost".toList) }

/-- A voter that restarts at another address is removed, and not added again. -/
theorem join_error_shrinks :
    Distinct twoVoters ∧
      (join raftOps (encode ['n', '1']) (encode ['a', '3']) ⟨twoVoters, lostLeadership⟩).1 ≠ none ∧
      (join raftOps (encode ['n', '1']) (encode ['a', '3']) ⟨twoVoters, lostLeadership⟩).2.servers
        = twoVoters.tail := by
  decide

/-- There one operation was done, the reading apart. -/
theorem join_error_removed_twoVoters :
    ∃ i ≤ 3, Succeed lostLeadership i ∧ (lostLeadership i).error ≠ none ∧
      (∃ pre rest, twoVoters = pre ++ rest ∧
        (matching (encode ['n', '1']) (encode ['a', '3']) pre).length = i - 1 ∧
        (join raftOps (encode ['n', '1']) (encode ['a', '3'])
          ⟨twoVoters, lostLeadership⟩).2.servers
          = others (encode ['n', '1']) (encode ['a', '3']) pre ++ rest) ∧
      (i ≤ 1 → (join raftOps (encode ['n', '1']) (encode ['a', '3'])
        ⟨twoVoters, lostLeadership⟩).2.servers = twoVoters) :=
  join_error_removed raftOps_lawful (r := ⟨twoVoters, lostLeadership⟩) (by decide) (by decide)

end OSPortfolio.Chubby.Membership
