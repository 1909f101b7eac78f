import OSPortfolio.Chubby.KeyRequests

namespace OSPortfolio.Chubby.Main

open OSPortfolio.Utf8 OSPortfolio.Json OSPortfolio.Chubby.Httpd OSPortfolio.Chubby.Membership

/-!
# Joining at the start

A node that starts with a join address posts its ID and its Raft address to the node there.
The answer to the request has a status, which `join` does not look at.

* `joinBody`, `join` — the request and the start-up function;
* `serve_join` — the contacted node calls `Store.Join` with the ID and address as text;
* `isMember_joined_iff` — when the node is in the configuration afterwards;
* `join_sound_iff` — `join` returns nil rightly only if no answer came, or every Raft operation
  that the contacted node needed succeeded.
-/

/-- `json.Marshal` of the ID and the Raft address. -/
def joinBody (raftAddr nodeID : Bytes) : Bytes :=
  marshalMap ((Finmap.singleton addrName raftAddr).insert idName nodeID)

/-- The request. -/
def joinRequest (raftAddr nodeID : Bytes) : Httpd.Request :=
  { method := "POST", path := joinPath, body := joinBody raftAddr nodeID }

/-- What becomes of a request: it does not arrive, its response does not, or both do. -/
inductive Delivery
  | failed
  | responseLost
  | answered
  deriving DecidableEq

/-- `join(joinAddr, raftAddr, nodeID)`: whether it returns nil, and the contacted node behind
    it. -/
def join (R : Ops) (ord : RangeOrder) (d : Delivery) (raftAddr nodeID : Bytes) (n : Node) :
    Bool × Node :=
  let x := serveHTTP (nodeStore R) ord (joinRequest raftAddr nodeID) n
  match d with
  | .failed => (false, n)
  | .responseLost => (false, x.store)
  -- the status of the response is not looked at
  | .answered => (true, x.store)

/-! ### The contacted node -/

section

variable (R : Ops) (ord : RangeOrder) (raftAddr nodeID : Bytes)

theorem decodeMap_joinBody :
    ∃ m, decodeMap (joinBody raftAddr nodeID) = some (some m) ∧ m.keys.card = 2 ∧
      m.lookup addrName = some (toValid raftAddr) ∧ m.lookup idName = some (toValid nodeID) := by
  have hne : addrName ≠ idName := by decide
  have hkeys : ∀ k ∈ (Finmap.singleton addrName raftAddr : StringMap).insert idName nodeID,
      Valid k := by
    intro k hk
    rcases Finmap.mem_insert.mp hk with rfl | hk
    · exact valid_encode _
    · rw [(Finmap.mem_singleton ..).mp hk]
      exact valid_encode _
  obtain ⟨m, hdecode, hlookup⟩ := decodeMap_marshalMap_lookup hkeys
  have haddr : m.lookup addrName = some (toValid raftAddr) := by
    rw [hlookup, Finmap.lookup_insert_of_ne _ hne, Finmap.lookup_singleton_eq, Option.map_some]
  have hid : m.lookup idName = some (toValid nodeID) := by
    rw [hlookup, Finmap.lookup_insert, Option.map_some]
  refine ⟨m, hdecode, ?_, haddr, hid⟩
  have hset : m.keys = {idName, addrName} := by
    ext k
    rw [Finmap.mem_keys, ← Finmap.lookup_isSome, hlookup, Option.isSome_map, Finmap.lookup_isSome,
      Finmap.mem_insert, Finmap.mem_singleton, Finset.mem_insert, Finset.mem_singleton]
  rw [hset]
  decide

/-- **The contacted node calls `Store.Join`**, and answers with 200 if it returned nil. -/
theorem serve_join (n : Node) :
    serveHTTP (nodeStore R) ord (joinRequest raftAddr nodeID) n
      = { w := { status := if (Membership.join R (toValid nodeID) (toValid raftAddr) n.raft).1
                  = none then none else some 500 }
          calls := [.join (toValid nodeID) (toValid raftAddr)]
          store := { n with
            raft := (Membership.join R (toValid nodeID) (toValid raftAddr) n.raft).2 } } := by
  obtain ⟨m, hdecode, hcard, haddr, hid⟩ := decodeMap_joinBody raftAddr nodeID
  have hkey : ¬ keyPrefix <+: (joinRequest raftAddr nodeID).path := by
    show ¬ keyPrefix <+: joinPath
    decide
  have hjoin : (joinRequest raftAddr nodeID).path = joinPath := rfl
  have hbody : decodeMap (joinRequest raftAddr nodeID).body = some (some m) := hdecode
  rw [serveHTTP, if_neg hkey, if_pos hjoin, handleJoin, hbody]
  show handleJoinMap (nodeStore R) m (.start n) = _
  rw [handleJoinMap_of_lookup _ hcard haddr hid]
  show (if (Membership.join R (toValid nodeID) (toValid raftAddr) n.raft).1.isNone = true then _
    else _) = _
  cases herr : (Membership.join R (toValid nodeID) (toValid raftAddr) n.raft).1 with
  | none => rfl
  | some e => rfl

end

/-! ### What `join` promises -/

/-- The node is in the configuration, and only once. -/
def OnlyMember (nodeID addr : Bytes) (c : List Server) : Prop :=
  ∃ srv, c.filter (fun srv => Member nodeID addr srv) = [srv]

/-- In a configuration that Raft allows, the node is in it only once if it is in it. -/
theorem onlyMember_iff {nodeID addr : Bytes} {c : List Server} (hd : Distinct c) :
    OnlyMember nodeID addr c ↔ IsMember nodeID addr c := by
  constructor
  · rintro ⟨srv, hsrv⟩
    have hmem : srv ∈ c.filter fun srv => Member nodeID addr srv := hsrv ▸ List.mem_singleton_self _
    exact ⟨srv, (List.mem_filter.mp hmem).1, of_decide_eq_true (List.mem_filter.mp hmem).2⟩
  · rintro ⟨srv, hsrv, hfull⟩
    refine ⟨srv, ?_⟩
    have hsame : (c.filter fun s => Member nodeID addr s) = c.filter fun s => s.ID = srv.ID := by
      refine List.filter_congr fun s hs => decide_eq_decide.mpr ⟨fun h => ?_, fun h => ?_⟩
      · exact h.2.trans hfull.2.symm
      · rw [List.inj_on_of_nodup_map hd.1 hs hsrv h]
        exact hfull
    rw [hsame]
    exact filter_eq_singleton hd.1 hsrv

/-- **When the node is in the configuration** that `Store.Join` makes with the ID and address as
    text: if they are text, or if both are not and the node was in it before. -/
theorem isMember_joined_iff {nodeID addr : Bytes} {c : List Server} (hd : Distinct c) :
    IsMember nodeID addr (joined (toValid nodeID) (toValid addr) c) ↔
      (Valid nodeID ∧ Valid addr) ∨ (¬ Valid nodeID ∧ ¬ Valid addr ∧ IsMember nodeID addr c) := by
  have hnorm : NormalForm (toValid nodeID) (toValid addr) c
      (joined (toValid nodeID) (toValid addr) c) := joined_normalForm hd
  obtain ⟨srv₀, hsrv₀, ⟨haddr₀, hID₀⟩, honly⟩ := hnorm.exists_member
  -- a server that the call does not see as the node is there afterwards if it was before
  have hframe : ∀ srv, ¬ Matches (toValid nodeID) (toValid addr) srv →
      (srv ∈ joined (toValid nodeID) (toValid addr) c ↔ srv ∈ c) := by
    intro srv hm
    have hothers := hnorm.others_eq
    constructor
    · intro hsrv
      exact (mem_others.mp (hothers ▸ mem_others.mpr ⟨hsrv, hm⟩)).1
    · intro hsrv
      exact (mem_others.mp (hothers ▸ mem_others.mpr ⟨hsrv, hm⟩)).1
  have hinvalid : ∀ {s : Bytes}, ¬ Valid s → s ≠ toValid s :=
    fun hs heq => hs (toValid_eq_self_iff.mp heq.symm)
  by_cases hv : Valid nodeID <;> by_cases hw : Valid addr
  · rw [hv.toValid_eq, hw.toValid_eq] at *
    exact ⟨fun _ => Or.inl ⟨hv, hw⟩, fun _ => ⟨srv₀, hsrv₀, haddr₀, hID₀⟩⟩
  · -- the server with the ID has an address that is text
    constructor
    · rintro ⟨srv, hsrv, haddr, hID⟩
      obtain rfl := honly srv hsrv (Or.inl (hID.trans hv.toValid_eq.symm))
      exact absurd (haddr.symm.trans haddr₀) (hinvalid hw)
    · rintro (⟨-, h⟩ | ⟨h, -⟩)
      · exact absurd h hw
      · exact absurd hv h
  · constructor
    · rintro ⟨srv, hsrv, haddr, hID⟩
      obtain rfl := honly srv hsrv (Or.inr (haddr.trans hw.toValid_eq.symm))
      exact absurd (hID.symm.trans hID₀) (hinvalid hv)
    · rintro (⟨h, -⟩ | ⟨-, h, -⟩)
      · exact absurd h hv
      · exact absurd hw h
  · have hm : ∀ srv, Member nodeID addr srv → ¬ Matches (toValid nodeID) (toValid addr) srv := by
      rintro srv ⟨haddr, hID⟩ (h | h)
      · exact hinvalid hv (hID.symm.trans h)
      · exact hinvalid hw (haddr.symm.trans h)
    constructor
    · rintro ⟨srv, hsrv, hfull⟩
      exact Or.inr ⟨hv, hw, srv, (hframe srv (hm srv hfull)).mp hsrv, hfull⟩
    · rintro (⟨h, -⟩ | ⟨-, -, srv, hsrv, hfull⟩)
      · exact absurd h hv
      · exact ⟨srv, (hframe srv (hm srv hfull)).mpr hsrv, hfull⟩

/-- If `join` returns nil, then the contacted node answered with 200, and has the node in its
    configuration once. -/
def JoinSound (R : Ops) (ord : RangeOrder) (d : Delivery) (raftAddr nodeID : Bytes) (n : Node) :
    Prop :=
  (join R ord d raftAddr nodeID n).1 = true →
    (serveHTTP (nodeStore R) ord (joinRequest raftAddr nodeID) n).status = 200 ∧
      OnlyMember nodeID raftAddr (join R ord d raftAddr nodeID n).2.raft.servers

/-- **`join` returns nil rightly** exactly if no response came, or every Raft operation that the
    contacted node needs succeeds and the ID and the address come through as they are. -/
theorem join_sound_iff {R : Ops} (hR : R.Lawful) (ord : RangeOrder) (d : Delivery)
    (raftAddr nodeID : Bytes) {n : Node} (hd : Distinct n.raft.servers) :
    JoinSound R ord d raftAddr nodeID n ↔
      d ≠ .answered ∨
        (Succeed n.raft.answers
            (callsNeeded (toValid nodeID) (toValid raftAddr) n.raft.servers) ∧
          ((Valid nodeID ∧ Valid raftAddr) ∨
            (¬ Valid nodeID ∧ ¬ Valid raftAddr ∧ IsMember nodeID raftAddr n.raft.servers))) := by
  by_cases hanswered : d = .answered
  swap
  · refine ⟨fun _ => Or.inl hanswered, fun _ h => ?_⟩
    cases d with
    | failed => exact absurd h (by rw [join]; exact Bool.false_ne_true)
    | responseLost => exact absurd h (by rw [join]; exact Bool.false_ne_true)
    | answered => exact absurd rfl hanswered
  subst hanswered
  have hnil : (join R ord .answered raftAddr nodeID n).1 = true := rfl
  have hservers : (join R ord .answered raftAddr nodeID n).2.raft.servers
      = (Membership.join R (toValid nodeID) (toValid raftAddr) n.raft).2.servers := by
    show (serveHTTP _ ord _ n).store.raft.servers = _
    rw [serve_join]
  have hstatus : (serveHTTP (nodeStore R) ord (joinRequest raftAddr nodeID) n).status = 200 ↔
      (Membership.join R (toValid nodeID) (toValid raftAddr) n.raft).1 = none := by
    rw [serve_join]
    show Option.getD (if _ then none else some 500) 200 = 200 ↔ _
    split
    · rename_i h; exact ⟨fun _ => h, fun _ => rfl⟩
    · rename_i h; exact ⟨fun h' => absurd h' (by decide), fun h' => absurd h' h⟩
  rw [JoinSound, hservers, hstatus, ← join_eq_none_iff hR hd]
  constructor
  · intro h
    obtain ⟨hnone, honly⟩ := h hnil
    rw [join_servers hR hd hnone, onlyMember_iff (joined_normalForm hd).distinct,
      isMember_joined_iff hd] at honly
    exact Or.inr ⟨hnone, honly⟩
  · rintro (h | ⟨hnone, hmember⟩) -
    · exact absurd rfl h
    · refine ⟨hnone, ?_⟩
      rw [join_servers hR hd hnone, onlyMember_iff (joined_normalForm hd).distinct,
        isMember_joined_iff hd]
      exact hmember

/-- A follower with two voters in its configuration: it can read it, but not change it. -/
def follower : Node where
  m := ∅
  raft :=
    { servers := twoVoters
      answers := fun i => if i = 0 then { leader := false }
        else { leader := false, error := some (encode "node is not the leader".toList) } }

/-- A new node that contacts the follower is told that it joined, and it did not. -/
theorem join_follower :
    (join raftOps sortedRange .answered (encode ['a', '3']) (encode ['n', '3']) follower).1 = true ∧
      (serveHTTP (nodeStore raftOps) sortedRange
        (joinRequest (encode ['a', '3']) (encode ['n', '3'])) follower).status = 500 ∧
      (join raftOps sortedRange .answered (encode ['a', '3']) (encode ['n', '3'])
        follower).2.raft.servers = twoVoters ∧
      ¬ JoinSound raftOps sortedRange .answered (encode ['a', '3']) (encode ['n', '3']) follower := by
  have hstatus : (serveHTTP (nodeStore raftOps) sortedRange
      (joinRequest (encode ['a', '3']) (encode ['n', '3'])) follower).status = 500 := by
    rw [serve_join]
    decide
  refine ⟨rfl, hstatus, ?_, fun h => ?_⟩
  · show (serveHTTP _ sortedRange _ follower).store.raft.servers = _
    rw [serve_join]
    decide
  · have hok := (h rfl).1
    rw [hstatus] at hok
    exact absurd hok (by decide)

/-- The same for the leader of the two voters. -/
theorem join_sound_leader :
    JoinSound raftOps sortedRange .answered (encode ['a', '3']) (encode ['n', '3'])
      { m := ∅, raft := { servers := twoVoters, answers := fun _ => {} } } :=
  (join_sound_iff raftOps_lawful sortedRange .answered _ _ (by decide)).mpr
    (Or.inr ⟨fun _ _ => rfl, Or.inl ⟨valid_encode _, valid_encode _⟩⟩)

end OSPortfolio.Chubby.Main
