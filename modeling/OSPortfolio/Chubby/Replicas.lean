import OSPortfolio.Chubby.Snapshot
import OSPortfolio.Lib.ReplicatedLog

namespace OSPortfolio.Chubby.Fsm

open OSPortfolio.Utf8 OSPortfolio.Json OSPortfolio.Lts OSPortfolio.ReplicatedLog

/-!
# Reads on the nodes of a cluster

Raft gives every node the same log, and each node applies it at its own pace.  `Get` reads the
map of the node that is asked.

* `lockStore` — the writes of the store as commands on a replicated map; a write of text binds
  the key it is given, and no other;
* `replay_content` — the map of a node is what the entries it applied make of an empty one;
* `get_fresh` — a `Get` returns the last acknowledged write, or a later one, in a run whose
  writes are of text and where each `Get` is made at a node that has applied the acknowledged
  writes to the key;
* `get_stale` — at another node it may return an older value.
-/

/-- The key that is given to `Set` or `Delete`. -/
def LogCall.target : LogCall → Bytes
  | .set key _ => key
  | .delete key => key

/-- What `Get` is to return for it behind the write. -/
def LogCall.result : LogCall → Bytes
  | .set _ value => value
  | .delete _ => []

/-- The key and the value are text. -/
def LogCall.IsText : LogCall → Prop
  | .set key value => Valid key ∧ Valid value
  | .delete key => Valid key

/-- A write of text is read under the key that was given, and changes no other. -/
theorem get_effect (m : StringMap) (c : LogCall) (k : Bytes) (hc : c.IsText) :
    get k (c.effect m) = if c.target = k then c.result else get k m := by
  cases c with
  | set key value =>
    obtain ⟨hkey, hvalue⟩ := hc
    rw [LogCall.effect, hkey.toValid_eq, hvalue.toValid_eq, LogCall.target, LogCall.result]
    by_cases hk : key = k
    · rw [if_pos hk, ← hk, get, Finmap.lookup_insert, Option.getD_some]
    · rw [if_neg hk, get, Finmap.lookup_insert_of_ne m (Ne.symm hk)]
      rfl
  | delete key =>
    rw [LogCall.effect, Valid.toValid_eq hc, LogCall.target, LogCall.result]
    by_cases hk : key = k
    · rw [if_pos hk, ← hk, get, Finmap.lookup_erase, Option.getD_none]
    · rw [if_neg hk, get, Finmap.lookup_erase_ne (Ne.symm hk)]
      rfl

/-- The map that the log entries write. -/
def lockStore : Object LogCall Bytes Bytes StringMap where
  init := ∅
  apply m c := c.effect m
  read := get
  target := LogCall.target
  result := LogCall.result
  ok := LogCall.IsText
  read_apply := get_effect

/-- The map of a node that has applied some entries with `fsm.Apply`. -/
theorem replay_content (l : List LogCall) :
    (Process.new.applyLog l).map Process.content = .ok (some (lockStore.replay l)) := by
  obtain ⟨p, hp, hat, -⟩ := applyLog_content new_at l
  rw [hp]
  exact congrArg Except.ok hat.content

/-- **Reads are fresh where they are current.** In every run in which keys and values of the
    writes are text and each `Get` is served by a node that has applied the acknowledged writes
    to its key, it returns the value of the last of these or of a later one. -/
theorem get_fresh {ι : Type} [DecidableEq ι] {as : List (Event ι LogCall Bytes Bytes)}
    {s : Cluster ι LogCall}
    (h : Run (guarded (Step lockStore) (Current lockStore)) .start as s) :
    ReadsFresh lockStore s.log as := run_readsFresh h

/-- A write to a key. -/
def sampleSet : LogCall := .set (encode ['k']) (encode ['v'])

/-- Node 0, the leader, has applied the write and acknowledged it; node 1 has not. -/
def ackedByLeader : Cluster (Fin 2) LogCall :=
  { log := [sampleSet], applied := Function.update (fun _ => 0) 0 1, acked := [0] }

/-- How it comes to that. -/
def ackedEvents : List (Event (Fin 2) LogCall Bytes Bytes) :=
  [.commit sampleSet, .apply 0, .ack 0 0]

theorem run_ackedByLeader :
    Run (guarded (Step lockStore) (Current lockStore)) .start ackedEvents ackedByLeader :=
  (((Run.nil Cluster.start).snoc
    ⟨⟨valid_encode ['k'], valid_encode ['v']⟩, step_commit lockStore _ sampleSet⟩).snoc
    ⟨trivial, step_apply lockStore _ Nat.one_pos⟩).snoc
    ⟨trivial, step_ack lockStore _ Nat.one_pos⟩

/-- The leader is asked for the key. -/
theorem get_fresh_leader :
    ReadsFresh lockStore ackedByLeader.log
      (ackedEvents ++ [.read 0 (encode ['k']) (encode ['v'])]) := by
  have hread : Step lockStore ackedByLeader (.read 0 (encode ['k']) (encode ['v'])) ackedByLeader :=
    step_read lockStore ackedByLeader 0 (encode ['k'])
  refine get_fresh (run_ackedByLeader.snoc ⟨fun p hp _ _ _ => ?_, hread⟩)
  obtain rfl := List.mem_singleton.mp hp
  decide

/-- The follower is asked instead, which has not applied the write. -/
theorem get_stale :
    Run (Step lockStore) .start (ackedEvents ++ [.read 1 (encode ['k']) []]) ackedByLeader ∧
      ¬ ReadsFresh lockStore ackedByLeader.log (ackedEvents ++ [.read 1 (encode ['k']) []]) := by
  have hread : Step lockStore ackedByLeader (.read 1 (encode ['k']) []) ackedByLeader :=
    step_read lockStore ackedByLeader 1 (encode ['k'])
  refine ⟨(run_ackedByLeader.mono fun _ _ _ h => h.2).snoc hread, fun h => ?_⟩
  have hack : .ack 0 0 ∈ ackedEvents := by simp [ackedEvents]
  obtain ⟨q, c, -, hq, -, hvalue⟩ :=
    h ackedEvents [] 1 (encode ['k']) [] rfl 0 0 sampleSet hack rfl (by decide)
  -- the only write to the key is the one that was acknowledged
  obtain rfl := List.mem_singleton.mp (List.mem_of_getElem? hq)
  exact absurd hvalue (by decide)

end OSPortfolio.Chubby.Fsm
