import OSPortfolio.Lib.Replication
import OSPortfolio.Chubby.Snapshot

namespace OSPortfolio.Chubby.Fsm

open OSPortfolio.Utf8 OSPortfolio.Json OSPortfolio.Lts OSPortfolio.Replication

/-!
# The stores of a cluster

Raft hands the committed entries to the `fsm` of each node, asks it for snapshots and writes them
to files while it goes on, and restores files when a node starts or has fallen behind.

* `fsmImplementation` — the methods of `fsm` as the processes of a replicated machine;
* `fsm_lawful` — a snapshot is a map of its own, and its file is read back;
* `cluster_safe` — **in every run the map of each node is what the entries it has applied make of
  an empty one**, and no entry, snapshot or file ends a node.
-/

/-- `retainSnapshotCount` -/
def retainSnapshotCount : Nat := 2

/-- The methods that Raft calls; a write to a file and the `Close` behind it may fail. -/
def fsmImplementation : Implementation LogCall Process Bytes (Bool × Bool) where
  start := .new
  apply p c := (p.apply c.entry).toOption
  snapshot := Process.snapshot
  persist o p := (p.persist o.1 o.2).map fun r => persistedBytes r.1
  restore := Process.restore

/-- The map that the entries write. -/
def lockMachine : Machine LogCall StringMap where
  init := ∅
  apply m c := c.effect m

theorem lockMachine_replay (l : List LogCall) : lockMachine.replay l = replay ∅ l := rfl

/-- `f.m` is a map with this content, and the snapshot another one. -/
structure HasMaps (p : Process) (m : StringMap) (taken : Option StringMap) : Prop where
  current : ∃ i, p.At i m ∧ ∀ t ∈ taken, ∃ j ≠ i, p.snapshotMap = some j ∧ p.maps[j]? = some t
  valid : AllValid m
  valid_taken : ∀ t ∈ taken, AllValid t

/-- The file that `Persist` writes for a map. -/
def HoldsMap (b : Bytes) (m : StringMap) : Prop := b = marshalMap m ∧ AllValid m

theorem allValid_effect {m : StringMap} (hm : AllValid m) (c : LogCall) : AllValid (c.effect m) :=
  replay_allValid hm [c]

/-- **A snapshot is a map of its own, and its file is read back.** -/
theorem fsm_lawful : fsmImplementation.Lawful lockMachine HasMaps HoldsMap where
  start := ⟨⟨0, new_at, by simp⟩, allValid_empty, by simp⟩
  apply {p m taken} c h := by
    obtain ⟨⟨i, hat, htaken⟩, hvalid, hvalid'⟩ := h
    obtain ⟨hi, -⟩ := List.getElem?_eq_some_iff.mp hat.2
    refine ⟨{ p with maps := p.maps.set i (c.effect m) }, ?_, ⟨i, ⟨hat.1, ?_⟩, fun t ht => ?_⟩,
      allValid_effect hvalid c, hvalid'⟩
    · show (p.apply c.entry).toOption = _
      rw [apply_spec hat]
      rfl
    · exact List.getElem?_set_self hi
    -- the entry is written to another map
    · obtain ⟨j, hj, hsnapshot, hget⟩ := htaken t ht
      exact ⟨j, hj, hsnapshot, by rw [← hget]; exact List.getElem?_set_ne hj.symm⟩
  snapshot {p m taken} h := by
    obtain ⟨⟨i, hat, -⟩, hvalid, -⟩ := h
    obtain ⟨hat', j, hj, hsnapshot, hget⟩ := snapshot_spec hat
    refine ⟨⟨i, hat', fun t ht => ?_⟩, hvalid, fun t ht => ?_⟩
    · obtain rfl := Option.some.inj ht
      exact ⟨j, hj, hsnapshot, hget⟩
    · obtain rfl := Option.some.inj ht
      exact hvalid
  persist {p m t} o h := by
    obtain ⟨⟨i, -, htaken⟩, -, hvalid⟩ := h
    obtain ⟨j, -, hsnapshot, hget⟩ := htaken t rfl
    refine ⟨persistedBytes (persist o.1 o.2 t).1, ?_, fun b hb => ⟨?_, hvalid t rfl⟩⟩
    · show (p.persist o.1 o.2).map _ = _
      rw [Process.persist, hsnapshot, Option.bind_some, hget]
      rfl
    · obtain ⟨writeOk, closeOk⟩ := o
      cases writeOk <;> cases closeOk <;> cases hb
      rfl
  release h := by
    obtain ⟨⟨i, hat, -⟩, hvalid, -⟩ := h
    exact ⟨⟨i, hat, by simp⟩, hvalid, by simp⟩
  restore {p m taken b m'} h hb := by
    obtain ⟨⟨i, -, htaken⟩, -, hvalid⟩ := h
    obtain ⟨rfl, hvalid'⟩ := hb
    refine ⟨{ p with maps := p.maps ++ [m'], m := some p.maps.length }, ?_,
      ⟨p.maps.length, ⟨rfl, List.getElem?_concat_length⟩, fun t ht => ?_⟩, hvalid', hvalid⟩
    · show p.restore (marshalMap m') = _
      rw [Process.restore, decodeMap_marshalMap hvalid']
    · obtain ⟨j, -, hsnapshot, hget⟩ := htaken t ht
      have hlt : j < p.maps.length := (List.getElem?_eq_some_iff.mp hget).1
      exact ⟨j, Nat.ne_of_lt hlt, hsnapshot, by rw [List.getElem?_append_left hlt, hget]⟩

section
variable {ι : Type} [DecidableEq ι]

/-- **The stores of a cluster.**  Entries are committed and applied, snapshots are taken, written
    to files or lost, nodes start again and restore files of their own and of each other, in any
    order: the map of each node, never nil, is what the entries it has applied make of an empty
    one, and no entry makes `Apply` panic, `Persist` finds the snapshot that was taken, and every
    file can be restored. -/
theorem cluster_safe {es : List (Event ι LogCall (Bool × Bool))}
    {s : Cluster ι LogCall Process Bytes}
    (h : Run (Step fsmImplementation retainSnapshotCount) (.start fsmImplementation) es s) :
    (∀ i, (s.node i).process.content = some (replay ∅ (s.log.take (s.node i).applied))) ∧
      (∀ i, (s.node i).applied ≤ s.log.length) ∧
      ∀ e x, step fsmImplementation retainSnapshotCount s e = some x → ∃ t, x = .ok t := by
  have hreplays := run_replays fsm_lawful retainSnapshotCount h
  refine ⟨fun i => ?_, fun i => (hreplays i).applied_le, fun e x hx => ?_⟩
  · obtain ⟨⟨j, hat, -⟩, -, -⟩ := (hreplays i).process
    exact hat.content
  · obtain ⟨t, ht, -⟩ := step_replays fsm_lawful retainSnapshotCount hreplays hx
    exact ⟨t, ht⟩

end

/-- An entry is committed, and node 1 takes a snapshot and applies the entry. -/
theorem cluster_safe_applied :
    ∃ s : Cluster (Fin 2) LogCall Process Bytes, s.log = [.set [107] [118]] ∧
      (s.node 1).applied = 1 ∧ (s.node 1).taken = some 0 ∧
      (∀ i, (s.node i).process.content = some (replay ∅ (s.log.take (s.node i).applied))) ∧
      (∀ i, (s.node i).applied ≤ s.log.length) ∧
      ∀ e x, step fsmImplementation retainSnapshotCount s e = some x → ∃ t, x = .ok t := by
  let c : LogCall := .set [107] [118]
  let taken : Replica Process Bytes := ⟨fsmImplementation.snapshot .new, 0, some 0, []⟩
  let s1 : Cluster (Fin 2) LogCall Process Bytes :=
    { Cluster.start fsmImplementation with log := [c] }
  obtain ⟨p, hp, -⟩ := fsm_lawful.apply c (fsm_lawful.snapshot fsm_lawful.start)
  have hcommit : Step fsmImplementation retainSnapshotCount (.start fsmImplementation) (.commit c)
      s1 := rfl
  have hsnapshot : Step fsmImplementation retainSnapshotCount s1 (.snapshot 1)
      (s1.setNode 1 taken) := rfl
  have happly : Step fsmImplementation retainSnapshotCount (s1.setNode 1 taken) (.apply 1)
      ((s1.setNode 1 taken).setNode 1 { taken with process := p, applied := 1 }) := by
    have hstep : step fsmImplementation retainSnapshotCount (s1.setNode 1 taken) (.apply 1) =
        some (match fsmImplementation.apply taken.process c with
          | some p =>
            .ok ((s1.setNode 1 taken).setNode 1 { taken with process := p, applied := 1 })
          | none => .error .panic) := rfl
    rw [show fsmImplementation.apply taken.process c = some p from hp] at hstep
    exact hstep
  exact ⟨_, rfl, rfl, rfl, cluster_safe (((Run.single hcommit).snoc hsnapshot).snoc happly)⟩

end OSPortfolio.Chubby.Fsm
