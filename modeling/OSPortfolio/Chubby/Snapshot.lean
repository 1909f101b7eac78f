import OSPortfolio.Chubby.Fsm

namespace OSPortfolio.Chubby.Fsm

open OSPortfolio.Utf8 OSPortfolio.Json

/-!
# Snapshots

A map of the code is a reference, so the map a snapshot holds and the map that log entries are
applied to could be the same.  The maps are therefore kept in a list here, and `f.m` and the
snapshot say which of them they mean.

* `LogCall` — a call of `Set` or `Delete`, and the entry it puts into the log;
* `Process` — the maps, `f.m`, and the snapshot that was taken;
* `Process.apply`, `snapshot`, `persist`, `restore` — the methods of `fsm` and of its snapshot;
* `applyLog_spec` — entries change the map `f.m` means, and no other;
* `restore_persisted` — what was persisted, restored and continued with the entries since the
  snapshot, is the map of the whole log.
-/

/-! ### The log -/

/-- A call that puts an entry into the log. -/
inductive LogCall
  | set (key value : Bytes)
  | delete (key : Bytes)
  deriving DecidableEq

/-- The entry. -/
def LogCall.entry : LogCall → Bytes
  | .set key value => setEntry key value
  | .delete key => deleteEntry key

/-- What the entry does to a map. -/
def LogCall.effect : LogCall → StringMap → StringMap
  | .set key value, m => m.insert (Utf8.toValid key) (Utf8.toValid value)
  | .delete key, m => m.erase (Utf8.toValid key)

/-- An entry does to the map what its call asks for. -/
theorem apply_entry (c : LogCall) (m : StringMap) :
    fsmApply c.entry (some m) = .ok (some (c.effect m)) := by
  cases c with
  | set key value => exact apply_setEntry key value (some m)
  | delete key => exact apply_deleteEntry key (some m)

/-- What a log makes of a map. -/
def replay (m : StringMap) (l : List LogCall) : StringMap := l.foldl (fun m c => c.effect m) m

theorem replay_append (m : StringMap) (l l' : List LogCall) :
    replay m (l ++ l') = replay (replay m l) l' := List.foldl_append

/-- A log leaves only text in the map. -/
theorem replay_allValid {m : StringMap} (hm : AllValid m) (l : List LogCall) :
    AllValid (replay m l) := by
  induction l generalizing m with
  | nil => exact hm
  | cons c l ih =>
    refine ih ?_
    cases c with
    | set key value => exact hm.insert (valid_toValid key) (valid_toValid value)
    | delete key => exact hm.erase (Utf8.toValid key)

/-! ### The methods of the store -/

/-- The maps that were made, which of them `f.m` is (none for nil), and which of them the
    snapshot that was taken holds. -/
structure Process where
  maps : List StringMap
  m : Option Nat
  snapshotMap : Option Nat := none

/-- `New`. -/
def Process.new : Process := { maps := [∅], m := some 0 }

/-- The content of `f.m`. -/
def Process.content (p : Process) : Option StringMap := p.m.bind (p.maps[·]?)

/-- Change the map that `f.m` is in place. -/
def Process.write (p : Process) (m : Option StringMap) : Process :=
  match p.m, m with
  | some i, some m => { p with maps := p.maps.set i m }
  | _, _ => p

/-- `fsm.Apply(l)`. -/
def Process.apply (p : Process) (data : Bytes) : Except Panic Process :=
  (fsmApply data p.content).map p.write

/-- `fsm.Snapshot()`: the entries are copied to a new map. -/
def Process.snapshot (p : Process) : Process :=
  { p with maps := p.maps ++ [p.content.getD ∅], snapshotMap := some p.maps.length }

/-- What `Persist` does to the sink. -/
inductive SinkCall
  | write (b : Bytes)
  | close
  | cancel
  deriving DecidableEq

/-- `fsmSnapshot.Persist(sink)`, given whether `Write` and `Close` succeed: the calls, and
    whether there was no error. -/
def persist (writeOk closeOk : Bool) (store : StringMap) : List SinkCall × Bool :=
  let b := marshalMap store
  if writeOk then
    if closeOk then ([.write b, .close], true) else ([.write b, .close, .cancel], false)
  else ([.write b, .cancel], false)

/-- The bytes a sink keeps. -/
def persistedBytes : List SinkCall → Option Bytes
  | [.write b, .close] => some b
  | _ => none

/-- `Persist` of the snapshot that was taken. -/
def Process.persist (p : Process) (writeOk closeOk : Bool) : Option (List SinkCall × Bool) :=
  (p.snapshotMap.bind (p.maps[·]?)).map (Fsm.persist writeOk closeOk)

/-- `fsm.Restore(rc)`: `f.m` is the decoded map; none if it cannot be decoded. -/
def Process.restore (p : Process) (b : Bytes) : Option Process :=
  match decodeMap b with
  | none => none
  | some (some o) => some { p with maps := p.maps ++ [o], m := some p.maps.length }
  | some none => some { p with m := none }

/-- Apply the entries of a log, in order. -/
def Process.applyLog (p : Process) (l : List LogCall) : Except Panic Process :=
  l.foldlM (fun p c => p.apply c.entry) p

/-! ### Applying a log -/

/-- `f.m` is the map at a place of the list. -/
def Process.At (p : Process) (i : Nat) (m : StringMap) : Prop :=
  p.m = some i ∧ p.maps[i]? = some m

theorem Process.At.content {p : Process} {i : Nat} {m : StringMap} (h : p.At i m) :
    p.content = some m := by
  rw [Process.content, h.1]
  exact h.2

/-- A write changes that place. -/
theorem Process.write_eq {p : Process} {i : Nat} (h : p.m = some i) (m : StringMap) :
    p.write (some m) = { p with maps := p.maps.set i m } := by
  rw [Process.write.eq_def, h]

/-- One entry changes the map in place. -/
theorem apply_spec {p : Process} {i : Nat} {m : StringMap} (h : p.At i m) (c : LogCall) :
    p.apply c.entry = .ok { p with maps := p.maps.set i (c.effect m) } := by
  rw [Process.apply, h.content, apply_entry]
  show Except.ok (p.write (some (c.effect m))) = _
  rw [Process.write_eq h.1]

/-- **Entries change the map that `f.m` is, and no other.** -/
theorem applyLog_spec {p : Process} {i : Nat} {m : StringMap} (h : p.At i m)
    (l : List LogCall) : p.applyLog l = .ok { p with maps := p.maps.set i (replay m l) } := by
  obtain ⟨hi, hget⟩ := List.getElem?_eq_some_iff.mp h.2
  induction l generalizing p m with
  | nil =>
    show Except.ok p = .ok { p with maps := p.maps.set i m }
    rw [← hget, List.set_getElem_self hi]
  | cons c l ih =>
    have hlen : i < (p.maps.set i (c.effect m)).length := by rwa [List.length_set]
    have hset : (p.maps.set i (c.effect m))[i] = c.effect m := List.getElem_set_self hlen
    rw [Process.applyLog, List.foldlM_cons, apply_spec h]
    have hat : Process.At { p with maps := p.maps.set i (c.effect m) } i (c.effect m) :=
      ⟨h.1, List.getElem?_set_self hi⟩
    show Process.applyLog { p with maps := p.maps.set i (c.effect m) } l = _
    rw [ih hat hlen hset, List.set_set]
    rfl

/-- The content after a log. -/
theorem applyLog_content {p : Process} {i : Nat} {m : StringMap} (h : p.At i m)
    (l : List LogCall) :
    ∃ q, p.applyLog l = .ok q ∧ q.At i (replay m l) ∧ q.snapshotMap = p.snapshotMap ∧
      ∀ j ≠ i, q.maps[j]? = p.maps[j]? := by
  obtain ⟨hi, -⟩ := List.getElem?_eq_some_iff.mp h.2
  refine ⟨_, applyLog_spec h l, ⟨h.1, List.getElem?_set_self hi⟩, rfl, fun j hj => ?_⟩
  exact List.getElem?_set_ne hj.symm

/-! ### Snapshot and restore -/

/-- A new process has the empty map. -/
theorem new_at : Process.new.At 0 ∅ := ⟨rfl, rfl⟩

/-- A new snapshot is a map of its own, and `f.m` is where it was. -/
theorem snapshot_spec {p : Process} {i : Nat} {m : StringMap} (h : p.At i m) :
    p.snapshot.At i m ∧
      ∃ j ≠ i, p.snapshot.snapshotMap = some j ∧ p.snapshot.maps[j]? = some m := by
  obtain ⟨hi, -⟩ := List.getElem?_eq_some_iff.mp h.2
  refine ⟨⟨h.1, ?_⟩, p.maps.length, (Nat.ne_of_lt hi).symm, rfl, ?_⟩
  · show (p.maps ++ [_])[i]? = _
    rw [List.getElem?_append_left hi, h.2]
  · show (p.maps ++ [p.content.getD ∅])[p.maps.length]? = _
    rw [h.content, List.getElem?_concat_length]
    rfl

/-- What is persisted is the map at the time of the snapshot, whatever was applied since. -/
theorem persist_spec {p : Process} {i : Nat} {m : StringMap} (h : p.At i m)
    (l : List LogCall) : ∃ q, p.snapshot.applyLog l = .ok q ∧ q.At i (replay m l) ∧
      q.persist true true = some ([.write (marshalMap m), .close], true) := by
  obtain ⟨hat, j, hj, hsnap, hmap⟩ := snapshot_spec h
  obtain ⟨q, happly, hq, hqsnap, hframe⟩ := applyLog_content hat l
  refine ⟨q, happly, hq, ?_⟩
  rw [Process.persist, hqsnap, hsnap, Option.bind_some, hframe j hj, hmap]
  rfl

/-- Restoring bytes that hold a map of text. -/
theorem restore_spec (p : Process) {m : StringMap} (hm : AllValid m) :
    ∃ q i, p.restore (marshalMap m) = some q ∧ q.At i m := by
  rw [Process.restore, decodeMap_marshalMap hm]
  exact ⟨_, p.maps.length, rfl, rfl, List.getElem?_concat_length⟩

/-- **Snapshot, persist, restore.** A replica applies the log `l₁`, takes a snapshot, applies
    `l₂` and persists the snapshot.  Another replica restores the bytes and applies `l₂` and
    what else is in the log.  Nothing panics, and it ends with the map, not nil, that the whole
    log makes of the empty store. -/
theorem restore_persisted (l₁ l₂ l₃ : List LogCall) (other : Process) :
    ∃ p q calls b r t m, Process.new.applyLog l₁ = .ok p ∧
      p.snapshot.applyLog l₂ = .ok q ∧
      q.persist true true = some (calls, true) ∧ persistedBytes calls = some b ∧
      other.restore b = some r ∧ r.applyLog (l₂ ++ l₃) = .ok t ∧ t.content = some m ∧
      (Process.new.applyLog (l₁ ++ (l₂ ++ l₃))).map Process.content = .ok (some m) := by
  obtain ⟨p, hp, hpat, -⟩ := applyLog_content new_at l₁
  obtain ⟨q, hq, -, hpersist⟩ := persist_spec hpat l₂
  obtain ⟨r, i, hr, hrat⟩ := restore_spec other (replay_allValid allValid_empty l₁)
  obtain ⟨t, ht, htat, -⟩ := applyLog_content hrat (l₂ ++ l₃)
  obtain ⟨u, hu, huat, -⟩ := applyLog_content new_at (l₁ ++ (l₂ ++ l₃))
  refine ⟨p, q, _, _, r, t, _, hp, hq, hpersist, rfl, hr, ht, htat.content, ?_⟩
  rw [hu, ← replay_append]
  exact congrArg Except.ok huat.content

end OSPortfolio.Chubby.Fsm
