import Mathlib.Data.List.Nodup

namespace OSPortfolio.ProcessGroups

/-!
# Process groups and the terminal

The children of one session leader, as far as job control sees them: the process group of each,
the group in the foreground of the terminal, and the changes of state that `waitpid` reports.

* `Proc`, `Session` — a child, and all of them with the terminal;
* `Session.setpgid`, `Session.tcsetpgrp` — a group can be joined and put in the foreground only
  if a process is in it;
* `Session.fork`, `Session.stop`, `Session.continued`, `Session.exit`, `Session.waitpid`;
* `Session.Proper` — the children have different pids, none of them that of the leader;
* `forall_update`, `Session.waitpid_spec` — what the operations leave alone.
-/

/-- A child that has not been reaped: its state, the status that `waitpid` has not returned yet,
    and what its program knows. -/
structure Proc (τ σ : Type) where
  pid : Int
  group : Int
  data : τ
  stopped : Bool := false
  exited : Bool := false
  pending : Option σ := none
  deriving DecidableEq

/-- The session leader, in a group of its own, its children, and the foreground group. -/
structure Session (τ σ : Type) where
  leader : Int
  procs : List (Proc τ σ)
  foreground : Int
  deriving DecidableEq

namespace Session

variable {τ σ : Type}

/-- Some process is in the group. -/
def HasGroup (S : Session τ σ) (g : Int) : Prop := g = S.leader ∨ ∃ p ∈ S.procs, p.group = g

instance (S : Session τ σ) (g : Int) : Decidable (S.HasGroup g) :=
  inferInstanceAs (Decidable (_ ∨ ∃ p ∈ S.procs, _))

/-- The child with this pid. -/
def find (S : Session τ σ) (pid : Int) : Option (Proc τ σ) := S.procs.find? (·.pid = pid)

/-- Change the child with this pid. -/
def update (S : Session τ σ) (pid : Int) (f : Proc τ σ → Proc τ σ) : Session τ σ :=
  { S with procs := S.procs.map fun p => if p.pid = pid then f p else p }

/-- `setpgid(pid, g)` -/
def setpgid (S : Session τ σ) (pid g : Int) : Session τ σ :=
  if g = pid ∨ S.HasGroup g then S.update pid fun p => { p with group := g } else S

/-- `tcsetpgrp(terminal, g)`, by a process that is not stopped for it -/
def tcsetpgrp (S : Session τ σ) (g : Int) : Session τ σ :=
  if S.HasGroup g then { S with foreground := g } else S

/-- Neither a process nor a group has this number. -/
def Fresh (S : Session τ σ) (pid : Int) : Prop :=
  0 < pid ∧ pid ≠ S.leader ∧ ∀ p ∈ S.procs, p.pid ≠ pid ∧ p.group ≠ pid

instance (S : Session τ σ) (pid : Int) : Decidable (S.Fresh pid) :=
  inferInstanceAs (Decidable (_ ∧ _ ∧ ∀ p ∈ S.procs, _))

/-- `fork` in the leader: the child is in its group. -/
def fork (S : Session τ σ) (pid : Int) (data : τ) : Session τ σ :=
  { S with procs := S.procs ++ [{ pid := pid, group := S.leader, data := data }] }

/-- A signal stops the child. -/
def stop (S : Session τ σ) (pid : Int) (status : σ) : Session τ σ :=
  S.update pid fun p => { p with stopped := true, pending := some status }

/-- `SIGCONT`; a stop that has not been reported is forgotten. -/
def continued (S : Session τ σ) (pid : Int) (isStop : σ → Bool) : Session τ σ :=
  S.update pid fun p => { p with stopped := false, pending := p.pending.filter fun s => !isStop s }

/-- The child ends. -/
def exit (S : Session τ σ) (pid : Int) (status : σ) : Session τ σ :=
  S.update pid fun p => { p with stopped := false, exited := true, pending := some status }

/-- `waitpid` returns the status of this child; one that has ended is gone then. -/
def waitpid (S : Session τ σ) (isStop : σ → Bool) (pid : Int) : Option (σ × Session τ σ) :=
  (S.find pid).bind fun p => p.pending.map fun status =>
    (status, if isStop status then S.update pid fun p => { p with pending := none }
      else { S with procs := S.procs.filter (·.pid ≠ pid) })

/-- The children have pids of their own. -/
structure Proper (S : Session τ σ) : Prop where
  nodup : (S.procs.map Proc.pid).Nodup
  pos : ∀ p ∈ S.procs, 0 < p.pid
  ne_leader : ∀ p ∈ S.procs, p.pid ≠ S.leader

variable {S : Session τ σ} {pid : Int} {f : Proc τ σ → Proc τ σ}

theorem find_spec {p : Proc τ σ} (h : S.find pid = some p) : p ∈ S.procs ∧ p.pid = pid :=
  ⟨List.mem_of_find?_eq_some h, by simpa using List.find?_some h⟩

/-- Two children with one pid are one. -/
theorem Proper.eq_of_pid (h : S.Proper) {p q : Proc τ σ} (hp : p ∈ S.procs) (hq : q ∈ S.procs)
    (heq : p.pid = q.pid) : p = q :=
  List.inj_on_of_nodup_map h.nodup hp hq heq

/-! ### Changing one child -/

theorem mem_update {q : Proc τ σ} :
    q ∈ (S.update pid f).procs ↔
      (∃ p ∈ S.procs, p.pid = pid ∧ f p = q) ∨ (q ∈ S.procs ∧ q.pid ≠ pid) := by
  constructor
  · intro hq
    obtain ⟨p, hp, rfl⟩ := List.mem_map.mp hq
    by_cases hpid : p.pid = pid
    · rw [if_pos hpid]
      exact .inl ⟨p, hp, hpid, rfl⟩
    · rw [if_neg hpid]
      exact .inr ⟨hp, hpid⟩
  · rintro (⟨p, hp, hpid, rfl⟩ | ⟨hq, hne⟩)
    · exact List.mem_map.mpr ⟨p, hp, if_pos hpid⟩
    · exact List.mem_map.mpr ⟨q, hq, if_neg hne⟩

/-- Two changes of one child. -/
theorem update_update (hf : ∀ p, (f p).pid = p.pid) (g : Proc τ σ → Proc τ σ) :
    (S.update pid f).update pid g = S.update pid fun p => g (f p) := by
  have hprocs : ∀ p, (if (if p.pid = pid then f p else p).pid = pid then
      g (if p.pid = pid then f p else p) else if p.pid = pid then f p else p) =
      if p.pid = pid then g (f p) else p := by
    intro p
    by_cases hpid : p.pid = pid
    · simp [hpid, hf]
    · simp [hpid]
  rw [update, update, update, List.map_map]
  simp only [Function.comp_def, hprocs]

/-- What holds of all children, and of the changed one, holds of all behind the change. -/
theorem forall_update {P Q : Proc τ σ → Prop} (h : ∀ p ∈ S.procs, P p)
    (hf : ∀ p ∈ S.procs, p.pid = pid → P p → Q (f p)) (hother : ∀ p ∈ S.procs, P p → Q p) :
    ∀ q ∈ (S.update pid f).procs, Q q := by
  intro q hq
  rcases mem_update.mp hq with ⟨p, hp, hpid, rfl⟩ | ⟨hq, -⟩
  · exact hf p hp hpid (h p hp)
  · exact hother q hq (h q hq)

/-- An update that keeps the pids keeps the session proper. -/
theorem Proper.update (h : S.Proper) (hf : ∀ p, (f p).pid = p.pid) : (S.update pid f).Proper where
  nodup := by
    have heq : (S.update pid f).procs.map Proc.pid = S.procs.map Proc.pid := by
      show (S.procs.map _).map _ = _
      rw [List.map_map]
      refine List.map_congr_left fun p _ => ?_
      show (if p.pid = pid then f p else p).pid = p.pid
      split
      · exact hf p
      · rfl
    rw [heq]
    exact h.nodup
  pos := forall_update h.pos (fun p _ _ hp => by rw [hf]; exact hp) fun _ _ hp => hp
  ne_leader := forall_update h.ne_leader (fun p _ _ hp => by rw [hf]; exact hp) fun _ _ hp => hp

/-- So does `setpgid`. -/
theorem Proper.setpgid (h : S.Proper) (pid g : Int) : (S.setpgid pid g).Proper := by
  rw [Session.setpgid]
  split
  · exact h.update fun _ => rfl
  · exact h

@[simp] theorem foreground_setpgid (S : Session τ σ) (pid g : Int) :
    (S.setpgid pid g).foreground = S.foreground := by
  rw [Session.setpgid]
  split <;> rfl

@[simp] theorem leader_setpgid (S : Session τ σ) (pid g : Int) :
    (S.setpgid pid g).leader = S.leader := by
  rw [Session.setpgid]
  split <;> rfl

/-! ### The terminal -/

@[simp] theorem procs_tcsetpgrp (S : Session τ σ) (g : Int) :
    (S.tcsetpgrp g).procs = S.procs := by
  rw [tcsetpgrp]
  split <;> rfl

@[simp] theorem leader_tcsetpgrp (S : Session τ σ) (g : Int) :
    (S.tcsetpgrp g).leader = S.leader := by
  rw [tcsetpgrp]
  split <;> rfl

/-- The terminal is given to a group that exists. -/
theorem foreground_tcsetpgrp {g : Int} (h : S.HasGroup g) : (S.tcsetpgrp g).foreground = g := by
  rw [tcsetpgrp, if_pos h]

/-- Giving it away keeps the session proper. -/
theorem Proper.tcsetpgrp (h : S.Proper) (g : Int) : (S.tcsetpgrp g).Proper :=
  ⟨by rw [procs_tcsetpgrp]; exact h.nodup, by rw [procs_tcsetpgrp]; exact h.pos, by
    rw [procs_tcsetpgrp, leader_tcsetpgrp]; exact h.ne_leader⟩

/-! ### New children, and children that are gone -/

theorem mem_fork {data : τ} {p : Proc τ σ} :
    p ∈ (S.fork pid data).procs ↔ p ∈ S.procs ∨ p = { pid := pid, group := S.leader, data := data } :=
  List.mem_append.trans (or_congr Iff.rfl List.mem_singleton)

/-- A fork with a fresh pid keeps the session proper. -/
theorem Proper.fork (h : S.Proper) (hfresh : S.Fresh pid) (data : τ) : (S.fork pid data).Proper where
  nodup := by
    show ((S.procs ++ [_]).map Proc.pid).Nodup
    rw [List.map_append]
    refine List.nodup_append.mpr ⟨h.nodup, List.nodup_singleton _, fun a ha b hb => ?_⟩
    obtain ⟨p, hp, rfl⟩ := List.mem_map.mp ha
    obtain rfl := List.mem_singleton.mp hb
    exact (hfresh.2.2 p hp).1
  pos p hp := by
    rcases mem_fork.mp hp with hp | rfl
    · exact h.pos p hp
    · exact hfresh.1
  ne_leader p hp := by
    rcases mem_fork.mp hp with hp | rfl
    · exact h.ne_leader p hp
    · exact hfresh.2.1

/-- A child that `waitpid` has returned the status of: it has forgotten it, or it is gone; the
    others are as they were. -/
theorem waitpid_spec (h : S.Proper) {isStop : σ → Bool} {status : σ} {T : Session τ σ}
    (hwait : S.waitpid isStop pid = some (status, T)) :
    ∃ p ∈ S.procs, p.pid = pid ∧ p.pending = some status ∧ T.leader = S.leader ∧
      T.foreground = S.foreground ∧ T.Proper ∧
      ∀ q ∈ T.procs, (q ∈ S.procs ∧ q.pid ≠ pid) ∨
        (isStop status = true ∧ q = { p with pending := none }) := by
  obtain ⟨p, hp, hwait⟩ := Option.bind_eq_some_iff.mp hwait
  obtain ⟨status', hpending, heq⟩ := Option.map_eq_some_iff.mp hwait
  obtain ⟨rfl, rfl⟩ := Prod.mk.inj heq
  obtain ⟨hmem, hpid⟩ := find_spec hp
  refine ⟨p, hmem, hpid, hpending, ?_⟩
  cases hstop : isStop status' with
  | true =>
    refine ⟨rfl, rfl, h.update fun _ => rfl, fun q hq => ?_⟩
    rcases mem_update.mp hq with ⟨p', hp', hpid', rfl⟩ | hq
    · obtain rfl := h.eq_of_pid hp' hmem (hpid'.trans hpid.symm)
      exact .inr ⟨rfl, rfl⟩
    · exact .inl hq
  | false =>
    have hsub : (S.procs.filter (·.pid ≠ pid)).Sublist S.procs := List.filter_sublist
    refine ⟨rfl, rfl, ⟨h.nodup.sublist (hsub.map _), fun q hq => h.pos q (hsub.subset hq),
      fun q hq => h.ne_leader q (hsub.subset hq)⟩, fun q hq => .inl ?_⟩
    obtain ⟨hmem, hne⟩ := List.mem_filter.mp hq
    exact ⟨hmem, by simpa using hne⟩

end Session

end OSPortfolio.ProcessGroups
