import Mathlib.Data.List.Flatten
import OSPortfolio.Ish.JobGroups
import OSPortfolio.Ish.JobHistory

namespace OSPortfolio.Ish

open OSPortfolio.Posix

/-!
# The children behind the process entries

A process entry holds a pid, and the kernel may give a pid to a new child once `waitpid` has
returned the termination of the child that had it.  This file sets the
children beside the process entries of a table.

* `Kid` — a child; its place in the list of all children ever forked is its identity;
* `Recording.GoesToNewest` — a status goes to the child it is about, the newest with its pid;
* `FamilyOk` — the invariant: entries stand in the reverse order of the forks, and each child
  not yet reaped has one;
* `FamilyOk.goesToNewest`, `FamilyOk.record`, `FamilyOk.lose`, `FamilyOk.resume`,
  `FamilyOk.launch`, `FamilyOk.sweep` — what follows from it, and that everything the shell
  does with its table keeps it.
-/

/-! ### Children -/

/-- A child: its pid, whether `waitpid` has returned its termination, and whether that was in
    a call whose status the shell did not record. -/
structure Kid where
  pid : Int
  reaped : Bool := false
  lost : Bool := false
  deriving DecidableEq, Repr

/-- The child that has the pid now: a child that has been reaped has none. -/
def subjectOf (kids : List Kid) (pid : Int) : Option Nat :=
  kids.findIdx? fun kid => kid.pid = pid && !kid.reaped

/-- `n` is the child forked last with the pid. -/
def Newest (kids : List Kid) (n : Nat) (pid : Int) : Prop :=
  (∃ kid, kids[n]? = some kid ∧ kid.pid = pid) ∧
    ∀ m kid, n < m → kids[m]? = some kid → kid.pid ≠ pid

/-- `waitpid` returns `e`; a child that has terminated is reaped. -/
def deliver (lost : Bool) (kids : List Kid) (e : StatusEvent) : List Kid :=
  if e.status.wifstopped then kids
  else (subjectOf kids e.processId).elim kids fun n =>
    kids.modify n fun kid => { kid with reaped := true, lost := lost }

/-- The kernel has these statuses to return, one after the other: each is about a child that
    has not been reaped. -/
def HasStatuses : List Kid → List StatusEvent → Prop
  | _, [] => True
  | kids, e :: es =>
    (subjectOf kids e.processId).isSome = true ∧ HasStatuses (deliver false kids e) es

/-- A call of `UpdatedProcessStatus` that succeeds: the process entries before it, the
    children behind them, and all children before the status was returned. -/
structure Recording where
  event : StatusEvent
  table : List (List Process)
  owners : List (List Nat)
  kids : List Kid

/-- The status changes one entry, that entry is of the child the status is about, and no
    child forked later has its pid. -/
def Recording.GoesToNewest (r : Recording) : Prop :=
  ∃ i n p, r.table.flatten[i]? = some p ∧ p.processId = r.event.processId ∧
    (recordStatus r.table r.event).flatten =
      r.table.flatten.modify i (Process.record r.event.status) ∧
    r.owners.flatten[i]? = some n ∧ subjectOf r.kids r.event.processId = some n ∧
    Newest r.kids n r.event.processId

/-- The statuses of a log. -/
def statusesOf (log : List JobEvent) : List StatusEvent :=
  log.filterMap fun
    | .recorded e => some e
    | .resumed _ => none

/-- What a log makes of the children, and its recordings, from a table on. -/
def observe (owners : List (List Nat)) : List JobEvent → List (List Process) → List Kid →
    List Kid × List Recording
  | [], _, kids => (kids, [])
  | .resumed i :: log, t, kids => observe owners log ((JobEvent.resumed i).apply t) kids
  | .recorded e :: log, t, kids =>
    let r := observe owners log (recordStatus t e) (deliver false kids e)
    (r.1, ⟨e, t, owners, kids⟩ :: r.2)

/-- The entry `p` is of child `n`: it has the pid, and the child is reaped exactly when the
    entry says `completed` or the termination was lost. -/
def EntryOf (kids : List Kid) (n : Nat) (p : Process) : Prop :=
  ∃ kid, kids[n]? = some kid ∧ kid.pid = p.processId ∧
    (kid.reaped = true ↔ p.completed = true ∨ kid.lost = true)

/-- What holds between the children and the process entries `t`. -/
structure FamilyOk (kids : List Kid) (owners : List (List Nat)) (t : List (List Process)) :
    Prop where
  entries : List.Forall₂ (List.Forall₂ (EntryOf kids)) owners t
  order : owners.flatten.Pairwise (· > ·)
  present : ∀ (n : Nat) kid, kids[n]? = some kid → kid.reaped = false → n ∈ owners.flatten
  distinct : ∀ (n m : Nat) (kid kid' : Kid), n < m → kids[n]? = some kid → kids[m]? = some kid' →
    kid.reaped = false → kid'.pid ≠ kid.pid
  positive : ∀ kid ∈ kids, 0 < kid.pid

/-! ### Lists of lists -/

/-- Lists of equal shape are related inside if their elements are. -/
theorem forall₂_of_flatten {α β : Type} {R : α → β → Prop} {xss : List (List α)}
    {yss : List (List β)} (hlen : xss.map List.length = yss.map List.length)
    (h : List.Forall₂ R xss.flatten yss.flatten) : List.Forall₂ (List.Forall₂ R) xss yss := by
  induction xss generalizing yss with
  | nil =>
    cases yss with
    | nil => exact .nil
    | cons ys yss => simp at hlen
  | cons xs xss ih =>
    cases yss with
    | nil => simp at hlen
    | cons ys yss =>
      obtain ⟨hone, hrest⟩ := List.cons_eq_cons.mp hlen
      rw [List.flatten_cons, List.flatten_cons] at h
      have hfront := List.forall₂_take xs.length h
      have hback := List.forall₂_drop xs.length h
      rw [List.take_left, List.take_left' hone.symm] at hfront
      rw [List.drop_left, List.drop_left' hone.symm] at hback
      exact .cons hfront (ih hrest hback)

/-- Lists of lists that are related entry by entry have the same shape. -/
theorem lengths_eq_of_forall₂ {α β : Type} {R : α → β → Prop} {xss : List (List α)}
    {yss : List (List β)} (h : List.Forall₂ (List.Forall₂ R) xss yss) :
    xss.map List.length = yss.map List.length := by
  induction h with
  | nil => rfl
  | cons hxs _ ih => exact List.cons_eq_cons.mpr ⟨hxs.length_eq, ih⟩

/-- The inner loop of `UpdatedProcessStatus` over two lists in a row. -/
theorem recordInProcesses_append (e : StatusEvent) (ps qs : List Process) :
    recordInProcesses e (ps ++ qs) =
      match recordInProcesses e ps with
      | some ps' => some (ps' ++ qs)
      | none => (recordInProcesses e qs).map (ps ++ ·) := by
  induction ps with
  | nil => cases h : recordInProcesses e qs <;> simp [recordInProcesses, h]
  | cons p ps ih =>
    simp only [List.cons_append, recordInProcesses]
    split
    · rfl
    · rw [ih]
      cases recordInProcesses e ps with
      | some ps' => rfl
      | none => cases recordInProcesses e qs <;> rfl

/-- The two loops of `UpdatedProcessStatus` are one loop over all entries. -/
theorem recordInTable_flatten (e : StatusEvent) (t : List (List Process)) :
    (recordInTable e t).map List.flatten = recordInProcesses e t.flatten := by
  induction t with
  | nil => rfl
  | cons ps t ih =>
    rw [List.flatten_cons, recordInProcesses_append, ← ih, recordInTable]
    cases recordInProcesses e ps with
    | some ps' => rfl
    | none => cases recordInTable e t <;> rfl

/-- A status is recorded in the first entry with its pid, over all jobs. -/
theorem recordStatus_flatten {e : StatusEvent} {t : List (List Process)} {ps : List Process}
    (h : recordInProcesses e t.flatten = some ps) : (recordStatus t e).flatten = ps := by
  rw [← recordInTable_flatten] at h
  obtain ⟨t', ht', rfl⟩ := Option.map_eq_some_iff.mp h
  rw [recordStatus, ht', Option.getD_some]

/-! ### Recording a status -/

section
variable {kids : List Kid} {owners : List (List Nat)} {t : List (List Process)}

/-- The child a status is about has the pid and is not reaped. -/
theorem subjectOf_eq_some {pid : Int} {n : Nat} (h : subjectOf kids pid = some n) :
    ∃ kid, kids[n]? = some kid ∧ kid.pid = pid ∧ kid.reaped = false := by
  obtain ⟨hn, hkid, -⟩ := List.findIdx?_eq_some_iff_getElem.mp h
  simp only [Bool.and_eq_true, decide_eq_true_eq, Bool.not_eq_true'] at hkid
  exact ⟨kids[n], List.getElem?_eq_getElem hn, hkid⟩

/-- The child a status is about is the newest with its pid. -/
theorem FamilyOk.newest (h : FamilyOk kids owners t) {pid : Int} {n : Nat}
    (hsub : subjectOf kids pid = some n) : Newest kids n pid := by
  obtain ⟨kid, hkid, hpid, hlive⟩ := subjectOf_eq_some hsub
  refine ⟨⟨kid, hkid, hpid⟩, fun m kid' hm hkid' => ?_⟩
  rw [← hpid]
  exact h.distinct n m kid kid' hm hkid hkid' hlive

/-- The entries of children forked later have other pids, so the loop passes them by. -/
theorem recordInProcesses_entry {e : StatusEvent} {n : Nat} (hnew : Newest kids n e.processId)
    {ns : List Nat} {ps : List Process} (hents : List.Forall₂ (EntryOf kids) ns ps)
    (horder : ns.Pairwise (· > ·)) (hmem : n ∈ ns) :
    ∃ i p, ns[i]? = some n ∧ ps[i]? = some p ∧ p.processId = e.processId ∧
      recordInProcesses e ps = some (ps.modify i (Process.record e.status)) := by
  obtain ⟨⟨kid, hkid, hpid⟩, hlater⟩ := hnew
  induction hents with
  | nil => exact absurd hmem List.not_mem_nil
  | @cons m p ns ps hent _ ih =>
    obtain ⟨kid', hkid', hpid', -⟩ := hent
    obtain ⟨hfront, horder⟩ := List.pairwise_cons.mp horder
    by_cases hn : n = m
    · subst hn
      obtain rfl := Option.some.inj (hkid.symm.trans hkid')
      have hp : p.processId = e.processId := hpid'.symm.trans hpid
      exact ⟨0, p, rfl, rfl, hp, by rw [recordInProcesses, if_pos hp]; rfl⟩
    · -- an entry in front of that of `n`: its child was forked later
      replace hmem := (List.mem_cons.mp hmem).resolve_left hn
      obtain ⟨i, q, hi, hq, hqpid, hrec⟩ := ih horder hmem
      have hp : p.processId ≠ e.processId := by
        rw [← hpid']
        exact hlater m kid' (hfront n hmem) hkid'
      refine ⟨i + 1, q, hi, hq, hqpid, ?_⟩
      rw [recordInProcesses, if_neg hp, hrec]
      rfl

/-- **One recording.** -/
theorem FamilyOk.goesToNewest (h : FamilyOk kids owners t) {e : StatusEvent}
    (hsub : (subjectOf kids e.processId).isSome = true) :
    (⟨e, t, owners, kids⟩ : Recording).GoesToNewest := by
  obtain ⟨n, hn⟩ := Option.isSome_iff_exists.mp hsub
  obtain ⟨kid, hkid, -, hlive⟩ := subjectOf_eq_some hn
  obtain ⟨i, p, hi, hp, hpid, hrec⟩ := recordInProcesses_entry (h.newest hn)
    (List.rel_flatten h.entries) h.order (h.present n kid hkid hlive)
  exact ⟨i, n, p, hp, hpid, recordStatus_flatten hrec, hi, hn, h.newest hn⟩

/-- The children after a status, when it is about `n`. -/
theorem deliver_of_subject {lost : Bool} {e : StatusEvent} {n : Nat}
    (hn : subjectOf kids e.processId = some n) :
    deliver lost kids e = kids.modify n fun kid =>
      if e.status.wifstopped then kid else { kid with reaped := true, lost := lost } := by
  unfold deliver
  by_cases hstop : e.status.wifstopped = true
  · simp only [hstop, if_true]
    exact (List.modify_id n kids).symm
  · simp only [hstop, hn, Option.elim_some]
    rfl

/-- What a status changes: no pid, and nobody but its child. -/
theorem getElem?_deliver {lost : Bool} {e : StatusEvent} {n : Nat} {kid : Kid}
    (h : (deliver lost kids e)[n]? = some kid) :
    ∃ kid₀, kids[n]? = some kid₀ ∧ kid.pid = kid₀.pid ∧
      (kid.reaped = false → kid₀.reaped = false) := by
  unfold deliver at h
  split at h
  · exact ⟨kid, h, rfl, id⟩
  · cases hsub : subjectOf kids e.processId with
    | none => rw [hsub] at h; exact ⟨kid, h, rfl, id⟩
    | some m =>
      rw [hsub] at h
      simp only [Option.elim_some, List.getElem?_modify] at h
      obtain ⟨kid₀, hkid₀, rfl⟩ := Option.map_eq_some_iff.mp h
      split_ifs
      · exact ⟨kid₀, hkid₀, rfl, by simp⟩
      · exact ⟨kid₀, hkid₀, rfl, id⟩

/-- All but the entries survive the delivery of any status. -/
theorem FamilyOk.delivered (h : FamilyOk kids owners t) (lost : Bool) (e : StatusEvent)
    {t' : List (List Process)}
    (hents : List.Forall₂ (List.Forall₂ (EntryOf (deliver lost kids e))) owners t') :
    FamilyOk (deliver lost kids e) owners t' where
  entries := hents
  order := h.order
  present n kid hkid hlive := by
    obtain ⟨kid₀, hkid₀, -, hback⟩ := getElem?_deliver hkid
    exact h.present n kid₀ hkid₀ (hback hlive)
  distinct n m kid kid' hnm hkid hkid' hlive := by
    obtain ⟨kid₀, hkid₀, hpid, hback⟩ := getElem?_deliver hkid
    obtain ⟨kid₁, hkid₁, hpid', -⟩ := getElem?_deliver hkid'
    rw [hpid, hpid']
    exact h.distinct n m kid₀ kid₁ hnm hkid₀ hkid₁ (hback hlive)
  positive kid hmem := by
    obtain ⟨n, hn, rfl⟩ := List.getElem_of_mem hmem
    obtain ⟨kid₀, hkid₀, hpid, -⟩ := getElem?_deliver (List.getElem?_eq_getElem hn)
    rw [hpid]
    exact h.positive kid₀ (List.mem_of_getElem? hkid₀)

/-- A status about another child leaves the entry as it is. -/
theorem EntryOf.deliver_other {lost : Bool} {e : StatusEvent} {n m : Nat} {p : Process}
    (h : EntryOf kids m p) (hn : subjectOf kids e.processId = some n) (hne : n ≠ m) :
    EntryOf (deliver lost kids e) m p := by
  obtain ⟨kid, hkid, hrest⟩ := h
  exact ⟨kid, by rw [deliver_of_subject hn, List.getElem?_modify_ne _ _ hne, hkid], hrest⟩

/-- A status that is recorded: entry and child change together. -/
theorem EntryOf.deliver_recorded {e : StatusEvent} {n : Nat} {p : Process}
    (h : EntryOf kids n p) (hn : subjectOf kids e.processId = some n) :
    EntryOf (deliver false kids e) n (p.record e.status) := by
  obtain ⟨kid, hkid, hpid, hreaped⟩ := h
  refine ⟨_, by rw [deliver_of_subject hn, List.getElem?_modify_eq, hkid]; rfl, ?_⟩
  unfold Process.record
  by_cases hstop : e.status.wifstopped = true
  · simpa [hstop] using ⟨hpid, hreaped⟩
  · simpa [hstop] using hpid

/-- A status that is lost. -/
theorem EntryOf.deliver_lost {e : StatusEvent} {n : Nat} {p : Process}
    (h : EntryOf kids n p) (hn : subjectOf kids e.processId = some n) :
    EntryOf (deliver true kids e) n p := by
  obtain ⟨kid, hkid, hpid, hreaped⟩ := h
  refine ⟨_, by rw [deliver_of_subject hn, List.getElem?_modify_eq, hkid]; rfl, ?_⟩
  by_cases hstop : e.status.wifstopped = true
  · simpa [hstop] using ⟨hpid, hreaped⟩
  · simpa [hstop] using hpid

/-- A change of one element of two related lists. -/
theorem forall₂_modify {α β : Type} {R R' : α → β → Prop} {xs : List α} {ys : List β} {i : Nat}
    {f : β → β} (h : List.Forall₂ R xs ys)
    (hat : ∀ x y, xs[i]? = some x → ys[i]? = some y → R x y → R' x (f y))
    (hother : ∀ j x y, i ≠ j → xs[j]? = some x → R x y → R' x y) :
    List.Forall₂ R' xs (ys.modify i f) := by
  obtain ⟨hlen, hget⟩ := List.forall₂_iff_get.mp h
  refine List.forall₂_iff_get.mpr ⟨by rw [List.length_modify, hlen], fun j hx hy => ?_⟩
  have hy' : j < ys.length := hlen ▸ hx
  have hR := hget j hx hy'
  simp only [List.get_eq_getElem, List.getElem_modify] at hR ⊢
  have hxj := List.getElem?_eq_getElem hx
  split
  · rename_i hij
    subst hij
    exact hat _ _ hxj (List.getElem?_eq_getElem hy') hR
  · rename_i hij
    exact hother j _ _ hij hxj hR

/-- **Recording keeps the invariant.** -/
theorem FamilyOk.record (h : FamilyOk kids owners t) {e : StatusEvent}
    (hsub : (subjectOf kids e.processId).isSome = true) :
    FamilyOk (deliver false kids e) owners (recordStatus t e) := by
  obtain ⟨i, n, p, hp, hpid, hrec, hi, hn, -⟩ := h.goesToNewest hsub
  dsimp only at hp hpid hrec hi hn
  refine h.delivered false e (forall₂_of_flatten ?_ ?_)
  · have hpids := congrArg (List.map List.length) (pids_apply (.recorded e) t)
    simp only [List.map_map, Function.comp_def, List.length_map] at hpids
    rw [lengths_eq_of_forall₂ h.entries]
    exact hpids.symm
  · rw [hrec]
    refine forall₂_modify (List.rel_flatten h.entries) ?_ ?_
    · intro m q hm hq hent
      obtain rfl : n = m := Option.some.inj (hi.symm.trans hm)
      exact hent.deliver_recorded hn
    · intro j m q hij hm hent
      -- another entry is of another child
      refine hent.deliver_other hn fun hnm => hij ?_
      subst hnm
      have hnodup : owners.flatten.Nodup := h.order.imp fun hlt heq => by omega
      exact (List.getElem?_inj (List.getElem?_eq_some_iff.mp hi).1 hnodup).mp (hi.trans hm.symm)

/-- A status that is not recorded keeps the invariant too. -/
theorem FamilyOk.lose (h : FamilyOk kids owners t) (e : StatusEvent) :
    FamilyOk (deliver true kids e) owners t := by
  refine h.delivered true e (h.entries.imp fun ns ps hps => hps.imp fun m p hent => ?_)
  cases hn : subjectOf kids e.processId with
  | none =>
    have hsame : deliver true kids e = kids := by
      rw [deliver, hn, Option.elim_none, ite_self]
    rwa [hsame]
  | some n =>
    by_cases hnm : n = m
    · subst hnm
      exact hent.deliver_lost hn
    · exact hent.deliver_other hn hnm

/-- Clearing `stopped` flags touches neither pids nor `completed`. -/
theorem FamilyOk.resume (h : FamilyOk kids owners t) (i : Nat) :
    FamilyOk kids owners ((JobEvent.resumed i).apply t) where
  entries := by
    refine forall₂_modify h.entries ?_ (fun _ _ _ _ _ hps => hps)
    intro ns ps _ _ hps
    exact List.forall₂_map_right_iff.mpr (hps.imp fun n p hent => hent)
  order := h.order
  present := h.present
  distinct := h.distinct
  positive := h.positive

/-- **A log of changes**: the invariant holds after it, and every recording in it is right. -/
theorem observe_ok (h : FamilyOk kids owners t) (log : List JobEvent)
    (hkernel : HasStatuses kids (statusesOf log)) :
    FamilyOk (observe owners log t kids).1 owners (replay log t) ∧
      ∀ r ∈ (observe owners log t kids).2, r.GoesToNewest := by
  induction log generalizing t kids with
  | nil => exact ⟨h, fun r hr => absurd hr List.not_mem_nil⟩
  | cons ev log ih =>
    cases ev with
    | resumed i => exact ih (h.resume i) hkernel
    | recorded e =>
      obtain ⟨hsub, hrest⟩ := hkernel
      obtain ⟨hok, hright⟩ := ih (h.record hsub) hrest
      exact ⟨hok, List.forall_mem_cons.mpr ⟨h.goesToNewest hsub, hright⟩⟩

/-! ### Launching jobs and removing them -/

/-- A child just forked. -/
def Child.kid (c : Child) : Kid := { pid := c.pid }

/-- The process entries once the children of a command are forked. -/
def launchTable (children : List Child) (jobs : List Job) : List (List Process) :=
  if children = [] then procTable jobs else entriesOf children :: procTable jobs

/-- The children behind them; the entry of the child forked last stands in front. -/
def launchOwners (before : Nat) (children : List Child) (owners : List (List Nat)) :
    List (List Nat) :=
  if children = [] then owners
  else (List.range' before children.length).reverse :: owners

/-- The kernel can give the children these pids: no child has one that is not reaped. -/
structure FreshPids (kids : List Kid) (children : List Child) : Prop where
  nodup : (children.map Child.pid).Nodup
  unused : ∀ c ∈ children, ∀ kid ∈ kids, kid.reaped = false → kid.pid ≠ c.pid

/-- The table with the new job at its head. -/
theorem procTable_addJob (s : JobControl) {children : List Child} {job : Job}
    (hne : children ≠ []) (hjob : job.process = entriesOf children) :
    procTable (addJob job s).jobs = launchTable children s.jobs := by
  rw [launchTable, if_neg hne, ← hjob]
  rfl

/-- So do further children. -/
theorem EntryOf.append {n : Nat} {p : Process} (h : EntryOf kids n p) (more : List Kid) :
    EntryOf (kids ++ more) n p := by
  obtain ⟨kid, hkid, hrest⟩ := h
  refine ⟨kid, ?_, hrest⟩
  rw [List.getElem?_append_left (List.getElem?_eq_some_iff.mp hkid).1, hkid]

/-- The owner of an entry is one of the children. -/
theorem FamilyOk.owner_lt (h : FamilyOk kids owners t) {n : Nat} (hn : n ∈ owners.flatten) :
    n < kids.length := by
  have hents := List.rel_flatten h.entries
  obtain ⟨i, hi, rfl⟩ := List.getElem_of_mem hn
  obtain ⟨kid, hkid, -⟩ := hents.get hi (hents.length_eq ▸ hi)
  exact (List.getElem?_eq_some_iff.mp hkid).1

/-- The entries of a new job are those of its children, the last one first. -/
theorem forall₂_newEntries (kids : List Kid) (children : List Child) :
    List.Forall₂ (EntryOf (kids ++ children.map Child.kid))
      (List.range' kids.length children.length).reverse (entriesOf children) := by
  unfold entriesOf
  rw [List.forall₂_reverse_iff]
  refine List.forall₂_iff_get.mpr ⟨by simp, fun i hi hi' => ?_⟩
  have hlt : i < children.length := by simpa using hi
  refine ⟨children[i].kid, ?_, ?_⟩
  · simp [hlt]
  · simp [Child.kid]

/-- Children that are in the list of all children from the place `kids.length` on. -/
theorem getElem?_newKid {children : List Child} {n : Nat} {kid : Kid} (hn : kids.length ≤ n)
    (h : (kids ++ children.map Child.kid)[n]? = some kid) :
    ∃ c, children[n - kids.length]? = some c ∧ c.kid = kid := by
  rw [List.getElem?_append_right hn, List.getElem?_map] at h
  exact Option.map_eq_some_iff.mp h

/-- **Forking keeps the invariant.** -/
theorem FamilyOk.launch {jobs : List Job} (h : FamilyOk kids owners (procTable jobs))
    {children : List Child} (hfresh : FreshPids kids children)
    (hpos : ∀ c ∈ children, 0 < c.pid) :
    FamilyOk (kids ++ children.map Child.kid) (launchOwners kids.length children owners)
      (launchTable children jobs) := by
  unfold launchOwners launchTable
  by_cases hnil : children = []
  · simpa [hnil] using h
  rw [if_neg hnil, if_neg hnil]
  refine ⟨.cons (forall₂_newEntries kids children)
    (h.entries.imp fun ns ps hps => hps.imp fun n p hent => hent.append _), ?_, ?_, ?_, ?_⟩
  · rw [List.flatten_cons, List.pairwise_append]
    refine ⟨List.pairwise_reverse.mpr ?_, h.order, fun n hn m hm => ?_⟩
    · exact List.pairwise_lt_range'
    · have hge : kids.length ≤ n := (List.mem_range'_1.mp (List.mem_reverse.mp hn)).1
      exact Nat.lt_of_lt_of_le (h.owner_lt hm) hge
  · intro n kid hkid hlive
    rw [List.flatten_cons, List.mem_append]
    by_cases hn : n < kids.length
    · rw [List.getElem?_append_left hn] at hkid
      exact Or.inr (h.present n kid hkid hlive)
    · have hlt := (List.getElem?_eq_some_iff.mp hkid).1
      rw [List.length_append, List.length_map] at hlt
      exact Or.inl (List.mem_reverse.mpr (List.mem_range'_1.mpr ⟨by omega, hlt⟩))
  · intro n m kid kid' hnm hkid hkid' hlive
    by_cases hm : m < kids.length
    · rw [List.getElem?_append_left hm] at hkid'
      rw [List.getElem?_append_left (by omega)] at hkid
      exact h.distinct n m kid kid' hnm hkid hkid' hlive
    · obtain ⟨c', hc', rfl⟩ := getElem?_newKid (by omega) hkid'
      by_cases hn : n < kids.length
      · -- an older child that is not reaped: the kernel does not give its pid away
        rw [List.getElem?_append_left hn] at hkid
        exact (hfresh.unused c' (List.mem_of_getElem? hc') kid (List.mem_of_getElem? hkid)
          hlive).symm
      · obtain ⟨c, hc, rfl⟩ := getElem?_newKid (by omega) hkid
        intro heq
        have hc₁ : (children.map Child.pid)[n - kids.length]? = some c.pid := by simp [hc]
        have hc₂ : (children.map Child.pid)[m - kids.length]? = some c.pid := by
          simpa [hc', Child.kid] using heq
        have hsame := (List.getElem?_inj (List.getElem?_eq_some_iff.mp hc₁).1 hfresh.nodup).mp
          (hc₁.trans hc₂.symm)
        omega
  · intro kid hkid
    rcases List.mem_append.mp hkid with hkid | hkid
    · exact h.positive kid hkid
    · obtain ⟨c, hc, rfl⟩ := List.mem_map.mp hkid
      exact hpos c hc

/-- A job that the sweep removes has no process that is not reaped. -/
theorem completed_of_swept {job : Job} (h : (sweepJob job).2 = none) :
    ∀ p ∈ job.process, p.completed = true := by
  intro p hp
  have hclass := (sweepJob_eq_none_iff job).mp h
  unfold classify at hclass
  split at hclass
  · exact absurd hclass (by simp)
  · rename_i hrun
    split at hclass
    · exact absurd hclass (by simp)
    · rename_i hstop
      have hnotRun : p.running = false := by
        by_contra hp'
        exact hrun (List.any_eq_true.mpr ⟨p, hp, by simpa using hp'⟩)
      have hnotStop : p.stopped = false := by
        by_contra hp'
        exact hstop (List.any_eq_true.mpr ⟨p, hp, by simpa using hp'⟩)
      simpa [Process.running, hnotStop] using hnotRun

/-- **The sweep keeps the invariant.** -/
theorem FamilyOk.sweep {jobs : List Job} (h : FamilyOk kids owners (procTable jobs)) :
    FamilyOk kids (sweepAlong jobs owners)
      (procTable (jobs.filterMap fun job => (sweepJob job).2)) := by
  have hjobs : List.Forall₂ (fun job ns => List.Forall₂ (EntryOf kids) ns job.process)
      jobs owners := (List.forall₂_map_right_iff.mp h.entries).flip
  refine ⟨?_, h.order.sublist (sweepAlong_sublist jobs owners).flatten, ?_, h.distinct, h.positive⟩
  · refine List.forall₂_map_right_iff.mpr (List.Forall₂.flip ?_)
    refine forall₂_sweepAlong (fun job job' ns hjob hstay => ?_) hjobs
    rw [← (sweepJob_marked hstay).process] at hjob
    exact hjob
  · intro n kid hkid hlive
    have hmem := h.present n kid hkid hlive
    -- over the jobs: the one with the entry of `n` stays
    clear h
    induction hjobs with
    | nil => exact absurd hmem (by simp)
    | @cons job ns jobs owners hjob _ ih =>
      rw [sweepAlong_cons]
      rcases List.mem_append.mp (by simpa using hmem : n ∈ ns ++ owners.flatten) with hmem | hmem
      · cases hsweep : (sweepJob job).2 with
        | some job' => simp [hmem]
        | none =>
          obtain ⟨i, hi, rfl⟩ := List.getElem_of_mem hmem
          have hi' : i < job.process.length := hjob.length_eq ▸ hi
          obtain ⟨kid', hkid', -, hreaped⟩ := hjob.get hi hi'
          have hdone := completed_of_swept hsweep _ (List.getElem_mem hi')
          rw [List.get_eq_getElem] at hkid'
          obtain rfl := Option.some.inj (hkid.symm.trans hkid')
          rw [hreaped.mpr (Or.inl hdone)] at hlive
          exact absurd hlive (by simp)
      · have hrest := ih hmem
        split
        · simp [hrest]
        · exact hrest

/-- The kernel has a status for an entry of the table only. -/
theorem FamilyOk.known (h : FamilyOk kids owners t) {es : List StatusEvent}
    (hes : HasStatuses kids es) : ∀ e ∈ es, 0 < e.processId ∧ e.processId ∈ pidsOf t := by
  induction es generalizing kids t with
  | nil => exact fun e he => absurd he List.not_mem_nil
  | cons e es ih =>
    obtain ⟨hsub, hrest⟩ := hes
    have hnext := ih (h.record hsub) hrest
    refine List.forall_mem_cons.mpr ⟨?_, fun e' he' => ?_⟩
    · obtain ⟨i, n, p, hp, hpid, -, -, hn, -⟩ := h.goesToNewest hsub
      obtain ⟨kid, hkid, hkidPid, -⟩ := subjectOf_eq_some hn
      refine ⟨hkidPid ▸ h.positive kid (List.mem_of_getElem? hkid), ?_⟩
      rw [← hpid, pidsOf, List.flatMap_def, ← List.map_flatten]
      exact List.mem_map_of_mem (List.mem_of_getElem? hp)
    · rw [← pidsOf_recordStatus t e]
      exact hnext e' he'

end

end OSPortfolio.Ish
