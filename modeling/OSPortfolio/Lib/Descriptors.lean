import Mathlib.Data.List.Basic
import Mathlib.Order.Basic

namespace OSPortfolio.Posix

/-!
# Descriptor tables

A process refers to open files through small integers.  This file is the part of POSIX that
a shell's redirections and pipelines rest on, for any program that uses it:

* `FdTable δ` — which descriptor refers to which open file (of type `δ`); only finitely many
  descriptors are open, so a lowest closed one exists (`FdTable.lowestFree`);
* `FdAlloc δ` — a policy for the descriptor that a new open file gets.  It has to return a
  closed one, above the standard descriptors where those are open; taking the lowest closed
  one is such a policy (`FdAlloc.lowest`), and so is never handing out 0, 1 and 2
  (`FdAlloc.lowestAboveStd`);
* `Kernel` — a table together with the calls `open`, `close`, `dup`, `dup2` and `pipe`.
  Each open file carries the stamp of the call that made it, which no earlier one carries,
  and every `close` is logged with the open file it released.

Every call comes with simp lemmas that describe the table after it descriptor by
descriptor, so that a sequence of calls is followed by rewriting.
-/

universe u

/-- A descriptor table.  Descriptors are C `int`s; a negative one is never open. -/
structure FdTable (δ : Type u) where
  get : Int → Option δ
  bound : Nat
  closed : ∀ fd, fd < 0 ∨ (bound : Int) ≤ fd → get fd = none

namespace FdTable

variable {δ : Type u} (T : FdTable δ)

/-- Make `fd` refer to `d`. -/
def put (fd : Nat) (d : δ) : FdTable δ where
  get := fun x => if x = fd then some d else T.get x
  bound := max T.bound (fd + 1)
  closed := by
    intro x hx
    -- the new bound is above `fd`
    have hne : x ≠ (fd : Int) := by omega
    rw [if_neg hne]
    exact T.closed x (by omega)

/-- Close `fd`. -/
def erase (fd : Int) : FdTable δ where
  get := fun x => if x = fd then none else T.get x
  bound := T.bound
  closed := by
    intro x hx
    split
    · rfl
    · exact T.closed x hx

@[simp] theorem get_put (fd : Nat) (d : δ) (x : Int) :
    (T.put fd d).get x = if x = fd then some d else T.get x := rfl

@[simp] theorem get_erase (fd x : Int) :
    (T.erase fd).get x = if x = fd then none else T.get x := rfl

/-- The standard descriptors 0, 1 and 2 are open. -/
def StdOpen : Prop := (T.get 0).isSome ∧ (T.get 1).isSome ∧ (T.get 2).isSome

/-- The lowest closed descriptor from `n` on. -/
def lowestFrom (n : Nat) : Nat :=
  ((List.range' n (T.bound + 1 - n)).find? (fun fd : Nat => (T.get fd).isNone)).getD
    (max n T.bound)

/-- The lowest closed descriptor. -/
def lowestFree : Nat := T.lowestFrom 0

/-- The search starts at `n`. -/
theorem lowestFrom_ge (n : Nat) : n ≤ T.lowestFrom n := by
  unfold lowestFrom
  cases h : (List.range' n (T.bound + 1 - n)).find? (fun fd : Nat => (T.get fd).isNone) with
  | none => exact Nat.le_max_left _ _
  | some fd =>
    have hmem := List.mem_of_find?_eq_some h
    rw [List.mem_range'_1] at hmem
    exact hmem.1

/-- What the search finds is closed. -/
theorem get_lowestFrom (n : Nat) : T.get (T.lowestFrom n) = none := by
  unfold lowestFrom
  cases h : (List.range' n (T.bound + 1 - n)).find? (fun fd : Nat => (T.get fd).isNone) with
  | none =>
    -- nothing up to the bound is closed, so the bound itself is taken
    apply T.closed
    simp only [Option.getD_none]
    omega
  | some fd =>
    have hsome := List.find?_some h
    simpa using hsome

/-- No closed descriptor is below the lowest one. -/
theorem lowestFree_le {n : Nat} (h : T.get n = none) : T.lowestFree ≤ n := by
  unfold lowestFree lowestFrom
  cases hfind : (List.range' 0 (T.bound + 1 - 0)).find? (fun fd : Nat => (T.get fd).isNone) with
  | none =>
    -- then everything up to the bound is open
    have hall := List.find?_eq_none.mp hfind n
    by_contra hlt
    simp only [Option.getD_none] at hlt
    exact hall (List.mem_range'_1.mpr (by omega)) (by rw [h]; rfl)
  | some fd =>
    obtain ⟨-, -, hleast⟩ := List.find?_range'_eq_some.mp hfind
    by_contra hlt
    have hopen := hleast n (Nat.zero_le n) (Nat.lt_of_not_le hlt)
    rw [h] at hopen
    exact absurd hopen (by simp)

/-- A closed descriptor with all the lower ones open is the lowest one. -/
theorem lowestFree_eq {n : Nat} (h : T.get n = none) (hlow : ∀ m < n, (T.get (m : Nat)).isSome) :
    T.lowestFree = n := by
  refine Nat.le_antisymm (T.lowestFree_le h) (Nat.le_of_not_lt fun hlt => ?_)
  have hopen := hlow _ hlt
  rw [lowestFree, T.get_lowestFrom] at hopen
  exact absurd hopen (by simp)

end FdTable

/-- A policy for the descriptor of a new open file. -/
structure FdAlloc (δ : Type u) where
  next : FdTable δ → Nat
  closed : ∀ T : FdTable δ, T.get (next T) = none
  aboveStd : ∀ T : FdTable δ, T.StdOpen → 2 < next T

namespace FdAlloc

variable {δ : Type u}

/-- The policy of POSIX: the lowest closed descriptor. -/
def lowest : FdAlloc δ where
  next := FdTable.lowestFree
  closed := fun T => T.get_lowestFrom 0
  aboveStd := by
    intro T hstd
    obtain ⟨h0, h1, h2⟩ := hstd
    have hfree : T.get T.lowestFree = none := T.get_lowestFrom 0
    by_contra hle
    -- one of the three would be closed and open
    have hcases : T.lowestFree = 0 ∨ T.lowestFree = 1 ∨ T.lowestFree = 2 := by omega
    rcases hcases with h | h | h <;> rw [h] at hfree <;> simp_all

/-- Where a standard descriptor is closed, the policy of POSIX hands out one of them. -/
theorem lowest_next_le {T : FdTable δ} (h : ¬ T.StdOpen) :
    lowest.next T = 0 ∨ lowest.next T = 1 ∨ lowest.next T = 2 := by
  have hle : lowest.next T ≤ 2 := by
    by_contra hlt
    have hopen : ∀ n : Nat, n ≤ 2 → (T.get n).isSome := by
      intro n hn
      rw [Option.isSome_iff_ne_none]
      intro hnone
      have hlow : lowest.next T ≤ n := T.lowestFree_le hnone
      omega
    exact h ⟨hopen 0 (by decide), hopen 1 (by decide), hopen 2 (by decide)⟩
  omega

/-- The lowest closed descriptor above 2. -/
def lowestAboveStd : FdAlloc δ where
  next := fun T => T.lowestFrom 3
  closed := fun T => T.get_lowestFrom 3
  aboveStd := fun T _ => T.lowestFrom_ge 3

end FdAlloc

/-! ### Open files -/

/-- The `open` flags a program passes: `O_RDONLY` is all fields false. -/
structure OpenFlags where
  wronly : Bool := false
  append : Bool := false
  creat : Bool := false
  deriving DecidableEq, Repr

/-- What an open file is an open file of. -/
inductive Resource
  | inherited
  | file (name : String) (flag : OpenFlags)
  | pipeRead
  | pipeWrite
  deriving DecidableEq, Repr

/-- An open file: what it is of, and the stamp of the call that made it.  The two ends of a
    pipe are made by one call and share its stamp. -/
structure OpenFile where
  stamp : Nat
  resource : Resource
  deriving DecidableEq, Repr

/-- The descriptors of a process, the stamp the next open file gets, and for each `close`
    call so far the open file it released (`none` where it failed). -/
structure Kernel where
  fds : FdTable OpenFile
  stamp : Nat
  fresh : ∀ fd d, fds.get fd = some d → d.stamp < stamp
  closeLog : List (Option OpenFile)

namespace Kernel

/-- What the descriptor `fd` refers to. -/
def get (k : Kernel) (fd : Int) : Option OpenFile := k.fds.get fd

/-- The standard descriptors are open. -/
def StdOpen (k : Kernel) : Prop := k.fds.StdOpen

/-- The files of a table carry older stamps than the next one. -/
theorem stamp_lt (k : Kernel) {fd : Int} {d : OpenFile} (h : k.get fd = some d) :
    d.stamp < k.stamp := k.fresh fd d h

/-- A process without open descriptors. -/
def empty : Kernel where
  fds := ⟨fun _ => none, 0, fun _ _ => rfl⟩
  stamp := 0
  fresh := by intro _ _ h; exact absurd h (by simp)
  closeLog := []

/-! ### The calls -/

/-- `close(fd)`. -/
def close (k : Kernel) (fd : Int) : Kernel where
  fds := k.fds.erase fd
  stamp := k.stamp
  fresh := by
    intro x d h
    rw [FdTable.get_erase] at h
    split at h
    · exact absurd h (by simp)
    · exact k.fresh x d h
  closeLog := k.closeLog ++ [k.get fd]

/-- Make `fd` refer to the open file `d`; its stamp is used up if it was not already. -/
def install (k : Kernel) (fd : Nat) (d : OpenFile) : Kernel where
  fds := k.fds.put fd d
  stamp := max k.stamp (d.stamp + 1)
  fresh := by
    intro x d' h
    rw [FdTable.get_put] at h
    split at h
    -- the new file carries its own stamp, which the maximum has used up
    · obtain rfl := Option.some.inj h
      omega
    · have := k.fresh x d' h
      omega
  closeLog := k.closeLog

/-- `dup2(old, new)`: nothing happens if `old` is not open. -/
def dup2 (k : Kernel) (old : Int) (new : Nat) : Kernel :=
  match k.get old with
  | none => k
  | some d => k.install new d

/-- A process with three inherited files on the standard descriptors. -/
def std : Kernel :=
  ((empty.install 0 ⟨0, .inherited⟩).install 1 ⟨1, .inherited⟩).install 2 ⟨2, .inherited⟩

variable (A : FdAlloc OpenFile)

/-- `dup(fd)`: `-1` if `fd` is not open. -/
def dup (k : Kernel) (fd : Int) : Int × Kernel :=
  match k.get fd with
  | none => (-1, k)
  | some d => (A.next k.fds, k.install (A.next k.fds) d)

/-- `open(name, flag, mode)`; `ok` says whether it succeeds. -/
def openFile (k : Kernel) (ok : Bool) (name : String) (flag : OpenFlags) : Int × Kernel :=
  if ok then (A.next k.fds, k.install (A.next k.fds) ⟨k.stamp, .file name flag⟩)
  else (-1, k)

/-- `pipe(fd)`: the read end, the write end. -/
def pipe (k : Kernel) : Int × Int × Kernel :=
  -- the read end gets its descriptor first
  let k₁ := k.install (A.next k.fds) ⟨k.stamp, .pipeRead⟩
  (A.next k.fds, A.next k₁.fds, k₁.install (A.next k₁.fds) ⟨k.stamp, .pipeWrite⟩)

/-! ### What the calls do to the table -/

@[simp] theorem get_close (k : Kernel) (fd x : Int) :
    (k.close fd).get x = if x = fd then none else k.get x := rfl

@[simp] theorem get_install (k : Kernel) (fd : Nat) (d : OpenFile) (x : Int) :
    (k.install fd d).get x = if x = fd then some d else k.get x := rfl

/-- A negative descriptor is closed. -/
@[simp] theorem get_neg_one (k : Kernel) : k.get (-1) = none :=
  k.fds.closed (-1) (Or.inl (by decide))

/-- `dup2` of an open descriptor. -/
theorem get_dup2 (k : Kernel) {old : Int} (new : Nat) {d : OpenFile} (h : k.get old = some d)
    (x : Int) : (k.dup2 old new).get x = if x = new then some d else k.get x := by
  simp [dup2, h]

@[simp] theorem get_dup2_of_ne (k : Kernel) (old : Int) {new : Nat} {x : Int} (h : x ≠ new) :
    (k.dup2 old new).get x = k.get x := by
  unfold dup2
  cases k.get old with
  | none => rfl
  | some d => simp [h]

/-- `dup2` of any descriptor: it opens `new` or leaves it as it is. -/
theorem get_dup2_or (k : Kernel) (old : Int) (new : Nat) (x : Int) :
    (k.dup2 old new).get x = if x = new then (k.get old).or (k.get x) else k.get x := by
  unfold dup2
  cases k.get old with
  | none => simp
  | some d => simp

/-- `dup2` closes nothing. -/
theorem isSome_dup2 (k : Kernel) (old : Int) (new : Nat) {x : Int} (hx : (k.get x).isSome) :
    ((k.dup2 old new).get x).isSome := by
  obtain ⟨d, hd⟩ := Option.isSome_iff_exists.mp hx
  rw [get_dup2_or, hd]
  cases k.get old with
  | none => simp
  | some d' => split <;> rfl

/-- Moving a descriptor to `new` closes no other. -/
theorem isSome_move (k : Kernel) {old : Int} (new : Nat) {x : Int} (hx : (k.get x).isSome)
    (hne : x ≠ old) : (((k.dup2 old new).close old).get x).isSome := by
  rw [get_close, if_neg hne]
  exact k.isSome_dup2 old new hx

/-- Moving an open descriptor to `new` opens `new`. -/
theorem isSome_move_target (k : Kernel) {old : Int} {new : Nat} (h : (k.get old).isSome)
    (hne : (new : Int) ≠ old) : (((k.dup2 old new).close old).get new).isSome := by
  obtain ⟨d, hd⟩ := Option.isSome_iff_exists.mp h
  rw [get_close, if_neg hne, k.get_dup2 new hd, if_pos rfl]
  rfl

/-- `dup2` of a closed descriptor does nothing. -/
theorem dup2_closed (k : Kernel) {old : Int} (new : Nat) (h : k.get old = none) :
    k.dup2 old new = k := by
  simp [dup2, h]

/-- Reading back a new descriptor: it was closed before. -/
theorem get_next (k : Kernel) : k.get (A.next k.fds) = none := A.closed k.fds

@[simp] theorem stamp_close (k : Kernel) (fd : Int) : (k.close fd).stamp = k.stamp := rfl

@[simp] theorem stamp_install (k : Kernel) (fd : Nat) (d : OpenFile) :
    (k.install fd d).stamp = max k.stamp (d.stamp + 1) := rfl

@[simp] theorem closeLog_close (k : Kernel) (fd : Int) :
    (k.close fd).closeLog = k.closeLog ++ [k.get fd] := rfl

@[simp] theorem closeLog_install (k : Kernel) (fd : Nat) (d : OpenFile) :
    (k.install fd d).closeLog = k.closeLog := rfl

/-- A descriptor that stays open across `install` keeps the standard ones open. -/
theorem StdOpen.install {k : Kernel} (h : k.StdOpen) (fd : Nat) (d : OpenFile) :
    (k.install fd d).StdOpen := by
  have key : ∀ x : Int, (k.get x).isSome → ((k.install fd d).get x).isSome := by
    intro x hx
    rw [get_install]
    split
    · rfl
    · exact hx
  exact ⟨key 0 h.1, key 1 h.2.1, key 2 h.2.2⟩

/-- A new descriptor avoids the standard ones. -/
theorem StdOpen.next_gt {k : Kernel} (h : k.StdOpen) : 2 < A.next k.fds :=
  A.aboveStd k.fds h

/-- The policy of POSIX takes a closed descriptor with all the lower ones open. -/
theorem lowest_next_eq {k : Kernel} {n : Nat} (h : k.get n = none)
    (hlow : ∀ m < n, (k.get (m : Nat)).isSome) : FdAlloc.lowest.next k.fds = n :=
  k.fds.lowestFree_eq h hlow

/-- `dup` under the policy of POSIX. -/
theorem dup_lowest {k : Kernel} {n : Nat} {x : Int} {d : OpenFile} (hd : k.get x = some d)
    (h : k.get n = none) (hlow : ∀ m < n, (k.get (m : Nat)).isSome) :
    k.dup FdAlloc.lowest x = ((n : Int), k.install n d) := by
  simp [dup, hd, lowest_next_eq h hlow]

/-- A new descriptor avoids the open ones. -/
theorem next_ne {k : Kernel} {fd : Int} {d : OpenFile} (h : k.get fd = some d) :
    (A.next k.fds : Int) ≠ fd := by
  intro heq
  have hnone := k.get_next A
  rw [heq, h] at hnone
  exact absurd hnone (by simp)

/-- The files on the standard descriptors. -/
theorem StdOpen.exists_get {k : Kernel} (h : k.StdOpen) :
    ∃ d₀ d₁ d₂, k.get 0 = some d₀ ∧ k.get 1 = some d₁ ∧ k.get 2 = some d₂ := by
  obtain ⟨h₀, h₁, h₂⟩ := h
  obtain ⟨d₀, h₀⟩ := Option.isSome_iff_exists.mp h₀
  obtain ⟨d₁, h₁⟩ := Option.isSome_iff_exists.mp h₁
  obtain ⟨d₂, h₂⟩ := Option.isSome_iff_exists.mp h₂
  exact ⟨d₀, d₁, d₂, h₀, h₁, h₂⟩

/-- `dup` of a closed descriptor fails. -/
theorem dup_closed (k : Kernel) {fd : Int} (h : k.get fd = none) : k.dup A fd = (-1, k) := by
  simp [dup, h]

/-- What `dup` returns was closed before, or is -1. -/
theorem get_dup_fst (k : Kernel) (fd : Int) : k.get (k.dup A fd).1 = none := by
  unfold dup
  cases k.get fd with
  | none => exact k.get_neg_one
  | some d => exact k.get_next A

/-- `dup` keeps what is open. -/
theorem get_dup_of_open (k : Kernel) (fd : Int) {x : Int} (hx : (k.get x).isSome) :
    (k.dup A fd).2.get x = k.get x := by
  unfold dup
  cases k.get fd with
  | none => rfl
  | some d =>
    have hne : x ≠ A.next k.fds := by
      rintro rfl
      rw [k.get_next A] at hx
      exact absurd hx (by simp)
    rw [get_install, if_neg hne]

/-- The copy that `dup` makes. -/
theorem get_dup_copy (k : Kernel) {fd : Int} (h : (k.get fd).isSome) :
    (k.dup A fd).2.get (k.dup A fd).1 = k.get fd := by
  obtain ⟨d, hd⟩ := Option.isSome_iff_exists.mp h
  simp [dup, hd]

/-- What `dup` returns is open afterwards, or -1. -/
theorem isSome_dup_fst (k : Kernel) (fd : Int) :
    (k.dup A fd).1 = -1 ∨ ((k.dup A fd).2.get (k.dup A fd).1).isSome := by
  unfold dup
  cases k.get fd with
  | none => exact Or.inl rfl
  | some d => exact Or.inr (by simp)

/-- **`dup`** of an open descriptor puts the copy on one that was closed. -/
theorem StdOpen.dup_spec {k : Kernel} (hstd : k.StdOpen) {fd : Int} {d : OpenFile}
    (h : k.get fd = some d) :
    ∃ s k', k.dup A fd = (s, k') ∧ 2 < s ∧ k.get s = none ∧
      (∀ x, k'.get x = if x = s then some d else k.get x) ∧ k'.StdOpen := by
  have hgt := hstd.next_gt A
  exact ⟨A.next k.fds, k.install (A.next k.fds) d, by simp [dup, h], by omega, k.get_next A,
    fun _ => rfl, hstd.install _ _⟩

/-- **`pipe`** puts its two ends on two descriptors that were closed, and closes nothing. -/
theorem StdOpen.pipe_spec {k : Kernel} (hstd : k.StdOpen) :
    ∃ r w k', k.pipe A = (r, w, k') ∧ (2 < r ∧ 2 < w ∧ w ≠ r) ∧
      (k.get r = none ∧ k.get w = none) ∧
      (∀ x, k'.get x = if x = w then some ⟨k.stamp, .pipeWrite⟩
        else if x = r then some ⟨k.stamp, .pipeRead⟩ else k.get x) ∧
      k'.stamp = k.stamp + 1 ∧ k'.closeLog = k.closeLog := by
  set r := A.next k.fds with hr
  set ka := k.install r ⟨k.stamp, .pipeRead⟩ with hka
  set w := A.next ka.fds with hw
  have hrgt : 2 < r := hstd.next_gt A
  have hwgt : 2 < w := (hstd.install r _).next_gt A
  have har : ka.get r = some ⟨k.stamp, .pipeRead⟩ := by rw [hka, get_install, if_pos rfl]
  -- the read end is open by the time the write end gets its descriptor
  have hwr : (w : Int) ≠ r := next_ne A har
  have hwnone : k.get w = none := by
    rw [← ka.get_next A, ← hw, hka, get_install, if_neg hwr]
  refine ⟨r, w, ka.install w ⟨k.stamp, .pipeWrite⟩, rfl, ⟨by omega, by omega, hwr⟩,
    ⟨k.get_next A, hwnone⟩, fun _ => rfl, ?_, by simp [hka]⟩
  simp only [hka, stamp_install]
  omega

end Kernel

end OSPortfolio.Posix
