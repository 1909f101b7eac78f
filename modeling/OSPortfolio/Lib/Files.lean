import OSPortfolio.Lib.Descriptors

namespace OSPortfolio.Posix

/-!
# Contents of files

What a file contains after a process has opened it for writing and made any number of writes,
with nobody else writing to it.

* `Output` — an open file: the contents, the offset of the next write, and whether writes go to
  the end;
* `openOutput`, `Output.write`, `Output.writes` — the calls; none of the flags truncates;
* `writes_append` — with `O_APPEND` the bytes follow the old contents;
* `writes_overwrite` — without it they take the place of as many of the old ones.
-/

universe u

variable {β : Type u}

/-- A file opened for writing, with an offset within its contents. -/
structure Output (β : Type u) where
  content : List β
  offset : Nat
  append : Bool
  offset_le : offset ≤ content.length

/-- `open` for a file with the given contents that may be written, or for an absent one. -/
def openOutput (flag : OpenFlags) : Option (List β) → Option (Output β)
  | some s => some ⟨s, 0, flag.append, Nat.zero_le _⟩
  | none => if flag.creat then some ⟨[], 0, flag.append, Nat.zero_le _⟩ else none

namespace Output

/-- Where the next write goes. -/
def start (o : Output β) : Nat := if o.append then o.content.length else o.offset

theorem start_le (o : Output β) : o.start ≤ o.content.length := by
  unfold start
  split
  · exact Nat.le_refl _
  · exact o.offset_le

/-- `write(fd, bs, n)`, for all of `bs`. -/
def write (o : Output β) (bs : List β) : Output β where
  content := o.content.take o.start ++ bs ++ o.content.drop (o.start + bs.length)
  offset := o.start + bs.length
  append := o.append
  offset_le := by
    have hstart := o.start_le
    simp only [List.length_append, List.length_take, List.length_drop]
    omega

/-- One write after the other. -/
def writes (o : Output β) (ws : List (List β)) : Output β := ws.foldl write o

@[simp] theorem append_write (o : Output β) (bs : List β) : (o.write bs).append = o.append := rfl

@[simp] theorem writes_nil (o : Output β) : o.writes [] = o := rfl

@[simp] theorem writes_cons (o : Output β) (bs : List β) (ws : List (List β)) :
    o.writes (bs :: ws) = (o.write bs).writes ws := rfl

/-- **Appending writes.** -/
theorem writes_append {o : Output β} (h : o.append = true) (ws : List (List β)) :
    (o.writes ws).content = o.content ++ ws.flatten := by
  induction ws generalizing o with
  | nil => simp
  | cons bs ws ih =>
    have hstart : o.start = o.content.length := if_pos h
    have hone : (o.write bs).content = o.content ++ bs := by
      simp [write, hstart]
    rw [writes_cons, ih (o := o.write bs) h, hone, List.flatten_cons, List.append_assoc]

/-- **Overwriting writes.** -/
theorem writes_overwrite {o : Output β} (h : o.append = false) (ws : List (List β)) :
    (o.writes ws).content = o.content.take o.offset ++ ws.flatten ++
      o.content.drop (o.offset + ws.flatten.length) := by
  induction ws generalizing o with
  | nil => simp
  | cons bs ws ih =>
    have hstart : o.start = o.offset := if_neg (by simp [h])
    have hlen : (o.content.take o.offset ++ bs).length = o.offset + bs.length := by
      rw [List.length_append, List.length_take_of_le o.offset_le]
    have hcontent : (o.write bs).content =
        (o.content.take o.offset ++ bs) ++ o.content.drop (o.offset + bs.length) := by
      simp [write, hstart]
    have hoffset : (o.write bs).offset = o.offset + bs.length := by
      simp [write, hstart]
    rw [writes_cons, ih (o := o.write bs) h, hcontent, hoffset, ← hlen, List.take_left,
      List.drop_append, List.drop_of_length_le (by omega), List.nil_append, List.drop_drop, hlen,
      List.flatten_cons, List.length_append]
    simp only [List.append_assoc]
    congr 4
    omega

end Output

theorem isSome_openOutput (flag : OpenFlags) (prior : Option (List β)) :
    (openOutput flag prior).isSome = (prior.isSome || flag.creat) := by
  cases prior with
  | some s => rfl
  | none => cases hcreat : flag.creat <;> simp [openOutput, hcreat]

/-- A file that opens does so with its contents, from the start. -/
theorem openOutput_eq_some {flag : OpenFlags} {prior : Option (List β)} {o : Output β}
    (h : openOutput flag prior = some o) :
    o.content = prior.getD [] ∧ o.offset = 0 ∧ o.append = flag.append := by
  cases prior with
  | some s =>
    obtain rfl := Option.some.inj h
    exact ⟨rfl, rfl, rfl⟩
  | none =>
    rw [openOutput] at h
    by_cases hcreat : flag.creat = true
    · rw [if_pos hcreat] at h
      obtain rfl := Option.some.inj h
      exact ⟨rfl, rfl, rfl⟩
    · rw [if_neg hcreat] at h
      exact absurd h (by simp)

end OSPortfolio.Posix
