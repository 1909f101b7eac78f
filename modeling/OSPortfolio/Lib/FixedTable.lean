import Mathlib.Data.List.Basic

namespace OSPortfolio.FixedTable

/-!
# Maps in fixed arrays

C programs keep small maps in an array of pairs with a counter: the first `count` entries are
in use, a new key goes to the end, and removing a key moves the entries behind it down.  This
file is that data structure for any types of keys and values:

* `Table` — the array and its counter;
* `Bounds` — the length of the array, and which keys and values fit into an entry;
* `writeKey`, `writeValue` — the writes, which fault outside the array and on what does not
  fit; every operation goes through them, so `.ok` means that no write was out of bounds;
* `find`, `insertBack`, `removeAt` — the operations;
* `Inv` — the counter is within the array, keys are distinct, what is stored fits;
* `insertBack_eq_ok_iff`, `insertBack_full`, `removeAt_spec` — what the operations do;
* `insertBack_inv`, `writeValue_inv`, `removeAt_inv` — they keep the invariant;
* `Change`, `Change.inv` — the same for any of the operations.
-/

universe u v

/-- What a write can run into. -/
inductive Fault
  | outOfBounds (i : Nat)
  | overflow
  deriving DecidableEq, Repr

/-- An array of pairs, of which the first `count` are in use. -/
structure Table (κ : Type u) (ν : Type v) where
  entry : Nat → κ × ν
  count : Nat

/-- The length of the array, and what fits into an entry of it. -/
structure Bounds (κ : Type u) (ν : Type v) where
  cap : Nat
  fitsKey : κ → Bool
  fitsValue : ν → Bool

variable {κ : Type u} {ν : Type v} (B : Bounds κ ν)

/-- Replace the entry `i`. -/
def Table.set (t : Table κ ν) (i : Nat) (p : κ × ν) : Table κ ν :=
  { t with entry := fun j => if j = i then p else t.entry j }

@[simp] theorem Table.entry_set (t : Table κ ν) (i : Nat) (p : κ × ν) (j : Nat) :
    (t.set i p).entry j = if j = i then p else t.entry j := rfl

@[simp] theorem Table.count_set (t : Table κ ν) (i : Nat) (p : κ × ν) :
    (t.set i p).count = t.count := rfl

@[simp] theorem Table.set_set (t : Table κ ν) (i : Nat) (p q : κ × ν) :
    (t.set i p).set i q = t.set i q := by
  unfold Table.set
  congr 1
  funext j
  by_cases hj : j = i <;> simp [hj]

/-- Write the key of entry `i`. -/
def writeKey (i : Nat) (a : κ) (t : Table κ ν) : Except Fault (Table κ ν) :=
  if i < B.cap then
    if B.fitsKey a then .ok (t.set i (a, (t.entry i).2)) else .error .overflow
  else .error (.outOfBounds i)

/-- Write the value of entry `i`. -/
def writeValue (i : Nat) (v : ν) (t : Table κ ν) : Except Fault (Table κ ν) :=
  if i < B.cap then
    if B.fitsValue v then .ok (t.set i ((t.entry i).1, v)) else .error .overflow
  else .error (.outOfBounds i)

/-- The first entry in use with the key `a`. -/
def Table.find [DecidableEq κ] (t : Table κ ν) (a : κ) : Option Nat :=
  (List.range t.count).find? (fun i => (t.entry i).1 = a)

/-- Write key and value to the first free entry, and count it. -/
def insertBack (a : κ) (v : ν) (t : Table κ ν) : Except Fault (Table κ ν) := do
  let t ← writeKey B t.count a t
  let t ← writeValue B t.count v t
  return { t with count := t.count + 1 }

/-- Copy entry `j` to the entry before it. -/
def moveDown (t : Table κ ν) (j : Nat) : Except Fault (Table κ ν) := do
  let t' ← writeKey B (j - 1) (t.entry j).1 t
  writeValue B (j - 1) (t'.entry j).2 t'

/-- Remove entry `i`: move the entries behind it down, in order. -/
def removeAt (i : Nat) (t : Table κ ν) : Except Fault (Table κ ν) := do
  let t ← (List.range' (i + 1) (t.count - (i + 1))).foldlM (moveDown B) t
  return { t with count := t.count - 1 }

/-- The counter is within the array, the keys in use are distinct, and what is in use
    fits. -/
structure Inv (t : Table κ ν) : Prop where
  count_le : t.count ≤ B.cap
  distinct : ∀ i j, i < t.count → j < t.count → (t.entry i).1 = (t.entry j).1 → i = j
  keyFits : ∀ i < t.count, B.fitsKey (t.entry i).1 = true
  valueFits : ∀ i < t.count, B.fitsValue (t.entry i).2 = true

/-! ### Writes -/

variable {B}

/-- A write that goes through is the write, and was allowed. -/
theorem writeValue_eq_ok_iff {i : Nat} {v : ν} {t t' : Table κ ν} :
    writeValue B i v t = .ok t' ↔
      i < B.cap ∧ B.fitsValue v = true ∧ t' = t.set i ((t.entry i).1, v) := by
  unfold writeValue
  by_cases hi : i < B.cap
  · by_cases hv : B.fitsValue v = true
    · simp [hi, hv, eq_comm]
    · simp [hi, hv]
  · simp [hi]

/-- A change of what an operation leaves does not change whether it goes through. -/
theorem exists_map_eq_ok {ε α β : Type*} {f : α → β} {x : Except ε α} :
    (∃ b, x.map f = .ok b) ↔ ∃ a, x = .ok a := by
  cases x with
  | error e => simp [Except.map]
  | ok a => simp [Except.map]

/-- The result of an operation is what it leaves in the result of a command. -/
theorem eq_ok_of_map {ε α β : Type*} {f : α → β} {g : β → α} {x : Except ε α} {b : β}
    (hg : ∀ a, g (f a) = a) (h : x.map f = .ok b) : x = .ok (g b) := by
  cases x with
  | error e => simp [Except.map] at h
  | ok a => rw [← Except.ok.inj h, hg]

/-! ### Finding a key -/

section
variable [DecidableEq κ] {t : Table κ ν} {a : κ} {i : Nat}

/-- A found entry is in use and has the key. -/
theorem find_some (h : t.find a = some i) : i < t.count ∧ (t.entry i).1 = a := by
  refine ⟨?_, by simpa using List.find?_some h⟩
  simpa using List.mem_of_find?_eq_some h

/-- Nothing is found exactly when no entry in use has the key. -/
theorem find_eq_none_iff : t.find a = none ↔ ∀ i < t.count, (t.entry i).1 ≠ a := by
  simp [Table.find]

/-- A key that does not fit is not found. -/
theorem find_eq_none_of_not_fits (hinv : Inv B t) (ha : B.fitsKey a = false) :
    t.find a = none := by
  rw [find_eq_none_iff]
  rintro j hj rfl
  rw [hinv.keyFits j hj] at ha
  exact absurd ha (by simp)

/-- A pair that does not fit, and would have been written: its key is new and the array is
    full. -/
theorem full_of_not_fits {v : ν} (hinv : Inv B t)
    (hlong : B.fitsKey a = false ∨ B.fitsValue v = false)
    (hold : t.find a ≠ none → B.fitsValue v = true)
    (hroom : t.find a = none → t.count < B.cap → B.fitsKey a = true ∧ B.fitsValue v = true) :
    t.find a = none ∧ t.count = B.cap := by
  have hnew : t.find a = none := by
    rcases hlong with hkey | hvalue
    · exact find_eq_none_of_not_fits hinv hkey
    · by_contra hfound
      rw [hold hfound] at hvalue
      exact absurd hvalue (by simp)
  refine ⟨hnew, ?_⟩
  by_contra hne
  obtain ⟨hkey, hvalue⟩ := hroom hnew (Nat.lt_of_le_of_ne hinv.count_le hne)
  rw [hkey, hvalue] at hlong
  exact absurd hlong (by simp)

/-- A found entry is in the array, so that only its new value can be too long. -/
theorem exists_writeValue_iff (hinv : Inv B t) (hfind : t.find a = some i) (v : ν) :
    (∃ t', writeValue B i v t = .ok t') ↔ B.fitsValue v = true := by
  have hi : i < B.cap := Nat.lt_of_lt_of_le (find_some hfind).1 hinv.count_le
  constructor
  · rintro ⟨t', ht'⟩
    exact (writeValue_eq_ok_iff.mp ht').2.1
  · intro hv
    exact ⟨_, writeValue_eq_ok_iff.mpr ⟨hi, hv, rfl⟩⟩

end

/-! ### Inserting and changing -/

/-- Inserting at the end goes through exactly when there is room and both parts fit. -/
theorem insertBack_eq_ok_iff {a : κ} {v : ν} {t t' : Table κ ν} :
    insertBack B a v t = .ok t' ↔
      t.count < B.cap ∧ B.fitsKey a = true ∧ B.fitsValue v = true ∧
        t' = { t.set t.count (a, v) with count := t.count + 1 } := by
  unfold insertBack writeKey writeValue
  by_cases hi : t.count < B.cap
  · by_cases ha : B.fitsKey a = true
    · by_cases hv : B.fitsValue v = true
      · simp [hi, ha, hv, bind, Except.bind, pure, Except.pure, eq_comm]
      · simp [hi, ha, hv, bind, Except.bind]
    · simp [hi, ha, bind, Except.bind]
  · simp [hi, bind, Except.bind]

theorem exists_insertBack_iff {a : κ} {v : ν} {t : Table κ ν} :
    (∃ t', insertBack B a v t = .ok t') ↔
      t.count < B.cap ∧ B.fitsKey a = true ∧ B.fitsValue v = true := by
  constructor
  · rintro ⟨t', ht'⟩
    obtain ⟨hcap, ha, hv, -⟩ := insertBack_eq_ok_iff.mp ht'
    exact ⟨hcap, ha, hv⟩
  · rintro ⟨hcap, ha, hv⟩
    exact ⟨_, insertBack_eq_ok_iff.mpr ⟨hcap, ha, hv, rfl⟩⟩

/-- In a full array the insertion writes behind it. -/
theorem insertBack_full {a : κ} {v : ν} {t : Table κ ν} (h : B.cap ≤ t.count) :
    insertBack B a v t = .error (.outOfBounds t.count) := by
  simp [insertBack, writeKey, Nat.not_lt.mpr h, bind, Except.bind]

/-- A new key at the end keeps the invariant. -/
theorem insertBack_inv [DecidableEq κ] {a : κ} {v : ν} {t t' : Table κ ν} (hinv : Inv B t)
    (hnew : t.find a = none) (h : insertBack B a v t = .ok t') : Inv B t' := by
  obtain ⟨hcap, ha, hv, rfl⟩ := insertBack_eq_ok_iff.mp h
  rw [find_eq_none_iff] at hnew
  refine ⟨hcap, ?_, ?_, ?_⟩
  · intro i j hi hj heq
    simp only [Table.entry_set] at hi hj heq
    by_cases hic : i = t.count <;> by_cases hjc : j = t.count
    · omega
    -- one of the two is the new entry, whose key was not there
    · rw [if_pos hic, if_neg hjc] at heq
      exact absurd heq.symm (hnew j (by omega))
    · rw [if_neg hic, if_pos hjc] at heq
      exact absurd heq (hnew i (by omega))
    · rw [if_neg hic, if_neg hjc] at heq
      exact hinv.distinct i j (by omega) (by omega) heq
  · intro i hi
    simp only [Table.entry_set] at hi ⊢
    split
    · exact ha
    · exact hinv.keyFits i (by omega)
  · intro i hi
    simp only [Table.entry_set] at hi ⊢
    split
    · exact hv
    · exact hinv.valueFits i (by omega)

/-- A new value for an entry keeps the invariant. -/
theorem writeValue_inv {i : Nat} {v : ν} {t t' : Table κ ν} (hinv : Inv B t)
    (h : writeValue B i v t = .ok t') : Inv B t' := by
  obtain ⟨-, hv, rfl⟩ := writeValue_eq_ok_iff.mp h
  -- only the value of the entry changes
  have hkey : ∀ j, ((t.set i ((t.entry i).1, v)).entry j).1 = (t.entry j).1 := by
    intro j
    rw [Table.entry_set]
    split
    · rename_i hj; rw [hj]
    · rfl
  refine ⟨hinv.count_le, ?_, ?_, ?_⟩
  · intro j l hj hl heq
    rw [hkey, hkey] at heq
    exact hinv.distinct j l hj hl heq
  · intro j hj
    rw [hkey]
    exact hinv.keyFits j hj
  · intro j hj
    rw [Table.entry_set]
    split
    · exact hv
    · exact hinv.valueFits j hj

/-! ### Removing -/

/-- One move of `removeAt` in an array whose entries fit. -/
theorem moveDown_eq {t : Table κ ν} {j : Nat} (hj : j - 1 < B.cap)
    (hk : B.fitsKey (t.entry j).1 = true) (hv : B.fitsValue (t.entry j).2 = true)
    (hpos : 0 < j) : moveDown B t j = .ok (t.set (j - 1) (t.entry j)) := by
  have hne : ¬ j = j - 1 := by omega
  simp only [moveDown, writeKey, writeValue, if_pos hj, if_pos hk, bind, Except.bind,
    Table.entry_set, if_neg hne, if_pos hv, if_true, Table.set_set]

/-- The moves of `removeAt` from entry `m` on, once those below `m` are done. -/
theorem moves_spec {t₀ : Table κ ν} (hinv : Inv B t₀) {i : Nat} (n m : Nat)
    (hm : i + 1 ≤ m) (hmn : m + n = t₀.count) (t : Table κ ν) (hcount : t.count = t₀.count)
    (ht : ∀ x, t.entry x = if i ≤ x ∧ x + 1 < m then t₀.entry (x + 1) else t₀.entry x) :
    ∃ t', (List.range' m n).foldlM (moveDown B) t = .ok t' ∧ t'.count = t₀.count ∧
      ∀ x, t'.entry x =
        if i ≤ x ∧ x + 1 < t₀.count then t₀.entry (x + 1) else t₀.entry x := by
  induction n generalizing m t with
  | zero => exact ⟨t, rfl, hcount, by rw [Nat.add_zero] at hmn; rwa [hmn] at ht⟩
  | succ n ih =>
    have hcap := hinv.count_le
    -- entry `m` has not been overwritten yet: the moves so far ended below it
    have hentry : t.entry m = t₀.entry m := by rw [ht, if_neg (by omega)]
    have hmove : moveDown B t m = .ok (t.set (m - 1) (t.entry m)) :=
      moveDown_eq (by omega) (by rw [hentry]; exact hinv.keyFits m (by omega))
        (by rw [hentry]; exact hinv.valueFits m (by omega)) (by omega)
    obtain ⟨t', hloop, hrest⟩ := ih (m + 1) (by omega) (by omega) (t.set (m - 1) (t.entry m))
      hcount (by
        intro x
        rw [Table.entry_set]
        -- the place just filled, the places filled before, and the rest
        by_cases hx : x = m - 1
        · rw [if_pos hx, if_pos (by omega), hentry, hx, Nat.sub_add_cancel (by omega)]
        · rw [if_neg hx, ht]
          by_cases hlt : i ≤ x ∧ x + 1 < m
          · rw [if_pos hlt, if_pos (by omega)]
          · rw [if_neg hlt, if_neg (by omega)])
    refine ⟨t', ?_, hrest⟩
    rw [List.range'_succ, List.foldlM_cons, hmove]
    exact hloop

/-- Removing an entry goes through, and the entries behind it are one place down. -/
theorem removeAt_spec {i : Nat} {t : Table κ ν} (hinv : Inv B t) (hi : i < t.count) :
    ∃ t', removeAt B i t = .ok t' ∧ t'.count = t.count - 1 ∧
      ∀ x < t.count - 1, t'.entry x = if i ≤ x then t.entry (x + 1) else t.entry x := by
  obtain ⟨t', hloop, hcount, hentry⟩ := moves_spec hinv (i := i) (t.count - (i + 1)) (i + 1)
    (by omega) (by omega) t rfl (fun x => by rw [if_neg (by omega)])
  refine ⟨{ t' with count := t'.count - 1 }, ?_, by rw [hcount], ?_⟩
  · simp only [removeAt, hloop, bind, Except.bind, pure, Except.pure]
  · intro x hx
    show t'.entry x = _
    rw [hentry]
    by_cases hix : i ≤ x
    · rw [if_pos ⟨hix, by omega⟩, if_pos hix]
    · rw [if_neg (fun h => hix h.1), if_neg hix]

/-- Removing an entry keeps the invariant. -/
theorem removeAt_inv {i : Nat} {t t' : Table κ ν} (hinv : Inv B t) (hi : i < t.count)
    (h : removeAt B i t = .ok t') : Inv B t' := by
  obtain ⟨t'', hok, hcount, hentry⟩ := removeAt_spec hinv hi
  obtain rfl : t' = t'' := Except.ok.inj (h.symm.trans hok)
  -- the entry `x` of the new table is the entry `old x` of the old one
  let old : Nat → Nat := fun x => if i ≤ x then x + 1 else x
  have hold : ∀ x < t'.count, t'.entry x = t.entry (old x) ∧ old x < t.count := by
    intro x hx
    rw [hcount] at hx
    simp only [old]
    rw [hentry x hx]
    split <;> exact ⟨rfl, by omega⟩
  have hcap := hinv.count_le
  refine ⟨by omega, ?_, ?_, ?_⟩
  · intro x y hx hy heq
    rw [(hold x hx).1, (hold y hy).1] at heq
    have := hinv.distinct _ _ (hold x hx).2 (hold y hy).2 heq
    simp only [old] at this
    -- `old` is injective and skips the removed entry
    split at this <;> split at this <;> omega
  · intro x hx
    rw [(hold x hx).1]
    exact hinv.keyFits _ (hold x hx).2
  · intro x hx
    rw [(hold x hx).1]
    exact hinv.valueFits _ (hold x hx).2

/-! ### Any operation -/

/-- All that the commands on a map do to the table: nothing, a new value for an entry, a new
    key at the end, or an entry less. -/
inductive Change [DecidableEq κ] (B : Bounds κ ν) (t : Table κ ν) : Table κ ν → Prop
  | same : Change B t t
  | write {t' : Table κ ν} (i : Nat) (v : ν) (h : writeValue B i v t = .ok t') : Change B t t'
  | insert {t' : Table κ ν} (a : κ) (v : ν) (hnew : t.find a = none)
      (h : insertBack B a v t = .ok t') : Change B t t'
  | remove {t' : Table κ ν} (i : Nat) (hi : i < t.count) (h : removeAt B i t = .ok t') :
      Change B t t'

/-- **Every operation keeps the invariant.** -/
theorem Change.inv [DecidableEq κ] {t t' : Table κ ν} (h : Change B t t') (hinv : Inv B t) :
    Inv B t' := by
  cases h with
  | same => exact hinv
  | write i v hw => exact writeValue_inv hinv hw
  | insert a v hnew hins => exact insertBack_inv hinv hnew hins
  | remove i hi hrem => exact removeAt_inv hinv hi hrem

end OSPortfolio.FixedTable
