import Mathlib.Data.List.Nodup
import OSPortfolio.Lib.FixedTable

namespace OSPortfolio

/-!
# Ordered maps, and the arrays that hold them

A finite map whose keys stand in the order in which they were last newly bound, for any types
of keys and values, and the proof that the arrays of `FixedTable.lean` implement it.

* `OrderedMap` — the map, a list of pairs with distinct keys;
* `bind`, `unbind`, `lookup` — the operations; `lookup_bind`, `lookup_unbind`, `keys_bind`,
  `keys_unbind` — what they do to the values and to the order;
* `Represents` — an array holds a map;
* `Represents.writeValue`, `Represents.insertBack`, `Represents.removeAt` — the operations of
  the array are those of the map.
-/

universe u v

/-- A finite map, with its keys in order. -/
structure OrderedMap (κ : Type u) (ν : Type v) where
  pairs : List (κ × ν)
  nodup : (pairs.map Prod.fst).Nodup

namespace OrderedMap

variable {κ : Type u} {ν : Type v}

/-- The map without keys. -/
def empty : OrderedMap κ ν := ⟨[], List.nodup_nil⟩

/-- The keys, in order. -/
def keys (m : OrderedMap κ ν) : List κ := m.pairs.map Prod.fst

/-- The number of keys. -/
def size (m : OrderedMap κ ν) : Nat := m.pairs.length

/-- A map is its pairs. -/
theorem ext {m m' : OrderedMap κ ν} (h : m.pairs = m'.pairs) : m = m' := by
  obtain ⟨pairs, hnodup⟩ := m
  obtain ⟨pairs', hnodup'⟩ := m'
  obtain rfl : pairs = pairs' := h
  rfl

/-- A key has a pair. -/
theorem mem_keys_iff {a : κ} {m : OrderedMap κ ν} :
    a ∈ m.keys ↔ ∃ v, (a, v) ∈ m.pairs := by
  simp [keys]

section
variable [DecidableEq κ]

/-- The value of a key. -/
def lookup (a : κ) (m : OrderedMap κ ν) : Option ν :=
  (m.pairs.find? fun p => p.1 = a).map Prod.snd

/-- The pairs with a new value for the key `a`. -/
def setValue (a : κ) (v : ν) (pairs : List (κ × ν)) : List (κ × ν) :=
  pairs.map fun p => if p.1 = a then (a, v) else p

/-- A new value leaves the keys alone. -/
theorem map_fst_setValue (a : κ) (v : ν) (pairs : List (κ × ν)) :
    (setValue a v pairs).map Prod.fst = pairs.map Prod.fst := by
  rw [setValue, List.map_map]
  refine List.map_congr_left fun p _ => ?_
  by_cases hp : p.1 = a <;> simp [hp]

/-- Bind a key: one that is bound keeps its place, and a new one goes to the end. -/
def bind (a : κ) (v : ν) (m : OrderedMap κ ν) : OrderedMap κ ν :=
  if h : a ∈ m.keys then ⟨setValue a v m.pairs, by rw [map_fst_setValue]; exact m.nodup⟩
  else ⟨m.pairs ++ [(a, v)], by
    rw [List.map_append, List.nodup_append]
    refine ⟨m.nodup, by simp, fun b hb c hc hbc => h ?_⟩
    obtain rfl : c = a := by simpa using hc
    rwa [hbc] at hb⟩

/-- Remove a key. -/
def unbind (a : κ) (m : OrderedMap κ ν) : OrderedMap κ ν :=
  ⟨m.pairs.filter fun p => p.1 ≠ a, m.nodup.sublist (List.filter_sublist.map Prod.fst)⟩

/-- A key that is there gets a new value, in its place. -/
theorem pairs_bind_old {a : κ} {m : OrderedMap κ ν} (h : a ∈ m.keys) (v : ν) :
    (m.bind a v).pairs = setValue a v m.pairs := by
  rw [bind, dif_pos h]

/-- A key that is not there comes to the end. -/
theorem pairs_bind_new {a : κ} {m : OrderedMap κ ν} (h : a ∉ m.keys) (v : ν) :
    (m.bind a v).pairs = m.pairs ++ [(a, v)] := by
  rw [bind, dif_neg h]

/-- The pairs are the graph of the map. -/
theorem mem_pairs_iff {a : κ} {v : ν} {m : OrderedMap κ ν} :
    (a, v) ∈ m.pairs ↔ m.lookup a = some v := by
  have hnodup := m.nodup
  unfold lookup
  generalize m.pairs = pairs at hnodup
  induction pairs with
  | nil => simp
  | cons p pairs ih =>
    rw [List.map_cons, List.nodup_cons] at hnodup
    rw [List.mem_cons, List.find?_cons]
    by_cases hp : p.1 = a
    · -- the key is that of the first pair, and so of no other
      have hrest : (a, v) ∉ pairs := fun hmem => hnodup.1 (hp ▸ List.mem_map_of_mem hmem)
      simp only [hp, decide_true, Option.map_some, Option.some.injEq, hrest, or_false]
      exact ⟨fun heq => by rw [← heq], fun heq => by rw [← hp, ← heq]⟩
    · have hne : (a, v) ≠ p := fun heq => hp (by rw [← heq])
      simp only [hp, decide_false, hne, false_or]
      exact ih hnodup.2

/-- Only the keys have values. -/
theorem lookup_eq_none_iff {a : κ} {m : OrderedMap κ ν} : m.lookup a = none ↔ a ∉ m.keys := by
  rw [mem_keys_iff, Option.eq_none_iff_forall_ne_some, not_exists]
  exact forall_congr' fun v => not_congr mem_pairs_iff.symm

/-- The pairs behind a new value. -/
theorem mem_setValue {a b : κ} {v w : ν} {m : OrderedMap κ ν} (ha : a ∈ m.keys) :
    (b, w) ∈ setValue a v m.pairs ↔ if b = a then w = v else (b, w) ∈ m.pairs := by
  unfold setValue
  rw [List.mem_map]
  by_cases hb : b = a
  · subst hb
    rw [if_pos rfl]
    constructor
    · rintro ⟨p, -, heq⟩
      by_cases hp : p.1 = b
      · rw [if_pos hp] at heq
        exact (congrArg Prod.snd heq).symm
      · rw [if_neg hp] at heq
        exact absurd (by rw [heq]) hp
    · rintro rfl
      obtain ⟨v, hv⟩ := mem_keys_iff.mp ha
      exact ⟨(b, v), hv, by simp⟩
  · rw [if_neg hb]
    constructor
    · rintro ⟨p, hp, heq⟩
      by_cases hpa : p.1 = a
      · rw [if_pos hpa] at heq
        exact absurd (congrArg Prod.fst heq).symm hb
      · rw [if_neg hpa] at heq
        rwa [← heq]
    · exact fun hp => ⟨(b, w), hp, by simp [hb]⟩

@[simp] theorem lookup_bind (a b : κ) (v : ν) (m : OrderedMap κ ν) :
    (m.bind a v).lookup b = if b = a then some v else m.lookup b := by
  refine Option.ext fun w => ?_
  rw [← mem_pairs_iff]
  by_cases ha : a ∈ m.keys
  · rw [pairs_bind_old ha, mem_setValue ha]
    by_cases hb : b = a
    · simp [hb, eq_comm]
    · simp [hb, mem_pairs_iff]
  · rw [pairs_bind_new ha, List.mem_append, List.mem_singleton, mem_pairs_iff]
    by_cases hb : b = a
    · subst hb
      rw [lookup_eq_none_iff.mpr ha]
      simp [eq_comm]
    · simp [hb]

@[simp] theorem lookup_unbind (a b : κ) (m : OrderedMap κ ν) :
    (m.unbind a).lookup b = if b = a then none else m.lookup b := by
  refine Option.ext fun w => ?_
  rw [← mem_pairs_iff, unbind, List.mem_filter, mem_pairs_iff]
  by_cases hb : b = a <;> simp [hb]

/-- The keys behind a binding. -/
theorem keys_bind (a : κ) (v : ν) (m : OrderedMap κ ν) :
    (m.bind a v).keys = if a ∈ m.keys then m.keys else m.keys ++ [a] := by
  by_cases ha : a ∈ m.keys
  · rw [if_pos ha, keys, pairs_bind_old ha, map_fst_setValue, keys]
  · rw [if_neg ha, keys, pairs_bind_new ha, List.map_append, keys]
    rfl

/-- The keys behind a removal. -/
theorem keys_unbind (a : κ) (m : OrderedMap κ ν) :
    (m.unbind a).keys = m.keys.filter (· ≠ a) := by
  unfold keys unbind
  rw [List.filter_map]
  rfl

/-- Removing a key takes out the pair at its place. -/
theorem pairs_unbind {a : κ} {i : Nat} {m : OrderedMap κ ν} {p : κ × ν}
    (hget : m.pairs[i]? = some p) (hkey : p.1 = a) :
    (m.unbind a).pairs = m.pairs.eraseIdx i := by
  have hnodup := m.nodup
  show m.pairs.filter (fun p => p.1 ≠ a) = m.pairs.eraseIdx i
  generalize m.pairs = pairs at hget hnodup ⊢
  induction pairs generalizing i with
  | nil => exact absurd hget (by simp)
  | cons q pairs ih =>
    rw [List.map_cons, List.nodup_cons] at hnodup
    cases i with
    | zero =>
      -- no other pair has the key
      obtain rfl : q = p := by simpa using hget
      have hrest : pairs.filter (fun p => p.1 ≠ a) = pairs := by
        refine List.filter_eq_self.mpr fun r hr => ?_
        have hne : r.1 ≠ a := fun heq => hnodup.1 (by rw [hkey, ← heq]; exact List.mem_map_of_mem hr)
        simp [hne]
      simpa [hkey] using hrest
    | succ i =>
      rw [List.getElem?_cons_succ] at hget
      have hne : q.1 ≠ a := fun heq => hnodup.1
        (by rw [heq, ← hkey]; exact List.mem_map_of_mem (List.mem_of_getElem? hget))
      simpa [hne] using ih hget hnodup.2

/-- To remove a key that is not there changes nothing. -/
theorem unbind_of_not_mem {a : κ} {m : OrderedMap κ ν} (ha : a ∉ m.keys) : m.unbind a = m := by
  refine ext (List.filter_eq_self.mpr fun p hp => ?_)
  have hne : p.1 ≠ a := fun heq => ha (heq ▸ List.mem_map_of_mem hp)
  simp [hne]

end

end OrderedMap

/-! ### Arrays -/

namespace FixedTable

variable {κ : Type u} {ν : Type v} {B : Bounds κ ν}

/-- The entries in use. -/
def Table.pairs (t : Table κ ν) : List (κ × ν) := (List.range t.count).map t.entry

/-- The array is sound and holds the map. -/
structure Represents (B : Bounds κ ν) (t : Table κ ν) (m : OrderedMap κ ν) : Prop where
  inv : Inv B t
  pairs : t.pairs = m.pairs

/-- A pair of the table is an entry in use. -/
theorem getElem?_pairs (t : Table κ ν) (i : Nat) :
    t.pairs[i]? = if i < t.count then some (t.entry i) else none := by
  unfold Table.pairs
  rw [List.getElem?_map]
  by_cases hi : i < t.count
  · rw [if_pos hi, List.getElem?_range hi]
    rfl
  · rw [if_neg hi, List.getElem?_eq_none (by simpa using hi)]
    rfl

section
variable {t : Table κ ν} {m : OrderedMap κ ν}

/-- The counter is the size of the map. -/
theorem Represents.count (h : Represents B t m) : t.count = m.size := by
  rw [OrderedMap.size, ← h.pairs, Table.pairs, List.length_map, List.length_range]

variable [DecidableEq κ] {a : κ} {i : Nat}

/-- A key that the table does not find is none of the map. -/
theorem Represents.find_none (h : Represents B t m) : t.find a = none ↔ a ∉ m.keys := by
  rw [find_eq_none_iff, OrderedMap.keys, ← h.pairs]
  simp [Table.pairs]

/-- A key that it finds is one of the map. -/
theorem Represents.mem_keys (h : Represents B t m) (hfind : t.find a = some i) : a ∈ m.keys := by
  by_contra hnot
  rw [h.find_none.mpr hnot] at hfind
  simp at hfind

/-- The entry that was found is the only one with its key. -/
theorem Represents.entry_key (h : Represents B t m) (hfind : t.find a = some i) {j : Nat}
    (hj : j < t.count) : (t.entry j).1 = a ↔ j = i := by
  obtain ⟨hi, hkey⟩ := find_some hfind
  exact ⟨fun heq => h.inv.distinct j i hj hi (heq.trans hkey.symm), fun heq => heq ▸ hkey⟩

/-- A new value for a key. -/
theorem Represents.writeValue (h : Represents B t m) (hfind : t.find a = some i) {v : ν}
    (hfits : B.fitsValue v = true) :
    ∃ t', FixedTable.writeValue B i v t = .ok t' ∧ Represents B t' (m.bind a v) := by
  obtain ⟨hi, hkey⟩ := find_some hfind
  have hok := (writeValue_eq_ok_iff (B := B) (t := t)).mpr
    ⟨Nat.lt_of_lt_of_le hi h.inv.count_le, hfits, rfl⟩
  refine ⟨_, hok, writeValue_inv h.inv hok, ?_⟩
  rw [OrderedMap.pairs_bind_old (h.mem_keys hfind), ← h.pairs]
  refine List.ext_getElem? fun j => ?_
  rw [getElem?_pairs, OrderedMap.setValue, List.getElem?_map, getElem?_pairs, Table.count_set]
  by_cases hj : j < t.count
  · have hentry := h.entry_key hfind hj
    simp only [hj, if_true, Table.entry_set, Option.map_some, hentry, hkey]
  · simp [hj]

/-- A new key at the end. -/
theorem Represents.insertBack (h : Represents B t m) (hfind : t.find a = none) {v : ν}
    (hroom : t.count < B.cap) (hkey : B.fitsKey a = true) (hvalue : B.fitsValue v = true) :
    ∃ t', FixedTable.insertBack B a v t = .ok t' ∧ Represents B t' (m.bind a v) := by
  have hok := (insertBack_eq_ok_iff (B := B) (t := t)).mpr ⟨hroom, hkey, hvalue, rfl⟩
  refine ⟨_, hok, insertBack_inv h.inv hfind hok, ?_⟩
  rw [OrderedMap.pairs_bind_new (h.find_none.mp hfind), ← h.pairs, Table.pairs, List.range_succ,
    List.map_append]
  congr 1
  · refine List.map_congr_left fun j hj => ?_
    have hne : j ≠ t.count := Nat.ne_of_lt (List.mem_range.mp hj)
    simp [hne]
  · simp

/-- Removing a key. -/
theorem Represents.removeAt (h : Represents B t m) (hfind : t.find a = some i) :
    ∃ t', FixedTable.removeAt B i t = .ok t' ∧ Represents B t' (m.unbind a) := by
  obtain ⟨hi, hkey⟩ := find_some hfind
  obtain ⟨t', hok, hcount, hentry⟩ := removeAt_spec h.inv hi
  refine ⟨t', hok, removeAt_inv h.inv hi hok, ?_⟩
  have hget : m.pairs[i]? = some (t.entry i) := by rw [← h.pairs, getElem?_pairs, if_pos hi]
  rw [OrderedMap.pairs_unbind hget hkey, ← h.pairs]
  refine List.ext_getElem? fun j => ?_
  rw [List.getElem?_eraseIdx, getElem?_pairs, getElem?_pairs, getElem?_pairs]
  -- the entries from `i` on are one place down
  by_cases hj : j < t.count - 1
  · rw [if_pos (hcount ▸ hj), hentry j hj, if_pos (by omega : j < t.count),
      if_pos (by omega : j + 1 < t.count)]
    by_cases hij : i ≤ j
    · rw [if_pos hij, if_neg (by omega)]
    · rw [if_neg hij, if_pos (by omega)]
  · rw [if_neg (hcount ▸ hj), if_neg (by omega : ¬ j < i), if_neg (by omega)]

end

end FixedTable

end OSPortfolio
