import Mathlib.Data.Finmap
import Mathlib.Data.Finset.Sort
import Mathlib.Data.List.Lex
import Mathlib.Order.Defs.LinearOrder
import OSPortfolio.Lib.Json

namespace OSPortfolio.Json

open OSPortfolio.Utf8

/-!
# Maps of strings as JSON objects

* `StringMap` — a finite map from byte strings to byte strings;
* `sortedEntries`, `marshalMap` — its entries in the order of the keys, and the object of them;
* `Value.intoMap`, `decodeMap` — a value as such a map, where the value allows it;
* `AllValid` — a map whose keys and values are text, as every decoded map is;
* `decodeMap_marshalMap` — such a map is read back as it was.
-/

/-- A finite map of byte strings. -/
abbrev StringMap := Finmap (fun _ : Bytes => Bytes)

/-- The only entry can be removed. -/
theorem erase_singleton (k v : Bytes) : (Finmap.singleton k v : StringMap).erase k = ∅ := by
  refine Finmap.ext_lookup fun k' => ?_
  by_cases hk : k' = k
  · rw [hk, Finmap.lookup_erase, Finmap.lookup_empty]
  · rw [Finmap.lookup_erase_ne hk, Finmap.lookup_empty, Finmap.lookup_eq_none,
      Finmap.mem_singleton]
    exact hk

/-- Removing a key that is not there. -/
theorem erase_eq_self {m : StringMap} {k : Bytes} (h : m.lookup k = none) : m.erase k = m := by
  refine Finmap.ext_lookup fun k' => ?_
  by_cases hk : k' = k
  · rw [hk, Finmap.lookup_erase, h]
  · rw [Finmap.lookup_erase_ne hk]

/-- Storing an entry that is there. -/
theorem insert_eq_self {m : StringMap} {k v : Bytes} (h : m.lookup k = some v) :
    m.insert k v = m := by
  refine Finmap.ext_lookup fun k' => ?_
  by_cases hk : k' = k
  · rw [hk, Finmap.lookup_insert, h]
  · rw [Finmap.lookup_insert_of_ne m hk]

/-- The order of byte strings, by their first different byte. -/
def BytesLE (s t : Bytes) : Prop := s.map UInt8.toNat ≤ t.map UInt8.toNat

/-- Bytes are compared as numbers. -/
theorem map_toNat_injective : Function.Injective (List.map UInt8.toNat) :=
  List.map_injective_iff.mpr fun _ _ => UInt8.toNat_inj.mp

instance : DecidableRel BytesLE := fun _ _ => inferInstanceAs (Decidable (_ ≤ _))

instance : IsTrans Bytes BytesLE := ⟨fun _ _ _ => le_trans⟩

instance : Std.Antisymm BytesLE := ⟨fun _ _ h h' => map_toNat_injective (le_antisymm h h')⟩

instance : Std.Total BytesLE := ⟨fun _ _ => le_total _ _⟩

/-- The entries of a map, sorted by their keys. -/
def sortedEntries (m : StringMap) : List (Bytes × Bytes) :=
  (m.keys.sort BytesLE).map fun k => (k, (m.lookup k).getD [])

/-- A map as an object. -/
def marshalMap (m : StringMap) : Bytes := marshalObject (sortedEntries m)

/-- A value as a string; `null` leaves the string empty. -/
def Value.asString : Value → Option Bytes
  | .string s => some (encode s)
  | .null => some []
  | _ => none

/-- Store one member of an object. -/
def insertMember (m : StringMap) (e : List Char × Value) : Option StringMap :=
  e.2.asString.map (m.insert (encode e.1) ·)

/-- A value stored in a map that was empty; `null` makes it the nil map, which is `none`. -/
def Value.intoMap : Value → Option (Option StringMap)
  | .null => some none
  | .object ms => (ms.foldlM insertMember ∅).map some
  | _ => none

/-- The map at the front of a byte string. -/
def decodeMap (b : Bytes) : Option (Option StringMap) := (decode b).bind Value.intoMap

/-! ### Text in maps -/

/-- Every key and value is text. -/
def AllValid (m : StringMap) : Prop := ∀ k v, m.lookup k = some v → Valid k ∧ Valid v

theorem allValid_empty : AllValid ∅ := by
  intro k v h
  rw [Finmap.lookup_empty] at h
  exact absurd h (Option.some_ne_none v).symm

/-- A valid entry keeps the map valid. -/
theorem AllValid.insert {m : StringMap} (hm : AllValid m) {k v : Bytes} (hk : Valid k)
    (hv : Valid v) : AllValid (m.insert k v) := by
  intro k' v' h
  by_cases hkk : k' = k
  · subst hkk
    rw [Finmap.lookup_insert] at h
    obtain rfl := Option.some.inj h
    exact ⟨hk, hv⟩
  · rw [Finmap.lookup_insert_of_ne _ hkk] at h
    exact hm k' v' h

theorem AllValid.erase {m : StringMap} (hm : AllValid m) (k : Bytes) : AllValid (m.erase k) := by
  intro k' v' h
  by_cases hkk : k' = k
  · subst hkk
    rw [Finmap.lookup_erase] at h
    exact absurd h (Option.some_ne_none v').symm
  · rw [Finmap.lookup_erase_ne hkk] at h
    exact hm k' v' h

/-- A map of one valid entry is valid. -/
theorem allValid_singleton {k v : Bytes} (hk : Valid k) (hv : Valid v) :
    AllValid (Finmap.singleton k v) := by
  intro k' v' h
  have hmem : k' ∈ (Finmap.singleton k v : StringMap) := Finmap.mem_of_lookup_eq_some h
  obtain rfl := (Finmap.mem_singleton ..).mp hmem
  rw [Finmap.lookup_singleton_eq] at h
  obtain rfl := Option.some.inj h
  exact ⟨hk, hv⟩

/-- A string read from JSON is valid UTF-8. -/
theorem Value.asString_valid {v : Value} {s : Bytes} (h : v.asString = some s) : Valid s := by
  cases v with
  | string t => obtain rfl := Option.some.inj h; exact valid_encode t
  | null => obtain rfl := Option.some.inj h; exact valid_nil
  | _ => exact absurd h (Option.some_ne_none s).symm

/-- So is every string of a map read from it. -/
theorem foldlM_insertMember_valid {ms : List (List Char × Value)} {m m' : StringMap}
    (hm : AllValid m) (h : ms.foldlM insertMember m = some m') : AllValid m' := by
  induction ms generalizing m with
  | nil => obtain rfl := Option.some.inj h; exact hm
  | cons e ms ih =>
    rw [List.foldlM_cons] at h
    obtain ⟨m₁, hins, hrest⟩ := Option.bind_eq_some_iff.mp h
    obtain ⟨v, hv, rfl⟩ := Option.map_eq_some_iff.mp hins
    exact ih (hm.insert (valid_encode e.1) (Value.asString_valid hv)) hrest

/-- **A decoded map holds text.** -/
theorem decodeMap_valid {b : Bytes} {m : StringMap} (h : decodeMap b = some (some m)) :
    AllValid m := by
  obtain ⟨v, -, hv⟩ := Option.bind_eq_some_iff.mp h
  cases v with
  | object ms =>
    obtain ⟨m', hfold, hm'⟩ := Option.map_eq_some_iff.mp hv
    obtain rfl := Option.some.inj hm'
    exact foldlM_insertMember_valid allValid_empty hfold
  | null => exact absurd (Option.some.inj hv) (Option.some_ne_none m).symm
  | _ => exact absurd hv (Option.some_ne_none _).symm

/-! ### Reading a map back -/

/-- Store an entry as it is read back. -/
def insertRead (m : StringMap) (e : Bytes × Bytes) : StringMap :=
  m.insert (toValid e.1) (toValid e.2)

/-- The members that were written are read as strings, so reading them does not fail. -/
theorem foldlM_insertMember_readMember (es : List (Bytes × Bytes)) (m : StringMap) :
    (es.map readMember).foldlM insertMember m = some (es.foldl insertRead m) := by
  induction es generalizing m with
  | nil => rfl
  | cons e es ih =>
    rw [List.map_cons, List.foldlM_cons]
    exact ih (insertRead m e)

/-- The entries that were written are stored one after the other. -/
theorem decodeMap_marshalObject (es : List (Bytes × Bytes)) :
    decodeMap (marshalObject es) = some (some (es.foldl insertRead ∅)) := by
  rw [decodeMap, decode_marshalObject, Option.bind_some]
  show ((es.map readMember).foldlM insertMember ∅).map some = _
  rw [foldlM_insertMember_readMember]
  rfl

/-- Storing a value for each of some keys. -/
theorem lookup_foldl_insert (ks : List Bytes) (g : Bytes → Bytes) (m : StringMap) (k : Bytes) :
    (ks.foldl (fun m k => m.insert k (g k)) m).lookup k
      = if k ∈ ks then some (g k) else m.lookup k := by
  induction ks generalizing m with
  | nil => rw [if_neg List.not_mem_nil]; rfl
  | cons k₀ ks ih =>
    rw [List.foldl_cons, ih]
    by_cases hks : k ∈ ks
    · rw [if_pos hks, if_pos (List.mem_cons_of_mem k₀ hks)]
    · rw [if_neg hks]
      by_cases hk : k = k₀
      · subst hk
        rw [Finmap.lookup_insert, if_pos List.mem_cons_self]
      · rw [Finmap.lookup_insert_of_ne m hk, if_neg (fun h => (List.mem_cons.mp h).elim hk hks)]

/-- For valid keys only the values are changed by the round trip. -/
theorem foldl_insertRead_sortedEntries {m : StringMap} (hm : ∀ k ∈ m, Valid k) :
    (sortedEntries m).foldl insertRead ∅
      = (m.keys.sort BytesLE).foldl (fun m' k => m'.insert k (toValid ((m.lookup k).getD []))) ∅ := by
  rw [sortedEntries, List.foldl_map]
  refine List.foldl_ext _ _ _ fun m' k hk => ?_
  rw [insertRead, (hm k (Finmap.mem_keys.mp ((Finset.mem_sort _).mp hk))).toValid_eq]

/-- A map whose keys are text is read back with its values as text. -/
theorem decodeMap_marshalMap_lookup {m : StringMap} (hm : ∀ k ∈ m, Valid k) :
    ∃ m', decodeMap (marshalMap m) = some (some m') ∧
      ∀ k, m'.lookup k = (m.lookup k).map toValid := by
  rw [marshalMap, decodeMap_marshalObject, foldl_insertRead_sortedEntries hm]
  refine ⟨_, rfl, fun k => ?_⟩
  have hmem : k ∈ m.keys.sort BytesLE ↔ k ∈ m := (Finset.mem_sort _).trans Finmap.mem_keys
  rw [lookup_foldl_insert]
  by_cases hk : k ∈ m
  · obtain ⟨v, hv⟩ := Finmap.mem_iff.mp hk
    rw [if_pos (hmem.mpr hk), hv, Option.getD_some, Option.map_some]
  · rw [if_neg (fun h => hk (hmem.mp h)), Finmap.lookup_empty, Finmap.lookup_eq_none.mpr hk,
      Option.map_none]

/-- **A map of text is read back as it was.** -/
theorem decodeMap_marshalMap {m : StringMap} (hm : AllValid m) :
    decodeMap (marshalMap m) = some (some m) := by
  have hkeys : ∀ k ∈ m, Valid k := fun k hk => by
    obtain ⟨v, hv⟩ := Finmap.mem_iff.mp hk
    exact (hm k v hv).1
  obtain ⟨m', hdecode, hlookup⟩ := decodeMap_marshalMap_lookup hkeys
  have hsame : m' = m := Finmap.ext_lookup fun k => by
    rw [hlookup]
    cases hk : m.lookup k with
    | none => rfl
    | some v => rw [Option.map_some, (hm k v hk).2.toValid_eq]
  rw [hdecode, hsame]

end OSPortfolio.Json
