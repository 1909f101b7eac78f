import OSPortfolio.Chubby.Http
import OSPortfolio.Chubby.Membership
import OSPortfolio.Chubby.Snapshot

namespace OSPortfolio.Chubby.Httpd

open OSPortfolio.Utf8 OSPortfolio.Json OSPortfolio.Chubby.Fsm OSPortfolio.Chubby.Membership

/-!
# Key requests to a node

The service with the store of a node behind it: `Set` and `Delete` go through Raft, which may
refuse them, and `Get` reads the map.

* `nodeStore` — the methods of `Store` on a node;
* `setAll_node`, `post_outcome` — a `POST` of several keys stops at the first one that is
  refused, and the ones before it stay set;
* `getKey_keyPath`, `key_reachable` — a key that was posted is read and deleted under its path
  if it is neither empty nor contains a separator.
-/

/-! ### A node -/

/-- The map of a node that is not nil, and Raft on it. -/
structure Node where
  m : StringMap
  raft : RaftState

/-- Raft takes a write: the node is the leader, and the future has no error. -/
def Accepts (a : Answer) : Prop := a.leader = true ∧ a.error = none

instance (a : Answer) : Decidable (Accepts a) := inferInstanceAs (Decidable (_ ∧ _))

/-- The map behind an entry that was applied. -/
def applied (c : LogCall) (m : StringMap) : StringMap :=
  match Fsm.fsmApply c.entry (some m) with
  | .ok (some m') => m'
  -- by `apply_entry` there is no other case
  | _ => m

/-- `Store.Set` and `Store.Delete`. -/
def Node.write (c : LogCall) (n : Node) : Bool × Node :=
  let a := n.raft.answers 0
  if a.leader = true then
    match a.error with
    | some _ => (false, { n with raft := n.raft.skip 1 })
    | none => (true, { m := applied c n.m, raft := n.raft.skip 1 })
  else (false, { n with raft := n.raft.skip 1 })

/-- The store of a node. -/
def nodeStore (R : Ops) : StoreInterface Node where
  get key n := (some (Fsm.get key n.m), n)
  set key value n := n.write (.set key value)
  delete key n := n.write (.delete key)
  join nodeID addr n :=
    ((join R nodeID addr n.raft).1.isNone, { n with raft := (join R nodeID addr n.raft).2 })

/-- An entry that is applied has its effect. -/
theorem applied_eq (c : LogCall) (m : StringMap) : applied c m = c.effect m := by
  rw [applied, apply_entry]

/-- A write that Raft takes. -/
theorem write_of_accepts {n : Node} (h : Accepts (n.raft.answers 0)) (c : LogCall) :
    n.write c = (true, { m := c.effect n.m, raft := n.raft.skip 1 }) := by
  rw [Node.write]
  show (if (n.raft.answers 0).leader = true then _ else _) = _
  rw [if_pos h.1, h.2, applied_eq]

/-- A write that it refuses leaves the map alone. -/
theorem write_of_not {n : Node} (h : ¬ Accepts (n.raft.answers 0)) (c : LogCall) :
    n.write c = (false, { n with raft := n.raft.skip 1 }) := by
  rw [Node.write]
  show (if (n.raft.answers 0).leader = true then _ else _) = _
  by_cases hl : (n.raft.answers 0).leader = true
  · rw [if_pos hl]
    cases herr : (n.raft.answers 0).error with
    | none => exact absurd ⟨hl, herr⟩ h
    | some e => rfl
  · rw [if_neg hl]

/-! ### A map that is overridden -/

/-- `m'` is `old` with the keys `ks` as they are in `m`. -/
def Overridden (m old : StringMap) (ks : List Bytes) (m' : StringMap) : Prop :=
  ∀ k, m'.lookup k = if k ∈ ks then m.lookup k else old.lookup k

/-- Storing some entries of a map of text in another one. -/
theorem overridden_foldl {m : StringMap} (hm : AllValid m) (es : List (Bytes × Bytes))
    (hes : ∀ e ∈ es, m.lookup e.1 = some e.2) (old : StringMap) :
    Overridden m old (es.map Prod.fst) (es.foldl insertRead old) := by
  intro k
  induction es generalizing old with
  | nil => rw [List.map_nil, if_neg List.not_mem_nil, List.foldl_nil]
  | cons e es ih =>
    have he := hes e List.mem_cons_self
    obtain ⟨hk, hv⟩ := hm e.1 e.2 he
    rw [List.foldl_cons, ih fun e' he' => hes e' (List.mem_cons_of_mem e he'), List.map_cons]
    by_cases hks : k ∈ es.map Prod.fst
    · rw [if_pos hks, if_pos (List.mem_cons_of_mem _ hks)]
    · rw [if_neg hks, insertRead, hk.toValid_eq, hv.toValid_eq]
      by_cases hke : k = e.1
      · rw [hke, Finmap.lookup_insert, if_pos List.mem_cons_self, he]
      · rw [Finmap.lookup_insert_of_ne old hke,
          if_neg fun h => (List.mem_cons.mp h).elim hke hks]

/-- Nothing was stored. -/
theorem overridden_nil {m old m' : StringMap} (h : Overridden m old [] m') : m' = old :=
  Finmap.ext_lookup fun k => by rw [h k, if_neg List.not_mem_nil]

/-- With every key it is the union. -/
theorem overridden_all {m old m' : StringMap} {ks : List Bytes} (hks : ∀ k, k ∈ ks ↔ k ∈ m)
    (h : Overridden m old ks m') : m' = m ∪ old := by
  refine Finmap.ext_lookup fun k => ?_
  rw [h k]
  by_cases hk : k ∈ m
  · rw [if_pos ((hks k).mpr hk), Finmap.lookup_union_left hk]
  · rw [if_neg fun h => hk ((hks k).mp h), Finmap.lookup_union_right hk]

section

variable (ord : RangeOrder) (m : StringMap)

/-- `range` gives the entries of the map. -/
theorem RangeOrder.mem_entries {e : Bytes × Bytes} (he : e ∈ ord.entries m) :
    m.lookup e.1 = some e.2 := by
  rw [(ord.perm m).mem_iff, sortedEntries, List.mem_map] at he
  obtain ⟨k, hk, rfl⟩ := he
  obtain ⟨v, hv⟩ := Finmap.mem_iff.mp (Finmap.mem_keys.mp ((Finset.mem_sort _).mp hk))
  rw [hv, Option.getD_some]

/-- It gives each key of the map. -/
theorem RangeOrder.mem_keys (k : Bytes) : k ∈ (ord.entries m).map Prod.fst ↔ k ∈ m := by
  rw [((ord.perm m).map Prod.fst).mem_iff, sortedEntries, List.map_map]
  show k ∈ List.map id _ ↔ _
  rw [List.map_id, Finset.mem_sort, Finmap.mem_keys]

/-- It gives no key twice. -/
theorem RangeOrder.length_entries : (ord.entries m).length = m.keys.card := by
  rw [(ord.perm m).length_eq, sortedEntries, List.length_map, Finset.length_sort]

end

/-! ### `POST` -/

section

variable (R : Ops) (ord : RangeOrder)

/-- A call of `Set` that Raft takes. -/
theorem perform_set_of_accepts {x : Exchange Node} (h : Accepts (x.store.raft.answers 0))
    (k v : Bytes) :
    x.perform (.set k v) ((nodeStore R).set k v)
      = (true, { x with
          calls := x.calls ++ [.set k v]
          store := { m := insertRead x.store.m (k, v), raft := x.store.raft.skip 1 } }) := by
  rw [Exchange.perform]
  show ((x.store.write (.set k v)).1, _) = _
  rw [write_of_accepts h]
  show (true, { x with calls := _, store := (x.store.write (.set k v)).2 }) = _
  rw [write_of_accepts h]
  rfl

/-- A call of `Set` that it does not. -/
theorem perform_set_of_not {x : Exchange Node} (h : ¬ Accepts (x.store.raft.answers 0))
    (k v : Bytes) :
    x.perform (.set k v) ((nodeStore R).set k v)
      = (false, { x with
          calls := x.calls ++ [.set k v]
          store := { x.store with raft := x.store.raft.skip 1 } }) := by
  rw [Exchange.perform]
  show ((x.store.write (.set k v)).1, _) = _
  rw [write_of_not h]
  show (false, { x with calls := _, store := (x.store.write (.set k v)).2 }) = _
  rw [write_of_not h]

/-- How the `Set` calls for `es` end: all are taken, or the first `i` are and the next is not. -/
def SetAllOutcome (es : List (Bytes × Bytes)) (n : Node) (y : Exchange Node) : Prop :=
  (y.status = 200 ∧ (∀ i < es.length, Accepts (n.raft.answers i)) ∧
      y.store.m = es.foldl insertRead n.m) ∨
    (y.status = 500 ∧ ∃ i < es.length, (∀ j < i, Accepts (n.raft.answers j)) ∧
      ¬ Accepts (n.raft.answers i) ∧ y.store.m = (es.take i).foldl insertRead n.m)

/-- **The loop over the entries of a `POST`.** -/
theorem setAll_node (es : List (Bytes × Bytes)) (x : Exchange Node) (h : x.w.status = none) :
    SetAllOutcome es x.store (setAll (nodeStore R) es x) := by
  induction es generalizing x with
  | nil =>
    refine Or.inl ⟨?_, fun i hi => absurd hi (Nat.not_lt_zero i), rfl⟩
    rw [setAll, Exchange.status, h, Option.getD_none]
  | cons e es ih =>
    obtain ⟨k, v⟩ := e
    rw [setAll]
    by_cases h₀ : Accepts (x.store.raft.answers 0)
    · rw [perform_set_of_accepts R h₀]
      have hsucc : ∀ n, (∀ i < n, Accepts (x.store.raft.answers (i + 1))) →
          ∀ i < n + 1, Accepts (x.store.raft.answers i) := by
        intro n hn i hi
        cases i with
        | zero => exact h₀
        | succ i => exact hn i (Nat.lt_of_succ_lt_succ hi)
      rcases ih { x with
          calls := x.calls ++ [.set k v]
          store := { m := insertRead x.store.m (k, v), raft := x.store.raft.skip 1 } } h with
        ⟨hstatus, hall, hm⟩ | ⟨hstatus, i, hi, hall, hnot, hm⟩
      · exact Or.inl ⟨hstatus, hsucc _ hall, hm⟩
      · exact Or.inr ⟨hstatus, i + 1, Nat.succ_lt_succ hi, hsucc _ hall, hnot, hm⟩
    · rw [perform_set_of_not R h₀]
      refine Or.inr ⟨?_, 0, Nat.succ_pos _, fun j hj => absurd hj (Nat.not_lt_zero j), h₀, rfl⟩
      show (some (x.w.status.getD 500)).getD 200 = 500
      rw [h]
      rfl

/-- What a `POST` of a map does.  `o` is the decoded map, `es` its entries in the order of the
    loop: every key is set, or the keys before the first one that is refused. -/
def PostOutcome (body : Bytes) (n : Node) (y : Exchange Node) : Prop :=
  (decodeMap body = none ∧ y.status = 400 ∧ y.store.m = n.m) ∨
    ∃ o, decodeMap body = some o ∧
      let m := o.getD ∅
      let es := ord.entries m
      (y.status = 200 ∧ (∀ i < es.length, Accepts (n.raft.answers i)) ∧ y.store.m = m ∪ n.m) ∨
        (y.status = 500 ∧ ∃ i < es.length, (∀ j < i, Accepts (n.raft.answers j)) ∧
          ¬ Accepts (n.raft.answers i) ∧
          Overridden m n.m ((es.take i).map Prod.fst) y.store.m ∧
          (i = 0 ∨ m.keys.card ≤ 1 → y.store.m = n.m))

/-- A request that reaches `case "POST"`. -/
def postRequest (rest body : Bytes) : Request :=
  { method := "POST", path := keyPrefix ++ rest, body := body }

/-- A `POST` comes to its branch. -/
theorem serve_post {σ : Type} (S : StoreInterface σ) (rest body : Bytes) (s : σ) :
    serveHTTP S ord (postRequest rest body) s = handlePOST S ord body (.start s) := by
  have hpath : keyPrefix <+: (postRequest rest body).path := List.prefix_append _ _
  have hget : ¬ (postRequest rest body).method = "GET" := by
    show ¬ "POST" = "GET"
    decide
  have hpost : (postRequest rest body).method = "POST" := rfl
  rw [serveHTTP, if_pos hpath, handleKeyRequest, if_neg hget, if_pos hpost]
  rfl

/-- What is decoded from JSON is text. -/
theorem decoded_allValid {body : Bytes} {o : Option StringMap} (h : decodeMap body = some o) :
    AllValid (o.getD ∅) := by
  cases o with
  | none => exact allValid_empty
  | some m => exact decodeMap_valid h

/-- **A `POST` sets every key of its body, or the ones before the first that is refused.** -/
theorem post_outcome (rest body : Bytes) (n : Node) :
    PostOutcome ord body n (serveHTTP (nodeStore R) ord (postRequest rest body) n) := by
  rw [serve_post, handlePOST]
  cases hbody : decodeMap body with
  | none => exact Or.inl ⟨hbody, rfl, rfl⟩
  | some o =>
    refine Or.inr ⟨o, hbody, ?_⟩
    have hm := decoded_allValid hbody
    have hes : ∀ e ∈ ord.entries (o.getD ∅), (o.getD ∅).lookup e.1 = some e.2 :=
      fun e he => ord.mem_entries _ he
    rcases setAll_node R (ord.entries (o.getD ∅)) (.start n) rfl with
      ⟨hstatus, hall, hcontent⟩ | ⟨hstatus, i, hi, hall, hnot, hcontent⟩
    · refine Or.inl ⟨hstatus, hall, overridden_all (ord.mem_keys _) ?_⟩
      rw [hcontent]
      exact overridden_foldl hm _ hes n.m
    · have hover : Overridden (o.getD ∅) n.m (((ord.entries (o.getD ∅)).take i).map Prod.fst)
          (setAll (nodeStore R) (ord.entries (o.getD ∅)) (.start n)).store.m := by
        rw [hcontent]
        exact overridden_foldl hm _ (fun e he => hes e (List.mem_of_mem_take he)) n.m
      refine Or.inr ⟨hstatus, i, hi, hall, hnot, hover, fun hsmall => ?_⟩
      -- the first call is refused, or there is only one
      have hzero : i = 0 := by
        rcases hsmall with h | h
        · exact h
        · rw [ord.length_entries] at hi
          omega
      rw [hzero] at hover
      exact overridden_nil hover

/-- Two keys. -/
def twoKeys : StringMap := (Finmap.singleton (encode ['a']) (encode ['1'])).insert
  (encode ['b']) (encode ['2'])

/-- A node that is the leader for one write and then no more. -/
def losesLeadership : Node :=
  { m := ∅, raft := { servers := [], answers := fun i => { leader := i = 0 } } }

/-- The leadership is lost between the two writes of a `POST`: whatever their order, the answer
    is an error, and the map is not the one before. -/
theorem post_twoKeys :
    (serveHTTP (nodeStore R) ord (postRequest [] (marshalMap twoKeys)) losesLeadership).status
        = 500 ∧
      (serveHTTP (nodeStore R) ord (postRequest [] (marshalMap twoKeys)) losesLeadership).store.m
        ≠ losesLeadership.m := by
  have hvalid : AllValid twoKeys := (allValid_singleton (valid_encode ['a'])
    (valid_encode ['1'])).insert (valid_encode ['b']) (valid_encode ['2'])
  have hlen : (ord.entries twoKeys).length = 2 := by
    rw [ord.length_entries]
    decide
  rw [serve_post, handlePOST, decodeMap_marshalMap hvalid]
  show (setAll (nodeStore R) (ord.entries twoKeys) (.start losesLeadership)).status = 500 ∧
    (setAll (nodeStore R) (ord.entries twoKeys) (.start losesLeadership)).store.m ≠ ∅
  have hfirst : Accepts (losesLeadership.raft.answers 0) := by decide
  have hsecond : ¬ Accepts (losesLeadership.raft.answers 1) := by decide
  rcases setAll_node R (ord.entries twoKeys) (.start losesLeadership) rfl with
    ⟨-, hall, -⟩ | ⟨hstatus, i, hi, hall, hnot, hm⟩
  · exact absurd (hall 1 (by omega)) hsecond
  · refine ⟨hstatus, ?_⟩
    -- the first write is taken, so it is the second one that is refused
    have hone : i = 1 := by
      have hpos : i ≠ 0 := fun hzero => hnot (hzero ▸ hfirst)
      have hle : ¬ 1 < i := fun hlt => hsecond (hall 1 hlt)
      omega
    cases hes : ord.entries twoKeys with
    | nil => rw [hes] at hlen; exact absurd hlen (by decide)
    | cons e es =>
      rw [hes] at hm
      rw [hm, hone]
      show insertRead ∅ e ≠ ∅
      intro hempty
      have hlookup : (insertRead ∅ e).lookup (toValid e.1) = some (toValid e.2) :=
        Finmap.lookup_insert _
      rw [hempty, Finmap.lookup_empty] at hlookup
      exact absurd hlookup (Option.some_ne_none _).symm

end

/-- The same with the keys in order. -/
theorem post_half_done :
    (serveHTTP (nodeStore raftOps) sortedRange (postRequest [] (marshalMap twoKeys))
        losesLeadership).status = 500 ∧
      (serveHTTP (nodeStore raftOps) sortedRange (postRequest [] (marshalMap twoKeys))
        losesLeadership).store.m ≠ losesLeadership.m :=
  post_twoKeys raftOps sortedRange

/-! ### Keys in paths -/

/-- The path of a key. -/
def keyPath (key : Bytes) : Bytes := keyPrefix ++ slash :: key

/-- The key of a path is found if it holds no separator. -/
theorem getKey_keyPath {key : Bytes} (h : slash ∉ key) : getKey (keyPath key) = key := by
  have hsplit : (keyPath key).splitOn slash = [[], (encode ['k', 'e', 'y']), key] := by
    show ([] ++ slash :: (encode ['k', 'e', 'y'] ++ slash :: key)).splitOn slash = _
    rw [List.splitOn_append_cons_self_of_not_mem (by simp),
      List.splitOn_append_cons_self_of_not_mem (by decide), List.splitOn_eq_singleton h]
  rw [getKey, hsplit]

/-- `GET` and `DELETE` of a key. -/
def getRequest (key : Bytes) : Request := { method := "GET", path := keyPath key }

def deleteRequest (key : Bytes) : Request := { method := "DELETE", path := keyPath key }

section

variable (R : Ops) (ord : RangeOrder)

/-- A `GET` of a key comes to its branch. -/
theorem serve_get {σ : Type} (S : StoreInterface σ) (key : Bytes) (s : σ) :
    serveHTTP S ord (getRequest key) s = handleGET S (getKey (keyPath key)) (.start s) := by
  have hpath : keyPrefix <+: (getRequest key).path := List.prefix_append _ _
  have hget : (getRequest key).method = "GET" := rfl
  rw [serveHTTP, if_pos hpath, handleKeyRequest, if_pos hget]
  rfl

/-- So does a `DELETE`. -/
theorem serve_delete {σ : Type} (S : StoreInterface σ) (key : Bytes) (s : σ) :
    serveHTTP S ord (deleteRequest key) s
      = handleDELETE S (getKey (keyPath key)) (.start s) := by
  have hpath : keyPrefix <+: (deleteRequest key).path := List.prefix_append _ _
  have hget : ¬ (deleteRequest key).method = "GET" := by
    show ¬ "DELETE" = "GET"
    decide
  have hpost : ¬ (deleteRequest key).method = "POST" := by
    show ¬ "DELETE" = "POST"
    decide
  have hdelete : (deleteRequest key).method = "DELETE" := rfl
  rw [serveHTTP, if_pos hpath, handleKeyRequest, if_neg hget, if_neg hpost, if_pos hdelete]
  rfl

/-- The answer is the object of one key and its value. -/
def Answers {σ : Type} (y : Exchange σ) (key value : Bytes) : Prop :=
  y.status = 200 ∧ y.w.body = marshalMap (Finmap.singleton key value) ∧
    decodeMap y.w.body = some (some (Finmap.singleton key value))

/-- Reading a key of text. -/
theorem get_node {key value : Bytes} (hk : Valid key) (hv : Valid value) (hne : key ≠ [])
    {n : Node} (h : Fsm.get key n.m = value) :
    Answers (handleGET (nodeStore R) key (.start n)) key value ∧
      (handleGET (nodeStore R) key (.start n)).store = n := by
  have hrun : handleGET (nodeStore R) key (.start n)
      = ⟨⟨some 200, marshalMap (Finmap.singleton key value)⟩, [.get key], n⟩ := by
    rw [handleGET, if_neg hne, Exchange.perform]
    show Exchange.writeString _ (marshalMap (Finmap.singleton key (Fsm.get key n.m))) = _
    rw [h]
    rfl
  rw [hrun]
  exact ⟨⟨rfl, rfl, decodeMap_marshalMap (allValid_singleton hk hv)⟩, rfl⟩

/-- Deleting a key that is gone changes nothing, whether Raft takes it or not. -/
theorem delete_again {key : Bytes} (hk : Valid key) {n : Node} (h : n.m.lookup key = none) :
    (n.write (.delete key)).2.m = n.m := by
  by_cases ha : Accepts (n.raft.answers 0)
  · rw [write_of_accepts ha]
    show n.m.erase (Utf8.toValid key) = n.m
    rw [hk.toValid_eq, erase_eq_self h]
  · rw [write_of_not ha]

/-- Deleting a key of text: how the second `Delete` ends makes no difference. -/
theorem delete_node {key : Bytes} (hk : Valid key) (hne : key ≠ []) (n : Node) :
    let y := handleDELETE (nodeStore R) key (.start n)
    (Accepts (n.raft.answers 0) → y.status = 200 ∧ y.store.m = n.m.erase key) ∧
      (¬ Accepts (n.raft.answers 0) → y.status = 500 ∧ y.store.m = n.m) := by
  have hperform : (Exchange.start n).perform (.delete key) ((nodeStore R).delete key)
      = ((n.write (.delete key)).1,
        { (Exchange.start n) with
          calls := [.delete key], store := (n.write (.delete key)).2 }) := rfl
  rw [handleDELETE, if_neg hne, hperform]
  constructor
  · intro ha
    rw [write_of_accepts ha]
    refine ⟨rfl, ?_⟩
    show (Node.write (.delete key) { m := n.m.erase (Utf8.toValid key), raft := _ }).2.m = _
    rw [hk.toValid_eq]
    exact delete_again hk (Finmap.lookup_erase key n.m)
  · intro ha
    rw [write_of_not ha]
    exact ⟨rfl, rfl⟩

/-- `range` over a map with one entry. -/
theorem entries_singleton (key value : Bytes) :
    ord.entries (Finmap.singleton key value) = [(key, value)] := by
  have hsorted : sortedEntries (Finmap.singleton key value) = [(key, value)] := by
    rw [sortedEntries, Finmap.keys_singleton, Finset.sort_singleton, List.map_singleton,
      Finmap.lookup_singleton_eq, Option.getD_some]
  have hperm := ord.perm (Finmap.singleton key value)
  rw [hsorted] at hperm
  exact List.perm_singleton.mp hperm

/-- A `POST` of one key that is answered with 200 stored it. -/
theorem post_node {key value body : Bytes} (hk : Valid key) (hv : Valid value)
    (hbody : decodeMap body = some (some (Finmap.singleton key value))) {n : Node}
    (h : (handlePOST (nodeStore R) ord body (.start n)).status = 200) :
    (handlePOST (nodeStore R) ord body (.start n)).store.m = n.m.insert key value := by
  have hrun : handlePOST (nodeStore R) ord body (.start n)
      = setAll (nodeStore R) [(key, value)] (.start n) := by
    rw [handlePOST, hbody]
    show setAll _ (ord.entries (Finmap.singleton key value)) _ = _
    rw [entries_singleton]
  rw [hrun] at h ⊢
  rcases setAll_node R [(key, value)] (.start n) rfl with ⟨-, -, hm⟩ | ⟨hstatus, -⟩
  · rw [hm]
    show n.m.insert (Utf8.toValid key) (Utf8.toValid value) = _
    rw [hk.toValid_eq, hv.toValid_eq]
  · rw [h] at hstatus
    exact absurd hstatus (by decide)

/-- **A key that was posted is reachable under its path**, if it is not empty and holds no
    separator: `GET` answers it, `DELETE` removes it if Raft takes the first `Delete`, and is an
    error otherwise, and every other key keeps its value. -/
theorem key_reachable (rest : Bytes) {key value body : Bytes} (hk : Valid key)
    (hv : Valid value) (hne : key ≠ []) (hslash : slash ∉ key)
    (hbody : decodeMap body = some (some (Finmap.singleton key value))) (n : Node)
    (hpost : (serveHTTP (nodeStore R) ord (postRequest rest body) n).status = 200) :
    let p := (serveHTTP (nodeStore R) ord (postRequest rest body) n).store
    let g := serveHTTP (nodeStore R) ord (getRequest key) p
    let d := serveHTTP (nodeStore R) ord (deleteRequest key) p
    OnlyAt key n.m p.m ∧ Answers g key value ∧ g.store = p ∧
      (Accepts (p.raft.answers 0) → d.status = 200 ∧ OnlyAt key n.m d.store.m ∧
        Answers (serveHTTP (nodeStore R) ord (getRequest key) d.store) key []) ∧
      (¬ Accepts (p.raft.answers 0) → d.status = 500 ∧ d.store.m = p.m) := by
  intro p g d
  have hp : p.m = n.m.insert key value := by
    show (serveHTTP (nodeStore R) ord (postRequest rest body) n).store.m = _
    rw [serve_post] at hpost ⊢
    exact post_node R ord hk hv hbody hpost
  have hg : g = handleGET (nodeStore R) key (.start p) := by
    show serveHTTP _ _ _ _ = _
    rw [serve_get, getKey_keyPath hslash]
  have hd : d = handleDELETE (nodeStore R) key (.start p) := by
    show serveHTTP _ _ _ _ = _
    rw [serve_delete, getKey_keyPath hslash]
  have hread : Fsm.get key p.m = value := by
    rw [hp, Fsm.get, Finmap.lookup_insert, Option.getD_some]
  obtain ⟨hanswer, hstore⟩ := get_node R hk hv hne hread
  obtain ⟨htaken, hrefused⟩ := delete_node R hk hne p
  rw [← hg] at hanswer hstore
  rw [← hd] at htaken hrefused
  refine ⟨hp ▸ onlyAt_insert key value n.m, hanswer, hstore, fun ha => ?_, hrefused⟩
  obtain ⟨hstatus, hm⟩ := htaken ha
  have hgone : Fsm.get key d.store.m = [] := by
    rw [hm, Fsm.get, Finmap.lookup_erase, Option.getD_none]
  refine ⟨hstatus, fun k hkey => ?_, ?_⟩
  · rw [hm, Finmap.lookup_erase_ne hkey, hp, Finmap.lookup_insert_of_ne n.m hkey]
  · rw [serve_get, getKey_keyPath hslash]
    exact (get_node R hk valid_nil hne hgone).1

/-- A leader with an empty map. -/
def newLeader : Node := { m := ∅, raft := { servers := [], answers := fun _ => {} } }

/-- A leader takes every `POST` of one key. -/
theorem post_newLeader {key value : Bytes} (hk : Valid key) (hv : Valid value) :
    (serveHTTP (nodeStore R) ord
      (postRequest [] (marshalMap (Finmap.singleton key value))) newLeader).status = 200 := by
  rw [serve_post, handlePOST, decodeMap_marshalMap (allValid_singleton hk hv)]
  rcases setAll_node R (ord.entries (Finmap.singleton key value)) (.start newLeader) rfl with
    ⟨hstatus, -⟩ | ⟨-, i, -, -, hnot, -⟩
  · exact hstatus
  · exact absurd ⟨rfl, rfl⟩ hnot

end

/-- A key of one letter is read after it was posted. -/
theorem key_reachable_newLeader :
    Answers (serveHTTP (nodeStore raftOps) sortedRange (getRequest (encode ['k']))
      (serveHTTP (nodeStore raftOps) sortedRange (postRequest []
        (marshalMap (Finmap.singleton (encode ['k']) (encode ['v'])))) newLeader).store)
      (encode ['k']) (encode ['v']) :=
  (key_reachable raftOps sortedRange [] (valid_encode ['k']) (valid_encode ['v']) (by decide)
    (by decide) (decodeMap_marshalMap (allValid_singleton (valid_encode _) (valid_encode _)))
    newLeader (post_newLeader _ _ (valid_encode _) (valid_encode _))).2.1

/-- A key with a separator is stored by a `POST` that is answered with 200, and neither `GET`
    nor `DELETE` finds it under its path. -/
theorem key_with_separator_unreachable :
    let key := encode ['a', '/', 'b']
    let body := marshalMap (Finmap.singleton key (encode ['v']))
    let p := serveHTTP (nodeStore raftOps) sortedRange (postRequest [] body) newLeader
    p.status = 200 ∧ p.store.m.lookup key = some (encode ['v']) ∧
      (serveHTTP (nodeStore raftOps) sortedRange (getRequest key) p.store).status = 400 ∧
      (serveHTTP (nodeStore raftOps) sortedRange (deleteRequest key) p.store).status = 400 := by
  intro key body p
  have hstatus : p.status = 200 := post_newLeader _ _ (valid_encode _) (valid_encode _)
  have hkey : getKey (keyPath key) = [] := by decide
  refine ⟨hstatus, ?_, ?_, ?_⟩
  · have hbody : decodeMap body = some (some (Finmap.singleton key (encode ['v']))) :=
      decodeMap_marshalMap (allValid_singleton (valid_encode _) (valid_encode _))
    have hp : p = handlePOST (nodeStore raftOps) sortedRange body (.start newLeader) :=
      serve_post _ _ _ _ _
    rw [hp] at hstatus ⊢
    rw [post_node raftOps sortedRange (valid_encode _) (valid_encode _) hbody hstatus]
    exact Finmap.lookup_insert _
  · rw [serve_get, hkey]
    exact (get_without_key _ _).1
  · rw [serve_delete, hkey]
    rfl

end OSPortfolio.Chubby.Httpd
