import OSPortfolio.Chubby.KeyRequests

namespace OSPortfolio.Chubby.Httpd

open OSPortfolio.Utf8 OSPortfolio.Json

/-!
# Which paths are served

`ServeHTTP` hands every path that starts with the letters `/key` to `handleKeyRequest`, and
`getKey` takes the third part of a path whatever the second one is.  The documented paths are
`/join`, `/key` and those below `/key/`.

* `KeyTarget` — the documented paths of key requests;
* `Routed` — what each path should be served with;
* `handleKeyRequest_calls`, `handleJoin_calls` — the store calls that the handlers make;
* `handleKeyRequest_status` — the handler of keys never answers 404;
* `routed_iff` — **a request is served as documented unless its path continues the letters
  `/key` with something else than a separator**.
-/

universe u

variable {σ : Type u}

/-- The path is `/key`, or below `/key/`. -/
def KeyTarget (path : Bytes) : Prop := path = keyPrefix ∨ keyPrefix ++ [slash] <+: path

/-- A request is served as documented: a key is read or deleted under its own path only, `Join`
    is called under `/join` only and `Set` under the paths of keys only, and under any other path
    the answer is 404 and the store is not touched. -/
structure Routed (r : Request) (s : σ) (x : Exchange σ) : Prop where
  key : ∀ k, k ≠ [] → .get k ∈ x.calls ∨ .delete k ∈ x.calls → r.path = keyPath k ∧ slash ∉ k
  join : ∀ nodeID addr, .join nodeID addr ∈ x.calls → r.path = joinPath
  set : ∀ k v, .set k v ∈ x.calls → KeyTarget r.path
  notFound : ¬ KeyTarget r.path → r.path ≠ joinPath →
    x.status = 404 ∧ x.w.body = [] ∧ x.calls = [] ∧ x.store = s

/-! ### The key of a path -/

/-- A key that is found in a path for keys is all that follows `/key/`. -/
theorem keyPath_getKey {path : Bytes} (h : KeyTarget path) (hne : getKey path ≠ []) :
    path = keyPath (getKey path) ∧ slash ∉ getKey path := by
  rcases h with rfl | ⟨rest, rfl⟩
  · exact absurd (by decide) hne
  · have hpath : keyPrefix ++ [slash] ++ rest = keyPath rest := by
      rw [keyPath, List.append_assoc, List.singleton_append]
    rw [hpath] at hne ⊢
    by_cases hrest : slash ∈ rest
    · -- there are four parts at least
      refine absurd ?_ hne
      obtain ⟨a, b, rfl, ha⟩ := List.eq_append_cons_of_mem hrest
      have hsplit : (keyPath (a ++ slash :: b)).splitOn slash =
          [] :: encode ['k', 'e', 'y'] :: a :: b.splitOn slash := by
        show ([] ++ slash :: (encode ['k', 'e', 'y'] ++ slash :: (a ++ slash :: b))).splitOn slash = _
        rw [List.splitOn_append_cons_self_of_not_mem (by simp),
          List.splitOn_append_cons_self_of_not_mem (by decide),
          List.splitOn_append_cons_self_of_not_mem ha]
      obtain ⟨c, cs, hcons⟩ := List.exists_cons_of_ne_nil (List.splitOn_ne_nil slash b)
      rw [getKey, hsplit, hcons]
    · rw [getKey_keyPath hrest]
      exact ⟨rfl, hrest⟩

/-! ### The store calls of the handlers -/

section

variable (S : StoreInterface σ) (ord : RangeOrder)

theorem setAll_calls (es : List (Bytes × Bytes)) (x : Exchange σ) :
    ∀ c ∈ (setAll S es x).calls, c ∈ x.calls ∨ ∃ k v, c = .set k v := by
  induction es generalizing x with
  | nil => exact fun c hc => Or.inl hc
  | cons e es ih =>
    obtain ⟨k, v⟩ := e
    intro c hc
    have hmem : c ∈ x.calls ++ [.set k v] ∨ ∃ k v, c = .set k v := by
      rw [setAll] at hc
      split at hc
      · rename_i y hy
        obtain ⟨-, rfl⟩ := Prod.mk.inj hy
        exact ih _ c hc
      · rename_i y hy
        obtain ⟨-, rfl⟩ := Prod.mk.inj hy
        exact Or.inl hc
    rcases hmem with hmem | hset
    · rcases List.mem_append.mp hmem with hmem | hlast
      · exact Or.inl hmem
      · exact Or.inr ⟨k, v, List.mem_singleton.mp hlast⟩
    · exact Or.inr hset

theorem handleGET_calls (k : Bytes) (s : σ) : (handleGET S k (.start s)).calls = [.get k] := by
  rw [handleGET]
  by_cases hk : k = []
  · rw [if_pos hk, Exchange.perform]
    rcases S.get k ((Exchange.start s).writeHeader 400).store with ⟨_ | v, s'⟩ <;> rfl
  · rw [if_neg hk, Exchange.perform]
    rcases S.get k (Exchange.start s).store with ⟨_ | v, s'⟩ <;> rfl

theorem handleDELETE_calls (k : Bytes) (s : σ) :
    ∀ c ∈ (handleDELETE S k (.start s)).calls, c = .delete k := by
  rw [handleDELETE]
  split
  · exact fun c hc => absurd hc List.not_mem_nil
  · rw [Exchange.perform]
    rcases S.delete k (Exchange.start s).store with ⟨_ | _, s'⟩
    · exact fun c hc => List.mem_singleton.mp hc
    · intro c hc
      have hmem : c ∈ [StoreCall.delete k, .delete k] := hc
      simpa using hmem

/-- **The calls of a key request**: reads and deletions of the key of its path, and `Set`. -/
theorem handleKeyRequest_calls (r : Request) (s : σ) :
    ∀ c ∈ (handleKeyRequest S ord r (.start s)).calls,
      c = .get (getKey r.path) ∨ c = .delete (getKey r.path) ∨ ∃ k v, c = .set k v := by
  intro c hc
  rw [handleKeyRequest] at hc
  split at hc
  · rw [handleGET_calls] at hc
    exact Or.inl (List.mem_singleton.mp hc)
  · split at hc
    · rw [handlePOST] at hc
      split at hc
      · exact absurd hc List.not_mem_nil
      · rcases setAll_calls S _ _ c hc with hstart | hset
        · exact absurd hstart List.not_mem_nil
        · exact Or.inr (Or.inr hset)
    · split at hc
      · exact Or.inr (Or.inl (handleDELETE_calls S _ s c hc))
      · exact absurd hc List.not_mem_nil

/-- The calls of a join request. -/
theorem handleJoin_calls (r : Request) (s : σ) :
    ∀ c ∈ (handleJoin S r (.start s)).calls, ∃ nodeID addr, c = .join nodeID addr := by
  intro c hc
  rw [handleJoin] at hc
  split at hc
  · exact absurd hc List.not_mem_nil
  · rw [handleJoinMap] at hc
    -- the three checks of the map, and the call
    split at hc
    · exact absurd hc List.not_mem_nil
    split at hc
    · exact absurd hc List.not_mem_nil
    rename_i remoteAddr _
    split at hc
    · exact absurd hc List.not_mem_nil
    rename_i nodeID _
    refine ⟨nodeID, remoteAddr, ?_⟩
    rw [Exchange.perform] at hc
    rcases hjoin : S.join nodeID remoteAddr (Exchange.start s).store with ⟨_ | _, s'⟩
    · rw [hjoin] at hc
      exact List.mem_singleton.mp hc
    · rw [hjoin] at hc
      exact List.mem_singleton.mp hc

/-- The handler of key requests never answers 404. -/
theorem handleKeyRequest_status (r : Request) (s : σ) :
    (handleKeyRequest S ord r (.start s)).status ≠ 404 := by
  have hserved : ∀ x : Exchange σ, Served x → x.status ≠ 404 := by
    rintro x (h | h) <;> rw [h] <;> decide
  have hbad : ∀ status, status ≠ 404 → ((Exchange.start s).writeHeader status).status ≠ 404 :=
    fun status h => h
  rw [handleKeyRequest]
  split
  · by_cases hk : getKey r.path = []
    · rw [hk, (get_without_key S s).1]
      decide
    · exact hserved _ (get_served S s hk)
  · split
    · rw [handlePOST]
      split
      · exact hbad 400 (by decide)
      · exact hserved _ (setAll_served S _ _ rfl)
    · split
      · rw [handleDELETE]
        split
        · exact hbad 400 (by decide)
        · rw [Exchange.perform]
          rcases S.delete (getKey r.path) (Exchange.start s).store with ⟨_ | _, s'⟩
          · exact hserved _ (Or.inr rfl)
          · exact hserved _ (Or.inl rfl)
      · exact hbad 405 (by decide)

/-! ### The routes -/

/-- A key request is served as documented, if the path is one for keys. -/
theorem Routed.keyRequest {r : Request} (h : KeyTarget r.path) (s : σ) :
    Routed r s (handleKeyRequest S ord r (.start s)) := by
  have hcalls := handleKeyRequest_calls S ord r s
  refine ⟨fun k hk hmem => ?_, fun nodeID addr hmem => ?_, fun _ _ _ => h, fun hnot => absurd h hnot⟩
  · -- the key is the one of the path
    have hkey : k = getKey r.path := by
      rcases hmem with hmem | hmem
      · simpa using hcalls _ hmem
      · simpa using hcalls _ hmem
    rw [hkey] at hk ⊢
    exact keyPath_getKey h hk
  · simpa using hcalls _ hmem

/-- So is a join request. -/
theorem Routed.joinRequest {r : Request} (h : r.path = joinPath) (s : σ) :
    Routed r s (handleJoin S r (.start s)) := by
  have hcalls := handleJoin_calls S r s
  refine ⟨fun k _ hmem => ?_, fun _ _ _ => h, fun k v hmem => ?_, fun _ hne => absurd h hne⟩
  · rcases hmem with hmem | hmem
    · simpa using hcalls _ hmem
    · simpa using hcalls _ hmem
  · simpa using hcalls _ hmem

/-- And so is the answer 404. -/
theorem Routed.notFoundAnswer (r : Request) (s : σ) :
    Routed r s ((Exchange.start s).writeHeader 404) :=
  ⟨fun _ _ hmem => hmem.elim (absurd · List.not_mem_nil) (absurd · List.not_mem_nil),
    fun _ _ hmem => absurd hmem List.not_mem_nil, fun _ _ hmem => absurd hmem List.not_mem_nil,
    fun _ _ => ⟨rfl, rfl, rfl, rfl⟩⟩

/-- **Which requests are served as documented.**  For every method, body and store, those whose
    path does not start with `/key`, or is `/key`, or is below `/key/`. -/
theorem routed_iff (r : Request) (s : σ) :
    Routed r s (serveHTTP S ord r s) ↔ (keyPrefix <+: r.path → KeyTarget r.path) := by
  constructor
  · intro h hprefix
    by_contra hnot
    have hjoin : r.path ≠ joinPath := by
      intro heq
      rw [heq] at hprefix
      exact absurd hprefix (by decide)
    have hstatus := (h.notFound hnot hjoin).1
    rw [serveHTTP, if_pos hprefix] at hstatus
    exact handleKeyRequest_status S ord r s hstatus
  · intro h
    rw [serveHTTP]
    by_cases hprefix : keyPrefix <+: r.path
    · rw [if_pos hprefix]
      exact .keyRequest S ord (h hprefix) s
    · rw [if_neg hprefix]
      by_cases hpath : r.path = joinPath
      · rw [if_pos hpath]
        exact .joinRequest S hpath s
      · rw [if_neg hpath]
        exact .notFoundAnswer r s

end

/-- `GET /keyring/a`. -/
def keyringRequest : Request :=
  { method := "GET", path := encode ['/', 'k', 'e', 'y', 'r', 'i', 'n', 'g', '/', 'a'] }

/-- The key `a` is read, and its value is sent. -/
theorem keyring_reads_key (m : StringMap) :
    (serveHTTP testStore sortedRange keyringRequest m).calls = [.get (encode ['a'])] ∧
      (serveHTTP testStore sortedRange keyringRequest m).status = 200 := by
  have hserve : serveHTTP testStore sortedRange keyringRequest m =
      handleGET testStore (encode ['a']) (.start m) := by
    rw [serveHTTP, if_pos (by decide), handleKeyRequest,
      if_pos (show keyringRequest.method = "GET" from rfl)]
    congr 1
  rw [hserve]
  exact ⟨handleGET_calls _ _ _, rfl⟩

/-- So it is not served as documented, on the empty store either. -/
theorem keyring_not_routed :
    ¬ Routed keyringRequest ∅ (serveHTTP testStore sortedRange keyringRequest ∅) := by
  intro h
  have hmem : .get (encode ['a']) ∈ (serveHTTP testStore sortedRange keyringRequest ∅).calls := by
    rw [(keyring_reads_key ∅).1]
    exact List.mem_singleton_self _
  have hpath := (h.key (encode ['a']) (by decide) (Or.inl hmem)).1
  exact absurd hpath (by decide)

end OSPortfolio.Chubby.Httpd
