import OSPortfolio.Lib.StringMap

namespace OSPortfolio.Chubby.Httpd

open OSPortfolio.Utf8 OSPortfolio.Json

/-!
# The HTTP service

`ServeHTTP` and its handlers, over any implementation of the `Store` interface.  An exchange
records the store calls a handler makes beside what it writes to the client.

* `StoreInterface` — the interface; what its methods return, and the store behind them;
* `serveHTTP`, `handleJoin`, `handleKeyRequest` — the code;
* `get_without_key`, `get_served`, `post_clean_or_served`, … — what each branch answers;
* `rejection_clean_iff` — a rejected request made no store call and shows no content, unless it
  is a `GET` without a key, whose branch writes the status and goes on.
-/

universe u

variable {σ : Type u}

/-! ### The interface -/

/-- `interface Store`.  An error of `Get` is none, and one of the others false. -/
structure StoreInterface (σ : Type u) where
  get : Bytes → σ → Option Bytes × σ
  set : Bytes → Bytes → σ → Bool × σ
  delete : Bytes → σ → Bool × σ
  join : Bytes → Bytes → σ → Bool × σ

/-- A call of the interface. -/
inductive StoreCall
  | get (key : Bytes)
  | set (key value : Bytes)
  | delete (key : Bytes)
  | join (nodeID addr : Bytes)
  deriving DecidableEq

/-- The parts of `http.Request` the service reads. -/
structure Request where
  method : String
  path : Bytes
  body : Bytes := []

/-- `http.ResponseWriter`. -/
structure ResponseWriter where
  status : Option Nat := none
  body : Bytes := []

/-- What the client is sent, the store calls that were made, and the store. -/
structure Exchange (σ : Type u) where
  w : ResponseWriter := {}
  calls : List StoreCall := []
  store : σ

/-- Before anything was sent. -/
def Exchange.start (s : σ) : Exchange σ := { store := s }

/-- `w.WriteHeader(status)`; only the first one counts. -/
def Exchange.writeHeader (x : Exchange σ) (status : Nat) : Exchange σ :=
  { x with w := { x.w with status := some (x.w.status.getD status) } }

/-- `io.WriteString(w, b)`, which sends the status 200 if none was sent. -/
def Exchange.writeString (x : Exchange σ) (b : Bytes) : Exchange σ :=
  { x with w := { status := some (x.w.status.getD 200), body := x.w.body ++ b } }

/-- The status of the response. -/
def Exchange.status (x : Exchange σ) : Nat := x.w.status.getD 200

/-- Make a call and record it. -/
def Exchange.perform {β : Type} (x : Exchange σ) (c : StoreCall) (f : σ → β × σ) :
    β × Exchange σ :=
  ((f x.store).1, { x with calls := x.calls ++ [c], store := (f x.store).2 })

/-! ### The handlers -/

/-- The orders in which `range` may go through the entries of a map. -/
structure RangeOrder where
  entries : StringMap → List (Bytes × Bytes)
  perm : ∀ m, (entries m).Perm (sortedEntries m)

def addrName : Bytes := encode ['a', 'd', 'd', 'r']

def idName : Bytes := encode ['i', 'd']

/-- `handleJoin` behind the decoding of the body. -/
def handleJoinMap (S : StoreInterface σ) (m : StringMap) (x : Exchange σ) : Exchange σ :=
  if m.keys.card ≠ 2 then x.writeHeader 400
  else
    match m.lookup addrName with
    | none => x.writeHeader 400
    | some remoteAddr =>
      match m.lookup idName with
      | none => x.writeHeader 400
      | some nodeID =>
        match x.perform (.join nodeID remoteAddr) (S.join nodeID remoteAddr) with
        | (true, x) => x
        | (false, x) => x.writeHeader 500

/-- `handleJoin`. -/
def handleJoin (S : StoreInterface σ) (r : Request) (x : Exchange σ) : Exchange σ :=
  match decodeMap r.body with
  | none => x.writeHeader 400
  | some m => handleJoinMap S (m.getD ∅) x

/-- With the two entries it asks for, `handleJoin` makes the call. -/
theorem handleJoinMap_of_lookup (S : StoreInterface σ) {m : StringMap} {addr nodeID : Bytes}
    (hcard : m.keys.card = 2) (haddr : m.lookup addrName = some addr)
    (hid : m.lookup idName = some nodeID) (x : Exchange σ) :
    handleJoinMap S m x
      = if (S.join nodeID addr x.store).1 = true then
          (x.perform (.join nodeID addr) (S.join nodeID addr)).2
        else (x.perform (.join nodeID addr) (S.join nodeID addr)).2.writeHeader 500 := by
  rw [handleJoinMap, if_neg (fun h => h hcard)]
  simp only [haddr, hid, Exchange.perform]
  cases (S.join nodeID addr x.store).1 <;> rfl

/-- `/` -/
def slash : UInt8 := 0x2f

/-- `getKey()`: the third part of a path of three parts. -/
def getKey (path : Bytes) : Bytes :=
  match path.splitOn slash with
  | [_, _, key] => key
  | _ => []

/-- The `Set` calls of a `POST`, up to the first that fails. -/
def setAll (S : StoreInterface σ) : List (Bytes × Bytes) → Exchange σ → Exchange σ
  | [], x => x
  | (k, v) :: es, x =>
    match x.perform (.set k v) (S.set k v) with
    | (true, x) => setAll S es x
    | (false, x) => x.writeHeader 500

/-- `case "GET"`. -/
def handleGET (S : StoreInterface σ) (k : Bytes) (x : Exchange σ) : Exchange σ :=
  -- there is no `return` behind the status 400
  let x := if k = [] then x.writeHeader 400 else x
  match x.perform (.get k) (S.get k) with
  | (none, x) => x.writeHeader 500
  | (some v, x) => x.writeString (marshalMap (Finmap.singleton k v))

/-- `case "POST"`. -/
def handlePOST (S : StoreInterface σ) (ord : RangeOrder) (body : Bytes) (x : Exchange σ) :
    Exchange σ :=
  match decodeMap body with
  | none => x.writeHeader 400
  | some m => setAll S (ord.entries (m.getD ∅)) x

/-- `case "DELETE"`. -/
def handleDELETE (S : StoreInterface σ) (k : Bytes) (x : Exchange σ) : Exchange σ :=
  if k = [] then x.writeHeader 400
  else
    match x.perform (.delete k) (S.delete k) with
    | (false, x) => x.writeHeader 500
    -- the key is deleted once more, and this error is not looked at
    | (true, x) => (x.perform (.delete k) (S.delete k)).2

/-- `handleKeyRequest`. -/
def handleKeyRequest (S : StoreInterface σ) (ord : RangeOrder) (r : Request) (x : Exchange σ) :
    Exchange σ :=
  if r.method = "GET" then handleGET S (getKey r.path) x
  else if r.method = "POST" then handlePOST S ord r.body x
  else if r.method = "DELETE" then handleDELETE S (getKey r.path) x
  else x.writeHeader 405

/-- `/key` -/
def keyPrefix : Bytes := encode ['/', 'k', 'e', 'y']

/-- `/join` -/
def joinPath : Bytes := encode ['/', 'j', 'o', 'i', 'n']

/-- `ServeHTTP`. -/
def serveHTTP (S : StoreInterface σ) (ord : RangeOrder) (r : Request) (s : σ) : Exchange σ :=
  if keyPrefix <+: r.path then handleKeyRequest S ord r (.start s)
  else if r.path = joinPath then handleJoin S r (.start s)
  else (Exchange.start s).writeHeader 404

/-! ### What the handlers answer -/

/-- The request was turned away. -/
def Rejected (x : Exchange σ) : Prop := x.status = 400 ∨ x.status = 404 ∨ x.status = 405

/-- No store call was made, and nothing of the store is in the response. -/
def Clean (x : Exchange σ) : Prop := x.calls = [] ∧ x.w.body = []

/-- The store was asked, and the response says so. -/
def Served (x : Exchange σ) : Prop := x.status = 200 ∨ x.status = 500

/-- A request is not both served and turned away. -/
theorem Served.not_rejected {x : Exchange σ} (h : Served x) : ¬ Rejected x := by
  rw [Served] at h
  rw [Rejected]
  omega

section

variable (S : StoreInterface σ) (ord : RangeOrder) (r : Request) (s : σ)

/-- A status alone is clean. -/
theorem clean_writeHeader (status : Nat) : Clean ((Exchange.start s).writeHeader status) :=
  ⟨rfl, rfl⟩

/-- The loop sends no status before a `Set` fails. -/
theorem setAll_served (es : List (Bytes × Bytes)) (x : Exchange σ) (h : x.w.status = none) :
    Served (setAll S es x) := by
  induction es generalizing x with
  | nil => exact Or.inl (by rw [setAll, Exchange.status, h, Option.getD_none])
  | cons e es ih =>
    obtain ⟨k, v⟩ := e
    rw [setAll]
    split
    · rename_i y hy
      obtain ⟨-, rfl⟩ := Prod.mk.inj hy
      exact ih _ h
    · rename_i y hy
      obtain ⟨-, rfl⟩ := Prod.mk.inj hy
      refine Or.inr ?_
      show ((some (x.w.status.getD 500)).getD 200) = 500
      rw [h]
      rfl

/-- A `GET` without a key is answered with 400, and reads the store all the same. -/
theorem get_without_key :
    (handleGET S [] (.start s)).status = 400 ∧ (handleGET S [] (.start s)).calls = [.get []] := by
  rcases hget : S.get [] s with ⟨_ | v, s'⟩
  · have hrun : handleGET S [] (.start s)
        = ⟨{ status := some 400 }, [.get []], s'⟩ := by
      simp [handleGET, Exchange.perform, Exchange.writeHeader, Exchange.start, hget]
    rw [hrun]
    exact ⟨rfl, rfl⟩
  · have hrun : handleGET S [] (.start s)
        = ⟨⟨some 400, marshalMap (Finmap.singleton [] v)⟩, [.get []], s'⟩ := by
      simp [handleGET, Exchange.perform, Exchange.writeHeader, Exchange.writeString,
        Exchange.start, hget]
    rw [hrun]
    exact ⟨rfl, rfl⟩

/-- With a key it is served. -/
theorem get_served {k : Bytes} (hk : k ≠ []) : Served (handleGET S k (.start s)) := by
  rw [handleGET, if_neg hk, Exchange.perform]
  rcases S.get k (Exchange.start s).store with ⟨_ | v, s'⟩
  · exact Or.inr rfl
  · exact Or.inl rfl

/-- A `POST` is turned away clean, or served. -/
theorem post_clean_or_served (body : Bytes) :
    Clean (handlePOST S ord body (.start s)) ∨ Served (handlePOST S ord body (.start s)) := by
  rw [handlePOST]
  split
  · exact Or.inl (clean_writeHeader s 400)
  · exact Or.inr (setAll_served S _ _ rfl)

/-- A `DELETE` without a key returns behind the status 400. -/
theorem delete_clean_or_served (k : Bytes) :
    Clean (handleDELETE S k (.start s)) ∨ Served (handleDELETE S k (.start s)) := by
  rw [handleDELETE]
  split
  · exact Or.inl (clean_writeHeader s 400)
  · rw [Exchange.perform]
    rcases S.delete k (Exchange.start s).store with ⟨_ | _, s'⟩
    · exact Or.inr (Or.inr rfl)
    · exact Or.inr (Or.inl rfl)

/-- So is a join with this map. -/
theorem joinMap_clean_or_served (m : StringMap) :
    Clean (handleJoinMap S m (.start s)) ∨ Served (handleJoinMap S m (.start s)) := by
  rw [handleJoinMap]
  -- the three checks of the map, and the call
  split
  · exact Or.inl (clean_writeHeader s 400)
  split
  · exact Or.inl (clean_writeHeader s 400)
  rename_i remoteAddr _
  split
  · exact Or.inl (clean_writeHeader s 400)
  rename_i nodeID _
  rw [Exchange.perform]
  rcases S.join nodeID remoteAddr (Exchange.start s).store with ⟨_ | _, s'⟩
  · exact Or.inr (Or.inr rfl)
  · exact Or.inr (Or.inl rfl)

theorem join_clean_or_served :
    Clean (handleJoin S r (.start s)) ∨ Served (handleJoin S r (.start s)) := by
  rw [handleJoin]
  split
  · exact Or.inl (clean_writeHeader s 400)
  · exact joinMap_clean_or_served S s _

/-! ### Rejected requests -/

/-- A rejected request made no store call, and nothing of the store is in the response. -/
def RejectionClean (x : Exchange σ) : Prop := Rejected x → Clean x

/-- It is enough that a request is clean or served. -/
theorem RejectionClean.of_or {x : Exchange σ} (h : Clean x ∨ Served x) : RejectionClean x :=
  fun hr => h.resolve_right fun hs => hs.not_rejected hr

/-- **A request that is rejected stays clean exactly if it is no `GET` without a key.** -/
theorem rejection_clean_iff :
    RejectionClean (serveHTTP S ord r s) ↔
      ¬ (keyPrefix <+: r.path ∧ r.method = "GET" ∧ getKey r.path = []) := by
  by_cases hpath : keyPrefix <+: r.path
  · rw [serveHTTP, if_pos hpath, handleKeyRequest]
    by_cases hm : r.method = "GET"
    · rw [if_pos hm]
      by_cases hk : getKey r.path = []
      · rw [hk]
        obtain ⟨hstatus, hcalls⟩ := get_without_key S s
        refine ⟨fun h => ?_, fun h => absurd ⟨hpath, hm, rfl⟩ h⟩
        have hnil := (h (Or.inl hstatus)).1
        rw [hcalls] at hnil
        exact absurd hnil (List.cons_ne_nil _ _)
      · exact ⟨fun _ h => hk h.2.2, fun _ => .of_or (Or.inr (get_served S s hk))⟩
    · rw [if_neg hm]
      refine ⟨fun _ h => hm h.2.1, fun _ => .of_or ?_⟩
      split
      · exact post_clean_or_served S ord s r.body
      · split
        · exact delete_clean_or_served S s _
        · exact Or.inl (clean_writeHeader s 405)
  · rw [serveHTTP, if_neg hpath]
    refine ⟨fun _ h => hpath h.1, fun _ => .of_or ?_⟩
    split
    · exact join_clean_or_served S r s
    · exact Or.inl (clean_writeHeader s 404)

end

/-- The store of the tests, a map. -/
def testStore : StoreInterface StringMap where
  get k m := (some ((m.lookup k).getD []), m)
  set k v m := (true, m.insert k v)
  delete k m := (true, m.erase k)
  join _ _ m := (true, m)

/-- Going through a map in the order of the keys. -/
def sortedRange : RangeOrder := ⟨sortedEntries, fun _ => List.Perm.refl _⟩

/-- `GET /key/` is answered with 400 and the value of the empty key. -/
theorem get_without_key_shows_content :
    let r : Request := { method := "GET", path := keyPrefix ++ [slash] }
    let m : StringMap := Finmap.singleton [] (encode ['v'])
    (serveHTTP testStore sortedRange r m).status = 400 ∧
      decodeMap (serveHTTP testStore sortedRange r m).w.body = some (some m) ∧
      ¬ RejectionClean (serveHTTP testStore sortedRange r m) := by
  intro r m
  have hk : getKey r.path = [] := by decide
  have hserve : serveHTTP testStore sortedRange r m = handleGET testStore [] (.start m) := by
    rw [serveHTTP, if_pos (by decide), handleKeyRequest, if_pos rfl, hk]
  obtain ⟨hstatus, hcalls⟩ := get_without_key testStore m
  rw [hserve]
  refine ⟨hstatus, ?_, fun h => ?_⟩
  · show decodeMap (marshalMap (Finmap.singleton [] ((Finmap.lookup [] m).getD []))) = _
    rw [Finmap.lookup_singleton_eq]
    exact decodeMap_marshalMap (allValid_singleton valid_nil (valid_encode ['v']))
  · have hnil := (h (Or.inl hstatus)).1
    rw [hcalls] at hnil
    exact absurd hnil (List.cons_ne_nil _ _)

end OSPortfolio.Chubby.Httpd
