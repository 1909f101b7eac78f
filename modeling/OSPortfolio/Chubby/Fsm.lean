import OSPortfolio.Lib.StringMap

namespace OSPortfolio.Chubby.Fsm

open OSPortfolio.Utf8 OSPortfolio.Json

/-!
# Log entries

`Set` and `Delete` put a command into the Raft log as a JSON object, and `fsm.Apply` reads it
there.  Keys and values are byte strings here, as they are in the code: a key may come from a
URL and need not be text.

* `marshalCommand`, `unmarshalCommand` — a command as a log entry, and back;
* `fsmApply` — what a log entry does to the map;
* `unmarshalCommand_marshalCommand` — a command is read back with U+FFFD for the bytes of its
  fields that are no text;
* `apply_setEntry`, `apply_deleteEntry` — so the entries of `Set` and `Delete` never panic, and
  act on the key with these bytes replaced;
* `entries_exact_iff` — which is the given key if it is text.
-/

/-- `struct command`. -/
structure Command where
  op : Bytes := []
  key : Bytes := []
  value : Bytes := []
  deriving DecidableEq

/-- The fields of a command. -/
inductive Field
  | op | key | value
  deriving DecidableEq

/-- The name of a field in the object. -/
def Field.name : Field → List Char
  | .op => ['o', 'p']
  | .key => ['k', 'e', 'y']
  | .value => ['v', 'a', 'l', 'u', 'e']

def Command.set (c : Command) (s : Bytes) : Field → Command
  | .op => { c with op := s }
  | .key => { c with key := s }
  | .value => { c with value := s }

/-- A field as a member of the object; `omitempty` drops an empty one. -/
def Field.member (f : Field) (s : Bytes) : List (Bytes × Bytes) :=
  if s = [] then [] else [(encode f.name, s)]

/-- `json.Marshal(c)`. -/
def marshalCommand (c : Command) : Bytes :=
  marshalObject (Field.op.member c.op ++ Field.key.member c.key ++ Field.value.member c.value)

/-- Names of members are compared without case; U+212A is a `k`. -/
def foldChar (c : Char) : Char := if c = '\u212A' then 'k' else c.toLower

/-- The field a member is for. -/
def fieldNamed (name : List Char) : Option Field :=
  [Field.op, .key, .value].find? fun f => f.name = name.map foldChar

/-- Store a member of the object.  One of an unknown name is skipped, and `null` leaves the
    field alone. -/
def storeMember (c : Command) (e : List Char × Value) : Option Command :=
  match fieldNamed e.1 with
  | none => some c
  | some f =>
    match e.2 with
    | .string s => some (c.set (encode s) f)
    | .null => some c
    | _ => none

/-- A value as a command. -/
def intoCommand : Value → Option Command
  | .object ms => ms.foldlM storeMember {}
  | .null => some {}
  | _ => none

/-- `json.Unmarshal(l.Data, &c)`. -/
def unmarshalCommand (data : Bytes) : Option Command := (unmarshal data).bind intoCommand

/-- Why `fsm.Apply` panics. -/
inductive Panic
  | failedToUnmarshal
  | unrecognizedOp (op : Bytes)
  | assignmentToNilMap
  deriving DecidableEq

/-- `applySet(key, value)`; the map may be nil. -/
def applySet (key value : Bytes) : Option StringMap → Except Panic (Option StringMap)
  | some m => .ok (some (m.insert key value))
  | none => .error .assignmentToNilMap

/-- `applyDelete(key)`. -/
def applyDelete (key : Bytes) (m : Option StringMap) : Option StringMap := m.map (·.erase key)

/-- The values of `Op`. -/
def setOp : Bytes := encode ['s', 'e', 't']

def deleteOp : Bytes := encode ['d', 'e', 'l', 'e', 't', 'e']

/-- `fsm.Apply` on a log entry. -/
def fsmApply (data : Bytes) (m : Option StringMap) : Except Panic (Option StringMap) :=
  match unmarshalCommand data with
  | none => .error .failedToUnmarshal
  | some c =>
    if c.op = setOp then applySet c.key c.value m
    else if c.op = deleteOp then .ok (applyDelete c.key m)
    else .error (.unrecognizedOp c.op)

/-- The log entry of `Store.Set(key, value)`. -/
def setEntry (key value : Bytes) : Bytes :=
  marshalCommand { op := setOp, key := key, value := value }

/-- The log entry of `Store.Delete(key)`. -/
def deleteEntry (key : Bytes) : Bytes := marshalCommand { op := deleteOp, key := key }

/-- `Store.Get(key)`. -/
def get (key : Bytes) (m : StringMap) : Bytes := (m.lookup key).getD []

/-! ### A command is read back -/

/-- The fields as they are read back. -/
def Command.toValid (c : Command) : Command :=
  { op := Utf8.toValid c.op, key := Utf8.toValid c.key, value := Utf8.toValid c.value }

theorem storeMember_readMember (c : Command) (f : Field) (s : Bytes) :
    storeMember c (readMember (encode f.name, s)) = some (c.set (Utf8.toValid s) f) := by
  have hname : fieldNamed f.name = some f := by cases f <;> decide
  show (match fieldNamed (text (encode f.name)) with
    | none => some c
    | some f => some (c.set (Utf8.toValid s) f)) = _
  rw [text_encode, hname]

/-- A field that was dropped is empty when it is read. -/
theorem foldlM_storeMember (c : Command) (f : Field) (s : Bytes) (hc : c.set [] f = c) :
    ((f.member s).map readMember).foldlM storeMember c = some (c.set (Utf8.toValid s) f) := by
  by_cases hs : s = []
  · rw [Field.member, if_pos hs, hs, toValid_nil, hc]
    rfl
  · rw [Field.member, if_neg hs, List.map_singleton, List.foldlM_cons, storeMember_readMember]
    rfl

/-- **A command is read back**, each field as text. -/
theorem unmarshalCommand_marshalCommand (c : Command) :
    unmarshalCommand (marshalCommand c) = some c.toValid := by
  rw [unmarshalCommand, marshalCommand, unmarshal_marshalObject, Option.bind_some, intoCommand,
    List.map_append, List.map_append, List.foldlM_append, List.foldlM_append,
    foldlM_storeMember _ _ _ rfl]
  show ((Field.key.member c.key).map readMember).foldlM storeMember _ >>= _ = _
  rw [foldlM_storeMember _ _ _ rfl]
  show ((Field.value.member c.value).map readMember).foldlM storeMember _ = _
  rw [foldlM_storeMember _ _ _ rfl]
  rfl

/-! ### What the entries do -/

/-- The entry of `Set` binds the key as it is read back. -/
theorem apply_setEntry (key value : Bytes) (m : Option StringMap) :
    fsmApply (setEntry key value) m = applySet (Utf8.toValid key) (Utf8.toValid value) m := by
  have hop : Utf8.toValid setOp = setOp := (valid_encode _).toValid_eq
  rw [fsmApply, setEntry, unmarshalCommand_marshalCommand]
  show (if Utf8.toValid setOp = setOp then _ else _) = _
  rw [if_pos hop]
  rfl

/-- The entry of `Delete` removes the key as it is read back. -/
theorem apply_deleteEntry (key : Bytes) (m : Option StringMap) :
    fsmApply (deleteEntry key) m = .ok (applyDelete (Utf8.toValid key) m) := by
  have hop : Utf8.toValid deleteOp = deleteOp := (valid_encode _).toValid_eq
  rw [fsmApply, deleteEntry, unmarshalCommand_marshalCommand]
  show (if Utf8.toValid deleteOp = setOp then _ else if Utf8.toValid deleteOp = deleteOp then _
    else _) = _
  rw [hop, if_neg (by decide), if_pos rfl]
  rfl

/-- Nothing but the binding of one key differs. -/
def OnlyAt (key : Bytes) (m m' : StringMap) : Prop := ∀ k ≠ key, m'.lookup k = m.lookup k

/-- The entry of `Set` is applied, binds exactly the key to the value, and `Get` sees it. -/
def SetExact (key value : Bytes) (m : StringMap) : Prop :=
  ∃ m', fsmApply (setEntry key value) (some m) = .ok (some m') ∧
    m'.lookup key = some value ∧ OnlyAt key m m' ∧ get key m' = value

/-- The entry of `Delete` is applied, removes exactly the key, and `Get` sees it. -/
def DeleteExact (key : Bytes) (m : StringMap) : Prop :=
  ∃ m', fsmApply (deleteEntry key) (some m) = .ok (some m') ∧
    m'.lookup key = none ∧ OnlyAt key m m' ∧ get key m' = []

theorem onlyAt_insert (key value : Bytes) (m : StringMap) : OnlyAt key m (m.insert key value) :=
  fun _ hk => Finmap.lookup_insert_of_ne m hk

theorem onlyAt_erase (key : Bytes) (m : StringMap) : OnlyAt key m (m.erase key) :=
  fun _ hk => Finmap.lookup_erase_ne hk

/-- `Set` is exact for text, and otherwise where it changes nothing: the key is bound to the
    value already, and so is the key it reaches. -/
theorem setExact_iff (key value : Bytes) (m : StringMap) :
    SetExact key value m ↔
      (Valid key ∧ Valid value) ∨
      (¬ Valid key ∧ m.lookup key = some value ∧
        m.lookup (Utf8.toValid key) = some (Utf8.toValid value)) := by
  have happly : fsmApply (setEntry key value) (some m)
      = .ok (some (m.insert (Utf8.toValid key) (Utf8.toValid value))) := apply_setEntry ..
  constructor
  · rintro ⟨m', hm', hkey, honly, -⟩
    rw [happly] at hm'
    obtain rfl := Option.some.inj (Except.ok.inj hm')
    by_cases hvalid : Valid key
    · rw [hvalid.toValid_eq, Finmap.lookup_insert] at hkey
      exact Or.inl ⟨hvalid, toValid_eq_self_iff.mp (Option.some.inj hkey)⟩
    · have hne : key ≠ Utf8.toValid key := fun h => hvalid (toValid_eq_self_iff.mp h.symm)
      rw [Finmap.lookup_insert_of_ne m hne] at hkey
      have hother := honly _ hne.symm
      rw [Finmap.lookup_insert] at hother
      exact Or.inr ⟨hvalid, hkey, hother.symm⟩
  · rintro (⟨hkey, hvalue⟩ | ⟨-, hkey, hother⟩)
    · rw [hkey.toValid_eq, hvalue.toValid_eq] at happly
      refine ⟨_, happly, Finmap.lookup_insert m, onlyAt_insert key value m, ?_⟩
      rw [get, Finmap.lookup_insert, Option.getD_some]
    · rw [insert_eq_self hother] at happly
      exact ⟨m, happly, hkey, fun _ _ => rfl, by rw [get, hkey, Option.getD_some]⟩

/-- `Delete` is exact for text, and otherwise where it has nothing to remove. -/
theorem deleteExact_iff (key : Bytes) (m : StringMap) :
    DeleteExact key m ↔
      Valid key ∨ (m.lookup key = none ∧ m.lookup (Utf8.toValid key) = none) := by
  have happly : fsmApply (deleteEntry key) (some m) = .ok (some (m.erase (Utf8.toValid key))) :=
    apply_deleteEntry ..
  constructor
  · rintro ⟨m', hm', hkey, honly, -⟩
    rw [happly] at hm'
    obtain rfl := Option.some.inj (Except.ok.inj hm')
    by_cases hvalid : Valid key
    · exact Or.inl hvalid
    · have hne : key ≠ Utf8.toValid key := fun h => hvalid (toValid_eq_self_iff.mp h.symm)
      rw [Finmap.lookup_erase_ne hne] at hkey
      have hother := honly _ hne.symm
      rw [Finmap.lookup_erase] at hother
      exact Or.inr ⟨hkey, hother.symm⟩
  · rintro (hkey | ⟨hkey, hother⟩)
    · rw [hkey.toValid_eq] at happly
      refine ⟨_, happly, Finmap.lookup_erase key m, onlyAt_erase key m, ?_⟩
      rw [get, Finmap.lookup_erase, Option.getD_none]
    · rw [erase_eq_self hother] at happly
      exact ⟨m, happly, hkey, fun _ _ => rfl, by rw [get, hkey, Option.getD_none]⟩

/-- **The entries act on exactly the given key if and only if it and the value are text.** -/
theorem entries_exact_iff (key value : Bytes) (m : StringMap) :
    SetExact key value m ∧ DeleteExact key m ↔ Valid key ∧ Valid value := by
  rw [setExact_iff, deleteExact_iff]
  constructor
  · rintro ⟨h | ⟨hkey, hset, -⟩, hdelete⟩
    · exact h
    · -- a key that is no text would have to be bound for `Set` and absent for `Delete`
      rcases hdelete with h | ⟨hnone, -⟩
      · exact absurd h hkey
      · rw [hset] at hnone
        exact absurd hnone (Option.some_ne_none value)
  · intro h
    exact ⟨Or.inl h, Or.inl h.1⟩

/-- Deleting the one byte key FF removes the key U+FFFD, so it is not exact. -/
theorem delete_removes_other_key :
    fsmApply (deleteEntry [0xff])
        (some (Finmap.singleton (encode [replacementChar]) (encode ['v']))) = .ok (some ∅) ∧
      ¬ DeleteExact [0xff] (Finmap.singleton (encode [replacementChar]) (encode ['v'])) := by
  have hread : Utf8.toValid [0xff] = encode [replacementChar] := by decide
  constructor
  · rw [apply_deleteEntry, hread]
    show Except.ok (some (Finmap.erase _ _)) = _
    rw [erase_singleton]
  · rw [deleteExact_iff, hread, Finmap.lookup_singleton_eq]
    rintro (hvalid | ⟨-, hnone⟩)
    · exact absurd hvalid (by decide)
    · exact absurd hnone (Option.some_ne_none _)

end OSPortfolio.Chubby.Fsm
