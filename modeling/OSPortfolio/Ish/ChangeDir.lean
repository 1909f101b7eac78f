import Mathlib.Algebra.Order.Ring.Nat
import OSPortfolio.Lib.PathNames
import OSPortfolio.Lib.Run
import OSPortfolio.Ish.Env

namespace OSPortfolio.Ish

open OSPortfolio.PathNames OSPortfolio.Lts

/-!
# The working directory

`cd` hands a path to `chdir` and keeps the shell's own copy of the working directory in
`curr_directory`.  The copy is normalised by `FixDirPath`, which treats `.` as a name.

* `Buffer` — the text of a `char[WORD_SIZE]`, which leaves room for its terminator;
* `fixDirPath`, `funcCd` — the two functions; an index or a text out of its buffer is a
  `BufferFault`;
* `resolve` — where a path leads in a file system without symbolic links;
* `Names` — `curr_directory` names the directory the process is in;
* `CdGuard` — `cd` without an argument goes through, or changes nothing; with an argument the
  words fit, and no `..` of the path removes a `.` or stands before a name at the root;
* `cd_names` — in every run of commands that meet `CdGuard`, `curr_directory` names the
  working directory.
-/

/-! ### Buffers -/

/-- An access out of a `char[WORD_SIZE]`: a text that is too long, or a single index. -/
inductive BufferFault
  | overflow
  | index (i : Int)
  deriving DecidableEq, Repr

/-- The text in a `char[WORD_SIZE]`. -/
structure Buffer where
  text : String
  fits : fitsWord text = true
  deriving DecidableEq

/-- `strcpy(d, s)` into a buffer. -/
def strcpy (s : String) : Except BufferFault Buffer :=
  if h : fitsWord s = true then .ok ⟨s, h⟩ else .error .overflow

/-- `strcat(d, s)`. -/
def strcat (d : Buffer) (s : String) : Except BufferFault Buffer := strcpy (d.text ++ s)

/-- The first character of the text is a `/`. -/
def Absolute (s : String) : Prop := s.toList.head? = some '/'

/-- The last character of the text is a `/`. -/
def Closed (s : String) : Prop := s.toList.getLast? = some '/'

instance (s : String) : Decidable (Absolute s) :=
  inferInstanceAs (Decidable (s.toList.head? = some '/'))

instance (s : String) : Decidable (Closed s) :=
  inferInstanceAs (Decidable (s.toList.getLast? = some '/'))

/-- Append a `/` to a text that does not end in one. -/
def addSlash (d : Buffer) : Except BufferFault Buffer :=
  -- the last character is the one at `str_length - 1`
  if d.text = "" then .error (.index (-1))
  else if Closed d.text then .ok d
  -- in a full buffer the `/` replaces the terminator
  else strcat d "/"

/-- The tokens that `strtok(s, "/")` returns, in order. -/
def pathNames (s : String) : List String := (components '/' s.toList).map String.ofList

/-! ### `FixDirPath` -/

/-- The array `tokens` and its `counter`. -/
structure Tokens where
  tokens : Nat → String
  counter : Int

/-- What `FixDirPath` does with one token. -/
def Tokens.next (t : Tokens) (token : String) : Except BufferFault Tokens :=
  if token = ".." then .ok { t with counter := t.counter - 1 }
  else if t.counter < 0 ∨ WORD_SIZE ≤ t.counter then .error (.index t.counter)
  else do
    let copy ← strcpy token
    return { tokens := Function.update t.tokens t.counter.toNat copy.text
             counter := t.counter + 1 }

/-- `FixDirPath()` on the path in `curr_directory`. -/
def fixDirPath (curr_directory : String) : Except BufferFault Buffer := do
  let t ← (pathNames curr_directory).foldlM Tokens.next { tokens := fun _ => "", counter := 0 }
  (List.range t.counter.toNat).foldlM
    (fun d i => do
      let d ← strcat d (t.tokens i)
      strcat d "/")
    ⟨"/", by decide⟩

/-! ### `cd` -/

/-- The shell's directories and the directory the process is in, as the names on the way to
    it, the innermost first. -/
structure DirState where
  home_directory : Buffer
  curr_directory : Buffer
  cwd : List String
  deriving DecidableEq

/-- Where a path leads from the directory `dir`, without symbolic links. -/
def resolve (dir : List String) (path : String) : List String :=
  walk "." ".." (if Absolute path then [] else dir) (pathNames path)

/-- `chdir(path)`: it moves the process, or fails with a reason. -/
def chdir (path : String) (outcome : Option String) (dir : List String) : List String :=
  match outcome with
  | none => resolve dir path
  | some _ => dir

/-- What `main` puts into the two directories: `pw_dir` and what `getcwd` writes. -/
def startDirectories (pw_dir getcwd : String) (cwd : List String) :
    Except BufferFault DirState := do
  let home_directory ← strcpy pw_dir
  let home_directory ← strcat home_directory "/"
  let curr_directory ← strcpy getcwd
  let curr_directory ← addSlash curr_directory
  return { home_directory, curr_directory, cwd }

/-- The path that `func_cd` builds in `file_path` for an argument. -/
def filePath (curr_directory : Buffer) (arg : String) : Except BufferFault Buffer :=
  if Absolute arg then strcpy arg
  else do
    let update_path ← strcpy arg
    let update_path ← addSlash update_path
    strcat curr_directory update_path.text

/-- The state a command leaves and the lines it prints on `stderr`. -/
structure CdResult where
  state : DirState
  err : List String := []

/-- `func_cd(pc)`, where the call of `chdir` ends with `outcome`. -/
def funcCd (pc : Command) (outcome : Option String) (s : DirState) :
    Except BufferFault CdResult :=
  match pc.pa.params with
  -- the result of `chdir` is not looked at
  | [] => .ok { state := { s with
      curr_directory := s.home_directory
      cwd := chdir s.home_directory.text outcome s.cwd } }
  | [arg] => do
    let file_path ← filePath s.curr_directory arg
    match outcome with
    | none =>
      let curr_directory ← fixDirPath file_path.text
      return { state := { s with curr_directory, cwd := chdir file_path.text none s.cwd } }
    | some reason =>
      return { state := { s with cwd := chdir file_path.text outcome s.cwd }
               err := ["cd " ++ pc.zCmd ++ " : " ++ reason ++ "\n"] }
  | _ => .ok { state := s, err := ["cd : Too many arguments\n"] }

/-! ### What `cd` should do -/

/-- `curr_directory` is an absolute path to the directory the process is in. -/
def Names (s : DirState) : Prop :=
  Absolute s.curr_directory.text ∧ resolve s.cwd s.curr_directory.text = s.cwd

instance (s : DirState) : Decidable (Names s) := inferInstanceAs (Decidable (_ ∧ _))

/-- A `cd` command and how its call of `chdir` ends. -/
structure CdAction where
  pc : Command
  outcome : Option String

/-- One command that goes through. -/
def CdStep (s : DirState) (act : CdAction) (s' : DirState) : Prop :=
  ∃ r, funcCd act.pc act.outcome s = .ok r ∧ r.state = s'

/-- What a command should do: no access out of a buffer, a `curr_directory` that names the
    working directory, and no change of either when `chdir` fails. -/
def MeetsCd (s : DirState) (act : CdAction) : Prop :=
  ∃ r, funcCd act.pc act.outcome s = .ok r ∧ Names r.state ∧
    (act.outcome ≠ none →
      r.state.curr_directory = s.curr_directory ∧ r.state.cwd = s.cwd)

/-- The path that an argument stands for. -/
def cdPath (s : DirState) (arg : String) : String :=
  if Absolute arg then arg
  else s.curr_directory.text ++ if Closed arg then arg else arg ++ "/"

/-- The path with the given components, each followed by a `/`. -/
def spelled (names : List String) : String :=
  String.ofList (spell '/' (names.map String.toList))

/-- Without an argument `chdir` goes through and the home directory is absolute, or `chdir`
    fails and the copy is the home directory already.  With one the path fits; where `chdir`
    goes through, each `..` of the path removes a name, or leads from the root to nothing but
    more `..`, and the path fits with a `/` after each component or has a `..`. -/
def CdGuard (s : DirState) (act : CdAction) : Prop :=
  match act.pc.pa.params with
  | [] =>
    (act.outcome = none → Absolute s.home_directory.text) ∧
      (act.outcome ≠ none → s.home_directory = s.curr_directory)
  | [arg] =>
    arg ≠ "" ∧ fitsWord (cdPath s arg) = true ∧
      (act.outcome = none →
        RemovesNames "." ".." [] (pathNames (cdPath s arg)) ∧
          (fitsWord (spelled (pathNames (cdPath s arg))) = true ∨
            ".." ∈ pathNames (cdPath s arg)))
  | _ => True

/-! ### Texts of paths -/

/-- The size of a text is what its characters take. -/
theorem utf8ByteSize_eq_cost (s : String) : s.utf8ByteSize = cost Char.utf8Size s.toList := by
  rw [← String.ofList_toList (s := s)]
  generalize s.toList = l
  induction l with
  | nil => simp
  | cons c l ih => rw [String.ofList_cons, String.utf8ByteSize_append, ih]; simp

/-- What begins with a `/` still does with something behind it. -/
theorem absolute_append {a : String} (ha : Absolute a) (b : String) : Absolute (a ++ b) := by
  unfold Absolute
  rw [String.toList_append, List.head?_append, ha]
  rfl

/-- A path that ends with a `/`. -/
theorem closed_append_slash (a : String) : Closed (a ++ "/") := by
  unfold Closed
  rw [String.toList_append]
  exact List.getLast?_concat

/-- A `/` at the end adds no name. -/
theorem pathNames_append_slash (a : String) : pathNames (a ++ "/") = pathNames a := by
  unfold pathNames
  rw [String.toList_append]
  exact congrArg _ (components_concat_sep '/' a.toList)

/-- The names of a path are nonempty and without a `/`. -/
theorem mem_pathNames {p n : String} (h : n ∈ pathNames p) : n.toList ≠ [] ∧ '/' ∉ n.toList := by
  obtain ⟨l, hl, rfl⟩ := List.mem_map.mp h
  rw [String.toList_ofList]
  exact mem_components '/' hl

/-- Reading undoes spelling, if no name is empty or holds a `/`. -/
theorem pathNames_spelled {names : List String}
    (h : ∀ n ∈ names, n.toList ≠ [] ∧ '/' ∉ n.toList) : pathNames (spelled names) = names := by
  unfold pathNames spelled
  rw [String.toList_ofList, components_spell '/' (by simpa using h), List.map_map]
  simp [Function.comp_def]

/-- What is spelled begins with a `/`. -/
theorem absolute_spelled (names : List String) : Absolute (spelled names) := by
  unfold Absolute spelled
  rw [String.toList_ofList]
  rfl

/-- It also ends with one. -/
theorem closed_spelled (names : List String) : Closed (spelled names) := by
  unfold Closed spelled
  rw [String.toList_ofList, spell]
  -- the last name brings the last `/`, and without names there is only the first
  rcases List.eq_nil_or_concat names with rfl | ⟨ns, n, rfl⟩
  · rfl
  · rw [List.concat_eq_append, List.map_append, List.flatMap_append, List.map_singleton,
      List.flatMap_singleton,
      ← List.append_assoc, ← List.cons_append]
    exact List.getLast?_concat

/-- The size of a name with the `/` after it. -/
def nameCost (n : String) : Nat := n.utf8ByteSize + 1

/-- The size of a spelled path, summed over its names. -/
theorem utf8ByteSize_spelled (names : List String) :
    (spelled names).utf8ByteSize = cost nameCost names + 1 := by
  rw [utf8ByteSize_eq_cost, spelled, String.toList_ofList, spell, cost_cons]
  have htail : cost Char.utf8Size ((names.map String.toList).flatMap (· ++ ['/'])) =
      cost nameCost names := by
    induction names with
    | nil => rfl
    | cons n ns ih =>
      have hn : nameCost n = cost Char.utf8Size n.toList + 1 := by
        unfold nameCost; rw [utf8ByteSize_eq_cost]
      rw [List.map_cons, List.flatMap_cons, cost_append, cost_append, ih, cost_cons nameCost, hn]
      rfl
  rw [htail]
  exact Nat.add_comm _ _

/-- The names of a path with a `/` after each take at most one byte more than the path. -/
theorem cost_pathNames_le (p : String) : cost nameCost (pathNames p) ≤ p.utf8ByteSize + 1 := by
  have h := cost_components_le '/' Char.utf8Size rfl p.toList
  rw [← utf8ByteSize_eq_cost] at h
  refine le_trans (le_of_eq ?_) h
  unfold pathNames cost nameCost
  rw [List.map_map]
  refine congrArg List.sum (List.map_congr_left fun l _ => ?_)
  rw [Function.comp_apply, utf8ByteSize_eq_cost, String.toList_ofList]
  rfl

/-- A path has fewer names than bytes. -/
theorem length_pathNames_le (p : String) : (pathNames p).length ≤ p.utf8ByteSize + 1 := by
  refine le_trans ?_ (cost_pathNames_le p)
  generalize pathNames p = names
  induction names with
  | nil => exact Nat.zero_le _
  | cons n ns ih =>
    rw [List.length_cons, cost_cons]
    have hn : 1 ≤ nameCost n := Nat.le_add_left 1 _
    omega

/-- A name is not longer than its path. -/
theorem fitsWord_of_mem_pathNames {p n : String} (hp : fitsWord p = true)
    (h : n ∈ pathNames p) : fitsWord n = true := by
  have hle : nameCost n ≤ cost nameCost (pathNames p) :=
    List.single_le_sum (fun _ _ => Nat.zero_le _) _ (List.mem_map_of_mem h)
  have hcost := cost_pathNames_le p
  have hsize : p.utf8ByteSize < WORD_SIZE := by simpa [fitsWord] using hp
  have hn : nameCost n = n.utf8ByteSize + 1 := rfl
  simp only [fitsWord, decide_eq_true_eq]
  omega

/-- The parts of a text that fits do. -/
theorem fitsWord_of_append {a b : String} (h : fitsWord (a ++ b) = true) :
    fitsWord a = true ∧ fitsWord b = true := by
  simp only [fitsWord, decide_eq_true_eq, String.utf8ByteSize_append] at h ⊢
  omega

/-- A text that fits is copied. -/
theorem strcpy_ok {s : String} {b : Buffer} (h : b.text = s) : strcpy s = .ok b := by
  subst h
  exact dif_pos b.fits

/-- What is copied is the text. -/
theorem text_of_strcpy {s : String} {b : Buffer} (h : strcpy s = .ok b) : b.text = s := by
  unfold strcpy at h
  split at h
  · rw [← Except.ok.inj h]
  · cases h

/-- A text that does not fit overflows the buffer. -/
theorem strcpy_overflow {s : String} (h : fitsWord s = false) : strcpy s = .error .overflow :=
  dif_neg (by simp [h])

/-- A text copied on its way into one that needs more room makes no difference. -/
theorem strcpy_strcpy {s : String} {g : String → String}
    (hg : fitsWord (g s) = true → fitsWord s = true) :
    (strcpy s >>= fun d => strcpy (g d.text)) = strcpy (g s) := by
  cases hs : fitsWord s with
  | true => rw [strcpy_ok (b := ⟨s, hs⟩) rfl]; rfl
  | false =>
    have hgs : fitsWord (g s) = false := by
      by_contra hne
      rw [Bool.not_eq_false] at hne
      simp [hg hne] at hs
    rw [strcpy_overflow hs, strcpy_overflow hgs]
    rfl

/-- A copy with a `/` added where there is none at the end. -/
theorem strcpy_addSlash {s : String} (hne : s ≠ "") :
    (strcpy s >>= addSlash) = strcpy (if Closed s then s else s ++ "/") := by
  cases hs : fitsWord s with
  | true =>
    rw [strcpy_ok (b := ⟨s, hs⟩) rfl]
    show addSlash ⟨s, hs⟩ = _
    rw [addSlash, if_neg hne]
    by_cases hclosed : Closed s
    · rw [if_pos hclosed, if_pos hclosed]
      exact (strcpy_ok rfl).symm
    · rw [if_neg hclosed, if_neg hclosed]
      rfl
  | false =>
    have hslash : fitsWord (if Closed s then s else s ++ "/") = false := by
      by_contra hfits
      rw [Bool.not_eq_false] at hfits
      split at hfits
      · simp [hfits] at hs
      · simp [(fitsWord_of_append hfits).1] at hs
    rw [strcpy_overflow hs, strcpy_overflow hslash]
    rfl

/-- A text with a `/` added ends in one and has the same names. -/
theorem addSlash_spec {d b : Buffer} (h : addSlash d = .ok b) :
    Closed b.text ∧ pathNames b.text = pathNames d.text ∧
      (Absolute d.text → Absolute b.text) := by
  unfold addSlash at h
  split at h
  · cases h
  · split at h
    · obtain rfl := Except.ok.inj h
      exact ⟨‹_›, rfl, id⟩
    · rw [text_of_strcpy h]
      exact ⟨closed_append_slash _, pathNames_append_slash _, fun habs => absolute_append habs _⟩

/-! ### What `FixDirPath` writes -/

/-- The tokens below `counter` are the names `kept`, which has the innermost first. -/
def Holds (t : Tokens) (kept : List String) : Prop :=
  t.counter = kept.length ∧ (List.range kept.length).map t.tokens = kept.reverse

/-- `..` drops the name on top. -/
theorem Holds.pop {t : Tokens} {top : String} {below : List String}
    (h : Holds t (top :: below)) : Holds { t with counter := t.counter - 1 } below := by
  obtain ⟨hcount, htokens⟩ := h
  refine ⟨by simp [hcount], ?_⟩
  rw [List.length_cons, List.range_succ, List.map_append, List.reverse_cons] at htokens
  exact (List.append_inj' htokens rfl).1

/-- A name is put on top. -/
theorem Holds.push {t : Tokens} {kept : List String} (h : Holds t kept) (name : String) :
    Holds { tokens := Function.update t.tokens t.counter.toNat name, counter := t.counter + 1 }
      (name :: kept) := by
  obtain ⟨hcount, htokens⟩ := h
  refine ⟨by simp [hcount], ?_⟩
  rw [List.length_cons, List.range_succ, List.map_append, List.reverse_cons, ← htokens, hcount,
    Int.toNat_natCast]
  -- the tokens below `counter` are not written
  have hbelow : (List.range kept.length).map (Function.update t.tokens kept.length name) =
      (List.range kept.length).map t.tokens :=
    List.map_congr_left fun i hi =>
      Function.update_of_ne (Nat.ne_of_lt (List.mem_range.mp hi)) _ _
  rw [hbelow]
  show _ ++ [Function.update t.tokens kept.length name kept.length] = _
  rw [Function.update_self]

/-- A name other than `..` is kept, if there is room for it. -/
theorem next_name {t : Tokens} {kept : List String} {name : String} (h : Holds t kept)
    (hne : name ≠ "..") (hroom : kept.length < WORD_SIZE) (hfits : fitsWord name = true) :
    t.next name = .ok { tokens := Function.update t.tokens t.counter.toNat name,
                        counter := t.counter + 1 } := by
  have hindex : ¬ (t.counter < 0 ∨ (WORD_SIZE : Int) ≤ t.counter) := by
    rw [h.1]
    omega
  rw [Tokens.next, if_neg hne, if_neg hindex, strcpy_ok (b := ⟨_, hfits⟩) rfl]
  rfl

/-- From the root nothing but `..` leaves `counter` below one and the tokens alone. -/
theorem next_forall_up {cs : List String} (h : ∀ c ∈ cs, c = "..") (t : Tokens)
    (ht : t.counter ≤ 0) : ∃ t', cs.foldlM Tokens.next t = .ok t' ∧ t'.counter ≤ 0 := by
  induction cs generalizing t with
  | nil => exact ⟨t, rfl, ht⟩
  | cons c cs ih =>
    obtain ⟨hc, hcs⟩ := List.forall_mem_cons.mp h
    obtain ⟨t', hfold, ht'⟩ := ih hcs { t with counter := t.counter - 1 } (by simp; omega)
    refine ⟨t', ?_, ht'⟩
    rw [List.foldlM_cons, Tokens.next, if_pos hc]
    exact hfold

/-- The loop over the tokens keeps what the collapsed path keeps. -/
theorem foldlM_next {here : String} {t : Tokens} {kept cs : List String} (ht : Holds t kept)
    (h : RemovesNames here ".." kept cs) (hroom : kept.length + cs.length ≤ WORD_SIZE)
    (hfits : ∀ c ∈ cs, fitsWord c = true) :
    ∃ t', cs.foldlM Tokens.next t = .ok t' ∧
      (List.range t'.counter.toNat).map t'.tokens = (collapse ".." kept cs).reverse := by
  induction cs generalizing t kept with
  | nil =>
    refine ⟨t, rfl, ?_⟩
    rw [ht.1, Int.toNat_natCast]
    exact ht.2
  | cons c cs ih =>
    rw [List.length_cons] at hroom
    obtain ⟨hc, hcs⟩ := List.forall_mem_cons.mp hfits
    rw [List.foldlM_cons, collapse_cons]
    unfold RemovesNames at h
    by_cases hup : c = ".."
    · rw [if_pos hup] at h
      rw [Tokens.next, if_pos hup, keep, if_pos hup]
      cases kept with
      | nil =>
        -- nothing but `..` follows, so the negative `counter` is never an index
        have hcount : t.counter = 0 := ht.1
        obtain ⟨t', hfold, ht'⟩ :=
          next_forall_up h { t with counter := t.counter - 1 } (by simp [hcount])
        refine ⟨t', hfold, ?_⟩
        rw [Int.toNat_of_nonpos ht', List.tail_nil, collapse_nil_of_forall_up h]
        rfl
      | cons top below =>
        rw [List.length_cons] at hroom
        rw [List.tail_cons]
        exact ih ht.pop h.2 (by omega) hcs
    · rw [if_neg hup] at h
      rw [next_name ht hup (by omega) hc, keep, if_neg hup]
      exact ih (ht.push c) h (by rw [List.length_cons]; omega) hcs

/-- The loop that writes the tokens writes each with a `/` after it. -/
theorem foldlM_strcat {names : List String} {d : Buffer} {text : String}
    (htext : d.text ++ String.ofList ((names.map String.toList).flatMap (· ++ ['/'])) = text)
    (hfits : fitsWord text = true) :
    names.foldlM (fun d name => do
      let d ← strcat d name
      strcat d "/") d = .ok ⟨text, hfits⟩ := by
  induction names generalizing d with
  | nil =>
    subst htext
    simp [pure, Except.pure]
  | cons n ns ih =>
    have hcons : d.text ++ n ++ "/" ++
        String.ofList ((ns.map String.toList).flatMap (· ++ ['/'])) = text := by
      rw [← htext, ← String.toList_inj]
      simp
    rw [← hcons] at hfits
    have hslash : fitsWord (d.text ++ n ++ "/") = true := (fitsWord_of_append hfits).1
    have hname : fitsWord (d.text ++ n) = true := (fitsWord_of_append hslash).1
    rw [List.foldlM_cons, strcat, strcpy_ok (b := ⟨_, hname⟩) rfl]
    show ((strcat ⟨d.text ++ n, hname⟩ "/").bind _) = _
    rw [strcat, strcpy_ok (b := ⟨_, hslash⟩) rfl]
    exact ih hcons

/-- **What `FixDirPath` writes**: the collapsed path, where it fits. -/
theorem fixDirPath_eq {here p : String} (hp : fitsWord p = true)
    (h : RemovesNames here ".." [] (pathNames p))
    (hfits : fitsWord (spelled (collapse ".." [] (pathNames p)).reverse) = true) :
    fixDirPath p = .ok ⟨_, hfits⟩ := by
  have hroom : (pathNames p).length ≤ WORD_SIZE := by
    have hlen := length_pathNames_le p
    have hsize : p.utf8ByteSize < WORD_SIZE := by simpa [fitsWord] using hp
    omega
  have hstart : Holds { tokens := fun _ => "", counter := 0 } [] := ⟨rfl, rfl⟩
  obtain ⟨t, hfold, htokens⟩ := foldlM_next hstart h (by simpa using hroom)
    fun _ hc => fitsWord_of_mem_pathNames hp hc
  -- the names in the array and the names kept are one list from here on
  generalize (collapse ".." [] (pathNames p)).reverse = names at htokens hfits
  subst htokens
  have htext : "/" ++ String.ofList ((((List.range t.counter.toNat).map t.tokens).map
      String.toList).flatMap (· ++ ['/'])) =
      spelled ((List.range t.counter.toNat).map t.tokens) := by
    rw [spelled, spell, ← String.toList_inj]
    simp
  have hwrite := foldlM_strcat (d := ⟨"/", by decide⟩) htext hfits
  rw [List.foldlM_map] at hwrite
  rw [fixDirPath, hfold]
  exact hwrite

/-- A `..` behind a `.` removes that, and not the name before. -/
example : (fixDirPath "/src/./../").map Buffer.text = .ok "/src/" := rfl

/-- At the root a name behind a `..` goes to `tokens[-1]`. -/
example : fixDirPath "/../src/" = .error (.index (-1)) := rfl

/-- What is kept fits, if the path fits with a `/` after each component or has a `..`. -/
theorem fitsWord_collapse {p : String} (hp : fitsWord p = true)
    (h : fitsWord (spelled (pathNames p)) = true ∨ ".." ∈ pathNames p) :
    fitsWord (spelled (collapse ".." [] (pathNames p)).reverse) = true := by
  have hkept : cost nameCost (collapse ".." [] (pathNames p)) +
      (pathNames p).count ".." * nameCost ".." ≤ cost nameCost [] + cost nameCost (pathNames p) :=
    cost_collapse_le nameCost [] (pathNames p)
  have hpath := cost_pathNames_le p
  simp only [fitsWord, decide_eq_true_eq, utf8ByteSize_spelled, cost_reverse, cost_nil] at *
  rcases h with hfits | hup
  · omega
  · -- the `..` and its `/` are three bytes that are not written again
    have hcount : 1 ≤ (pathNames p).count ".." := List.one_le_count_iff.mpr hup
    have hcost : nameCost ".." = 3 := rfl
    rw [hcost] at hkept
    omega

/-! ### One command -/

/-- The directories as `main` and every command leave them: the copy names the working
    directory, and both texts end in a `/`. -/
structure Tracks (s : DirState) : Prop where
  names : Names s
  closed : Closed s.curr_directory.text
  homeClosed : Closed s.home_directory.text

/-- An absolute path leads to the same directory from everywhere. -/
theorem resolve_of_absolute {p : String} (hp : Absolute p) (dir : List String) :
    resolve dir p = walk "." ".." [] (pathNames p) := by
  rw [resolve, if_pos hp]

/-- The path of `cd` begins with a `/`. -/
theorem absolute_cdPath {s : DirState} (hs : Names s) (arg : String) : Absolute (cdPath s arg) := by
  unfold cdPath
  by_cases habs : Absolute arg
  · rwa [if_pos habs]
  · rw [if_neg habs]
    exact absolute_append hs.1 _

/-- Without a last character `update_path[-1]` is read. -/
theorem filePath_empty (d : Buffer) : filePath d "" = .error (.index (-1)) := rfl

/-- The path of `cd` is put together in two buffers, and faults if it does not fit. -/
theorem filePath_eq_strcpy {s : DirState} {arg : String} (hne : arg ≠ "") :
    filePath s.curr_directory arg = strcpy (cdPath s arg) := by
  unfold filePath cdPath
  by_cases habs : Absolute arg
  · rw [if_pos habs, if_pos habs]
  · rw [if_neg habs, if_neg habs, ← bind_assoc, strcpy_addSlash hne]
    exact strcpy_strcpy (g := fun path => s.curr_directory.text ++ path)
      fun h => (fitsWord_of_append h).2

/-- A path that fits is put together. -/
theorem filePath_eq {s : DirState} {arg : String} (hne : arg ≠ "")
    (hfits : fitsWord (cdPath s arg) = true) :
    filePath s.curr_directory arg = .ok ⟨cdPath s arg, hfits⟩ := by
  rw [filePath_eq_strcpy hne]
  exact strcpy_ok rfl

/-- What the copy is after a successful `chdir` to the path `p`. -/
theorem fixDirPath_names {p : String} (habs : Absolute p) (hp : fitsWord p = true)
    (h : RemovesNames "." ".." [] (pathNames p))
    (hfits : fitsWord (spelled (pathNames p)) = true ∨ ".." ∈ pathNames p) (dir : List String) :
    ∃ b, fixDirPath p = .ok b ∧ Absolute b.text ∧ Closed b.text ∧
      ∀ dir', resolve dir' b.text = resolve dir p := by
  refine ⟨_, fixDirPath_eq hp h (fitsWord_collapse hp hfits), absolute_spelled _,
    closed_spelled _, fun dir' => ?_⟩
  have hnames : ∀ n ∈ (collapse ".." [] (pathNames p)).reverse,
      n.toList ≠ [] ∧ '/' ∉ n.toList := by
    intro n hn
    rcases mem_of_mem_collapse (List.mem_reverse.mp hn) with hnil | hmem
    · exact absurd hnil List.not_mem_nil
    · exact mem_pathNames hmem
  rw [resolve_of_absolute (absolute_spelled _), resolve_of_absolute habs,
    pathNames_spelled hnames, walk_collapse (by decide) List.not_mem_nil h]
  rfl

/-- `cd` without an argument. -/
theorem funcCd_home {pc : Command} (hparams : pc.pa.params = []) (outcome : Option String)
    (s : DirState) :
    funcCd pc outcome s = .ok { state := { s with
      curr_directory := s.home_directory
      cwd := chdir s.home_directory.text outcome s.cwd } } := by
  simp only [funcCd, hparams]

/-- `cd` with an argument, when `chdir` goes through. -/
theorem funcCd_moved {pc : Command} {arg : String} (hparams : pc.pa.params = [arg])
    {s : DirState} {path fixed : Buffer} (hpath : filePath s.curr_directory arg = .ok path)
    (hfix : fixDirPath path.text = .ok fixed) :
    funcCd pc none s = .ok { state := { s with
      curr_directory := fixed
      cwd := resolve s.cwd path.text } } := by
  simp only [funcCd, hparams, hpath]
  show (fixDirPath path.text).bind _ = _
  rw [hfix]
  rfl

/-- `cd` with an argument, when `chdir` fails. -/
theorem funcCd_failed {pc : Command} {arg : String} (hparams : pc.pa.params = [arg])
    {s : DirState} {path : Buffer} (hpath : filePath s.curr_directory arg = .ok path)
    (reason : String) :
    funcCd pc (some reason) s =
      .ok { state := s, err := ["cd " ++ pc.zCmd ++ " : " ++ reason ++ "\n"] } := by
  simp only [funcCd, hparams, hpath]
  rfl

/-- `cd` with more arguments. -/
theorem funcCd_tooMany {pc : Command} {a b : String} {rest : List String}
    (hparams : pc.pa.params = a :: b :: rest) (outcome : Option String) (s : DirState) :
    funcCd pc outcome s = .ok { state := s, err := ["cd : Too many arguments\n"] } := by
  simp only [funcCd, hparams]

/-- **One command.** A command that meets the condition does what it should, and leaves the
    directories as the next one needs them. -/
theorem cdGuard_meets {s : DirState} {act : CdAction} (hs : Tracks s) (hg : CdGuard s act) :
    ∃ r, funcCd act.pc act.outcome s = .ok r ∧ Tracks r.state ∧
      (act.outcome ≠ none →
        r.state.curr_directory = s.curr_directory ∧ r.state.cwd = s.cwd) := by
  obtain ⟨pc, outcome⟩ := act
  match hparams : pc.pa.params with
  | [] =>
    simp only [CdGuard, hparams] at hg
    refine ⟨_, funcCd_home hparams outcome s, ?_⟩
    cases outcome with
    | none =>
      have habs := hg.1 rfl
      refine ⟨⟨⟨habs, ?_⟩, hs.homeClosed, hs.homeClosed⟩, fun hne => absurd rfl hne⟩
      show resolve (resolve _ _) _ = resolve _ _
      rw [resolve_of_absolute habs, resolve_of_absolute habs]
    | some reason =>
      -- a failing `chdir` does no harm when the copy is the home directory already
      have hhome := hg.2 (Option.some_ne_none reason)
      refine ⟨⟨?_, hs.homeClosed, hs.homeClosed⟩, fun _ => ⟨hhome, rfl⟩⟩
      show Absolute s.home_directory.text ∧ resolve s.cwd s.home_directory.text = s.cwd
      rw [hhome]
      exact hs.names
  | [arg] =>
    simp only [CdGuard, hparams] at hg
    obtain ⟨hne, hfits, hpath⟩ := hg
    have hfile := filePath_eq hne hfits
    cases outcome with
    | none =>
      obtain ⟨hremoves, hwritten⟩ := hpath rfl
      obtain ⟨fixed, hfix, habs, hclosed, hres⟩ :=
        fixDirPath_names (absolute_cdPath hs.names arg) hfits hremoves hwritten s.cwd
      exact ⟨_, funcCd_moved hparams hfile hfix, ⟨⟨habs, hres _⟩, hclosed, hs.homeClosed⟩,
        fun hne => absurd rfl hne⟩
    | some reason =>
      exact ⟨_, funcCd_failed hparams hfile reason, hs, fun _ => ⟨rfl, rfl⟩⟩
  | _ :: _ :: _ => exact ⟨_, funcCd_tooMany hparams outcome s, hs, fun _ => ⟨rfl, rfl⟩⟩

/-! ### Every run -/

/-- A result of two steps is a result of the second on one of the first. -/
theorem bind_eq_ok {ε α β : Type} {x : Except ε α} {f : α → Except ε β} {b : β}
    (h : x >>= f = .ok b) : ∃ a, x = .ok a ∧ f a = .ok b := by
  cases x with
  | error e => cases h
  | ok a => exact ⟨a, rfl, h⟩

/-- `main` starts with a copy that names the working directory. -/
theorem startDirectories_tracks {pw_dir getcwd : String} {cwd : List String} {s : DirState}
    (h : startDirectories pw_dir getcwd cwd = .ok s) (habs : Absolute getcwd)
    (hcwd : resolve [] getcwd = cwd) : Tracks s := by
  unfold startDirectories at h
  obtain ⟨home, -, h⟩ := bind_eq_ok h
  obtain ⟨homeSlash, hhome, h⟩ := bind_eq_ok h
  obtain ⟨curr, hcurr, h⟩ := bind_eq_ok h
  obtain ⟨currSlash, hslash, h⟩ := bind_eq_ok h
  obtain rfl := Except.ok.inj h
  obtain ⟨hclosed, hnames, habsolute⟩ := addSlash_spec hslash
  rw [text_of_strcpy hcurr] at hnames habsolute
  refine ⟨⟨habsolute habs, ?_⟩, hclosed, ?_⟩
  · show resolve cwd currSlash.text = cwd
    rw [resolve_of_absolute (habsolute habs), hnames, ← resolve_of_absolute habs [], hcwd]
  · show Closed homeSlash.text
    rw [text_of_strcpy hhome]
    exact closed_append_slash _

/-- **The copy of the working directory after any run** of commands that all meet the
    condition: it names the directory the process is in, and the next command that meets the
    condition keeps it so, and changes nothing when its `chdir` fails. -/
theorem cd_names {s₀ s : DirState} {acts : List CdAction} (h₀ : Tracks s₀)
    (h : Run (guarded CdStep CdGuard) s₀ acts s) :
    Names s ∧ ∀ act, CdGuard s act → MeetsCd s act := by
  have htracks : Tracks s := by
    refine h.invariant ?_ h₀
    rintro t act t' ht ⟨hg, r', hexec', rfl⟩
    obtain ⟨r, hexec, hr, -⟩ := cdGuard_meets ht hg
    obtain rfl := Except.ok.inj (hexec.symm.trans hexec')
    exact hr
  refine ⟨htracks.names, fun act hg => ?_⟩
  obtain ⟨r, hexec, hr, hfail⟩ := cdGuard_meets htracks hg
  exact ⟨r, hexec, hr.names, hfail⟩

/-- `cd` with the given words after it. -/
def cdCommand (words : List String) : Command :=
  .mk "cd" ⟨some "cd", words⟩ false .null .null

/-- A shell in `/`, with a home directory elsewhere. -/
def atRoot : DirState where
  home_directory := ⟨"/home/u/", by decide⟩
  curr_directory := ⟨"/", by decide⟩
  cwd := []

/-- The same shell in `/src`. -/
def inSrc : DirState := { atRoot with curr_directory := ⟨"/src/", by decide⟩, cwd := ["src"] }

/-- A shell that starts at the root. -/
theorem atRoot_tracks : Tracks atRoot := ⟨by decide, by decide, by decide⟩

/-- `cd src`, then `cd ..` from there. -/
theorem cd_names_atRoot :
    ∃ s, Run (guarded CdStep CdGuard) atRoot
        [⟨cdCommand ["src"], none⟩, ⟨cdCommand [".."], none⟩] s ∧
      Names s ∧ MeetsCd s ⟨cdCommand [], none⟩ := by
  have hsrc : guarded CdStep CdGuard atRoot ⟨cdCommand ["src"], none⟩ inSrc :=
    ⟨⟨by decide, by decide, fun _ => ⟨by decide, by decide⟩⟩, _, rfl, by decide⟩
  have hback : guarded CdStep CdGuard inSrc ⟨cdCommand [".."], none⟩ atRoot :=
    ⟨⟨by decide, by decide, fun _ => ⟨by decide, by decide⟩⟩, _, rfl, by decide⟩
  have hrun := Run.cons hsrc (Run.single hback)
  obtain ⟨hnames, hmeets⟩ := cd_names atRoot_tracks hrun
  exact ⟨atRoot, hrun, hnames, hmeets _ ⟨fun _ => by decide, fun hne => absurd rfl hne⟩⟩

/-- A `cd` whose `chdir` fails: the process stays, and the copy does not. -/
theorem cd_home_unchecked :
    Tracks atRoot ∧ ∃ r, funcCd (cdCommand []) (some "No such file or directory") atRoot = .ok r ∧
      r.state.cwd = atRoot.cwd ∧ r.state.curr_directory ≠ atRoot.curr_directory ∧
      ¬ Names r.state :=
  ⟨atRoot_tracks, _, rfl, rfl, by decide, by decide⟩

end OSPortfolio.Ish
