import Mathlib.Algebra.BigOperators.Group.List.Basic
import Mathlib.Algebra.Order.BigOperators.Group.List
import Mathlib.Algebra.Order.Ring.Nat
import Mathlib.Data.List.TakeWhile

namespace OSPortfolio.PathNames

/-!
# Path names

A path is a list of characters, and its components are its nonempty pieces between
separators.  This file reads paths in the two ways a program meets them.

* `components`, `spell` — the components of a path, and the path with given components, each
  followed by a separator; `components_spell` is the round trip;
* `strtok` — one call of the library function; a loop of calls meets the components in turn;
* `walk` — what a kernel does with the components in a file system without symbolic links:
  `here` stays, `up` goes to the parent, and the parent of the root is the root;
* `collapse` — what a textual normalisation does: `up` removes the component before it,
  whatever that is, and any other component is kept;
* `RemovesNames` — no `up` removes a `here`, and at the root nothing but `up` follows an `up`;
* `walk_collapse` — under that condition the collapsed path walks to the same directory;
* `StaysBelow`, `staysBelow_iff` — no name comes after more `up` than names;
* `cost_collapse_le`, `cost_components_le` — a collapsed path is not longer.

A directory is the list of the names on the way to it, the innermost first.
-/

universe u v

/-! ### Components -/

/-- `dropWhile` stops at an item that it is not to drop. -/
theorem not_of_dropWhile {α : Type u} {p : α → Bool} {l cs : List α} {c : α}
    (h : l.dropWhile p = c :: cs) : p c = false := by
  have hhead := List.head_dropWhile_not p (l := l) (by simp [h])
  simpa only [h, List.head_cons] using hhead

section Components

variable {α : Type u} [DecidableEq α] (sep : α)

/-- The nonempty pieces of a path between its separators. -/
def components (p : List α) : List (List α) := (p.splitOn sep).filter (· ≠ [])

/-- The path with the components `ns`, each followed by a separator. -/
def spell (ns : List (List α)) : List α := sep :: ns.flatMap (· ++ [sep])

@[simp] theorem components_nil : components sep [] = [] := by
  simp [components]

theorem components_append_sep (p q : List α) :
    components sep (p ++ sep :: q) = components sep p ++ components sep q := by
  unfold components
  rw [List.splitOn_append_cons_self, List.filter_append]

@[simp] theorem components_sep_cons (q : List α) :
    components sep (sep :: q) = components sep q := by
  simpa using components_append_sep sep [] q

@[simp] theorem components_concat_sep (p : List α) :
    components sep (p ++ [sep]) = components sep p := by
  simpa using components_append_sep sep p []

/-- A nonempty piece without a separator is its own component. -/
theorem components_of_notMem {n : List α} (hne : n ≠ []) (hsep : sep ∉ n) :
    components sep n = [n] := by
  unfold components
  rw [List.splitOn_eq_singleton hsep]
  simp [hne]

/-- No piece of a path contains the separator. -/
theorem notMem_of_mem_splitOn (p : List α) : ∀ n ∈ p.splitOn sep, sep ∉ n := by
  induction p with
  | nil => simp
  | cons c p ih =>
    rw [List.splitOn_cons_eq_if_modifyHead]
    by_cases hc : c = sep
    · rw [if_pos (beq_iff_eq.mpr hc)]
      intro n hn
      rcases List.mem_cons.mp hn with rfl | hn
      · exact List.not_mem_nil
      · exact ih n hn
    · rw [if_neg (by simpa using hc)]
      -- the character joins the first piece, and the other pieces stay
      cases hpieces : p.splitOn sep with
      | nil => simp
      | cons first rest =>
        rw [hpieces] at ih
        intro n hn
        rcases List.mem_cons.mp hn with rfl | hn
        · simpa [Ne.symm hc] using ih first List.mem_cons_self
        · exact ih n (List.mem_cons_of_mem _ hn)

/-- A component is not empty and has no separator in it. -/
theorem mem_components {p n : List α} (h : n ∈ components sep p) : n ≠ [] ∧ sep ∉ n := by
  obtain ⟨hmem, hne⟩ := List.mem_filter.mp h
  exact ⟨by simpa using hne, notMem_of_mem_splitOn sep p n hmem⟩

/-- **Round trip.** The components of a spelled path. -/
theorem components_spell {ns : List (List α)} (h : ∀ n ∈ ns, n ≠ [] ∧ sep ∉ n) :
    components sep (spell sep ns) = ns := by
  unfold spell
  rw [components_sep_cons]
  induction ns with
  | nil => simp
  | cons n ns ih =>
    obtain ⟨hne, hsep⟩ := h n List.mem_cons_self
    rw [List.flatMap_cons, List.append_assoc, List.singleton_append, components_append_sep,
      components_of_notMem sep hne hsep, ih fun m hm => h m (List.mem_cons_of_mem _ hm)]
    rfl

/-- One call of `strtok`: the separators in front are skipped, and the token ends at the next
    one, which is skipped too.  Returns the token and what is left for the next call. -/
def strtok (s : List α) : Option (List α × List α) :=
  match s.dropWhile (· = sep) with
  | [] => none
  | c :: cs => some ((c :: cs).takeWhile (· ≠ sep), ((c :: cs).dropWhile (· ≠ sep)).tail)

/-- Leading separators do not matter. -/
theorem components_dropWhile (s : List α) :
    components sep (s.dropWhile (· = sep)) = components sep s := by
  induction s with
  | nil => rfl
  | cons c s ih =>
    by_cases hc : c = sep
    · rw [List.dropWhile_cons_of_pos (by simpa using hc), ih, hc, components_sep_cons]
    · rw [List.dropWhile_cons_of_neg (by simpa using hc)]

/-- There is no token in a text without components. -/
theorem components_of_strtok_none {s : List α} (h : strtok sep s = none) :
    components sep s = [] := by
  rw [← components_dropWhile]
  unfold strtok at h
  split at h
  · rename_i hdrop
    rw [hdrop, components_nil]
  · exact absurd h (by simp)

/-- A token is the first component, and the others are left. -/
theorem components_of_strtok {s token rest : List α} (h : strtok sep s = some (token, rest)) :
    components sep s = token :: components sep rest := by
  rw [← components_dropWhile]
  unfold strtok at h
  split at h
  · exact absurd h (by simp)
  · rename_i c cs hdrop
    obtain ⟨rfl, rfl⟩ := Prod.mk.inj (Option.some.inj h)
    have hc : c ≠ sep := by simpa using not_of_dropWhile hdrop
    have hne : (c :: cs).takeWhile (· ≠ sep) ≠ [] := by
      rw [List.takeWhile_cons_of_pos (by simpa using hc)]
      exact List.cons_ne_nil _ _
    have hsep : sep ∉ (c :: cs).takeWhile (· ≠ sep) := fun hmem => by
      simpa using List.mem_takeWhile_imp hmem
    have hspan := List.takeWhile_append_dropWhile (p := (· ≠ sep)) (l := c :: cs)
    rw [hdrop]
    cases hrest : (c :: cs).dropWhile (· ≠ sep) with
    | nil =>
      -- the token goes to the end of the text
      rw [hrest, List.append_nil] at hspan
      rw [List.tail_nil, components_nil, hspan]
      exact components_of_notMem sep (List.cons_ne_nil _ _) (hspan ▸ hsep)
    | cons d rest =>
      obtain rfl : d = sep := by simpa using not_of_dropWhile hrest
      rw [hrest] at hspan
      rw [← hspan, components_append_sep, components_of_notMem d hne hsep, hspan]
      rfl

/-- Less is left after each call. -/
theorem length_strtok {s token rest : List α} (h : strtok sep s = some (token, rest)) :
    rest.length < s.length := by
  unfold strtok at h
  split at h
  · exact absurd h (by simp)
  · rename_i c cs hdrop
    obtain ⟨-, rfl⟩ := Prod.mk.inj (Option.some.inj h)
    have hs : (c :: cs).length ≤ s.length := hdrop ▸ (List.dropWhile_sublist _).length_le
    have hrest : ((c :: cs).dropWhile (· ≠ sep)).length ≤ (c :: cs).length :=
      (List.dropWhile_sublist _).length_le
    rw [List.length_cons] at hs hrest
    rw [List.length_tail]
    omega

/-! ### Sizes -/

/-- What a list costs, item by item. -/
def cost {β : Type v} (w : β → Nat) (l : List β) : Nat := (l.map w).sum

@[simp] theorem cost_nil {β : Type v} (w : β → Nat) : cost w [] = 0 := rfl

@[simp] theorem cost_cons {β : Type v} (w : β → Nat) (b : β) (l : List β) :
    cost w (b :: l) = w b + cost w l := by simp [cost]

@[simp] theorem cost_append {β : Type v} (w : β → Nat) (l m : List β) :
    cost w (l ++ m) = cost w l + cost w m := by simp [cost]

@[simp] theorem cost_reverse {β : Type v} (w : β → Nat) (l : List β) :
    cost w l.reverse = cost w l := by simp [cost]

/-- The components with a separator after each cost at most one separator more than the
    path. -/
theorem cost_components_le (w : α → Nat) (hsep : w sep = 1) (p : List α) :
    cost (fun n => cost w n + 1) (components sep p) ≤ cost w p + 1 := by
  have hpieces : cost (fun n => cost w n + 1) (p.splitOn sep) = cost w p + 1 := by
    induction p with
    | nil => simp
    | cons c p ih =>
      rw [List.splitOn_cons_eq_if_modifyHead]
      by_cases hc : c = sep
      · rw [if_pos (beq_iff_eq.mpr hc), cost_cons, cost_cons, ih, hc, hsep]
        simp only [cost_nil]
        omega
      · rw [if_neg (by simpa using hc)]
        cases hsplit : p.splitOn sep with
        | nil => exact absurd hsplit (List.splitOn_ne_nil sep p)
        | cons first rest =>
          rw [hsplit, cost_cons] at ih
          simp only [List.modifyHead_cons, cost_cons]
          omega
  rw [← hpieces]
  exact (List.filter_sublist.map _).sum_le_sum fun _ _ => Nat.zero_le _

end Components

/-! ### Walking and collapsing -/

section Walk

variable {ν : Type v} [DecidableEq ν] (here up : ν)

/-- One component of a walk. -/
def enter (dir : List ν) (c : ν) : List ν :=
  if c = here then dir else if c = up then dir.tail else c :: dir

/-- Where the components lead from the directory `dir`. -/
def walk (dir cs : List ν) : List ν := cs.foldl (enter here up) dir

/-- One component of a textual normalisation. -/
def keep (kept : List ν) (c : ν) : List ν := if c = up then kept.tail else c :: kept

/-- The components a textual normalisation keeps, innermost first. -/
def collapse (kept cs : List ν) : List ν := cs.foldl (keep up) kept

/-- Over the components `kept`, no `up` removes a `here`, and an `up` with nothing to remove
    is followed by nothing but `up`. -/
def RemovesNames : List ν → List ν → Prop
  | _, [] => True
  | kept, c :: cs =>
    if c = up then
      match kept with
      | [] => ∀ d ∈ cs, d = up
      | top :: below => top ≠ here ∧ RemovesNames below cs
    else RemovesNames (c :: kept) cs

instance RemovesNames.decidable :
    (kept cs : List ν) → Decidable (RemovesNames here up kept cs)
  | _, [] => isTrue trivial
  | [], c :: cs =>
    have := RemovesNames.decidable [c] cs
    inferInstanceAs (Decidable (if c = up then ∀ d ∈ cs, d = up
      else RemovesNames here up [c] cs))
  | top :: below, c :: cs =>
    have := RemovesNames.decidable below cs
    have := RemovesNames.decidable (c :: top :: below) cs
    inferInstanceAs (Decidable (if c = up then top ≠ here ∧ RemovesNames here up below cs
      else RemovesNames here up (c :: top :: below) cs))

@[simp] theorem walk_nil (dir : List ν) : walk here up dir [] = dir := rfl

@[simp] theorem walk_cons (dir : List ν) (c : ν) (cs : List ν) :
    walk here up dir (c :: cs) = walk here up (enter here up dir c) cs := rfl

theorem walk_append (dir cs ds : List ν) :
    walk here up dir (cs ++ ds) = walk here up (walk here up dir cs) ds :=
  List.foldl_append

@[simp] theorem collapse_nil (kept : List ν) : collapse up kept [] = kept := rfl

@[simp] theorem collapse_cons (kept : List ν) (c : ν) (cs : List ν) :
    collapse up kept (c :: cs) = collapse up (keep up kept c) cs := rfl

variable {here up}

/-- From the root, `up` leads to the root. -/
theorem walk_root_of_forall_up (hne : here ≠ up) {cs : List ν} (h : ∀ c ∈ cs, c = up) :
    walk here up [] cs = [] := by
  induction cs with
  | nil => rfl
  | cons c cs ih =>
    obtain ⟨rfl, hcs⟩ := List.forall_mem_cons.mp h
    rw [walk_cons, enter, if_neg hne.symm, if_pos rfl]
    exact ih hcs

/-- If all components go up, a textual normalisation keeps none. -/
theorem collapse_nil_of_forall_up {cs : List ν} (h : ∀ c ∈ cs, c = up) :
    collapse up [] cs = [] := by
  induction cs with
  | nil => rfl
  | cons c cs ih =>
    obtain ⟨rfl, hcs⟩ := List.forall_mem_cons.mp h
    rw [collapse_cons, keep, if_pos rfl]
    exact ih hcs

/-- **A collapsed path leads to the same directory**, if every `up` removed a name. -/
theorem walk_collapse (hne : here ≠ up) {kept cs : List ν} (hkept : up ∉ kept)
    (h : RemovesNames here up kept cs) :
    walk here up [] (collapse up kept cs).reverse =
      walk here up (walk here up [] kept.reverse) cs := by
  induction cs generalizing kept with
  | nil => rfl
  | cons c cs ih =>
    rw [collapse_cons, walk_cons]
    unfold RemovesNames at h
    by_cases hc : c = up
    · rw [if_pos hc] at h
      rw [keep, if_pos hc]
      cases kept with
      | nil =>
        rw [hc, enter, if_neg hne.symm, if_pos rfl]
        show walk here up [] (collapse up [] cs).reverse = walk here up [] cs
        rw [collapse_nil_of_forall_up h, walk_root_of_forall_up hne h]
        rfl
      | cons top below =>
        obtain ⟨htop, hrest⟩ := h
        have hbelow : up ∉ below := fun hmem => hkept (List.mem_cons_of_mem _ hmem)
        have hup : top ≠ up := fun heq => hkept (heq ▸ List.mem_cons_self)
        -- the name on top is the innermost directory, and `up` leaves it
        have hleave : enter here up (walk here up [] (top :: below).reverse) c =
            walk here up [] below.reverse := by
          rw [List.reverse_cons, walk_append, walk_cons, walk_nil]
          simp [enter, htop, hup, hc, hne.symm]
        rw [hleave]
        exact ih hbelow hrest
    · rw [if_neg hc] at h
      rw [keep, if_neg hc, ih (by simp [hkept, Ne.symm hc]) h, List.reverse_cons, walk_append]
      rfl

/-- No component but an `up` comes after more `up` than other components, with `n` of these in
    front of all. -/
def StaysBelow (up : ν) (n : Nat) (cs : List ν) : Prop :=
  ∀ before c after, cs = before ++ c :: after → c ≠ up →
    2 * before.count up ≤ n + before.length

/-- A component that goes up takes one of the `n` in front. -/
theorem staysBelow_cons_up (n : Nat) (cs : List ν) :
    StaysBelow up (n + 1) (up :: cs) ↔ StaysBelow up n cs := by
  constructor
  · intro h before c after heq hc
    have hle := h (up :: before) c after (by rw [heq]; rfl) hc
    rw [List.count_cons_self, List.length_cons] at hle
    omega
  · intro h before c after heq hc
    cases before with
    | nil => exact Nat.zero_le _
    | cons b before =>
      obtain ⟨rfl, htail⟩ := List.cons.inj heq
      have hle := h before c after htail hc
      rw [List.count_cons_self, List.length_cons]
      omega

/-- A name adds one. -/
theorem staysBelow_cons_name {c : ν} (hname : c ≠ up) (n : Nat) (cs : List ν) :
    StaysBelow up n (c :: cs) ↔ StaysBelow up (n + 1) cs := by
  constructor
  · intro h before d after heq hd
    have hle := h (c :: before) d after (by rw [heq]; rfl) hd
    rw [List.count_cons_of_ne hname, List.length_cons] at hle
    omega
  · intro h before d after heq hd
    cases before with
    | nil => exact Nat.zero_le _
    | cons b before =>
      obtain ⟨rfl, htail⟩ := List.cons.inj heq
      have hle := h before d after htail hd
      rw [List.count_cons_of_ne hname, List.length_cons]
      omega

/-- Without an `up` nothing comes after one. -/
theorem staysBelow_of_notMem {cs : List ν} (h : up ∉ cs) (n : Nat) : StaysBelow up n cs := by
  rintro before c after rfl -
  have hbefore : up ∉ before := fun hmem => h (List.mem_append_left _ hmem)
  rw [List.count_eq_zero_of_not_mem hbefore]
  exact Nat.zero_le _

/-- Behind an `up` at the root there may only be more of them. -/
theorem staysBelow_zero_up (cs : List ν) :
    StaysBelow up 0 (up :: cs) ↔ ∀ c ∈ cs, c = up := by
  constructor
  · intro h c hc
    by_contra hne
    -- the first component that is no `up` has only `up` in front
    have hsplit := List.takeWhile_append_dropWhile (p := (· = up)) (l := cs)
    cases hdrop : cs.dropWhile (· = up) with
    | nil => exact hne (by simpa using List.dropWhile_eq_nil_iff.mp hdrop c hc)
    | cons d after =>
      have hname : d ≠ up := by simpa using not_of_dropWhile hdrop
      have hups : (cs.takeWhile (· = up)).count up = (cs.takeWhile (· = up)).length := by
        rw [List.count_eq_length]
        intro b hb
        simpa [eq_comm] using List.mem_takeWhile_imp hb
      have hle := h (up :: cs.takeWhile (· = up)) d after
        (by rw [List.cons_append, ← hdrop, hsplit]) hname
      rw [List.count_cons_self, List.length_cons, hups] at hle
      omega
  · intro hall before c after heq hc
    cases before with
    | nil => exact Nat.zero_le _
    | cons b before =>
      obtain ⟨-, htail⟩ := List.cons.inj heq
      exact absurd (hall c (by rw [htail]; simp)) hc

/-- A path that has no `here` stays below the root exactly if every `up` removes a name or is
    followed by nothing but `up`. -/
theorem staysBelow_iff {kept cs : List ν} (hkept : here ∉ kept) (hcs : here ∉ cs) :
    RemovesNames here up kept cs ↔ StaysBelow up kept.length cs := by
  induction cs generalizing kept with
  | nil => exact iff_of_true trivial fun before c after h => absurd h (by simp)
  | cons c cs ih =>
    have hcs' : here ∉ cs := fun h => hcs (List.mem_cons_of_mem c h)
    have hc : here ≠ c := fun h => hcs (h ▸ List.mem_cons_self)
    unfold RemovesNames
    by_cases hup : c = up
    · rw [if_pos hup, hup]
      cases kept with
      | nil => exact (staysBelow_zero_up cs).symm
      | cons top below =>
        have htop : top ≠ here := fun h => hkept (h ▸ List.mem_cons_self)
        have hbelow : here ∉ below := fun h => hkept (List.mem_cons_of_mem top h)
        rw [List.length_cons, staysBelow_cons_up, ← ih hbelow hcs']
        exact and_iff_right htop
    · rw [if_neg hup, ih (by simp [hkept, hc]) hcs', staysBelow_cons_name hup]
      rfl

/-- Without an `up` everything is kept. -/
theorem collapse_of_notMem {kept cs : List ν} (h : up ∉ cs) :
    collapse up kept cs = cs.reverse ++ kept := by
  induction cs generalizing kept with
  | nil => rfl
  | cons c cs ih =>
    have hc : c ≠ up := fun heq => h (heq ▸ List.mem_cons_self)
    rw [collapse_cons, keep, if_neg hc, ih fun hmem => h (List.mem_cons_of_mem c hmem)]
    simp

/-- What is kept costs what the path costs, less one `up` for each `up`. -/
theorem cost_collapse_le (w : ν → Nat) (kept cs : List ν) :
    cost w (collapse up kept cs) + cs.count up * w up ≤ cost w kept + cost w cs := by
  induction cs generalizing kept with
  | nil => simp
  | cons c cs ih =>
    have h := ih (keep up kept c)
    rw [collapse_cons, cost_cons]
    by_cases hc : c = up
    · subst hc
      have htail : cost w kept.tail ≤ cost w kept := by cases kept <;> simp
      rw [keep, if_pos rfl] at h ⊢
      rw [List.count_cons_self, Nat.add_mul]
      omega
    · rw [keep, if_neg hc, cost_cons] at h
      rw [keep, if_neg hc, List.count_cons_of_ne hc]
      omega

/-- Nothing is kept that was not there. -/
theorem mem_of_mem_collapse {kept cs : List ν} {n : ν} (h : n ∈ collapse up kept cs) :
    n ∈ kept ∨ n ∈ cs := by
  induction cs generalizing kept with
  | nil => exact Or.inl h
  | cons c cs ih =>
    rw [collapse_cons] at h
    rcases ih h with hk | hcs
    · unfold keep at hk
      by_cases hc : c = up
      · rw [if_pos hc] at hk
        exact Or.inl (List.mem_of_mem_tail hk)
      · rw [if_neg hc] at hk
        rcases List.mem_cons.mp hk with rfl | hk
        · exact Or.inr List.mem_cons_self
        · exact Or.inl hk
    · exact Or.inr (List.mem_cons_of_mem _ hcs)

end Walk

end OSPortfolio.PathNames
