import OSPortfolio.Ish.ChangeDir

namespace OSPortfolio.Ish

open OSPortfolio.PathNames

/-!
# Normalising the working directory

`FixDirPath` keeps the components of a path on a stack, with `counter` as its height.  A `..`
takes one off without looking whether there is one, so above the root `counter` is negative,
and the next name goes to `tokens[-1]`.

* `FixesPath` — what should be in `curr_directory` afterwards;
* `staysBelow_of_foldlM` — a loop that stays inside `tokens` never has a name above the root;
* `fixesPath_iff` — **which paths are normalised**;
* `fixDirPath_overflow_iff` — **which paths do not fit** when they are written again.
-/

/-- No access out of a buffer, and then the path with the components that are left, where a
    `..` takes the last one kept away, and nothing if none is kept. -/
def FixesPath (curr_directory : String) : Prop :=
  ∃ b, fixDirPath curr_directory = .ok b ∧
    b.text = spelled (collapse ".." [] (pathNames curr_directory)).reverse

/-- A loop that goes through has met no name with a negative `counter`. -/
theorem staysBelow_of_foldlM {t t' : Tokens} {cs : List String}
    (h : cs.foldlM Tokens.next t = .ok t') :
    ∀ before c after, cs = before ++ c :: after → c ≠ ".." →
      2 * (before.count ".." : Int) ≤ t.counter + before.length := by
  induction cs generalizing t with
  | nil => exact fun before c after heq => absurd heq (by simp)
  | cons d cs ih =>
    intro before c after heq hc
    rw [List.foldlM_cons] at h
    obtain ⟨t₁, hnext, hrest⟩ := bind_eq_ok h
    rw [Tokens.next] at hnext
    by_cases hup : d = ".."
    · rw [if_pos hup] at hnext
      obtain rfl := Except.ok.inj hnext
      cases before with
      | nil => exact absurd (hup ▸ (List.cons.inj heq).1.symm) hc
      | cons b before =>
        obtain ⟨rfl, htail⟩ := List.cons.inj heq
        have hle := ih hrest before c after htail hc
        rw [hup, List.count_cons_self, List.length_cons]
        simp only at hle
        omega
    · rw [if_neg hup] at hnext
      by_cases hindex : t.counter < 0 ∨ (WORD_SIZE : Int) ≤ t.counter
      · rw [if_pos hindex] at hnext
        cases hnext
      · rw [if_neg hindex] at hnext
        obtain ⟨copy, -, heq'⟩ := bind_eq_ok hnext
        obtain rfl := Except.ok.inj heq'
        cases before with
        | nil =>
          simp only [List.count_nil, List.length_nil]
          omega
        | cons b before =>
          obtain ⟨rfl, htail⟩ := List.cons.inj heq
          have hle := ih hrest before c after htail hc
          rw [List.count_cons_of_ne hup, List.length_cons]
          simp only at hle
          omega

/-- **Which paths are normalised.**  For a path that fits the buffer it is those in which no
    name comes after more `..` than names, and that also fit with a single `/` in front of and
    behind each component, or have a `..`. -/
theorem fixesPath_iff {p : String} (hp : fitsWord p = true) :
    FixesPath p ↔ StaysBelow ".." 0 (pathNames p) ∧
      (fitsWord (spelled (pathNames p)) = true ∨ ".." ∈ pathNames p) := by
  constructor
  · rintro ⟨b, hb, htext⟩
    constructor
    · unfold fixDirPath at hb
      obtain ⟨t, hfold, -⟩ := bind_eq_ok hb
      intro before c after heq hc
      have hle := staysBelow_of_foldlM hfold before c after heq hc
      simp only at hle
      omega
    · by_cases hup : ".." ∈ pathNames p
      · exact Or.inr hup
      · -- without a `..` every component is written again
        rw [collapse_of_notMem hup, List.append_nil, List.reverse_reverse] at htext
        exact Or.inl (htext ▸ b.fits)
  · rintro ⟨hbelow, hfits⟩
    -- no component is empty, so none is taken for the one that stays
    have hempty : "" ∉ pathNames p := fun hmem => (mem_pathNames hmem).1 rfl
    have hremoves : RemovesNames "" ".." [] (pathNames p) :=
      (staysBelow_iff List.not_mem_nil hempty).mpr hbelow
    exact ⟨_, fixDirPath_eq hp hremoves (fitsWord_collapse hp hfits), rfl⟩

/-- `/a/./../b` stays below the root, `.` is a name here. -/
theorem fixesPath_iff_dot : FixesPath "/a/./../b" ↔ StaysBelow ".." 0 (pathNames "/a/./../b") ∧
    (fitsWord (spelled (pathNames "/a/./../b")) = true ∨ ".." ∈ pathNames "/a/./../b") :=
  fixesPath_iff (by decide)

/-- `cd /../usr` writes the name to `tokens[-1]`. -/
theorem above_root_outside :
    fixDirPath "/../usr" = .error (.index (-1)) ∧ ¬ FixesPath "/../usr" := by
  have hfault : fixDirPath "/../usr" = .error (.index (-1)) := rfl
  refine ⟨hfault, ?_⟩
  rintro ⟨b, hb, -⟩
  rw [hfault] at hb
  cases hb

/-! ### Texts that are too long -/

theorem strcpy_error {s : String} {e : BufferFault} (h : strcpy s = .error e) :
    e = .overflow ∧ fitsWord s = false := by
  unfold strcpy at h
  split at h
  · cases h
  · exact ⟨(Except.error.inj h).symm, by simpa using ‹¬ fitsWord s = true›⟩

/-- The loop over tokens that fit can only run into an index. -/
theorem foldlM_next_error {cs : List String} (hfits : ∀ c ∈ cs, fitsWord c = true) {t : Tokens}
    {e : BufferFault} (h : cs.foldlM Tokens.next t = .error e) : e ≠ .overflow := by
  induction cs generalizing t with
  | nil => cases h
  | cons c cs ih =>
    obtain ⟨hc, hcs⟩ := List.forall_mem_cons.mp hfits
    rw [List.foldlM_cons] at h
    cases hnext : t.next c with
    | ok t' =>
      rw [hnext] at h
      exact ih hcs h
    | error e' =>
      rw [hnext] at h
      obtain rfl := Except.error.inj h
      rw [Tokens.next] at hnext
      split at hnext
      · cases hnext
      · split at hnext
        · obtain rfl := Except.error.inj hnext
          simp
        · rw [strcpy_ok (b := ⟨c, hc⟩) rfl] at hnext
          cases hnext

/-- The loop that writes the tokens writes each with a `/` after it, or a text is too long. -/
theorem foldlM_strcat_cases (names : List String) (d : Buffer) :
    names.foldlM (fun d name => do
        let d ← strcat d name
        strcat d "/") d = .error .overflow ∨
      ∃ b, names.foldlM (fun d name => do
        let d ← strcat d name
        strcat d "/") d = .ok b ∧
        b.text = d.text ++ String.ofList ((names.map String.toList).flatMap (· ++ ['/'])) := by
  induction names generalizing d with
  | nil => exact Or.inr ⟨d, rfl, by simp⟩
  | cons n ns ih =>
    rw [List.foldlM_cons]
    cases hname : strcat d n with
    | error e =>
      obtain ⟨rfl, -⟩ := strcpy_error hname
      exact Or.inl rfl
    | ok d₁ =>
      show ((strcat d₁ "/").bind _) = _ ∨ ∃ b, ((strcat d₁ "/").bind _) = _ ∧ _
      cases hslash : strcat d₁ "/" with
      | error e =>
        obtain ⟨rfl, -⟩ := strcpy_error hslash
        exact Or.inl rfl
      | ok d₂ =>
        rcases ih d₂ with hover | ⟨b, hb, htext⟩
        · exact Or.inl hover
        · refine Or.inr ⟨b, hb, ?_⟩
          rw [htext, text_of_strcpy hslash, text_of_strcpy hname, ← String.toList_inj]
          simp

/-- **Which paths are too long** for the buffer they came from, when they are written again. -/
theorem fixDirPath_overflow_iff {p : String} (hp : fitsWord p = true) :
    fixDirPath p = .error .overflow ↔
      fitsWord (spelled (pathNames p)) = false ∧ ".." ∉ pathNames p := by
  have hempty : "" ∉ pathNames p := fun hmem => (mem_pathNames hmem).1 rfl
  have hnames : ∀ c ∈ pathNames p, fitsWord c = true := fun c hc => fitsWord_of_mem_pathNames hp hc
  by_cases hup : ".." ∈ pathNames p
  · -- with a `..` what is kept fits, so only an index can be wrong
    refine iff_of_false (fun hover => ?_) (fun h => h.2 hup)
    cases hfold : (pathNames p).foldlM Tokens.next { tokens := fun _ => "", counter := 0 } with
    | error e =>
      have hstop : fixDirPath p = .error e := by unfold fixDirPath; rw [hfold]; rfl
      exact foldlM_next_error hnames hfold (Except.error.inj (hstop.symm.trans hover))
    | ok t =>
      have hremoves : RemovesNames "" ".." [] (pathNames p) :=
        (staysBelow_iff List.not_mem_nil hempty).mpr fun before c after heq hc => by
          have hle := staysBelow_of_foldlM hfold before c after heq hc
          simp only at hle
          omega
      rw [fixDirPath_eq hp hremoves (fitsWord_collapse hp (Or.inr hup))] at hover
      cases hover
  · have hremoves : RemovesNames "" ".." [] (pathNames p) :=
      (staysBelow_iff List.not_mem_nil hempty).mpr (staysBelow_of_notMem hup 0)
    by_cases hfits : fitsWord (spelled (pathNames p)) = true
    · rw [fixDirPath_eq hp hremoves (fitsWord_collapse hp (Or.inl hfits))]
      exact iff_of_false (fun h => by cases h)
        (fun h => by rw [hfits] at h; exact absurd h.1 (by simp))
    · refine iff_of_true ?_ ⟨by simpa using hfits, hup⟩
      have hroom : (pathNames p).length ≤ WORD_SIZE := by
        have hlen := length_pathNames_le p
        have hsize : p.utf8ByteSize < WORD_SIZE := by simpa [fitsWord] using hp
        omega
      have hstart : Holds { tokens := fun _ => "", counter := 0 } [] := ⟨rfl, rfl⟩
      obtain ⟨t, hfold, htokens⟩ := foldlM_next hstart hremoves (by simpa using hroom) hnames
      rw [collapse_of_notMem hup, List.append_nil, List.reverse_reverse] at htokens
      have hwrite := foldlM_strcat_cases ((List.range t.counter.toNat).map t.tokens)
        ⟨"/", by decide⟩
      rw [List.foldlM_map] at hwrite
      rw [fixDirPath, hfold]
      rcases hwrite with hover | ⟨b, -, htext⟩
      · exact hover
      · -- a text that was written fits
        rw [htokens] at htext
        have hspelled : b.text = spelled (pathNames p) := by
          rw [htext, spelled, spell, ← String.toList_inj]
          simp
        exact absurd (hspelled ▸ b.fits) hfits

end OSPortfolio.Ish
