import OSPortfolio.Ish.ChangeDir
import OSPortfolio.Ish.Parser

namespace OSPortfolio.Ish

/-!
# The indexes of `cd`

For a relative argument `func_cd` looks at the last character of `update_path`, the one at
`str_length - 1`, and puts a `/` behind it if it is another one.  A quoted empty argument has no
last character.

* `cdIndexes` — the indexes into `update_path`;
* `CdInside` — they are indexes of the buffer, and the path is the one that the argument stands
  for;
* `filePath_index_iff` — `filePath` faults exactly at an index outside;
* `cdInside_iff` — **all goes well exactly for the arguments that are not empty**.
-/

/-- The indexes that `func_cd` uses into `update_path` for an argument: for the last character,
    and for the `/` behind it. -/
def cdIndexes (arg : String) : List Int :=
  if Absolute arg then []
  else
    let str_length : Int := arg.utf8ByteSize
    (str_length - 1) :: if Closed arg then [] else [str_length]

/-- The index is one of a buffer. -/
def InBuffer (i : Int) : Prop := 0 ≤ i ∧ i ≤ (WORD_SIZE : Int) - 1

instance (i : Int) : Decidable (InBuffer i) := inferInstanceAs (Decidable (_ ∧ _))

/-- Every index is one of the buffer, and the path for `chdir` is, for a relative argument,
    `curr_directory` with the argument and a `/` if that does not end in one. -/
structure CdInside (s : DirState) (arg : String) : Prop where
  indexes : ∀ i ∈ cdIndexes arg, InBuffer i
  path : ∃ file_path, filePath s.curr_directory arg = .ok file_path ∧
    (¬ Absolute arg → file_path.text =
      s.curr_directory.text ++ if Closed arg then arg else arg ++ "/")

theorem utf8ByteSize_pos {s : String} (h : s ≠ "") : 0 < s.utf8ByteSize := by
  rw [Nat.pos_iff_ne_zero, ne_eq, String.utf8ByteSize_eq_zero_iff]
  exact h

/-- The indexes for an argument that fits with its `/`. -/
theorem inBuffer_of_mem_cdIndexes {arg : String} (hne : arg ≠ "")
    (hfits : fitsWord (if Closed arg then arg else arg ++ "/") = true) :
    ∀ i ∈ cdIndexes arg, InBuffer i := by
  have hpos := utf8ByteSize_pos hne
  intro i hi
  rw [cdIndexes] at hi
  by_cases habs : Absolute arg
  · rw [if_pos habs] at hi
    exact absurd hi List.not_mem_nil
  · rw [if_neg habs] at hi
    dsimp only at hi
    by_cases hclosed : Closed arg
    · rw [if_pos hclosed] at hi hfits
      simp only [fitsWord, decide_eq_true_eq] at hfits
      obtain rfl := List.mem_singleton.mp hi
      exact ⟨by omega, by omega⟩
    · rw [if_neg hclosed] at hi hfits
      have hslash : "/".utf8ByteSize = 1 := rfl
      simp only [fitsWord, decide_eq_true_eq, String.utf8ByteSize_append, hslash] at hfits
      rcases List.mem_cons.mp hi with rfl | hi
      · exact ⟨by omega, by omega⟩
      · obtain rfl := List.mem_singleton.mp hi
        exact ⟨by omega, by omega⟩

/-- `filePath` faults at an index exactly if one of `cdIndexes` is outside of the buffer, as long
    as the path fits. -/
theorem filePath_index_iff {s : DirState} {arg : String}
    (hfits : fitsWord (cdPath s arg) = true) :
    (∃ i, filePath s.curr_directory arg = .error (.index i)) ↔
      ∃ i ∈ cdIndexes arg, ¬ InBuffer i := by
  by_cases hne : arg = ""
  · subst hne
    exact iff_of_true ⟨-1, filePath_empty _⟩ ⟨-1, by decide, by decide⟩
  · rw [filePath_eq hne hfits]
    refine iff_of_false (by simp) ?_
    rintro ⟨i, hi, hout⟩
    by_cases habs : Absolute arg
    · rw [cdIndexes, if_pos habs] at hi
      exact absurd hi List.not_mem_nil
    · rw [cdPath, if_neg habs] at hfits
      exact hout (inBuffer_of_mem_cdIndexes hne (fitsWord_of_append hfits).2 i hi)

/-- **Which arguments of `cd` are handled inside the buffer.**  For every directory and every
    argument that fit together, those that are not empty. -/
theorem cdInside_iff {s : DirState} {arg : String} (hfits : fitsWord (cdPath s arg) = true) :
    CdInside s arg ↔ arg ≠ "" := by
  constructor
  · rintro h rfl
    exact absurd (h.indexes (-1) (by decide)) (by decide)
  · intro hne
    refine ⟨?_, _, filePath_eq hne hfits, fun habs => if_neg habs⟩
    by_contra hout
    push Not at hout
    obtain ⟨i, hi⟩ := (filePath_index_iff hfits).mpr hout
    rw [filePath_eq hne hfits] at hi
    cases hi

/-- `cd src//` from `/`. -/
theorem cdInside_src : CdInside atRoot "src//" :=
  (cdInside_iff (by decide)).mpr (by decide)

/-- The line `cd ""` is read as a `cd` with an empty argument, and `update_path[-1]` is looked
    at. -/
theorem cd_empty_outside :
    nextCommand (resetParser .INITIAL ['c', 'd', ' ', '"', '"', '\n']) =
        (cdCommand [""], false, ⟨.INITIAL, []⟩) ∧
      fitsWord (cdPath atRoot "") = true ∧ cdIndexes "" = [-1, 0] ∧ ¬ CdInside atRoot "" := by
  refine ⟨by decide, by decide, by decide, fun h => ?_⟩
  exact absurd (h.indexes (-1) (by decide)) (by decide)

end OSPortfolio.Ish
