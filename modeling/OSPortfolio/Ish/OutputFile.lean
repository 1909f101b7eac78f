import OSPortfolio.Lib.Files
import OSPortfolio.Ish.BuiltIn

namespace OSPortfolio.Ish

open OSPortfolio.Posix

/-!
# What an output redirect leaves in its file

`func_IORedirection` puts the flags of `open` together branch by branch.  None of them
truncates the file, and an appending redirect does not create it.

* `FileType.requested` — what the file should contain afterwards;
* `MeetsOutput` — the file opens and contains that after the writes of the command;
* `OutputGuard` — an overwritten file is not longer than the output, and one that is appended
  to is there;
* `funcIORedirection_opened` — the descriptor that is handed back is the file's;
* `meetsOutput_iff` — **the file contains what it should exactly when `OutputGuard` holds**.
-/

/-- What a file with the contents `s` should contain after `bytes` have been written to it
    through a redirect. -/
def FileType.requested (t : FileType) (s bytes : List UInt8) : List UInt8 :=
  match t with
  | .REDIRECT_IN => s
  | .REDIRECT_OUT => bytes
  | .REDIRECT_ERROR => bytes
  | .APPEND => s ++ bytes
  | .APPEND_ERROR => s ++ bytes

/-- The redirect `t` to the file `f`, with the contents `prior` or absent before, opens the file,
    and the writes `ws` to the descriptor that is handed back in `fdOut` leave in it what they
    should. -/
def MeetsOutput (A : FdAlloc OpenFile) (openOk : String → OpenFlags → Bool) (r : Redirect)
    (t : FileType) (f : String) (prior : Option (List UInt8)) (ws : List (List UInt8))
    (v : RedirVars) (k : Kernel) : Prop :=
  ∃ v' k' s flag o, funcIORedirection A openOk r v k = (.SUCCESS, v', k') ∧
    k'.get v'.fdOut = some ⟨s, .file f flag⟩ ∧ openOutput flag prior = some o ∧
    (o.writes ws).content = t.requested (prior.getD []) ws.flatten

/-- A file that is overwritten has had at most as many bytes as are written, and one that is
    appended to has been there. -/
def OutputGuard (t : FileType) (prior : Option (List UInt8)) (bytes : List UInt8) : Prop :=
  match t with
  | .REDIRECT_IN => True
  | .REDIRECT_OUT => (prior.getD []).length ≤ bytes.length
  | .REDIRECT_ERROR => (prior.getD []).length ≤ bytes.length
  | .APPEND => prior.isSome
  | .APPEND_ERROR => prior.isSome

/-! ### The descriptor -/

section

variable {A : FdAlloc OpenFile} {openOk : String → OpenFlags → Bool} {r : Redirect}
  {t : FileType} {f : String}

/-- An output redirect is one of the four kinds. -/
theorem outputFile_ne_in (h : outputFile r = some (t, f)) : t ≠ .REDIRECT_IN := by
  induction r using Redirect.nextInduction with
  | null => exact absurd h (by simp [outputFile])
  | pipe _ _ n ih => exact ih h
  | file t' f' n ih =>
    rw [outputFile] at h
    split at h
    · exact ih h
    · obtain ⟨rfl, rfl⟩ := Prod.mk.inj (Option.some.inj h)
      assumption

theorem openOk_of_allOpen (hall : allOpen openOk r = true) (hout : outputFile r = some (t, f)) :
    openOk f t.openFlags = true := by
  induction r using Redirect.nextInduction with
  | null => exact absurd hout (by simp [outputFile])
  | pipe _ _ n ih => exact ih hall hout
  | file t' f' n ih =>
    rw [allOpen, Bool.and_eq_true] at hall
    rw [outputFile] at hout
    split at hout
    · exact ih hall.2 hout
    · obtain ⟨rfl, rfl⟩ := Prod.mk.inj (Option.some.inj hout)
      exact hall.1

/-- **The output descriptor is the file's**, opened with the flags of the redirect. -/
theorem funcIORedirection_opened (hr : ParserBuilt r) (hout : outputFile r = some (t, f))
    (hopen : openOk f t.openFlags = true)
    (hin : ∀ g, inputFile r = some g → openOk g FileType.REDIRECT_IN.openFlags = true)
    (v : RedirVars) (k : Kernel) :
    ∃ v' k' s, funcIORedirection A openOk r v k = (.SUCCESS, v', k') ∧
      k'.get v'.fdOut = some ⟨s, .file f t.openFlags⟩ := by
  cases hr with
  | tail h =>
    rw [outputFile_tail h] at hout
    exact absurd hout (by simp)
  | input g h =>
    rw [outputFile, if_pos rfl, outputFile_tail h] at hout
    exact absurd hout (by simp)
  | output t' f' ht h =>
    rw [outputFile, if_neg ht] at hout
    obtain ⟨rfl, rfl⟩ := Prod.mk.inj (Option.some.inj hout)
    rw [funcIORedirection_output v k ht hopen, funcIORedirection_tail h]
    exact ⟨_, _, _, rfl, if_pos rfl⟩
  | inputOutput g t' f' ht h =>
    rw [outputFile, if_pos rfl, outputFile, if_neg ht] at hout
    obtain ⟨rfl, rfl⟩ := Prod.mk.inj (Option.some.inj hout)
    rw [funcIORedirection_input v k (hin g rfl), funcIORedirection_output _ _ ht hopen,
      funcIORedirection_tail h]
    exact ⟨_, _, _, rfl, if_pos rfl⟩
  | outputInput t' f' g ht h =>
    rw [outputFile, if_neg ht] at hout
    obtain ⟨rfl, rfl⟩ := Prod.mk.inj (Option.some.inj hout)
    have hg : openOk g FileType.REDIRECT_IN.openFlags = true := hin g (by
      rw [inputFile, if_neg ht]
      rfl)
    rw [funcIORedirection_output v k ht hopen, funcIORedirection_input _ _ hg,
      funcIORedirection_tail h]
    -- the input gets another descriptor
    have hfile : (opened A k t' f').get (A.next k.fds) = some ⟨k.stamp, .file f' t'.openFlags⟩ :=
      if_pos rfl
    refine ⟨_, _, k.stamp, rfl, ?_⟩
    rw [get_opened, if_neg (Kernel.next_ne A hfile).symm]
    exact hfile

/-- Where the redirection goes through, the file has been opened with the flags of the
    redirect. -/
theorem opened_flag (hr : ParserBuilt r) (hout : outputFile r = some (t, f))
    (hin : ∀ g, inputFile r = some g → openOk g FileType.REDIRECT_IN.openFlags = true)
    {v v' : RedirVars} {k k' : Kernel} {s : Nat} {flag : OpenFlags}
    (hred : funcIORedirection A openOk r v k = (.SUCCESS, v', k'))
    (hget : k'.get v'.fdOut = some ⟨s, .file f flag⟩) :
    openOk f t.openFlags = true ∧ flag = t.openFlags := by
  have hopened := openOk_of_allOpen
    ((funcIORedirection_success_iff r v k).mp (congrArg Prod.fst hred)) hout
  obtain ⟨v₁, k₁, s₁, hred₁, hget₁⟩ := funcIORedirection_opened (A := A) hr hout hopened hin v k
  obtain ⟨rfl, rfl⟩ := Prod.mk.inj (Prod.mk.inj (hred.symm.trans hred₁)).2
  have hfile := (OpenFile.mk.inj (Option.some.inj (hget.symm.trans hget₁))).2
  exact ⟨hopened, (Resource.file.inj hfile).2⟩

/-! ### The contents -/

/-- What the writes leave in a file that has been opened. -/
theorem writes_requested_iff (ht : t ≠ .REDIRECT_IN) {prior : Option (List UInt8)}
    {o : Output UInt8} (ho : openOutput t.openFlags prior = some o) (ws : List (List UInt8)) :
    (o.writes ws).content = t.requested (prior.getD []) ws.flatten ↔
      t.openFlags.append = true ∨ (prior.getD []).length ≤ ws.flatten.length := by
  obtain ⟨hcontent, hoffset, happend⟩ := openOutput_eq_some ho
  have hover : t.openFlags.append = false → ((o.writes ws).content = ws.flatten ↔
      (prior.getD []).length ≤ ws.flatten.length) := by
    intro h
    rw [Output.writes_overwrite (happend.trans h), hcontent, hoffset, List.take_zero,
      List.nil_append, Nat.zero_add, List.append_right_eq_self, List.drop_eq_nil_iff]
  have hafter : t.openFlags.append = true → (o.writes ws).content = prior.getD [] ++ ws.flatten := by
    intro h
    rw [Output.writes_append (happend.trans h), hcontent]
  cases t with
  | REDIRECT_IN => exact absurd rfl ht
  | REDIRECT_OUT => exact (hover rfl).trans (or_iff_right Bool.false_ne_true).symm
  | REDIRECT_ERROR => exact (hover rfl).trans (or_iff_right Bool.false_ne_true).symm
  | APPEND => exact iff_of_true (hafter rfl) (Or.inl rfl)
  | APPEND_ERROR => exact iff_of_true (hafter rfl) (Or.inl rfl)

/-- **What an output redirect leaves in its file.**  For every redirect list of the parser with
    an output redirect, whose file can be opened if it is there or is to be created: the file
    opens and contains what it should, after any writes, exactly if an overwritten file was not
    longer than the output, and one that is appended to was there. -/
theorem meetsOutput_iff (hr : ParserBuilt r) (hout : outputFile r = some (t, f))
    {prior : Option (List UInt8)}
    (hopen : openOk f t.openFlags = (prior.isSome || t.openFlags.creat))
    (hin : ∀ g, inputFile r = some g → openOk g FileType.REDIRECT_IN.openFlags = true)
    (ws : List (List UInt8)) (v : RedirVars) (k : Kernel) :
    MeetsOutput A openOk r t f prior ws v k ↔ OutputGuard t prior ws.flatten := by
  have ht := outputFile_ne_in hout
  rw [← isSome_openOutput] at hopen
  have hguard : OutputGuard t prior ws.flatten ↔ (openOutput t.openFlags prior).isSome ∧
      (t.openFlags.append = true ∨ (prior.getD []).length ≤ ws.flatten.length) := by
    rw [isSome_openOutput]
    cases t with
    | REDIRECT_IN => exact absurd rfl ht
    | REDIRECT_OUT => simp [OutputGuard, FileType.openFlags]
    | REDIRECT_ERROR => simp [OutputGuard, FileType.openFlags]
    | APPEND => simp [OutputGuard, FileType.openFlags]
    | APPEND_ERROR => simp [OutputGuard, FileType.openFlags]
  rw [hguard]
  constructor
  · rintro ⟨v', k', s, flag, o, hred, hget, ho, hcontent⟩
    obtain ⟨hopened, rfl⟩ := opened_flag hr hout hin hred hget
    exact ⟨hopen.symm.trans hopened, (writes_requested_iff ht ho ws).mp hcontent⟩
  · rintro ⟨hsome, hwrites⟩
    obtain ⟨o, ho⟩ := Option.isSome_iff_exists.mp hsome
    obtain ⟨v', k', s, hred, hget⟩ :=
      funcIORedirection_opened (A := A) hr hout (hopen.trans hsome) hin v k
    exact ⟨v', k', s, _, o, hred, hget, ho, (writes_requested_iff ht ho ws).mpr hwrites⟩

end

/-- A redirect of the given kind to `out`. -/
def toOut (t : FileType) : Redirect := .file t "out" .null

/-- `> out` for an absent file. -/
theorem meetsOutput_new : MeetsOutput FdAlloc.lowest (fun _ _ => true) (toOut .REDIRECT_OUT)
    .REDIRECT_OUT "out" none [[104], [105]] ⟨-1, -1, 0⟩ Kernel.std := by
  have hr : ParserBuilt (toOut .REDIRECT_OUT) := .output _ _ (by decide) .null
  exact (meetsOutput_iff hr rfl rfl (fun _ _ => rfl) _ _ _).mpr (Nat.zero_le _)

/-- `echo hi > out` leaves the end of a longer file, and `echo hi >> out` does not open an
    absent one. -/
theorem redirect_keeps_tail :
    ¬ MeetsOutput FdAlloc.lowest (fun _ _ => true) (toOut .REDIRECT_OUT) .REDIRECT_OUT "out"
        (some [97, 98, 99, 10]) [[104, 105, 10]] ⟨-1, -1, 0⟩ Kernel.std ∧
      ¬ MeetsOutput FdAlloc.lowest (fun _ _ => false) (toOut .APPEND) .APPEND "out" none
        [[104, 105, 10]] ⟨-1, -1, 0⟩ Kernel.std := by
  have hin : ∀ t g, t ≠ .REDIRECT_IN → inputFile (toOut t) = some g → false = true := by
    intro t g ht h
    rw [toOut, inputFile, if_neg ht] at h
    exact absurd h (by simp [inputFile])
  refine ⟨?_, ?_⟩
  · rintro ⟨v', k', s, flag, o, hred, hget, ho, hcontent⟩
    obtain ⟨-, rfl⟩ := opened_flag (.output _ _ (by decide) .null) rfl (fun _ _ => rfl) hred hget
    have hguard := (writes_requested_iff (by decide) ho [[104, 105, 10]]).mp hcontent
    exact absurd hguard (by decide)
  · rintro ⟨v', k', s, flag, o, hred, hget, -, -⟩
    exact absurd (opened_flag (.output _ _ (by decide) .null) rfl
      (fun g h => hin .APPEND g (by decide) h) hred hget).1 (by decide)

end OSPortfolio.Ish
