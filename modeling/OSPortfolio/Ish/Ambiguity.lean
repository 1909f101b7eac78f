import OSPortfolio.Ish.BuiltIn
import OSPortfolio.Ish.ParsedLine

namespace OSPortfolio.Ish

/-!
# Ambiguous pipelines

A stage whose output goes into a pipe may not redirect its output to a file, and a stage that
reads from a pipe may not redirect its input.  `CheckPipelineAmbiguity` walks through the
redirect lists of all stages with two flags, and files `>&` with the inputs.

* `AmbiguousRedirects` — what should be detected;
* `PipelineShape.checkRedirects_spec` — what the walk does detect, for every parsed command;
* `detectsAmbiguity_iff` — **the two agree unless one of the outermost stages has a `>&` that
  the other lacks**, and nothing else makes the pipeline ambiguous.
-/

/-- The kinds of redirects to files of a stage, in the order of its redirect list. -/
def Command.fileKinds (pc : Command) : List FileType :=
  pc.prRedirects.items.filterMap fun
    | .file t _ => some t
    | .pipe _ _ => none

/-- The same for all stages of a pipeline. -/
def stageKinds (pc : Command) : List (List FileType) := (stages pc).map Command.fileKinds

/-! ### What should be detected -/

/-- A stage in front of a pipe redirects its output, or a stage behind one its input. -/
def AmbiguousRedirects (pc : Command) : Prop :=
  (∃ ks ∈ (stageKinds pc).dropLast, ∃ t ∈ ks, t ≠ .REDIRECT_IN) ∨
    ∃ ks ∈ (stageKinds pc).tail, .REDIRECT_IN ∈ ks

/-- `CheckPipelineAmbiguity` fails exactly on an ambiguous pipeline; on any other it says
    whether there is a pipe. -/
def DetectsAmbiguity (pc : Command) : Prop :=
  (AmbiguousRedirects pc → ∃ e, checkPipelineAmbiguity pc = .error e) ∧
    (¬ AmbiguousRedirects pc → checkPipelineAmbiguity pc = .ok (decide (2 ≤ (stages pc).length)))

/-- A pipeline that is ambiguous by another redirect than a `>&`. -/
def AmbiguousOtherwise (pc : Command) : Prop :=
  (∃ ks ∈ (stageKinds pc).dropLast, ∃ t ∈ ks, t ≠ .REDIRECT_IN ∧ t ≠ .REDIRECT_ERROR) ∨
    ∃ ks ∈ (stageKinds pc).tail, .REDIRECT_IN ∈ ks

/-- A stage with a pipe on both sides has a `>&`. -/
def ErrorInside (pc : Command) : Prop :=
  ∃ ks ∈ (stageKinds pc).tail.dropLast, .REDIRECT_ERROR ∈ ks

/-- Of the first and the last stage either both or none has a `>&`. -/
def ErrorAtBothEnds (pc : Command) : Prop :=
  (∃ ks ∈ (stageKinds pc).head?, .REDIRECT_ERROR ∈ ks) ↔
    ∃ ks ∈ (stageKinds pc).getLast?, .REDIRECT_ERROR ∈ ks

/-! ### The walk through one redirect list -/

/-- The kinds that the walk takes for redirects of the input. -/
def FileType.takenForInput (t : FileType) : Bool := t = .REDIRECT_IN || t = .REDIRECT_ERROR

/-- The redirects to files in front of a pipe. -/
theorem checkRedirects_pipe {r : Redirect} {fs : List (FileType × String)} {p : PipeType}
    {below : Command} (h : r.items = fs.map fileItem ++ [.pipe p below]) (isPipe out : Bool) :
    (checkRedirects r isPipe out).toOption =
      if (isPipe && fs.any (·.1.takenForInput)) || (out || fs.any (!·.1.takenForInput)) then none
      else (checkBelow below true false).toOption := by
  induction r using Redirect.nextInduction generalizing fs out with
  | null => simp [Redirect.items] at h
  | file t f n ih =>
    rcases fs with _ | ⟨k, fs⟩
    · simp [Redirect.items] at h
    · simp only [Redirect.items, List.map_cons, List.cons_append, List.cons.injEq, fileItem,
        RedirectItem.file.injEq] at h
      obtain ⟨⟨rfl, rfl⟩, hn⟩ := h
      rw [checkRedirects]
      -- an input fails behind a pipe, any other kind sets the flag
      by_cases hin : k.1 = .REDIRECT_IN ∨ k.1 = .REDIRECT_ERROR
      · rw [if_pos hin]
        have htaken : k.1.takenForInput = true := by simpa [FileType.takenForInput] using hin
        rw [List.any_cons, List.any_cons, htaken, Bool.true_or, Bool.not_true, Bool.false_or]
        cases isPipe with
        | true => simp [Except.toOption]
        | false => exact ih hn out
      · rw [if_neg hin]
        have htaken : k.1.takenForInput = false := by
          simpa [FileType.takenForInput] using hin
        rw [ih hn, List.any_cons, List.any_cons, htaken, Bool.false_or, Bool.not_false,
          Bool.true_or, Bool.or_true, Bool.or_true, Bool.or_true]
  | pipe t c n ih =>
    rcases fs with _ | ⟨k, fs⟩
    · simp only [Redirect.items, List.map_nil, List.nil_append, List.cons.injEq,
        RedirectItem.pipe.injEq] at h
      obtain ⟨⟨rfl, rfl⟩, -⟩ := h
      rw [checkRedirects]
      cases out <;> simp [Except.toOption]
    · simp [Redirect.items, fileItem] at h

/-- The redirects to files of the last stage. -/
theorem checkRedirects_last {r : Redirect} {fs : List (FileType × String)}
    (h : r.items = fs.map fileItem) (isPipe out : Bool) :
    (checkRedirects r isPipe out).toOption =
      if isPipe && fs.any (·.1.takenForInput) then none else some isPipe := by
  induction r using Redirect.nextInduction generalizing fs out with
  | null =>
    rcases fs with _ | ⟨k, fs⟩
    · simp [checkRedirects, Except.toOption]
    · simp [Redirect.items] at h
  | file t f n ih =>
    rcases fs with _ | ⟨k, fs⟩
    · simp [Redirect.items] at h
    · simp only [Redirect.items, List.map_cons, List.cons.injEq, fileItem,
        RedirectItem.file.injEq] at h
      obtain ⟨⟨rfl, rfl⟩, hn⟩ := h
      rw [checkRedirects]
      by_cases hin : k.1 = .REDIRECT_IN ∨ k.1 = .REDIRECT_ERROR
      · rw [if_pos hin]
        have htaken : k.1.takenForInput = true := by simpa [FileType.takenForInput] using hin
        rw [List.any_cons, htaken, Bool.true_or]
        cases isPipe with
        | true => simp [Except.toOption]
        | false => simpa using ih hn out
      · rw [if_neg hin]
        have htaken : k.1.takenForInput = false := by
          simpa [FileType.takenForInput] using hin
        rw [ih hn, List.any_cons, htaken, Bool.false_or]
  | pipe t c n ih =>
    rcases fs with _ | ⟨k, fs⟩
    · simp [Redirect.items] at h
    · simp [Redirect.items, fileItem] at h

/-! ### The walk through all stages -/

/-- The kinds of the files of a stage, from its redirects. -/
theorem fileKinds_of_items {pc : Command} {fs : List (FileType × String)} {tail : List RedirectItem}
    (h : pc.prRedirects.items = fs.map fileItem ++ tail)
    (htail : tail = [] ∨ ∃ p below, tail = [.pipe p below]) :
    pc.fileKinds = fs.map Prod.fst := by
  rw [Command.fileKinds, h, List.filterMap_append, List.filterMap_map]
  have hfiles : fs.filterMap ((fun
      | RedirectItem.file t _ => some t
      | .pipe _ _ => none) ∘ fileItem) = fs.map Prod.fst := by
    rw [← List.filterMap_eq_map]
    rfl
  rcases htail with rfl | ⟨p, below, rfl⟩
  · rw [hfiles]; simp
  · rw [hfiles]; simp

/-- The command behind the files, if there is a pipe. -/
theorem nextPipelineRedirect_of_items {r : Redirect} {fs : List (FileType × String)} :
    (r.items = fs.map fileItem → nextPipelineRedirect r = .null) ∧
      ∀ p below, r.items = fs.map fileItem ++ [.pipe p below] →
        nextPipelineRedirect r = below := by
  induction r using Redirect.nextInduction generalizing fs with
  | null => simp [nextPipelineRedirect, Redirect.items]
  | file t f n ih =>
    rcases fs with _ | ⟨k, fs⟩
    · simp [Redirect.items]
    · simp only [Redirect.items, List.map_cons, List.cons_append, List.cons.injEq]
      exact ⟨fun h => ih.1 h.2, fun p below h => ih.2 p below h.2⟩
  | pipe t c n ih =>
    rcases fs with _ | ⟨k, fs⟩
    · simp only [Redirect.items, nextPipelineRedirect, List.map_nil, reduceCtorEq, false_implies,
        List.nil_append, List.cons.injEq, RedirectItem.pipe.injEq, true_and]
      exact fun p below h => h.1.2
    · simp [Redirect.items, fileItem]

/-- The stages of a pipeline, from the redirects of the first. -/
theorem stages_of_shape {ts : List Token} {pc : Command} {fs : List (FileType × String)}
    (hstage : StageShape ts pc) :
    (pc.prRedirects.items = fs.map fileItem → stages pc = [pc]) ∧
      ∀ p below, pc.prRedirects.items = fs.map fileItem ++ [.pipe p below] →
        stages pc = pc :: stages below := by
  rw [stages_eq pc hstage.ne_null]
  constructor
  · intro h
    rw [nextPipelineCommand, nextPipelineRedirect_of_items.1 h]
    rfl
  · intro p below h
    rw [nextPipelineCommand, nextPipelineRedirect_of_items.2 p below h]

/-- A pipeline is a command. -/
theorem PipelineShape.ne_null {qs : List (List Token × Option PipeType)} {pc : Command}
    (h : PipelineShape qs pc) : pc ≠ .null := by
  cases h with
  | last hstage _ => exact hstage.ne_null
  | pipe hstage _ _ _ _ => exact hstage.ne_null

/-- **What the walk detects.**  It fails if a stage in front of a pipe has a redirect that it
    takes for one of the output, or a stage behind one has a redirect that it takes for one of
    the input; otherwise it has seen whether there is a pipe. -/
theorem PipelineShape.checkRedirects_spec {qs : List (List Token × Option PipeType)} {pc : Command}
    (h : PipelineShape qs pc) (isPipe : Bool) :
    ((checkRedirects pc.prRedirects isPipe false).toOption = none ↔
      (∃ ks ∈ (stageKinds pc).dropLast, ∃ t ∈ ks, t.takenForInput = false) ∨
        ∃ ks ∈ (if isPipe then stageKinds pc else (stageKinds pc).tail), ∃ t ∈ ks,
          t.takenForInput = true) ∧
    ∀ v, (checkRedirects pc.prRedirects isPipe false).toOption = some v →
      v = (isPipe || decide (2 ≤ (stages pc).length)) := by
  induction h generalizing isPipe with
  | @last ts pc hstage hitems =>
    have hkinds : pc.fileKinds = (stageFiles ts).map Prod.fst :=
      fileKinds_of_items (by rw [hitems, List.append_nil]) (Or.inl rfl)
    rw [checkRedirects_last hitems, stageKinds, (stages_of_shape hstage).1 hitems]
    cases isPipe with
    | false => simp
    | true => simp [hkinds]
  | @pipe ts p rest pc below hstage hitems hnext hforeground hbelow ih =>
    have hkinds : pc.fileKinds = (stageFiles ts).map Prod.fst :=
      fileKinds_of_items hitems (Or.inr ⟨p, below, rfl⟩)
    have hstages := (stages_of_shape hstage).2 p below hitems
    obtain ⟨k, ks, hbelowKinds⟩ : ∃ k ks, stageKinds below = k :: ks := by
      rw [stageKinds, stages_eq below hbelow.ne_null]
      exact ⟨_, _, rfl⟩
    have hbelowCheck : checkBelow below true false =
        checkRedirects below.prRedirects true false := by
      cases below with
      | null => exact absurd rfl hbelow.ne_null
      | mk z pa b r n => rfl
    have hall : stageKinds pc = (stageFiles ts).map Prod.fst :: k :: ks := by
      rw [stageKinds, hstages, List.map_cons, hkinds, ← hbelowKinds]
      rfl
    have hlength : 2 ≤ (pc :: stages below).length := by
      rw [stages_eq below hbelow.ne_null]
      simp
    obtain ⟨hfails, hvalue⟩ := ih true
    rw [hbelowKinds, if_pos rfl] at hfails
    have hin : ((stageFiles ts).any (·.1.takenForInput)) = true ↔
        ∃ t ∈ (stageFiles ts).map Prod.fst, t.takenForInput = true := by simp
    have hout : ((stageFiles ts).any (!·.1.takenForInput)) = true ↔
        ∃ t ∈ (stageFiles ts).map Prod.fst, t.takenForInput = false := by simp
    rw [checkRedirects_pipe hitems, hbelowCheck, hall, hstages, Bool.false_or]
    -- all stages below are behind a pipe, and this one is in front of one
    constructor
    · rw [List.dropLast_cons_of_ne_nil (List.cons_ne_nil k ks), List.tail_cons, ite_eq_left_iff,
        hfails, List.exists_mem_cons_iff _ _ (k :: ks).dropLast, Bool.or_eq_true, Bool.and_eq_true,
        hin, hout,
        ← or_iff_not_imp_left]
      cases isPipe with
      | false =>
        rw [if_neg Bool.false_ne_true]
        simp only [Bool.false_eq_true, false_and, false_or]
        rw [or_assoc]
      | true =>
        rw [if_pos rfl, List.exists_mem_cons_iff _ _ (k :: ks), and_iff_right rfl,
          or_comm (b := ∃ t ∈ (stageFiles ts).map Prod.fst, t.takenForInput = false),
          or_or_or_comm]
    · intro v hv
      rw [Option.ite_none_left_eq_some] at hv
      rw [hvalue v hv.2, decide_eq_true hlength, Bool.or_true, Bool.true_or]

/-! ### The comparison -/

/-- An element in front of the last, or behind the first. -/
theorem dropLast_iff_tail {α : Type} (P : α → Prop) (l : List α) :
    ((∃ a ∈ l.dropLast, P a) ↔ ∃ a ∈ l.tail, P a) ↔
      (∃ a ∈ l.tail.dropLast, P a) ∨ ((∃ a ∈ l.head?, P a) ↔ ∃ a ∈ l.getLast?, P a) := by
  rcases l with _ | ⟨a, l⟩
  · simp
  · rcases List.eq_nil_or_concat l with rfl | ⟨m, b, rfl⟩
    · simp
    · rw [List.concat_eq_append, ← List.cons_append, List.dropLast_concat, List.cons_append,
        List.tail_cons,
        List.dropLast_concat]
      have hlast : (a :: (m ++ [b])).getLast? = some b := by
        rw [← List.cons_append, List.getLast?_concat]
      rw [hlast]
      -- what is inside is counted on both sides
      by_cases hinside : ∃ c ∈ m, P c
      · obtain ⟨c, hc, hP⟩ := hinside
        exact iff_of_true
          (iff_of_true ⟨c, List.mem_cons_of_mem a hc, hP⟩ ⟨c, List.mem_append_left [b] hc, hP⟩)
          (Or.inl ⟨c, hc, hP⟩)
      · have htail : (∃ c ∈ m ++ [b], P c) ↔ P b := by
          simp only [List.mem_append, or_and_right, exists_or, hinside, false_or,
            List.mem_singleton, exists_eq_left]
        rw [List.exists_mem_cons_iff, or_iff_left hinside, or_iff_right hinside, htail]
        simp

/-- `>&` is taken for a redirect of the input, as `<` is. -/
theorem takenForInput_iff (t : FileType) :
    (t.takenForInput = true ↔ t = .REDIRECT_IN ∨ t = .REDIRECT_ERROR) ∧
      (t.takenForInput = false ↔ t ≠ .REDIRECT_IN ∧ t ≠ .REDIRECT_ERROR) := by
  simp [FileType.takenForInput]

/-- The pipeline is ambiguous by a `>&` in front of a pipe, or otherwise. -/
theorem ambiguous_iff (pc : Command) : AmbiguousRedirects pc ↔
    AmbiguousOtherwise pc ∨ ∃ ks ∈ (stageKinds pc).dropLast, .REDIRECT_ERROR ∈ ks := by
  have hkinds : ∀ ks : List FileType, (∃ t ∈ ks, t ≠ .REDIRECT_IN) ↔
      (∃ t ∈ ks, t ≠ .REDIRECT_IN ∧ t ≠ .REDIRECT_ERROR) ∨ .REDIRECT_ERROR ∈ ks := by
    intro ks
    constructor
    · rintro ⟨t, ht, hne⟩
      by_cases herror : t = .REDIRECT_ERROR
      · exact Or.inr (herror ▸ ht)
      · exact Or.inl ⟨t, ht, hne, herror⟩
    · rintro (⟨t, ht, hne, -⟩ | herror)
      · exact ⟨t, ht, hne⟩
      · exact ⟨_, herror, by decide⟩
  simp only [AmbiguousRedirects, AmbiguousOtherwise, hkinds, and_or_left, exists_or]
  rw [or_right_comm]

/-- The walk fails on a `>&` behind a pipe, or on what is ambiguous otherwise. -/
theorem PipelineShape.fails_iff {qs : List (List Token × Option PipeType)} {pc : Command}
    (h : PipelineShape qs pc) : (checkPipelineAmbiguity pc).toOption = none ↔
      AmbiguousOtherwise pc ∨ ∃ ks ∈ (stageKinds pc).tail, .REDIRECT_ERROR ∈ ks := by
  rw [checkPipelineAmbiguity, (h.checkRedirects_spec false).1, if_neg Bool.false_ne_true]
  simp only [takenForInput_iff, AmbiguousOtherwise, and_or_left, exists_or, exists_eq_right]
  rw [or_assoc]

theorem toOption_eq_none {ε α : Type} (x : Except ε α) :
    x.toOption = none ↔ ∃ e, x = .error e := by
  cases x <;> simp [Except.toOption]

theorem toOption_eq_some {ε α : Type} {x : Except ε α} {v : α} (h : x.toOption = some v) :
    x = .ok v := by
  cases x <;> simp_all [Except.toOption]

/-- **Where ambiguous pipelines are detected.**  For a command of a parsed line, the walk
    answers as it should exactly if the pipeline is ambiguous by another redirect than a `>&`,
    or a stage between two pipes has a `>&`, or both or none of the first and the last stage
    have one. -/
theorem detectsAmbiguity_iff {ts : List Token} {pcs pc : Command} (h : DerivesCmdSeq ts pcs)
    (hpc : pc ∈ pcs.commands) :
    DetectsAmbiguity pc ↔ AmbiguousOtherwise pc ∨ ErrorInside pc ∨ ErrorAtBothEnds pc := by
  obtain ⟨qs, hshape⟩ := h.pipelineShape hpc
  have hdetects : DetectsAmbiguity pc ↔
      (AmbiguousRedirects pc ↔ (checkPipelineAmbiguity pc).toOption = none) := by
    rw [DetectsAmbiguity, ← toOption_eq_none]
    constructor
    · rintro ⟨hfails, hsucceeds⟩
      refine ⟨hfails, fun hnone => ?_⟩
      by_contra hnot
      rw [hsucceeds hnot] at hnone
      exact absurd hnone (by simp [Except.toOption])
    · intro hiff
      refine ⟨hiff.mp, fun hnot => ?_⟩
      -- a walk that does not fail has the right answer
      cases hcheck : (checkPipelineAmbiguity pc).toOption with
      | none => exact absurd (hiff.mpr hcheck) hnot
      | some v =>
        rw [toOption_eq_some hcheck, (hshape.checkRedirects_spec false).2 v hcheck, Bool.false_or]
  have hends := dropLast_iff_tail (fun ks => .REDIRECT_ERROR ∈ ks) (stageKinds pc)
  rw [hdetects, ambiguous_iff, hshape.fails_iff]
  by_cases hother : AmbiguousOtherwise pc
  · exact iff_of_true (iff_of_true (Or.inl hother) (Or.inl hother)) (Or.inl hother)
  · rw [or_iff_right hother, or_iff_right hother, or_iff_right hother]
    exact hends

/-- `sort >&err | uniq`: a `>&` in front of the pipe. -/
def errorInFront : Command :=
  .mk "sort" ⟨some "sort", []⟩ false (.file .REDIRECT_ERROR "err"
    (.pipe .PIPE (.mk "uniq" ⟨some "uniq", []⟩ false .null .null) .null)) .null

/-- The condition excludes it: the last stage has none. -/
theorem detectsAmbiguity_iff_errorInFront : DetectsAmbiguity errorInFront ↔
    AmbiguousOtherwise errorInFront ∨ ErrorInside errorInFront ∨ ErrorAtBothEnds errorInFront :=
  detectsAmbiguity_iff
    ((parseLine_iff [.COMMAND "sort", .REDIRECT_ERROR, .FILENAME "err", .PIPE, .COMMAND "uniq"]
      errorInFront).mp (by decide)) (by decide)

/-- The walk accepts it, with stdout in the pipe and in the file. -/
theorem errorInFront_accepted : parseLine [.COMMAND "sort", .REDIRECT_ERROR, .FILENAME "err",
      .PIPE, .COMMAND "uniq"] = some errorInFront ∧
    checkPipelineAmbiguity errorInFront = .ok true ∧ ¬ DetectsAmbiguity errorInFront := by
  have haccepted : checkPipelineAmbiguity errorInFront = .ok true := rfl
  refine ⟨by decide, haccepted, ?_⟩
  rintro ⟨hfails, -⟩
  have hambiguous : AmbiguousRedirects errorInFront :=
    Or.inl ⟨[.REDIRECT_ERROR], by decide, .REDIRECT_ERROR, by decide, by decide⟩
  obtain ⟨e, he⟩ := hfails hambiguous
  rw [haccepted] at he
  cases he

end OSPortfolio.Ish
