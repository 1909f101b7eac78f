import OSPortfolio.Lib.Pieces
import OSPortfolio.Ish.Parser

namespace OSPortfolio.Ish

open OSPortfolio.Lists

/-!
# What the parser builds for a line

A line of tokens is read here without the grammar: the separators cut it into commands, the
pipes cut a command into stages, and a stage has a name, parameters and redirects to files.
The list that the actions of `parser.y` build has exactly these parts, in this order.

* `StageShape` — the fields of a command against the tokens of one stage;
* `PipelineShape` — the same for all stages, and the pipes that hold them together;
* `DerivesCommand.pipelineShape` — **a parsed command has the shape of its tokens**;
* `DerivesCmdSeq.listShape` — **so has a parsed line**.
-/

/-! ### The parts of a line -/

/-- The parameter a token stands for. -/
def paramOf : Token → Option String
  | .WORD s => some s
  | .STRING s => some s
  | _ => none

/-- The parameters among the tokens of a stage. -/
def stageParams (ts : List Token) : List String := ts.filterMap paramOf

/-- The kind of redirect to a file that a token begins. -/
def fileTypeOf : Token → Option FileType
  | .REDIRECT_IN => some .REDIRECT_IN
  | .REDIRECT_OUT => some .REDIRECT_OUT
  | .REDIRECT_ERROR => some .REDIRECT_ERROR
  | .APPEND => some .APPEND
  | .APPEND_ERROR => some .APPEND_ERROR
  | _ => none

/-- The redirects to files of a stage. -/
def stageFiles : List Token → List (FileType × String)
  | [] => []
  | t :: ts =>
    match fileTypeOf t, ts with
    | some k, .FILENAME f :: _ => (k, f) :: stageFiles ts
    | _, _ => stageFiles ts

/-- The name at the front of a stage. -/
def stageName : List Token → Option String
  | .COMMAND z :: _ => some z
  | _ => none

/-- The kind of pipe a token stands for. -/
def pipeTypeOf : Token → Option PipeType
  | .PIPE => some .PIPE
  | .PIPE_ERROR => some .PIPE_ERROR
  | _ => none

/-! ### The parts of a command -/

/-- An element of a redirect list. -/
inductive RedirectItem
  | file (fType : FileType) (pzFile : String)
  | pipe (fType : PipeType) (pcPipe : Command)
  deriving DecidableEq, Repr

/-- A redirect list, along `prNext`. -/
def Redirect.items : Redirect → List RedirectItem
  | .null => []
  | .file t f n => .file t f :: n.items
  | .pipe t c n => .pipe t c :: n.items

/-- The redirects of a list that is hung behind another. -/
theorem items_appendRedirect (r₁ r₂ : Redirect) :
    (appendRedirect r₁ r₂).items = r₁.items ++ r₂.items := by
  induction r₁ using Redirect.nextInduction with
  | null => rfl
  | file t f n ih => rw [appendRedirect, Redirect.items, ih]; rfl
  | pipe t c n ih => rw [appendRedirect, Redirect.items, ih]; rfl

/-- A redirect to a file, as an element of a redirect list. -/
def fileItem (k : FileType × String) : RedirectItem := .file k.1 k.2

/-- The command `pc` has the name and the parameters of the tokens `ts` of a stage, and these
    redirect at most one input and at most one output. -/
structure StageShape (ts : List Token) (pc : Command) : Prop where
  ne_null : pc ≠ .null
  zCmd : stageName ts = some pc.zCmd
  nArgs : pc.pa.nArgs = 1 + (stageParams ts).length
  params : pc.pa.params = stageParams ts
  input_le : ((stageFiles ts).filter (·.1 = .REDIRECT_IN)).length ≤ 1
  output_le : ((stageFiles ts).filter (·.1 ≠ .REDIRECT_IN)).length ≤ 1

/-- The stages of a line of tokens, each with the pipe behind it, against a command and the
    commands below its pipes: a redirect list has the files of its stage in their order and
    then the pipe, and a command below a pipe is in the foreground, with nothing behind it. -/
inductive PipelineShape : List (List Token × Option PipeType) → Command → Prop
  | last {ts : List Token} {pc : Command} (hstage : StageShape ts pc)
      (hitems : pc.prRedirects.items = (stageFiles ts).map fileItem) :
      PipelineShape [(ts, none)] pc
  | pipe {ts : List Token} {p : PipeType} {rest : List (List Token × Option PipeType)}
      {pc below : Command} (hstage : StageShape ts pc)
      (hitems : pc.prRedirects.items = (stageFiles ts).map fileItem ++ [.pipe p below])
      (hnext : below.pcNext = .null) (hforeground : below.fBackground = false)
      (hbelow : PipelineShape rest below) : PipelineShape ((ts, some p) :: rest) pc

/-! ### The tokens of each nonterminal -/

/-- A token that ends neither a stage nor a command. -/
def InsideStage (t : Token) : Prop := pipeTypeOf t = none ∧ parseSeparator t = none

theorem stageFiles_nil : stageFiles [] = [] := rfl

/-- A token that redirects nothing is skipped. -/
theorem stageFiles_cons {t : Token} (h : fileTypeOf t = none) (ts : List Token) :
    stageFiles (t :: ts) = stageFiles ts := by
  simp [stageFiles, h]

/-- A token that begins a redirect, and the name of its file. -/
theorem stageFiles_pair {t : Token} {k : FileType} (h : fileTypeOf t = some k) (f : String)
    (ts : List Token) : stageFiles (t :: .FILENAME f :: ts) = (k, f) :: stageFiles ts := by
  have hfile : stageFiles (.FILENAME f :: ts) = stageFiles ts := stageFiles_cons rfl ts
  rw [← hfile, stageFiles]
  exact h

/-- What begins a redirect ends nothing and is no parameter. -/
theorem insideStage_of_fileTypeOf {t : Token} {k : FileType} (h : fileTypeOf t = some k) :
    InsideStage t ∧ paramOf t = none := by
  cases t <;> first | exact ⟨⟨rfl, rfl⟩, rfl⟩ | exact absurd h (by simp [fileTypeOf])

/-- The parameters of a stage, from its parts. -/
theorem stageParams_append (ts us : List Token) :
    stageParams (ts ++ us) = stageParams ts ++ stageParams us :=
  List.filterMap_append

/-- The tokens of `parameters`: each is a parameter, and begins no redirect. -/
theorem DerivesParameters.tokens {ts : List Token} {pa : Args} (h : DerivesParameters ts pa) :
    pa.params = stageParams ts ∧ ∀ t ∈ ts, InsideStage t ∧ fileTypeOf t = none := by
  induction h with
  | empty => exact ⟨rfl, by simp⟩
  | @append ts t pa s h₁ h₂ ih =>
    obtain ⟨hparams, htokens⟩ := ih
    have hlast : stageParams [t] = [s] ∧ InsideStage t ∧ fileTypeOf t = none := by
      cases h₂ <;> exact ⟨rfl, ⟨rfl, rfl⟩, rfl⟩
    refine ⟨?_, ?_⟩
    · rw [stageParams_append, hlast.1, ← hparams]
      rfl
    · intro u hu
      rcases List.mem_append.mp hu with hu | hu
      · exact htokens u hu
      · obtain rfl := List.mem_singleton.mp hu
        exact hlast.2

/-- Tokens that begin no redirect are passed over. -/
theorem stageFiles_append {ts : List Token} (h : ∀ t ∈ ts, fileTypeOf t = none)
    (us : List Token) : stageFiles (ts ++ us) = stageFiles us := by
  induction ts with
  | nil => rfl
  | cons t ts ih =>
    rw [List.cons_append, stageFiles_cons (h t List.mem_cons_self),
      ih fun u hu => h u (List.mem_cons_of_mem t hu)]

/-- The tokens of `redirect_file`, or of no redirect: what they redirect, in their order. -/
structure FilesOf (ts : List Token) (r : Redirect) : Prop where
  items : r.items = (stageFiles ts).map fileItem
  params : stageParams ts = []
  input_le : ((stageFiles ts).filter (·.1 = .REDIRECT_IN)).length ≤ 1
  output_le : ((stageFiles ts).filter (·.1 ≠ .REDIRECT_IN)).length ≤ 1
  inside : ∀ t ∈ ts, InsideStage t

theorem filesOf_nil : FilesOf [] .null := by
  constructor <;> simp [stageFiles, stageParams, Redirect.items]

/-- An input redirect is its mark and a file name. -/
theorem DerivesRedirectIn.tokens {ts : List Token} {r : Redirect} (h : DerivesRedirectIn ts r) :
    ∃ f, ts = [.REDIRECT_IN, .FILENAME f] ∧ r = .file .REDIRECT_IN f .null := by
  obtain ⟨f⟩ := h
  exact ⟨f, rfl, rfl⟩

/-- An output redirect is its mark and a file name. -/
theorem DerivesRedirectOut.tokens {ts : List Token} {r : Redirect}
    (h : DerivesRedirectOut ts r) : ∃ t k f, ts = [t, .FILENAME f] ∧ r = .file k f .null ∧
      fileTypeOf t = some k ∧ k ≠ .REDIRECT_IN := by
  cases h <;> exact ⟨_, _, _, rfl, rfl, rfl, by decide⟩

/-- The redirects derived for a stage are the ones its tokens ask for. -/
theorem DerivesRedirectFile.filesOf {ts : List Token} {r : Redirect}
    (h : DerivesRedirectFile ts r) : FilesOf ts r := by
  have hfilename : ∀ f, InsideStage (.FILENAME f) ∧ paramOf (.FILENAME f) = none :=
    fun f => ⟨⟨rfl, rfl⟩, rfl⟩
  have hin : fileTypeOf .REDIRECT_IN = some .REDIRECT_IN := rfl
  cases h with
  | redirectIn h =>
    obtain ⟨f, rfl, rfl⟩ := h.tokens
    have hinside := insideStage_of_fileTypeOf hin
    constructor <;> simp [stageFiles_pair hin, stageFiles_nil, Redirect.items, fileItem, stageParams,
      hinside, hfilename]
  | redirectOut h =>
    obtain ⟨t, k, f, rfl, rfl, hk, hne⟩ := h.tokens
    have hinside := insideStage_of_fileTypeOf hk
    constructor <;> simp [stageFiles_pair hk, stageFiles_nil, Redirect.items, fileItem, stageParams,
      hinside, hfilename, hne]
  | inOut h₁ h₂ =>
    obtain ⟨f, rfl, rfl⟩ := h₁.tokens
    obtain ⟨t, k, g, rfl, rfl, hk, hne⟩ := h₂.tokens
    have hinside := insideStage_of_fileTypeOf hin
    have hinside' := insideStage_of_fileTypeOf hk
    constructor <;> simp [stageFiles_pair hin, stageFiles_pair hk, stageFiles_nil, appendRedirect,
      Redirect.items, fileItem, stageParams, hinside, hinside', hfilename, hne]
  | outIn h₁ h₂ =>
    obtain ⟨t, k, g, rfl, rfl, hk, hne⟩ := h₁.tokens
    obtain ⟨f, rfl, rfl⟩ := h₂.tokens
    have hinside := insideStage_of_fileTypeOf hin
    have hinside' := insideStage_of_fileTypeOf hk
    constructor <;> simp [stageFiles_pair hin, stageFiles_pair hk, stageFiles_nil, appendRedirect,
      Redirect.items, fileItem, stageParams, hinside, hinside', hfilename, hne]

/-! ### The shape of what is built -/

/-- The tokens of a command without its pipe: a name, parameters, and redirects to files. -/
theorem stageShape_of_tokens {z : String} {ps fs : List Token} {pa : Args} {f r : Redirect}
    (hps : DerivesParameters ps pa) (hfs : FilesOf fs f) :
    StageShape (.COMMAND z :: (ps ++ fs))
        (createCommand z (setArgument pa (some (shortName z))) false r .null) ∧
      stageFiles (.COMMAND z :: (ps ++ fs)) = stageFiles fs ∧
      ∀ t ∈ .COMMAND z :: (ps ++ fs), InsideStage t := by
  obtain ⟨hparams, htokens⟩ := hps.tokens
  have hfiles : stageFiles (.COMMAND z :: (ps ++ fs)) = stageFiles fs := by
    rw [stageFiles_cons rfl, stageFiles_append fun t ht => (htokens t ht).2]
  have hall : stageParams (.COMMAND z :: (ps ++ fs)) = pa.params := by
    show stageParams (ps ++ fs) = pa.params
    rw [stageParams_append, hfs.params, List.append_nil, hparams]
  refine ⟨⟨by simp [createCommand], rfl, ?_, hall.symm, ?_, ?_⟩, hfiles, ?_⟩
  · rw [hall, Nat.add_comm]
    rfl
  · rw [hfiles]
    exact hfs.input_le
  · rw [hfiles]
    exact hfs.output_le
  · intro t ht
    rcases List.mem_cons.mp ht with rfl | ht
    · exact ⟨rfl, rfl⟩
    · rcases List.mem_append.mp ht with ht | ht
      · exact (htokens t ht).1
      · exact hfs.inside t ht

/-- The same where there may be none. -/
theorem filesOf_of_split {fs : List Token} {f : Redirect}
    (h : fs = [] ∧ f = .null ∨ DerivesRedirectFile fs f) : FilesOf fs f := by
  rcases h with ⟨rfl, rfl⟩ | h
  · exact filesOf_nil
  · exact h.filesOf

/-- A pipe ends a stage, and is no separator. -/
theorem pieces_pipe {t : Token} {p : PipeType} (h : DerivesPipe t p) :
    pipeTypeOf t = some p ∧ parseSeparator t = none := by
  cases h <;> exact ⟨rfl, rfl⟩

/-- **A parsed command has the shape of its tokens**, none of which is a separator. -/
theorem DerivesCommand.pipelineShape {ts : List Token} {pc : Command}
    (h : DerivesCommand ts pc) :
    PipelineShape (pieces pipeTypeOf ts) pc ∧ ∀ t ∈ ts, parseSeparator t = none := by
  -- by induction on the number of tokens: a command below a pipe has fewer
  induction hn : ts.length using Nat.strongRecOn generalizing ts pc with
  | _ n ih =>
    cases h with | @command z ps rs pa r hparams hredir
    obtain ⟨fs, f, hfs, hpipe⟩ := hredir.split
    have hfilesOf := filesOf_of_split hfs
    rcases hpipe with ⟨rfl, rfl⟩ | ⟨t, p, cs, below, hpipe, hbelow, rfl, rfl⟩
    · obtain ⟨hstage, hfiles, hinside⟩ := stageShape_of_tokens (z := z) (r := r) hparams hfilesOf
      refine ⟨?_, fun t ht => (hinside t ht).2⟩
      rw [pieces_unmarked (fun t ht => (hinside t ht).1) (List.cons_ne_nil _ _)]
      refine .last hstage ?_
      rw [hfiles]
      exact hfilesOf.items
    · obtain ⟨hstage, hfiles, hinside⟩ := stageShape_of_tokens (z := z)
        (r := appendRedirect f (createRedirectPipe p below .null)) hparams hfilesOf
      obtain ⟨htype, hseparator⟩ := pieces_pipe hpipe
      obtain ⟨hshape, htokens⟩ := ih cs.length (by simp [← hn]; omega) hbelow rfl
      obtain ⟨z', pa', r', rfl⟩ := hbelow.shape
      rw [← List.append_assoc, ← List.cons_append]
      constructor
      · rw [pieces_append (fun t ht => (hinside t ht).1) htype]
        refine .pipe hstage ?_ rfl rfl hshape
        rw [hfiles, ← hfilesOf.items]
        exact items_appendRedirect _ _
      · intro u hu
        rcases List.mem_append.mp hu with hu | hu
        · exact (hinside u hu).2
        · rcases List.mem_cons.mp hu with rfl | hu
          · exact hseparator
          · exact htokens u hu

/-! ### The list of a line -/

/-- A command of a list against a piece of the line, which ends at a separator or with the
    line. -/
def CommandShape (piece : List Token × Option Bool) (pc : Command) : Prop :=
  pc.fBackground = (piece.2 == some true) ∧ PipelineShape (pieces pipeTypeOf piece.1) pc

/-- A shape does not look at the list behind a command, nor at its `fBackground`. -/
theorem PipelineShape.congr {qs : List (List Token × Option PipeType)} {z : String} {pa : Args}
    {b b' : Bool} {r : Redirect} {n n' : Command} (h : PipelineShape qs (.mk z pa b r n)) :
    PipelineShape qs (.mk z pa b' r n') := by
  cases h with
  | last hstage hitems =>
    exact .last ⟨by simp, hstage.zCmd, hstage.nArgs, hstage.params, hstage.input_le,
      hstage.output_le⟩ hitems
  | pipe hstage hitems hnext hforeground hbelow =>
    exact .pipe ⟨by simp, hstage.zCmd, hstage.nArgs, hstage.params, hstage.input_le,
      hstage.output_le⟩ hitems hnext hforeground hbelow

/-- A separator is read as what it is. -/
theorem DerivesSeparator.mark {t : Token} {b : Bool} (h : DerivesSeparator t b) :
    parseSeparator t = some b := (parseSeparator_iff t b).mpr h

/-- **A parsed line has the shape of its tokens.**  The list that the grammar asks for has one
    command for each piece of the line between separators, in their order; one is in the
    background exactly if a `&` stands behind it. -/
theorem DerivesCmdSeq.listShape {ts : List Token} {pc : Command} (h : DerivesCmdSeq ts pc) :
    List.Forall₂ CommandShape (pieces parseSeparator ts) pc.commands := by
  induction h with
  | @sequence ts₁ ts₂ t b pc₁ pc₂ h₁ h₂ h₃ ih =>
    obtain ⟨hshape, htokens⟩ := h₁.pipelineShape
    obtain ⟨z, pa, r, rfl⟩ := h₁.shape
    rw [pieces_append htokens h₂.mark]
    cases b with
    | true => exact .cons ⟨rfl, hshape.congr⟩ ih
    | false => exact .cons ⟨rfl, hshape.congr⟩ ih
  | @separator ts t b pc h₁ h₂ =>
    obtain ⟨hshape, htokens⟩ := h₁.pipelineShape
    obtain ⟨z, pa, r, rfl⟩ := h₁.shape
    rw [pieces_append htokens h₂.mark]
    cases b with
    | true => exact .cons ⟨rfl, hshape.congr⟩ .nil
    | false => exact .cons ⟨rfl, hshape.congr⟩ .nil
  | @command ts pc h =>
    obtain ⟨hshape, htokens⟩ := h.pipelineShape
    have hne : ts ≠ [] := by
      rintro rfl
      cases h
    obtain ⟨z, pa, r, rfl⟩ := h.shape
    rw [pieces_unmarked htokens hne]
    exact .cons ⟨rfl, hshape⟩ .nil

/-- Each command of a parsed line has the shape of a pipeline. -/
theorem DerivesCmdSeq.pipelineShape {ts : List Token} {pcs pc : Command}
    (h : DerivesCmdSeq ts pcs) (hpc : pc ∈ pcs.commands) : ∃ qs, PipelineShape qs pc := by
  have hlist := h.listShape
  generalize pieces parseSeparator ts = ps at hlist
  generalize pcs.commands = cs at hlist hpc
  induction hlist with
  | nil => exact absurd hpc (by simp)
  | cons hshape _ ih =>
    rcases List.mem_cons.mp hpc with rfl | hpc
    · exact ⟨_, hshape.2⟩
    · exact ih hpc

end OSPortfolio.Ish
