import Mathlib.Data.List.Basic

namespace OSPortfolio.Ish

/-!
# Parsed commands

The data structures of `command.h` and the functions of `command.c` that build them.

A `command *` and a `redirect *` may be `NULL`, so both types have a constructor `null`; the
structures are trees, as the parser only ever links fresh nodes.  The fields keep their C
names.  `command.fType` is left out (it is always `COMMAND`), and so are `nMaxArgs` and the
allocation of the argument array, which no reader of a command sees.
-/

/-- `struct _args`: `azArgs[0]`, which stays `NULL` until it is set, and the parameters
    `azArgs[1]`, …, `azArgs[nArgs - 1]`. -/
structure Args where
  zero : Option String
  params : List String
  deriving DecidableEq, Repr

/-- The field `nArgs`. -/
def Args.nArgs (pa : Args) : Nat := pa.params.length + 1

/-- The `fType` of a redirect to a file. -/
inductive FileType
  | REDIRECT_IN
  | REDIRECT_OUT
  | REDIRECT_ERROR
  | APPEND
  | APPEND_ERROR
  deriving DecidableEq, Repr

/-- The `fType` of a redirect to a command. -/
inductive PipeType
  | PIPE
  | PIPE_ERROR
  deriving DecidableEq, Repr

mutual

/-- A `command *`. -/
inductive Command
  | null
  | mk (zCmd : String) (pa : Args) (fBackground : Bool) (prRedirects : Redirect)
      (pcNext : Command)
  deriving DecidableEq, Repr

/-- A `redirect *`. -/
inductive Redirect
  | null
  | file (fType : FileType) (pzFile : String) (prNext : Redirect)
  | pipe (fType : PipeType) (pcPipe : Command) (prNext : Redirect)
  deriving DecidableEq, Repr

end

/-- Induction along `prNext`, which does not look into the commands of pipes. -/
@[elab_as_elim]
theorem Redirect.nextInduction {P : Redirect → Prop} (null : P .null)
    (file : ∀ t f n, P n → P (.file t f n)) (pipe : ∀ t c n, P n → P (.pipe t c n)) :
    ∀ r, P r
  | .null => null
  | .file t f n => file t f n (Redirect.nextInduction null file pipe n)
  | .pipe t c n => pipe t c n (Redirect.nextInduction null file pipe n)

/-- Induction along `pcNext`, which does not look into the redirects. -/
@[elab_as_elim]
theorem Command.nextInduction {P : Command → Prop} (null : P .null)
    (mk : ∀ z pa b r n, P n → P (.mk z pa b r n)) : ∀ pc, P pc
  | .null => null
  | .mk z pa b r n => mk z pa b r n (Command.nextInduction null mk n)

namespace Command

/-! ### Fields

Reading a field through `NULL` is not meaningful; the values given there are never used. -/

def zCmd : Command → String
  | null => ""
  | mk zCmd _ _ _ _ => zCmd

def pa : Command → Args
  | null => ⟨none, []⟩
  | mk _ pa _ _ _ => pa

def fBackground : Command → Bool
  | null => false
  | mk _ _ fBackground _ _ => fBackground

def prRedirects : Command → Redirect
  | null => .null
  | mk _ _ _ prRedirects _ => prRedirects

def pcNext : Command → Command
  | null => null
  | mk _ _ _ _ pcNext => pcNext

@[simp] theorem zCmd_mk (z : String) (pa : Args) (b : Bool) (r : Redirect) (n : Command) :
    (mk z pa b r n).zCmd = z := rfl
@[simp] theorem pa_mk (z : String) (pa : Args) (b : Bool) (r : Redirect) (n : Command) :
    (mk z pa b r n).pa = pa := rfl
@[simp] theorem fBackground_mk (z : String) (pa : Args) (b : Bool) (r : Redirect)
    (n : Command) : (mk z pa b r n).fBackground = b := rfl
@[simp] theorem prRedirects_mk (z : String) (pa : Args) (b : Bool) (r : Redirect)
    (n : Command) : (mk z pa b r n).prRedirects = r := rfl
@[simp] theorem pcNext_mk (z : String) (pa : Args) (b : Bool) (r : Redirect) (n : Command) :
    (mk z pa b r n).pcNext = n := rfl

/-- The commands of a list linked through `pcNext`, first command first. -/
def commands : Command → List Command
  | null => []
  | mk z pa b r n => mk z pa b r n :: n.commands

/-- Set `fBackground`. -/
def setBackground : Command → Command
  | null => null
  | mk z pa _ r n => mk z pa true r n

end Command

/-! ### `command.c` -/

/-- `createArguments(zArg)`: `azArgs[0]` of the zeroed array is `NULL`, so the test in front
    of the `strdup` fails and `zArg` is not used. -/
def createArguments (_zArg : Option String) : Args := ⟨none, []⟩

/-- `setArgument(pa, 0, zArg)`. -/
def setArgument (pa : Args) (zArg : Option String) : Args := { pa with zero := zArg }

/-- `appendArgument(pa, zArg)`: the list alone.  The array with its counter, which the 15th
    parameter leaves, is in `Arguments.lean`, and on the heap in `CommandHeap.lean`. -/
def appendArgument (pa : Args) (zArg : String) : Args :=
  { pa with params := pa.params ++ [zArg] }

/-- `createCommand(COMMAND, zCommand, pa, fBackground, prRedirects, pcNext)`. -/
def createCommand (zCommand : String) (pa : Args) (fBackground : Bool) (prRedirects : Redirect)
    (pcNext : Command) : Command :=
  .mk zCommand pa fBackground prRedirects pcNext

/-- `appendCommand(pc1, pc2)`: walk to the end of `pc1` and link `pc2` there. -/
def appendCommand : Command → Command → Command
  | .null, pc2 => pc2
  | .mk z pa b r n, pc2 => .mk z pa b r (appendCommand n pc2)

/-- `createRedirect(fType, p, prNext)` for a file. -/
def createRedirectFile (fType : FileType) (pzFile : String) (prNext : Redirect) : Redirect :=
  .file fType pzFile prNext

/-- `createRedirect(fType, p, prNext)` for a command. -/
def createRedirectPipe (fType : PipeType) (pcPipe : Command) (prNext : Redirect) : Redirect :=
  .pipe fType pcPipe prNext

/-- `appendRedirect(pr1, pr2)`: walk to the end of `pr1` and link `pr2` there. -/
def appendRedirect : Redirect → Redirect → Redirect
  | .null, pr2 => pr2
  | .file t f n, pr2 => .file t f (appendRedirect n pr2)
  | .pipe t c n, pr2 => .pipe t c (appendRedirect n pr2)

/-! ### Pipelines -/

/-- `NextPipelineCommand` on the redirect list: the command of the first pipe in it. -/
def nextPipelineRedirect : Redirect → Command
  | .null => .null
  | .file _ _ n => nextPipelineRedirect n
  | .pipe _ c _ => c

/-- `NextPipelineCommand(pc)`. -/
def nextPipelineCommand (pc : Command) : Command := nextPipelineRedirect pc.prRedirects

mutual

/-- The commands `pc`, `NextPipelineCommand(pc)`, … up to `NULL`: the stages of a
    pipeline. -/
def stages : Command → List Command
  | .null => []
  | .mk z pa b r n => .mk z pa b r n :: stagesBelow r

/-- The stages below the first pipe of a redirect list. -/
def stagesBelow : Redirect → List Command
  | .null => []
  | .file _ _ n => stagesBelow n
  | .pipe _ c _ => stages c

end

theorem stagesBelow_eq (r : Redirect) : stagesBelow r = stages (nextPipelineRedirect r) := by
  match r with
  | .null => rfl
  | .file _ _ n => rw [stagesBelow, nextPipelineRedirect, stagesBelow_eq n]
  | .pipe _ _ _ => rfl

/-- `stages` is the walk `pc = NextPipelineCommand(pc)` of the loop in `ExecCommand`. -/
theorem stages_eq (pc : Command) (h : pc ≠ .null) :
    stages pc = pc :: stages (nextPipelineCommand pc) := by
  cases pc with
  | null => exact absurd rfl h
  | mk z pa b r n => rw [stages, stagesBelow_eq]; rfl

end OSPortfolio.Ish
