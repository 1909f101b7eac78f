import OSPortfolio.Ish.Command
import OSPortfolio.Ish.Lexer
import OSPortfolio.Ish.Redirection

namespace OSPortfolio.Ish

/-!
# The grammar of command lines

The rules of `parser.y` below `cmd_line`, one relation for each nonterminal: the tokens it
derives and the value its actions compute.  A rule keeps its place in the file, and an action
is written with the functions of `command.c` it calls.

* `DerivesCmdSeq` — the syntactically valid lines, with their commands;
* `DerivesRedirect.parserBuilt` — the redirect lists of parsed commands are the ones that
  `Redirection.lean` and `BuiltIn.lean` are about.
-/

/-! ### Parameters and redirects to files -/

/-- `parameter` -/
inductive DerivesParameter : Token → String → Prop
  | word (s : String) : DerivesParameter (.WORD s) s
  | string (s : String) : DerivesParameter (.STRING s) s

/-- `parameters` -/
inductive DerivesParameters : List Token → Args → Prop
  | append {ts : List Token} {t : Token} {pa : Args} {s : String} (h₁ : DerivesParameters ts pa)
      (h₂ : DerivesParameter t s) : DerivesParameters (ts ++ [t]) (appendArgument pa s)
  | empty : DerivesParameters [] (createArguments none)

/-- `redirect_in` -/
inductive DerivesRedirectIn : List Token → Redirect → Prop
  | redirectIn (f : String) :
      DerivesRedirectIn [.REDIRECT_IN, .FILENAME f] (createRedirectFile .REDIRECT_IN f .null)

/-- `redirect_out` -/
inductive DerivesRedirectOut : List Token → Redirect → Prop
  | redirectOut (f : String) :
      DerivesRedirectOut [.REDIRECT_OUT, .FILENAME f] (createRedirectFile .REDIRECT_OUT f .null)
  | redirectError (f : String) :
      DerivesRedirectOut [.REDIRECT_ERROR, .FILENAME f]
        (createRedirectFile .REDIRECT_ERROR f .null)
  | append (f : String) :
      DerivesRedirectOut [.APPEND, .FILENAME f] (createRedirectFile .APPEND f .null)
  | appendError (f : String) :
      DerivesRedirectOut [.APPEND_ERROR, .FILENAME f] (createRedirectFile .APPEND_ERROR f .null)

/-- `redirect_file` -/
inductive DerivesRedirectFile : List Token → Redirect → Prop
  | redirectIn {ts : List Token} {r : Redirect} (h : DerivesRedirectIn ts r) :
      DerivesRedirectFile ts r
  | redirectOut {ts : List Token} {r : Redirect} (h : DerivesRedirectOut ts r) :
      DerivesRedirectFile ts r
  | inOut {ts₁ ts₂ : List Token} {r₁ r₂ : Redirect} (h₁ : DerivesRedirectIn ts₁ r₁)
      (h₂ : DerivesRedirectOut ts₂ r₂) : DerivesRedirectFile (ts₁ ++ ts₂) (appendRedirect r₁ r₂)
  | outIn {ts₁ ts₂ : List Token} {r₁ r₂ : Redirect} (h₁ : DerivesRedirectOut ts₁ r₁)
      (h₂ : DerivesRedirectIn ts₂ r₂) : DerivesRedirectFile (ts₁ ++ ts₂) (appendRedirect r₁ r₂)

/-- `pipe` -/
inductive DerivesPipe : Token → PipeType → Prop
  | pipe : DerivesPipe .PIPE .PIPE
  | pipeError : DerivesPipe .PIPE_ERROR .PIPE_ERROR

/-! ### Commands -/

/-- `char *c = strrchr($1, '/'); c ? c + 1 : $1` -/
def shortName (zCmd : String) : String :=
  String.ofList (zCmd.toList.reverse.takeWhile (· ≠ '/')).reverse

mutual

/-- `redirect` -/
inductive DerivesRedirect : List Token → Redirect → Prop
  | file {ts : List Token} {r : Redirect} (h : DerivesRedirectFile ts r) : DerivesRedirect ts r
  | pipe {ts : List Token} {r : Redirect} (h : DerivesRedirectPipe ts r) : DerivesRedirect ts r
  | filePipe {ts₁ ts₂ : List Token} {r₁ r₂ : Redirect} (h₁ : DerivesRedirectFile ts₁ r₁)
      (h₂ : DerivesRedirectPipe ts₂ r₂) : DerivesRedirect (ts₁ ++ ts₂) (appendRedirect r₁ r₂)
  | empty : DerivesRedirect [] .null

/-- `redirect_pipe` -/
inductive DerivesRedirectPipe : List Token → Redirect → Prop
  | pipe {t : Token} {ts : List Token} {p : PipeType} {pc : Command} (h₁ : DerivesPipe t p)
      (h₂ : DerivesCommand ts pc) : DerivesRedirectPipe (t :: ts) (createRedirectPipe p pc .null)

/-- `command` -/
inductive DerivesCommand : List Token → Command → Prop
  | command (z : String) {ts₁ ts₂ : List Token} {pa : Args} {r : Redirect}
      (h₁ : DerivesParameters ts₁ pa) (h₂ : DerivesRedirect ts₂ r) :
      DerivesCommand (.COMMAND z :: (ts₁ ++ ts₂))
        (createCommand z (setArgument pa (some (shortName z))) false r .null)

end

/-- `separator`: whether it is `BACKGROUND`. -/
inductive DerivesSeparator : Token → Bool → Prop
  | background : DerivesSeparator .BACKGROUND true
  | semicolon : DerivesSeparator .SEMICOLON false

/-- `if ($2 == BACKGROUND) $1->fBackground = 1;` -/
def backgroundIf (background : Bool) (pc : Command) : Command :=
  if background then pc.setBackground else pc

/-- `cmd_seq` -/
inductive DerivesCmdSeq : List Token → Command → Prop
  | sequence {ts₁ ts₂ : List Token} {t : Token} {b : Bool} {pc₁ pc₂ : Command}
      (h₁ : DerivesCommand ts₁ pc₁) (h₂ : DerivesSeparator t b) (h₃ : DerivesCmdSeq ts₂ pc₂) :
      DerivesCmdSeq (ts₁ ++ t :: ts₂) (backgroundIf b (appendCommand pc₁ pc₂))
  | separator {ts : List Token} {t : Token} {b : Bool} {pc : Command}
      (h₁ : DerivesCommand ts pc) (h₂ : DerivesSeparator t b) :
      DerivesCmdSeq (ts ++ [t]) (backgroundIf b pc)
  | command {ts : List Token} {pc : Command} (h : DerivesCommand ts pc) : DerivesCmdSeq ts pc

/-! ### The shape of what is built -/

theorem DerivesRedirectPipe.pipeTail {ts : List Token} {r : Redirect}
    (h : DerivesRedirectPipe ts r) : PipeTail r := by
  cases h with
  | pipe h₁ h₂ => exact .pipe _ _

theorem DerivesRedirectOut.file {ts : List Token} {r : Redirect} (h : DerivesRedirectOut ts r) :
    ∃ t f, t ≠ .REDIRECT_IN ∧ r = .file t f .null := by
  cases h with
  | redirectOut f => exact ⟨.REDIRECT_OUT, f, by decide, rfl⟩
  | redirectError f => exact ⟨.REDIRECT_ERROR, f, by decide, rfl⟩
  | append f => exact ⟨.APPEND, f, by decide, rfl⟩
  | appendError f => exact ⟨.APPEND_ERROR, f, by decide, rfl⟩

/-- The redirects to files, with a tail appended. -/
theorem DerivesRedirectFile.parserBuilt {ts : List Token} {r tail : Redirect}
    (h : DerivesRedirectFile ts r) (htail : PipeTail tail) :
    ParserBuilt (appendRedirect r tail) := by
  cases h with
  | redirectIn h =>
    obtain ⟨f⟩ := h
    exact .input f htail
  | redirectOut h =>
    obtain ⟨t, f, ht, rfl⟩ := h.file
    exact .output t f ht htail
  | inOut h₁ h₂ =>
    obtain ⟨f⟩ := h₁
    obtain ⟨t, g, ht, rfl⟩ := h₂.file
    exact .inputOutput f t g ht htail
  | outIn h₁ h₂ =>
    obtain ⟨t, g, ht, rfl⟩ := h₁.file
    obtain ⟨f⟩ := h₂
    exact .outputInput t g f ht htail

theorem appendRedirect_null (r : Redirect) : appendRedirect r .null = r := by
  induction r using Redirect.nextInduction with
  | null => rfl
  | file t f n ih => rw [appendRedirect, ih]
  | pipe t c n ih => rw [appendRedirect, ih]

/-- **What the parser builds.**  The redirect list of a parsed command has at most one input
    and one output redirect, in either order, and then at most one pipe. -/
theorem DerivesRedirect.parserBuilt {ts : List Token} {r : Redirect} (h : DerivesRedirect ts r) :
    ParserBuilt r := by
  cases h with
  | file h =>
    -- without a pipe the tail that is appended is empty
    have hbuilt := h.parserBuilt .null
    rwa [appendRedirect_null] at hbuilt
  | pipe h => exact .tail h.pipeTail
  | filePipe h₁ h₂ => exact h₁.parserBuilt h₂.pipeTail
  | empty => exact .tail .null

/-- The action of `command` makes one command, in the foreground and with nothing behind it. -/
theorem DerivesCommand.shape {ts : List Token} {pc : Command} (h : DerivesCommand ts pc) :
    ∃ z pa r, pc = .mk z pa false r .null := by
  cases h with
  | command z h₁ h₂ => exact ⟨z, _, _, rfl⟩

/-- No list of commands that the parser returns for a line is `NULL`. -/
theorem DerivesCmdSeq.ne_null {ts : List Token} {pc : Command} (h : DerivesCmdSeq ts pc) :
    pc ≠ .null := by
  cases h with
  | sequence h₁ h₂ h₃ =>
    obtain ⟨z, pa, r, rfl⟩ := h₁.shape
    cases h₂ <;> simp [backgroundIf, appendCommand, Command.setBackground]
  | separator h₁ h₂ =>
    obtain ⟨z, pa, r, rfl⟩ := h₁.shape
    cases h₂ <;> simp [backgroundIf, Command.setBackground]
  | command h =>
    obtain ⟨z, pa, r, rfl⟩ := h.shape
    simp

end OSPortfolio.Ish
