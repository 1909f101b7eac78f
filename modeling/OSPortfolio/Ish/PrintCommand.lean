import Mathlib.Data.List.Induction
import OSPortfolio.Ish.LineRecovery

namespace OSPortfolio.Ish

/-!
# Printed command lists

`printCommand`, `printRedirect` and `printArguments` of `command.c`, and the way back through
the lexer and the parser.  Each item is printed with a blank behind it, so the text is a
concatenation of chunks, and the start condition in front of a chunk is the one its token
needs.

* `LexesTo` — what the lexer reads in a chunk, whatever follows it;
* `lexesTo_command` — a printed list is read as `commandTokens`;
* `DerivesCmdSeq.printed` — these tokens are derived with the value that was printed;
* `DerivesCmdSeq.nextCommand_printCommand` — **printing and reading gives the same list**.
-/

/-! ### The printer -/

/-- `fprintf(pf, "%s ", z)` -/
def printItem (z : String) : List Char := z.toList ++ [' ']

/-- `printArguments(pa, pf)`: from `azArgs[1]` on. -/
def printArguments (pa : Args) : List Char := pa.params.flatMap printItem

/-- `zRedirect` of a redirect to a file. -/
def fileText : FileType → String
  | .REDIRECT_IN => "<"
  | .REDIRECT_OUT => ">"
  | .REDIRECT_ERROR => ">&"
  | .APPEND => ">>"
  | .APPEND_ERROR => ">>&"

/-- `zRedirect` of a pipe. -/
def pipeText : PipeType → String
  | .PIPE => "|"
  | .PIPE_ERROR => "|&"

mutual

/-- `printCommand(pc, pf)`; the caller never passes `NULL`. -/
def printCommand : Command → List Char
  | .null => []
  | .mk z pa b r n =>
    printItem z ++ printArguments pa ++ printRedirect r ++
      (if b = true then printItem "&" else if n = .null then [] else printItem ";") ++
      printCommand n

/-- `printRedirect(pr, pf)` -/
def printRedirect : Redirect → List Char
  | .null => []
  | .file t f n => printItem (fileText t) ++ printItem f ++ printRedirect n
  | .pipe t c n => printItem (pipeText t) ++ printCommand c ++ printRedirect n

end

/-! ### The tokens of a printed list -/

/-- The token of a redirect to a file. -/
def fileToken : FileType → Token
  | .REDIRECT_IN => .REDIRECT_IN
  | .REDIRECT_OUT => .REDIRECT_OUT
  | .REDIRECT_ERROR => .REDIRECT_ERROR
  | .APPEND => .APPEND
  | .APPEND_ERROR => .APPEND_ERROR

/-- The token of a pipe. -/
def pipeToken : PipeType → Token
  | .PIPE => .PIPE
  | .PIPE_ERROR => .PIPE_ERROR

mutual

/-- The tokens that a printed command list is read as. -/
def commandTokens : Command → List Token
  | .null => []
  | .mk z pa b r n =>
    .COMMAND z :: (pa.params.map .WORD ++ redirectTokens r ++
      (if b = true then [.BACKGROUND] else if n = .null then [] else [.SEMICOLON]) ++
      commandTokens n)

/-- The tokens that a printed redirect list is read as. -/
def redirectTokens : Redirect → List Token
  | .null => []
  | .file t f n => fileToken t :: .FILENAME f :: redirectTokens n
  | .pipe t c n => pipeToken t :: (commandTokens c ++ redirectTokens n)

end

/-! ### Plain names -/

/-- A nonempty string of letters, digits and characters of the class `others`. -/
def PlainName (z : String) : Prop := z ≠ "" ∧ ∀ c ∈ z.toList, isPlain c = true

mutual

/-- All words, command names and file names of a command list are plain. -/
def Command.PlainNames : Command → Prop
  | .null => True
  | .mk z pa _ r n =>
    PlainName z ∧ (∀ s ∈ pa.params, PlainName s) ∧ r.PlainNames ∧ n.PlainNames

/-- All names in a redirect list are plain. -/
def Redirect.PlainNames : Redirect → Prop
  | .null => True
  | .file _ f n => PlainName f ∧ n.PlainNames
  | .pipe _ c n => c.PlainNames ∧ n.PlainNames

end

/-! ### The lexer on one chunk -/

/-- From `start` on, the lexer reads the text `cs` as the tokens `ts`, and is in `start'`
    behind it, whatever follows. -/
def LexesTo (start : StartCond) (cs : List Char) (ts : List Token) (start' : StartCond) : Prop :=
  ∀ rest, readLine ⟨start, cs ++ rest⟩ = (readLine ⟨start', rest⟩).prepend ts

theorem lexesTo_nil (start : StartCond) : LexesTo start [] [] start := fun _ => rfl

/-- **Chunks one after the other.** -/
theorem LexesTo.append {a b c : StartCond} {cs ds : List Char} {ts us : List Token}
    (h₁ : LexesTo a cs ts b) (h₂ : LexesTo b ds us c) :
    LexesTo a (cs ++ ds) (ts ++ us) c := by
  intro rest
  rw [List.append_assoc, h₁, h₂, Line.prepend_prepend]

/-- A text that the lexer reads as one token, with a blank behind it. -/
theorem lexesTo_of_yylex {start start' : StartCond} {cs : List Char} {t : Token}
    (hne : t ≠ .YEOF) (hline : t ≠ .EOLN)
    (h : ∀ rest, yylexFrom start (cs ++ ' ' :: rest) = (t, ⟨start', ' ' :: rest⟩)) :
    LexesTo start (cs ++ [' ']) [t] start' := by
  intro rest
  have hread : yylex ⟨start, cs ++ ' ' :: rest⟩ = (t, ⟨start', ' ' :: rest⟩) := h rest
  -- the blank is passed over by the next call
  have hblank : readLine ⟨start', ' ' :: rest⟩ = readLine ⟨start', rest⟩ := by
    have hskip : yylex ⟨start', ' ' :: rest⟩ = yylex ⟨start', rest⟩ := rfl
    rw [readLine_eq, readLine_eq ⟨start', rest⟩, hskip]
  rw [List.append_assoc, List.singleton_append, readLine_eq, hread, if_neg hne, if_neg hline,
    hblank]

/-- The pattern `word` stops at a blank. -/
theorem scanWord_plain {cs : List Char} (h : ∀ c ∈ cs, isPlain c = true) (rest : List Char) :
    scanWord none (cs ++ ' ' :: rest) = some cs.length := by
  induction cs with
  | nil => rfl
  | cons c cs ih =>
    have hc := h c List.mem_cons_self
    have hback : c ≠ '\\' := by
      rintro rfl
      exact absurd hc (by decide)
    rw [List.cons_append, scanWord, if_pos hc, ih fun d hd => h d (List.mem_cons_of_mem c hd)]
    · rfl
    · exact fun d ds heq => absurd heq hback

/-- Plain characters stand for themselves. -/
theorem copyEscaped_plain {cs : List Char} (h : ∀ c ∈ cs, isPlain c = true) :
    copyEscaped none cs = cs := by
  induction cs with
  | nil => rfl
  | cons c cs ih =>
    have hc := h c List.mem_cons_self
    have hquote : ¬ isQuotes c = true := fun hq => by
      simp only [isQuotes, Bool.or_eq_true, decide_eq_true_eq] at hq
      rcases hq with rfl | rfl <;> exact absurd hc (by decide)
    have hback : c ≠ '\\' := by
      rintro rfl
      exact absurd hc (by decide)
    rw [copyEscaped, if_neg hquote, ih fun d hd => h d (List.mem_cons_of_mem c hd)]
    · exact fun heq _ => absurd heq hback
    · exact fun d ds heq => absurd heq hback

/-- A printed name is read as one token, of the kind its start condition asks for. -/
theorem lexesTo_name (start : StartCond) {z : String} (h : PlainName z) :
    LexesTo start (printItem z) [(wordRule start z).1] .PARAM := by
  obtain ⟨hne, hplain⟩ := h
  have hnil : z.toList ≠ [] := fun heq => hne (String.toList_eq_nil_iff.mp heq)
  have hparam : (wordRule start z).2 = .PARAM := by cases start <;> rfl
  have hline : (wordRule start z).1 ≠ .EOLN := by cases start <;> simp [wordRule]
  refine lexesTo_of_yylex (wordRule_ne_YEOF start z) hline fun rest => ?_
  have hlength : wordLength (z.toList ++ ' ' :: rest) = z.toList.length := by
    rw [wordLength, scanWord_plain hplain]
    rfl
  cases hz : z.toList with
  | nil => exact absurd hz hnil
  | cons c cs =>
    rw [hz] at hlength hplain
    have hcopy : copyEscapedString (c :: cs) = z := by
      rw [copyEscapedString, copyEscaped_plain hplain, ← hz, String.ofList_toList]
    rw [List.cons_append] at hlength ⊢
    rw [yylexFrom, if_pos (by rw [hlength]; simp), hlength, ← List.cons_append]
    dsimp only
    rw [List.take_left, List.drop_left, hcopy, hparam]

/-- The operators of redirects, in any start condition. -/
theorem lexesTo_file (start : StartCond) (t : FileType) :
    LexesTo start (printItem (fileText t)) [fileToken t] .FNAME := by
  cases t <;> exact lexesTo_of_yylex (by decide) (by decide) fun _ => rfl

/-- A pipe is read back. -/
theorem lexesTo_pipe (start : StartCond) (t : PipeType) :
    LexesTo start (printItem (pipeText t)) [pipeToken t] .INITIAL := by
  cases t <;> exact lexesTo_of_yylex (by decide) (by decide) fun _ => rfl

theorem lexesTo_background (start : StartCond) :
    LexesTo start (printItem "&") [.BACKGROUND] .INITIAL :=
  lexesTo_of_yylex (by decide) (by decide) fun _ => rfl

theorem lexesTo_semicolon (start : StartCond) :
    LexesTo start (printItem ";") [.SEMICOLON] .INITIAL :=
  lexesTo_of_yylex (by decide) (by decide) fun _ => rfl

/-- The printed arguments are read back as words. -/
theorem lexesTo_arguments {params : List String} (h : ∀ s ∈ params, PlainName s) :
    LexesTo .PARAM (params.flatMap printItem) (params.map .WORD) .PARAM := by
  induction params with
  | nil => exact lexesTo_nil .PARAM
  | cons s params ih =>
    rw [List.flatMap_cons, List.map_cons, ← List.singleton_append]
    exact (lexesTo_name .PARAM (h s List.mem_cons_self)).append
      (ih fun s' hs' => h s' (List.mem_cons_of_mem s hs'))

/-! ### The lexer on a printed list -/

mutual

/-- **The tokens of a printed command list.** -/
theorem lexesTo_command (pc : Command) (h : pc.PlainNames) :
    ∃ start, LexesTo .INITIAL (printCommand pc) (commandTokens pc) start := by
  match pc with
  | .null => exact ⟨_, lexesTo_nil .INITIAL⟩
  | .mk z pa b r n =>
    obtain ⟨hz, hparams, hr, hn⟩ := h
    obtain ⟨start, hredirect⟩ := lexesTo_redirect r hr .PARAM
    obtain ⟨last, hnext⟩ := lexesTo_command n hn
    have hfront := ((lexesTo_name .INITIAL hz).append (lexesTo_arguments hparams)).append hredirect
    have htokens : commandTokens (.mk z pa b r n) =
        [.COMMAND z] ++ pa.params.map .WORD ++ redirectTokens r ++
          (if b = true then [.BACKGROUND] else if n = .null then [] else [.SEMICOLON]) ++
          commandTokens n := by
      rw [commandTokens]
      simp
    rw [printCommand, htokens]
    by_cases hb : b = true
    · rw [if_pos hb, if_pos hb]
      exact ⟨last, (hfront.append (lexesTo_background start)).append hnext⟩
    · rw [if_neg hb, if_neg hb]
      by_cases hnull : n = .null
      -- without a separator nothing follows either
      · rw [if_pos hnull, if_pos hnull, hnull]
        exact ⟨start, (hfront.append (lexesTo_nil start)).append (lexesTo_nil start)⟩
      · rw [if_neg hnull, if_neg hnull]
        exact ⟨last, (hfront.append (lexesTo_semicolon start)).append hnext⟩

/-- A redirect list is read the same in any start condition. -/
theorem lexesTo_redirect (r : Redirect) (h : r.PlainNames) (start : StartCond) :
    ∃ start', LexesTo start (printRedirect r) (redirectTokens r) start' := by
  match r with
  | .null => exact ⟨_, lexesTo_nil start⟩
  | .file t f n =>
    obtain ⟨hf, hn⟩ := h
    obtain ⟨last, hnext⟩ := lexesTo_redirect n hn .PARAM
    exact ⟨last, ((lexesTo_file start t).append (lexesTo_name .FNAME hf)).append hnext⟩
  | .pipe t c n =>
    obtain ⟨hc, hn⟩ := h
    obtain ⟨mid, hcommand⟩ := lexesTo_command c hc
    obtain ⟨last, hnext⟩ := lexesTo_redirect n hn mid
    exact ⟨last, ((lexesTo_pipe start t).append hcommand).append hnext⟩

end

/-! ### The grammar on these tokens -/

/-- The words are parameters again. -/
theorem derivesParameters_words {pa : Args} (hzero : pa.zero = none) :
    DerivesParameters (pa.params.map .WORD) pa := by
  obtain ⟨zero, params⟩ := pa
  obtain rfl : zero = none := hzero
  induction params using List.reverseRecOn with
  | nil => exact .empty
  | append_singleton params s ih =>
    rw [List.map_append]
    exact ih.append (.word s)

/-- The parser leaves `azArgs[0]` to the command. -/
theorem DerivesParameters.zero {ts : List Token} {pa : Args} (h : DerivesParameters ts pa) :
    pa.zero = none := by
  induction h with
  | append h₁ h₂ ih => exact ih
  | empty => rfl

/-- The tokens of a redirect list, from its parts. -/
theorem redirectTokens_appendRedirect (r₁ r₂ : Redirect) :
    redirectTokens (appendRedirect r₁ r₂) = redirectTokens r₁ ++ redirectTokens r₂ := by
  induction r₁ using Redirect.nextInduction with
  | null => rfl
  | file t f n ih => rw [appendRedirect, redirectTokens, redirectTokens, ih]; rfl
  | pipe t c n ih =>
    rw [appendRedirect, redirectTokens, redirectTokens, ih, List.cons_append, List.append_assoc]

/-- A redirect to files is printed as it was read. -/
theorem DerivesRedirectFile.printed {ts : List Token} {r : Redirect}
    (h : DerivesRedirectFile ts r) : redirectTokens r = ts := by
  have hin : ∀ {ts r}, DerivesRedirectIn ts r → redirectTokens r = ts := by
    rintro _ _ ⟨f⟩
    rfl
  have hout : ∀ {ts r}, DerivesRedirectOut ts r → redirectTokens r = ts := by
    intro ts r h
    cases h <;> rfl
  cases h with
  | redirectIn h => exact hin h
  | redirectOut h => exact hout h
  | inOut h₁ h₂ => rw [redirectTokens_appendRedirect, hin h₁, hout h₂]
  | outIn h₁ h₂ => rw [redirectTokens_appendRedirect, hout h₁, hin h₂]

mutual

/-- The printed redirects are derived again, with the same tree. -/
theorem DerivesRedirect.printed {ts : List Token} {r : Redirect} (h : DerivesRedirect ts r) :
    DerivesRedirect (redirectTokens r) r := by
  match h with
  | .file h => exact .file (by rwa [h.printed])
  | .pipe h => exact .pipe h.printed
  | .filePipe h₁ h₂ =>
    rw [redirectTokens_appendRedirect]
    exact .filePipe (by rwa [h₁.printed]) h₂.printed
  | .empty => exact .empty

/-- The same for a pipe. -/
theorem DerivesRedirectPipe.printed {ts : List Token} {r : Redirect}
    (h : DerivesRedirectPipe ts r) : DerivesRedirectPipe (redirectTokens r) r := by
  match h with
  | @DerivesRedirectPipe.pipe _ _ p pc h₁ h₂ =>
    have hpipe : DerivesPipe (pipeToken p) p := by cases h₁ <;> constructor
    show DerivesRedirectPipe (pipeToken p :: (commandTokens pc ++ [])) _
    rw [List.append_nil]
    exact .pipe hpipe h₂.printed

/-- **A printed command is derived again**, with the same value. -/
theorem DerivesCommand.printed {ts : List Token} {pc : Command} (h : DerivesCommand ts pc) :
    DerivesCommand (commandTokens pc) pc := by
  match h with
  | @DerivesCommand.command z _ _ pa r h₁ h₂ =>
    have hparams := derivesParameters_words h₁.zero
    have htokens : commandTokens (createCommand z (setArgument pa (some (shortName z))) false r
        .null) = .COMMAND z :: (pa.params.map .WORD ++ redirectTokens r) := by
      rw [createCommand, commandTokens, commandTokens]
      simp [setArgument]
    rw [htokens]
    exact .command z hparams h₂.printed

end

/-- The tokens of a list, from those of its first command. -/
theorem commandTokens_cons {z : String} {pa : Args} {r : Redirect} {n : Command}
    (hn : n ≠ .null) (b : Bool) :
    commandTokens (.mk z pa b r n) = commandTokens (.mk z pa false r .null) ++
      (if b = true then .BACKGROUND else .SEMICOLON) :: commandTokens n := by
  rw [commandTokens, commandTokens, commandTokens, if_neg hn]
  cases b <;> simp

/-- **A printed list is derived again**, with the same value. -/
theorem DerivesCmdSeq.printed {ts : List Token} {pc : Command} (h : DerivesCmdSeq ts pc) :
    DerivesCmdSeq (commandTokens pc) pc := by
  induction h with
  | @sequence ts₁ ts₂ t b pc₁ pc₂ h₁ h₂ h₃ ih =>
    obtain ⟨z, pa, r, rfl⟩ := h₁.shape
    have hlist : backgroundIf b (appendCommand (.mk z pa false r .null) pc₂) =
        .mk z pa b r pc₂ := by cases b <;> rfl
    have hder := DerivesCmdSeq.sequence h₁.printed
      (t := if b = true then .BACKGROUND else .SEMICOLON) (b := b)
      (by cases b <;> constructor) ih
    rw [hlist] at hder ⊢
    rwa [commandTokens_cons h₃.ne_null]
  | @separator ts t b pc h₁ h₂ =>
    obtain ⟨z, pa, r, rfl⟩ := h₁.shape
    cases b with
    | true =>
      have htokens : commandTokens (.mk z pa true r .null) =
          commandTokens (.mk z pa false r .null) ++ [.BACKGROUND] := by
        simp [commandTokens]
      show DerivesCmdSeq (commandTokens (.mk z pa true r .null)) _
      rw [htokens]
      exact .separator h₁.printed .background
    -- a `;` at the end of the line is not printed
    | false => exact .command h₁.printed
  | @command ts pc h => exact .command h.printed

/-! ### There and back -/

/-- A list with plain names that the grammar gives back from its tokens is read back. -/
theorem nextCommand_printed {pc : Command} (hplain : pc.PlainNames)
    (hparse : parseLine (commandTokens pc) = some pc) (rest : List Char) :
    nextCommand (resetParser .INITIAL (printCommand pc ++ '\n' :: rest)) =
      (pc, false, ⟨.INITIAL, rest⟩) := by
  obtain ⟨start, hlex⟩ := lexesTo_command pc hplain
  have hline : readLine ⟨start, '\n' :: rest⟩ = ⟨[], false, ⟨.INITIAL, rest⟩⟩ := by
    rw [readLine_eq]
    rfl
  have hread : readLine ⟨.INITIAL, printCommand pc ++ '\n' :: rest⟩ =
      ⟨commandTokens pc, false, ⟨.INITIAL, rest⟩⟩ := by
    rw [hlex, hline, Line.prepend, List.append_nil]
  rw [nextCommand, resetParser, yyparse, hread]
  dsimp only
  rw [hparse]
  rfl

/-- **Printing and reading a command list.**  A list that the parser builds, printed and read
    again with a newline behind it, is the same list; the lexer is then behind the newline.  The
    generated parser reads it so if its stack has room for the printed line. -/
theorem DerivesCmdSeq.nextCommand_printCommand {ts : List Token} {pc : Command}
    (h : DerivesCmdSeq ts pc) (hplain : pc.PlainNames) (rest : List Char) :
    nextCommand (resetParser .INITIAL (printCommand pc ++ '\n' :: rest)) =
        (pc, false, ⟨.INITIAL, rest⟩) ∧
      (StackFits (readLine (resetParser .INITIAL (printCommand pc ++ '\n' :: rest))) →
        ∀ g, ∃ fuel, ∀ fuel' ≥ fuel,
          nextCommandTab fuel' g (resetParser .INITIAL (printCommand pc ++ '\n' :: rest)) =
            some (⟨pc, false⟩, ⟨.INITIAL, rest⟩)) := by
  have hread := nextCommand_printed hplain ((parseLine_iff _ _).mpr h.printed) rest
  refine ⟨hread, fun hfits g => ?_⟩
  obtain ⟨fuel, hcall⟩ := nextCommandTab_eq hfits g
  rw [hread] at hcall
  exact ⟨fuel, hcall⟩

/-- `ls -l >>log |& wc & echo`: a pipe and two commands. -/
def pipeAndEcho : Command :=
  .mk "ls" ⟨some "ls", ["-l"]⟩ true (.file .APPEND "log"
    (.pipe .PIPE_ERROR (.mk "wc" ⟨some "wc", []⟩ false .null .null) .null))
    (.mk "echo" ⟨some "echo", []⟩ false .null .null)

/-- Its printed line, read by the generated parser. -/
theorem nextCommand_printCommand_pipe :
    nextCommand (resetParser .INITIAL (printCommand pipeAndEcho ++ '\n' :: [])) =
        (pipeAndEcho, false, ⟨.INITIAL, []⟩) ∧
      ∃ fuel, ∀ fuel' ≥ fuel,
        nextCommandTab fuel' ⟨.null, false⟩
            (resetParser .INITIAL (printCommand pipeAndEcho ++ '\n' :: [])) =
          some (⟨pipeAndEcho, false⟩, ⟨.INITIAL, []⟩) := by
  have hword : PlainName "-l" := ⟨by decide, List.all_eq_true.mp (by decide)⟩
  have hls : PlainName "ls" := ⟨by decide, List.all_eq_true.mp (by decide)⟩
  have hlog : PlainName "log" := ⟨by decide, List.all_eq_true.mp (by decide)⟩
  have hwc : PlainName "wc" := ⟨by decide, List.all_eq_true.mp (by decide)⟩
  have hecho : PlainName "echo" := ⟨by decide, List.all_eq_true.mp (by decide)⟩
  obtain ⟨hread, hcall⟩ := @DerivesCmdSeq.nextCommand_printCommand
    [.COMMAND "ls", .WORD "-l", .APPEND, .FILENAME "log", .PIPE_ERROR, .COMMAND "wc",
      .BACKGROUND, .COMMAND "echo"] pipeAndEcho ((parseLine_iff _ _).mp (by decide))
    ⟨hls, by simpa using hword, ⟨hlog, ⟨hwc, by simp, trivial, trivial⟩, trivial⟩,
      hecho, by simp, trivial, trivial⟩ []
  exact ⟨hread, hcall (stackFits_of_length_lt (by decide)) _⟩

end OSPortfolio.Ish
