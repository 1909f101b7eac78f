import OSPortfolio.Ish.ParserHeap
import OSPortfolio.Ish.ParsedLine

namespace OSPortfolio.Ish.OnHeap

open OSPortfolio.Memory OSPortfolio.LR OSPortfolio.Flex OSPortfolio.Lists

/-!
# The commands that the actions build

The shape of a parsed line is a fact about the grammar.  The generated parser gets there as long
as its stack has room for the line and the array of the arguments for the parameters: then the
actions, which append to lists in place, have built the commands of the line and nothing else.

* `BuildsLine` — a call leaves one command for each piece of the line, each in its shape;
* `buildsLine` — **so it does on every derivable line** that fits;
* `not_listShape_deep` — a line of 5000 commands does not fit, and nothing is built.
-/

variable {w : Nat} (A : Allocator) (requests : Nat → Nat)

/-- A call of `nextCommand` with `fuel` steps, in front of the line: it returns a list of commands
    in blocks of their own, next to those from before, and the list has the shape of the line. -/
def BuildsLine (fuel : Nat) (lexer : Scanner) : Prop :=
  ∀ s : FrontHeap w, InFront lexer s.scanner → s.globals.fEndOfFile = false →
    ∃ s' pc m, nextCommandHeap A requests fuel s = some s' ∧
      HoldsCommand s'.globals.pcGlobalCommand pc m ∧
      s'.heap.contents = m + s.heap.contents ∧
      List.Forall₂ CommandShape (pieces parseSeparator (readLine lexer).tokens) pc.commands

/-- **A derivable line is built as its tokens say.**  The list that `pcGlobalCommand` points to has
    one command for each piece of the line between separators, in their order along `pcNext`, and
    each command has the name, the parameters, the redirects and the pipe of its tokens. -/
theorem buildsLine (hw : 1 < w) {lexer : Scanner}
    (hder : ∃ pc, DerivesCmdSeq (readLine lexer).tokens pc)
    (hfits : StackFits (readLine lexer)) (hshort : ShortLine (readLine lexer)) :
    ∃ fuel, ∀ fuel' ≥ fuel, BuildsLine (w := w) A requests fuel' lexer := by
  obtain ⟨pc, hpc⟩ := hder
  obtain ⟨fuel, hcall⟩ := nextCommandHeap_spec A hw requests hfits hshort
  refine ⟨fuel, fun fuel' hle s hfront heof => ?_⟩
  obtain ⟨s', m, lost, hs', -, -, hcommand, hcontents, hlost⟩ := hcall fuel' hle s hfront heof
  have hvalue : (nextCommand lexer).1 = pc := (nextCommand_lineResult lexer).derivable pc hpc
  rw [hlost (Or.inr ⟨pc, hpc⟩), add_zero] at hcontents
  exact ⟨s', pc, m, hs', hvalue ▸ hcommand, hcontents, hpc.listShape⟩

/-- `ls -l <in|wc&echo`: two commands, the first in the background and piped. -/
theorem buildsLine_two_commands :
    ∃ fuel, ∀ fuel' ≥ fuel, BuildsLine (w := 8) .above (fun _ => 0) fuel'
      ⟨.INITIAL, ['l', 's', ' ', '-', 'l', ' ', '<', 'i', 'n', '|', 'w', 'c', '&', 'e', 'c', 'h',
        'o', '\n']⟩ := by
  have htokens : (readLine ⟨.INITIAL, ['l', 's', ' ', '-', 'l', ' ', '<', 'i', 'n', '|', 'w', 'c',
      '&', 'e', 'c', 'h', 'o', '\n']⟩).tokens =
      [.COMMAND "ls", .WORD "-l", .REDIRECT_IN, .FILENAME "in", .PIPE, .COMMAND "wc",
        .BACKGROUND, .COMMAND "echo"] := by
    decide
  refine buildsLine .above (fun _ => 0) (by decide) ?_ ?_ ?_
  · rw [htokens]
    exact ⟨_, (parseLine_iff _ (Command.mk "ls" ⟨some "ls", ["-l"]⟩ true (.file .REDIRECT_IN "in"
        (.pipe .PIPE (.mk "wc" ⟨some "wc", []⟩ false .null .null) .null))
        (.mk "echo" ⟨some "echo", []⟩ false .null .null))).mp (by decide)⟩
  · exact stackFits_of_length_lt (by rw [htokens]; decide)
  · exact shortLine_of_length_le (by rw [htokens]; decide)

/-- **5000 commands in one line.**  The line is derivable, and the call of the generated parser
    returns the `NULL` from before, which has not the shape of the line. -/
theorem not_listShape_deep :
    (∃ pc, DerivesCmdSeq (manyTokens 5000) pc) ∧
      readLine ⟨.INITIAL, manyCommands 5000 ++ ['\n']⟩ =
        ⟨manyTokens 5000, false, ⟨.INITIAL, []⟩⟩ ∧
      ∃ fuel r s, (∀ fuel' ≥ fuel, callsTab fuel' 1
          (resetParserTab ⟨.null, false⟩ .INITIAL (manyCommands 5000 ++ ['\n'])) =
            some ([r], r, s)) ∧
        ¬ List.Forall₂ CommandShape (pieces parseSeparator (manyTokens 5000))
          r.pcGlobalCommand.commands := by
  obtain ⟨pc, hpc⟩ := derives_manyTokens 4999
  obtain ⟨fuel, r, s, hnull, hcalls⟩ := callsTab_deep (n := 5000) (by decide) ⟨.null, false⟩
  refine ⟨⟨pc, hpc⟩, readLine_manyCommands 5000, fuel, r, s, hcalls, ?_⟩
  -- the line has a piece, and `NULL` has no command
  have hpiece := hpc.listShape
  rw [hnull]
  intro hshape
  obtain ⟨z, pa, b, r, n, rfl⟩ : ∃ z pa b r n, pc = .mk z pa b r n := by
    cases pc with
    | null => exact absurd rfl hpc.ne_null
    | mk z pa b r n => exact ⟨z, pa, b, r, n, rfl⟩
  rw [List.forall₂_nil_right_iff.mp hshape] at hpiece
  cases hpiece

end OSPortfolio.Ish.OnHeap
