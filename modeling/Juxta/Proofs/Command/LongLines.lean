/-
# Programs and long lines

The lines that a prompt cuts into programs are the lines that the buffer hands over.
For an input whose lines fit into the buffer these are the lines of the input, and
nothing is lost, repeated or put in another order. A line that does not fit is taken
for several lines, in general for several programs.
-/

import Juxta.Proofs.Command.Lines
import Juxta.Proofs.Command.Transcript
import Juxta.Proofs.Token.Scan

namespace Juxta.Command

/-- The prompt reads its input in the lines that the buffer makes of it, which are the
written lines exactly if these fit into the buffer; an input that is made of lines shorter
than the buffer is read as these. The lines that are read are cut in one way only
into programs, each the shortest run of lines behind the one before it that asks for no
more, up to a program that says to quit or to a rest that is no program. The prompt
prints one mark before the first line of a program and the other before every other line,
and takes each program in order: it evaluates its text, unless it is blank or says to
quit, and remembers it. If the output takes everything, it is the greeting, the marks
and the replies, and what the end of the input adds. -/
theorem runPrompt_programs (options : Options) (world : World) :
    let input := world.input.toOption.getD []
    let ending := runPrompt options world
    ∃ lines programs rest quits,
      (∀ lines', Line.Buffered input lines' ↔ lines' = lines) ∧
      (lines = Line.written input ↔ Line.Fits input) ∧
      (∀ typed, (∀ line ∈ typed, Line.IsShort line) → input = Line.unlines typed →
        lines = typed) ∧
      (∀ programs' rest' quits', Prompt.Splits lines programs' rest' quits' ↔
        programs' = programs ∧ rest' = rest ∧ quits' = quits) ∧
      let last := Prompt.closed options.raw world.console programs rest quits
      ending.code = 0 ∧ ending.output = last.pieces.flatten ∧
      ending.complaints = last.complaints ∧
      (ending.history = world.history.map fun text =>
        (programs.foldl Prompt.remembered (History.ofText text)).text) ∧
      (world.room = none → ending.output = Prompt.greeting ++
        (programs.flatMap fun program => (Prompt.marks program).flatten ++
          (Prompt.reply options.raw world.isColored program).output) ++
        if quits then [] else (Prompt.marks (rest ++ [[]]) ++ [[Ascii.newline]]).flatten) := by
  intro input ending
  obtain ⟨programs, rest, quits, splits, -⟩ :=
    Prompt.exists_splits options.raw world.lines (rfl : world.firstPrompt.collected = [])
  have ran : ending = _ := runPrompt_eq_closed options world splits
  refine ⟨world.lines, programs, rest, quits, fun lines' => Line.buffered_iff,
    Line.map_text_split_eq_written_iff input, ?_,
    fun programs' rest' quits' => ⟨splits.unique, ?_⟩, ?_⟩
  · intro typed each made
    have buffered : Line.Buffered input typed := made ▸ Line.buffered_unlines each
    exact (Line.buffered_iff.mp buffered).symm
  · rintro ⟨rfl, rfl, rfl⟩
    exact splits
  · rw [ran]
    refine ⟨rfl, rfl, rfl, rfl, fun unbounded => ?_⟩
    have greeted : world.console = ⟨[Prompt.greeting], none, [], world.isColored⟩ := by
      rw [World.console, Console.initial, unbounded]
      rfl
    have greeting : world.console.output = Prompt.greeting := by
      rw [greeted, Console.output, List.flatten_singleton]
    have colors : world.console.isColored = world.isColored := by rw [greeted]
    have room : world.console.room = none := by rw [greeted]
    have printed := output_closed room options.raw splits
    rwa [greeting, colors, Prompt.closing_eq splits, apply_ite List.flatten] at printed

/-- The options of a prompt that prints no raw forms. -/
def plainPrompt : Options := { prompt := true, raw := .none }

/-- A world with an input and an empty history file, in which all output is taken. -/
def withInput (input : Bytes) : World := ⟨.ok input, ⟨[]⟩, some [], none, false⟩

theorem runPrompt_programs_continued :
    let input := utf8 "1\r\n(2\n+ 3)\n\n:quit\nunread"
    let lines := ["1", "(2", "+ 3)", "", ":quit", "unread"].map utf8
    let programs := [["1"], ["(2", "+ 3)"], [""], [":quit"]].map (List.map utf8)
    let ending := runPrompt plainPrompt (withInput input)
    Line.Fits input ∧ Line.Buffered input lines ∧
      Prompt.Splits lines programs [utf8 "unread"] true ∧
      ending.output = Prompt.greeting ++ utf8 "nli> 1\nnli> ...  5\nnli> nli> " ∧
      ending.history = some (utf8 "1\n(2 + 3)\n") := by
  intro input lines programs ending
  obtain ⟨lines', programs', rest, quits, buffered, written, -, splits, -, -, -, history,
    output⟩ := runPrompt_programs plainPrompt (withInput input)
  have fits : Line.Fits input := by decide
  obtain rfl : lines = lines' := (written.mpr fits).symm
  have one : Prompt.IsProgram [utf8 "1"] := Prompt.isProgram_singleton rfl
  have sum : Prompt.IsProgram ([utf8 "(2"] ++ [utf8 "+ 3)"]) :=
    Prompt.isProgram_concat (Prompt.unfinished_concat Prompt.unfinished_nil rfl) rfl
  have blank : Prompt.IsProgram [[]] := Prompt.isProgram_singleton rfl
  have quit : Prompt.IsProgram [utf8 ":quit"] := Prompt.isProgram_singleton rfl
  have quitting : Prompt.Splits lines programs [utf8 "unread"] true :=
    .goesOn one (by decide) (.goesOn sum (by decide) (.goesOn blank (by decide)
      (.quits quit (by decide) _)))
  obtain ⟨rfl, rfl, rfl⟩ := (splits _ _ _).mp quitting
  refine ⟨fits, (buffered _).mpr rfl, quitting, ?_, ?_⟩
  · exact (output rfl).trans (by decide)
  · exact history

/-! ### A line that does not fit -/

/-- A text behind some spaces. -/
def indented (count : Nat) (text : Bytes) : Bytes := Bytes.fill count Ascii.space ++ text

theorem scanFrom_indented (pos count : Nat) (text : Bytes) :
    Token.scanFrom pos (indented count text) = Token.scanFrom (pos + count) text := by
  induction count generalizing pos with
  | zero => rfl
  | succ count ih =>
      have blank : Token.scanFrom pos (indented (count + 1) text) =
          Token.scanFrom (pos + 1) (indented count text) := rfl
      rw [blank, ih, Nat.add_assoc, Nat.add_comm 1]

theorem trim_indented (count : Nat) (text : Bytes) :
    Blank.trim (indented count text) = Blank.trim text := by
  induction count with
  | zero => rfl
  | succ count ih => exact ih

theorem newline_notMem_indented (count : Nat) {text : Bytes} (noNewline : Ascii.newline ∉ text) :
    Ascii.newline ∉ indented count text := by
  rw [indented, List.mem_append, Bytes.fill, List.mem_replicate, not_or]
  exact ⟨fun blank => absurd blank.2 (by decide), noNewline⟩

theorem length_indented (count : Nat) (text : Bytes) :
    (indented count text).length = count + text.length := by
  rw [indented, List.length_append, Bytes.fill, List.length_replicate]

/-- A text that is read as the same tree wherever it starts. -/
def ReadsAs (text : Bytes) (tree : Tree) : Prop :=
  ∀ pos, ∃ tokens, Token.scanFrom pos text = .ok tokens ∧ Tree.parse tokens = .ok tree

theorem readsAs_number (text : Bytes) (scanned : ∀ pos, Token.scanFrom pos text =
    .ok [⟨.number (Token.Figures.value text), text, pos⟩]) :
    ReadsAs text (.wrap (.number (Token.Figures.value text))) :=
  fun pos => ⟨_, scanned pos, rfl⟩

theorem ReadsAs.read_indented {text : Bytes} {tree : Tree} (reads : ReadsAs text tree)
    (count : Nat) : Program.read (indented count text) = .ok tree := by
  obtain ⟨tokens, scanned, parsed⟩ := reads count
  have shifted : Token.scan (indented count text) = .ok tokens := by
    have placed := scanFrom_indented 0 count text
    rw [Nat.zero_add] at placed
    exact placed.trans scanned
  simp only [Program.read, shifted, parsed]

theorem ReadsAs.isProgram_indented {text : Bytes} {tree : Tree} (reads : ReadsAs text tree)
    (count : Nat) : Prompt.IsProgram [indented count text] := by
  apply Prompt.isProgram_singleton
  rw [Program.needsMore, reads.read_indented count]

theorem quits_indented (count : Nat) (text : Bytes) :
    Prompt.Quits [indented count text] ↔ Prompt.Quits [text] := by
  simp only [Prompt.Quits, Prompt.joined, List.intercalate_singleton, trim_indented]

/-- Spaces in front do not change the reply to a program. -/
theorem ReadsAs.reply_indented {text : Bytes} {tree : Tree} (reads : ReadsAs text tree)
    (count : Nat) (format : RawFormat) (isColored : Bool) :
    Prompt.reply format isColored [indented count text] =
      Prompt.reply format isColored [text] := by
  have isEvaluated : Prompt.IsEvaluated [indented count text] ↔ Prompt.IsEvaluated [text] := by
    rw [Prompt.IsEvaluated, Prompt.IsEvaluated, quits_indented, Prompt.joined, Prompt.joined,
      List.intercalate_singleton, List.intercalate_singleton, trim_indented]
  have plain : Program.read text = .ok tree := reads.read_indented 0
  simp only [Prompt.reply, isEvaluated, Prompt.joined, List.intercalate_singleton, Prompt.eval,
    interpret, Program.interpret, reads.read_indented count, plain]

/-- Two digits behind so many spaces that only the first of them fits into the buffer. -/
theorem buffered_indented {count : Nat} (full : count + 1 = bufferSize) :
    Line.Buffered (indented count (utf8 "12") ++ [Ascii.newline])
      [indented count (utf8 "1"), utf8 "2"] := by
  have cut : indented count (utf8 "12") ++ [Ascii.newline] =
      indented count (utf8 "1") ++ (utf8 "2" ++ [Ascii.newline]) := by
    simp only [indented, List.append_assoc]
    rfl
  have last : (indented count (utf8 "1")).getLast? = (utf8 "1").getLast? :=
    List.getLast?_append_of_ne_nil _ (by decide)
  rw [cut]
  refine .cut ?_ (newline_notMem_indented count (by decide)) ?_
    (.line (by decide) (by decide) .done)
  · rw [length_indented, ← full]
    rfl
  · rw [last]
    decide

/-- A number of two digits behind so many spaces that only the first digit fits into the
buffer: the prompt takes the digits for two programs, although the line is one. What it
prints is not what it prints for the programs of the lines as they are written. -/
theorem runPrompt_cuts_long_line :
    let line := indented (bufferSize - 1) (utf8 "12")
    let ending := runPrompt plainPrompt (withInput (line ++ [Ascii.newline]))
    Line.written (line ++ [Ascii.newline]) = [line] ∧
      Prompt.Splits [line] [[line]] [] false ∧
      (Prompt.reply .none false [line]).output = utf8 "12\n" ∧
      ending.output = Prompt.greeting ++ utf8 "nli> 1\nnli> 2\nnli> \n" ∧
      ¬ ∃ programs rest quits,
        Prompt.Splits (Line.written (line ++ [Ascii.newline])) programs rest quits ∧
        ending.output = Prompt.greeting ++
          (programs.flatMap fun program => (Prompt.marks program).flatten ++
            (Prompt.reply .none false program).output) ++
          if quits then [] else (Prompt.marks (rest ++ [[]]) ++ [[Ascii.newline]]).flatten := by
  have full : bufferSize - 1 + 1 = bufferSize := rfl
  generalize bufferSize - 1 = count at full ⊢
  intro line ending
  have one := readsAs_number (utf8 "1") fun _ => rfl
  have two := readsAs_number (utf8 "2") fun _ => rfl
  have twelve := readsAs_number (utf8 "12") fun _ => rfl
  have written : Line.written (line ++ [Ascii.newline]) = [line] := by
    have last : line.getLast? = (utf8 "12").getLast? :=
      List.getLast?_append_of_ne_nil _ (by decide)
    rw [Line.written_append_newline (newline_notMem_indented count (by decide)),
      Line.withoutReturn, last]
    rfl
  have whole : Prompt.Splits [line] [[line]] [] false :=
    .goesOn (twelve.isProgram_indented count) (by rw [quits_indented]; decide)
      (.runsOut Prompt.unfinished_nil)
  have reply : (Prompt.reply .none false [line]).output = utf8 "12\n" := by
    rw [twelve.reply_indented count]
    decide
  have lines : (withInput (line ++ [Ascii.newline])).lines =
      [indented count (utf8 "1"), utf8 "2"] :=
    (Line.buffered_iff.mp (buffered_indented full)).symm
  have pieces : Prompt.Splits (withInput (line ++ [Ascii.newline])).lines
      [[indented count (utf8 "1")], [utf8 "2"]] [] false := by
    rw [lines]
    exact .goesOn (one.isProgram_indented count) (by rw [quits_indented]; decide)
      (.goesOn (two.isProgram_indented 0) (by decide) (.runsOut Prompt.unfinished_nil))
  have printed : ending.output = Prompt.greeting ++ utf8 "nli> 1\nnli> 2\nnli> \n" := by
    have ran : ending = _ := runPrompt_eq_closed plainPrompt _ pieces
    have output := output_closed (rfl : (withInput (line ++ [Ascii.newline])).console.room = none)
      .none pieces
    rw [ran]
    refine output.trans ?_
    rw [List.flatMap_cons, one.reply_indented count]
    rfl
  refine ⟨written, whole, reply, printed, ?_⟩
  rintro ⟨programs, rest, quits, splits, same⟩
  rw [written] at splits
  obtain ⟨rfl, rfl, rfl⟩ := splits.unique whole
  have marks : Prompt.marks [line] = [Prompt.firstMark] := rfl
  rw [List.flatMap_cons, reply, printed, marks] at same
  exact absurd same (by decide)

end Juxta.Command
