/-
# The programs of the prompt

The prompt takes its lines in order and cuts them into programs: a program is the
shortest run of lines, behind the program before it, whose text asks for no more.
The prompt keeps only the text of an unfinished program and tells from it whether
a line starts a program. That is enough, because an empty text asks for no more
and so no unfinished program has an empty text. Between two lines the prompt is
therefore determined by the prompt before the unfinished program and by the lines
of that program.
-/

import Juxta.Command.Run
import Juxta.Proofs.Command.Script
import Mathlib.Data.List.Infix

namespace Juxta.Command

namespace Prompt

/-- The text of some lines. -/
def joined (lines : List Bytes) : Bytes := [Ascii.newline].intercalate lines

/-- Lines that are the start of a program and no program yet. -/
def Unfinished (lines : List Bytes) : Prop :=
  ∀ first, first <+: lines → first ≠ [] → Program.needsMore (joined first) = true

/-- Lines whose text asks for no more, while the text of fewer of them does. -/
structure IsProgram (lines : List Bytes) : Prop where
  nonempty : lines ≠ []
  complete : Program.needsMore (joined lines) = false
  shortest : ∀ first, first <+: lines → first ≠ [] → first ≠ lines →
    Program.needsMore (joined first) = true

/-- The program that ends the prompt. -/
def Quits (lines : List Bytes) : Prop := Blank.trim (joined lines) = quit

/-- What is printed before the first line of a program. -/
def firstMark : Bytes := utf8 "nli> "

/-- What is printed before every other line of a program. -/
def nextMark : Bytes := utf8 "...  "

/-- What is printed before the lines of a program. -/
def marks : List Bytes → List Bytes
  | [] => []
  | _ :: rest => firstMark :: rest.map fun _ => nextMark

/-- The prompt after the lines of an unfinished program. -/
def typed (prompt : Prompt) (lines : List Bytes) : Prompt :=
  { prompt with
    collected := joined lines
    console := (marks lines).foldl Console.echo prompt.console }

/-- The prompt that an outcome leads to. -/
def Outcome.prompt : Outcome → Prompt
  | goOn prompt | done prompt => prompt

/-- The prompt after the lines of a program, which is taken. -/
def after (format : RawFormat) (prompt : Prompt) (program : List Bytes) : Prompt :=
  (take format (prompt.typed program) (joined program)).prompt

/-- Lines are cut into programs and a rest: a program stands at the front of the
lines and the lines behind it are cut in the same way, unless it ends the prompt.
Then the rest is not read, and otherwise the rest is no program. -/
inductive Splits : (lines : List Bytes) → (programs : List (List Bytes)) → (rest : List Bytes) →
    (quits : Bool) → Prop
  | runsOut {rest : List Bytes} (unfinished : Unfinished rest) : Splits rest [] rest false
  | quits {program : List Bytes} (isProgram : IsProgram program) (isQuit : Quits program)
      (rest : List Bytes) : Splits (program ++ rest) [program] rest true
  | goesOn {program lines rest : List Bytes} {programs : List (List Bytes)} {quits : Bool}
      (isProgram : IsProgram program) (isOther : ¬ Quits program)
      (later : Splits lines programs rest quits) :
      Splits (program ++ lines) (program :: programs) rest quits

/-- The programs that a prompt evaluates: they are not blank and do not end it. -/
def IsEvaluated (program : List Bytes) : Prop :=
  Blank.trim (joined program) ≠ [] ∧ ¬ Quits program

instance (program : List Bytes) : Decidable (Quits program) :=
  inferInstanceAs (Decidable (Blank.trim (joined program) = quit))

instance (program : List Bytes) : Decidable (IsEvaluated program) :=
  inferInstanceAs (Decidable (_ ∧ _))

theorem needsMore_nil : Program.needsMore [] = false := rfl

theorem unfinished_nil : Unfinished [] := by
  intro first isPrefix nonempty
  exact absurd (List.prefix_nil.mp isPrefix) nonempty

/-- The text of an unfinished program is empty only before its first line. -/
theorem joined_ne_nil {lines : List Bytes} (unfinished : Unfinished lines) (nonempty : lines ≠ []) :
    joined lines ≠ [] := by
  intro isEmpty
  have asksForMore := unfinished lines (List.prefix_refl lines) nonempty
  rw [isEmpty, needsMore_nil] at asksForMore
  cases asksForMore

theorem joined_concat {lines : List Bytes} (nonempty : lines ≠ []) (line : Bytes) :
    joined (lines ++ [line]) = joined lines ++ Ascii.newline :: line := by
  induction lines with
  | nil => exact absurd rfl nonempty
  | cons head tail ih =>
      cases tail with
      | nil => simp [joined, List.intercalate_cons_cons]
      | cons second rest =>
          have later := ih (List.cons_ne_nil second rest)
          simp only [joined, List.cons_append] at later
          simp [joined, List.intercalate_cons_cons, later]

/-- The prompt joins a line to the text of the unfinished program before it. -/
theorem join_joined {lines : List Bytes} (unfinished : Unfinished lines) (line : Bytes) :
    join (joined lines) line = joined (lines ++ [line]) := by
  rw [join]
  cases lines with
  | nil => exact List.intercalate_singleton.symm
  | cons head tail =>
      have nonempty : head :: tail ≠ [] := List.cons_ne_nil head tail
      rw [if_neg (by simpa using joined_ne_nil unfinished nonempty), joined_concat nonempty]

theorem unfinished_concat {lines : List Bytes} (unfinished : Unfinished lines) {line : Bytes}
    (asksForMore : Program.needsMore (joined (lines ++ [line])) = true) :
    Unfinished (lines ++ [line]) := by
  intro first isPrefix nonempty
  rcases List.prefix_concat_iff.mp isPrefix with rfl | older
  · exact asksForMore
  · exact unfinished first older nonempty

theorem isProgram_concat {lines : List Bytes} (unfinished : Unfinished lines) {line : Bytes}
    (complete : Program.needsMore (joined (lines ++ [line])) = false) :
    IsProgram (lines ++ [line]) where
  nonempty := by simp
  complete := complete
  shortest first isPrefix nonempty shorter := by
    rcases List.prefix_concat_iff.mp isPrefix with same | older
    · exact absurd same shorter
    · exact unfinished first older nonempty

theorem isProgram_singleton {line : Bytes} (complete : Program.needsMore line = false) :
    IsProgram [line] :=
  isProgram_concat unfinished_nil (by rwa [List.nil_append, joined, List.intercalate_singleton])

theorem marks_concat {lines : List Bytes} (unfinished : Unfinished lines) (line : Bytes) :
    marks (lines ++ [line]) = marks lines ++ [mark (joined lines)] := by
  cases lines with
  | nil => rfl
  | cons head tail =>
      have nonempty := joined_ne_nil unfinished (List.cons_ne_nil head tail)
      rw [mark, if_neg (by simpa using nonempty)]
      simp [marks, nextMark]

theorem ask_typed {lines : List Bytes} (unfinished : Unfinished lines) (prompt : Prompt)
    (line : Bytes) :
    (prompt.typed lines).ask =
      { prompt.typed (lines ++ [line]) with collected := joined lines } := by
  rw [ask, typed, typed, marks_concat unfinished, List.foldl_append]
  rfl

theorem typed_nil {prompt : Prompt} (fresh : prompt.collected = []) : prompt.typed [] = prompt := by
  obtain ⟨collected, history, console⟩ := prompt
  obtain rfl : collected = [] := fresh
  rfl

/-- A program ends the prompt if its text says so, and the prompt goes on after
every other one, with no text collected. -/
theorem take_cases (format : RawFormat) (prompt : Prompt) (source : Bytes) :
    (take format prompt source).prompt.collected = [] ∧
      take format prompt source =
        if Blank.trim source = quit then .done (take format prompt source).prompt
        else .goOn (take format prompt source).prompt := by
  rw [take]
  by_cases isBlank : (Blank.trim source).isEmpty
  · have goesOn : Blank.trim source ≠ quit := by
      rw [List.isEmpty_iff.mp isBlank]
      nofun
    simp only [if_pos isBlank, if_neg goesOn]
    exact ⟨rfl, rfl⟩
  · by_cases isQuit : Blank.trim source = quit
    · simp only [if_neg isBlank, if_pos isQuit]
      exact ⟨rfl, rfl⟩
    · simp only [if_neg isBlank, if_neg isQuit]
      exact ⟨rfl, rfl⟩

/-- Taking a program does not depend on the text that was collected. -/
theorem take_collected (format : RawFormat) (prompt : Prompt) (text source : Bytes) :
    take format { prompt with collected := text } source = take format prompt source := rfl

theorem collected_after (format : RawFormat) (prompt : Prompt) (program : List Bytes) :
    (after format prompt program).collected = [] :=
  (take_cases format _ _).1

/-- What a line does after the lines of an unfinished program. -/
theorem feed_typed (format : RawFormat) {lines : List Bytes} (unfinished : Unfinished lines)
    (prompt : Prompt) (line : Bytes) :
    feed format (prompt.typed lines).ask line =
      if Program.needsMore (joined (lines ++ [line])) then .goOn (prompt.typed (lines ++ [line]))
      else if Blank.trim (joined (lines ++ [line])) = quit then
        .done (after format prompt (lines ++ [line]))
      else .goOn (after format prompt (lines ++ [line])) := by
  have asked := ask_typed unfinished prompt line
  have collected : (prompt.typed lines).ask.collected = joined lines := rfl
  rw [feed, collected, join_joined unfinished]
  by_cases asksForMore : Program.needsMore (joined (lines ++ [line]))
  · rw [if_pos asksForMore, if_pos asksForMore, asked]
    rfl
  · rw [if_neg asksForMore, if_neg asksForMore, asked, take_collected]
    exact (take_cases format _ _).2

/-- A program does not start with a shorter one. -/
theorem IsProgram.eq_of_prefix {program program' : List Bytes} (isProgram : IsProgram program)
    (isProgram' : IsProgram program') (starts : program <+: program') : program = program' := by
  by_contra different
  have asksForMore := isProgram'.shortest program starts isProgram.nonempty different
  rw [isProgram.complete] at asksForMore
  cases asksForMore

/-- At the front of some lines there is at most one program. -/
theorem IsProgram.append_eq_iff {program program' lines lines' : List Bytes}
    (isProgram : IsProgram program) (isProgram' : IsProgram program') :
    program ++ lines = program' ++ lines' ↔ program = program' ∧ lines = lines' := by
  constructor
  · intro same
    have front : program <+: program' ++ lines' := ⟨lines, same⟩
    have front' : program' <+: program' ++ lines' := List.prefix_append program' lines'
    have equal : program = program' := by
      rcases List.prefix_or_prefix_of_prefix front front' with starts | starts
      · exact isProgram.eq_of_prefix isProgram' starts
      · exact (isProgram'.eq_of_prefix isProgram starts).symm
    subst equal
    exact ⟨rfl, List.append_cancel_left same⟩
  · rintro ⟨rfl, rfl⟩
    rfl

theorem not_unfinished_append {program : List Bytes} (isProgram : IsProgram program)
    (lines : List Bytes) : ¬ Unfinished (program ++ lines) := by
  intro unfinished
  have asksForMore := unfinished program (List.prefix_append program lines) isProgram.nonempty
  rw [isProgram.complete] at asksForMore
  cases asksForMore

/-- Lines are cut in one way only. -/
theorem Splits.unique {lines rest rest' : List Bytes} {programs programs' : List (List Bytes)}
    {quits quits' : Bool} (one : Splits lines programs rest quits)
    (other : Splits lines programs' rest' quits') :
    programs' = programs ∧ rest' = rest ∧ quits' = quits := by
  induction one generalizing programs' with
  | runsOut unfinished =>
      cases other with
      | runsOut _ => exact ⟨rfl, rfl, rfl⟩
      | quits isProgram _ _ => exact absurd unfinished (not_unfinished_append isProgram _)
      | goesOn isProgram _ _ => exact absurd unfinished (not_unfinished_append isProgram _)
  | @quits program isProgram isQuit rest =>
      generalize same : program ++ rest = whole at other
      cases other with
      | runsOut unfinished =>
          subst same
          exact absurd unfinished (not_unfinished_append isProgram _)
      | quits isProgram' _ _ =>
          obtain ⟨rfl, rfl⟩ := (isProgram.append_eq_iff isProgram').mp same
          exact ⟨rfl, rfl, rfl⟩
      | goesOn isProgram' isOther _ =>
          obtain ⟨rfl, rfl⟩ := (isProgram.append_eq_iff isProgram').mp same
          exact absurd isQuit isOther
  | @goesOn program lines rest programs quits isProgram isOther later ih =>
      generalize same : program ++ lines = whole at other
      cases other with
      | runsOut unfinished =>
          subst same
          exact absurd unfinished (not_unfinished_append isProgram _)
      | quits isProgram' isQuit _ =>
          obtain ⟨rfl, rfl⟩ := (isProgram.append_eq_iff isProgram').mp same
          exact absurd isQuit isOther
      | goesOn isProgram' _ later' =>
          obtain ⟨rfl, rfl⟩ := (isProgram.append_eq_iff isProgram').mp same
          obtain ⟨rfl, rests, ends⟩ := ih later'
          exact ⟨rfl, rests, ends⟩

/-- The prompt after programs that were taken one after the other and, unless it
was told to quit, after the lines that are left and the end of the input. -/
def ended (format : RawFormat) (prompt : Prompt) (programs : List (List Bytes))
    (rest : List Bytes) (quits : Bool) : Prompt :=
  let last := programs.foldl (after format) prompt
  if quits then last else (last.typed rest).ask.finish

/-- Behind the lines of an unfinished program, the prompt cuts its lines into
programs and takes each of them. The induction is on the lines to come. -/
theorem exists_splits_of_typed (format : RawFormat) (lines : List Bytes) {before : List Bytes}
    (unfinished : Unfinished before) {prompt : Prompt} (fresh : prompt.collected = []) :
    ∃ programs rest quits, Splits (before ++ lines) programs rest quits ∧
      run format (prompt.typed before) lines = ended format prompt programs rest quits := by
  induction lines generalizing before prompt with
  | nil =>
      rw [List.append_nil]
      exact ⟨[], before, false, .runsOut unfinished, rfl⟩
  | cons line lines ih =>
      have regrouped : before ++ line :: lines = (before ++ [line]) ++ lines := by simp
      rw [regrouped, run, feed_typed format unfinished]
      by_cases asksForMore : Program.needsMore (joined (before ++ [line]))
      · rw [if_pos asksForMore]
        exact ih (unfinished_concat unfinished asksForMore) fresh
      · rw [if_neg asksForMore]
        have isProgram := isProgram_concat unfinished (Bool.not_eq_true _ ▸ asksForMore)
        by_cases isQuit : Blank.trim (joined (before ++ [line])) = quit
        · rw [if_pos isQuit]
          exact ⟨[before ++ [line]], lines, true, .quits isProgram isQuit lines, rfl⟩
        · rw [if_neg isQuit]
          -- The next line starts afresh behind the program that was taken.
          have next := collected_after format prompt (before ++ [line])
          obtain ⟨programs, rest, quits, splits, ending⟩ := ih unfinished_nil next
          rw [typed_nil next] at ending
          exact ⟨(before ++ [line]) :: programs, rest, quits, .goesOn isProgram isQuit splits,
            ending⟩

theorem exists_splits (format : RawFormat) (lines : List Bytes) {prompt : Prompt}
    (fresh : prompt.collected = []) :
    ∃ programs rest quits, Splits lines programs rest quits ∧
      run format prompt lines = ended format prompt programs rest quits := by
  have found := exists_splits_of_typed format lines unfinished_nil fresh
  rwa [typed_nil fresh] at found

/-! ### What is left of the programs -/

/-- A console on which the marks before some lines were printed. -/
def marked (console : Console) (lines : List Bytes) : Console :=
  { console with pieces := console.pieces ++ marks lines }

/-- The console after a program: the marks before its lines, and behind them what its
evaluation prints, if it is evaluated. -/
def played (format : RawFormat) (console : Console) (program : List Bytes) : Console :=
  if IsEvaluated program then eval format (joined program) (marked console program)
  else marked console program

/-- The history after a program, which is added as one line if it is evaluated. -/
def remembered (history : History) (program : List Bytes) : History :=
  if IsEvaluated program then history.add (History.entryOf (joined program)) else history

/-- The console after programs and, unless the last of them ended the prompt, after the
end of the input: the lines that are left and the line that there is not have marks too. -/
def closed (format : RawFormat) (console : Console) (programs : List (List Bytes))
    (rest : List Bytes) (quits : Bool) : Console :=
  let last := programs.foldl (played format) console
  if quits then last else (marked last (rest ++ [[]])).offer [Ascii.newline]

theorem typed_console (prompt : Prompt) (lines : List Bytes) :
    (prompt.typed lines).console = marked prompt.console lines :=
  foldl_echo _ _

theorem after_eq (format : RawFormat) (prompt : Prompt) (program : List Bytes) :
    after format prompt program = ⟨[], remembered prompt.history program,
      played format prompt.console program⟩ := by
  rw [after, take, remembered, played, typed_console]
  by_cases isBlank : (Blank.trim (joined program)).isEmpty
  · have passed : ¬ IsEvaluated program := fun isEvaluated =>
      isEvaluated.1 (List.isEmpty_iff.mp isBlank)
    simp only [if_pos isBlank, if_neg passed]
    rfl
  · by_cases isQuit : Blank.trim (joined program) = quit
    · have passed : ¬ IsEvaluated program := fun isEvaluated => isEvaluated.2 isQuit
      simp only [if_neg isBlank, if_pos isQuit, if_neg passed]
      rfl
    · have isEvaluated : IsEvaluated program := ⟨by simpa using isBlank, isQuit⟩
      simp only [if_neg isBlank, if_neg isQuit, if_pos isEvaluated]
      rfl

theorem foldl_after (format : RawFormat) (programs : List (List Bytes)) (history : History)
    (console : Console) :
    programs.foldl (after format) ⟨[], history, console⟩ =
      ⟨[], programs.foldl remembered history, programs.foldl (played format) console⟩ := by
  induction programs generalizing history console with
  | nil => rfl
  | cons program programs ih => rw [List.foldl_cons, after_eq, ih, List.foldl_cons, List.foldl_cons]

/-- The lines that are left when the input ends are no program. -/
theorem Splits.unfinished {lines rest : List Bytes} {programs : List (List Bytes)} {quits : Bool}
    (splits : Splits lines programs rest quits) (runsOut : quits = false) : Unfinished rest := by
  induction splits with
  | runsOut unfinished => exact unfinished
  | quits => cases runsOut
  | goesOn _ _ _ ih => exact ih runsOut

theorem ended_eq (format : RawFormat) (history : History) (console : Console)
    {lines rest : List Bytes} {programs : List (List Bytes)} {quits : Bool}
    (splits : Splits lines programs rest quits) :
    let last := ended format ⟨[], history, console⟩ programs rest quits
    last.history = programs.foldl remembered history ∧
      last.console = closed format console programs rest quits := by
  intro last
  simp only [last, ended, closed, foldl_after]
  cases quits with
  | true => exact ⟨rfl, rfl⟩
  | false =>
      have asked : marked (programs.foldl (played format) console) (rest ++ [[]]) =
          (marked (programs.foldl (played format) console) rest).echo (mark (joined rest)) := by
        rw [marked, marks_concat (splits.unfinished rfl), ← List.append_assoc]
        rfl
      rw [asked, ← typed_console ⟨[], programs.foldl remembered history, _⟩]
      exact ⟨rfl, rfl⟩

end Prompt

/-- The lines of the input of a prompt. -/
def World.lines (world : World) : List Bytes :=
  (Line.split (world.input.toOption.getD [])).map Line.text

/-- The prompt before the first line of its input. -/
def World.firstPrompt (world : World) : Prompt :=
  Prompt.start (History.ofText (world.history.getD []))
    (Console.initial world.room world.isColored)

end Juxta.Command
