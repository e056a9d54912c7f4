/-
# Lines and the buffer

What stands between line feeds is a line as it is written. What is handed over are the
lines that the buffer makes of it: a line that does not end before the buffer is full is
handed over in pieces, and a carriage return is never the last byte of such a piece. The
two are the same exactly if every line fits into the buffer; a text with a line that
does not fit is handed over in more lines than were written.
-/

import Juxta.Command.Lines

namespace Juxta.Command.Line

/-- A line without the carriage return at its end, if there is one. -/
def withoutReturn (line : Bytes) : Bytes :=
  if line.getLast? = some Ascii.carriageReturn then line.dropLast else line

/-- A text and the lines in which it is handed over: a line that ends before the buffer is
full, at a line feed or with the text, and otherwise as many bytes as fill the buffer. A
carriage return that would fill it is left for the next line. -/
inductive Buffered : (text : Bytes) → (lines : List Bytes) → Prop
  | done : Buffered [] []
  | last {line : Bytes} (nonempty : line ≠ []) (short : line.length < bufferSize)
      (noNewline : Ascii.newline ∉ line) : Buffered line [line]
  | line {line rest : Bytes} {lines : List Bytes} (short : line.length < bufferSize)
      (noNewline : Ascii.newline ∉ line) (later : Buffered rest lines) :
      Buffered (line ++ Ascii.newline :: rest) (withoutReturn line :: lines)
  | cut {line rest : Bytes} {lines : List Bytes} (full : line.length = bufferSize)
      (noNewline : Ascii.newline ∉ line)
      (noReturn : line.getLast? ≠ some Ascii.carriageReturn) (later : Buffered rest lines) :
      Buffered (line ++ rest) (line :: lines)
  | cutBeforeReturn {line rest : Bytes} {lines : List Bytes}
      (full : line.length + 1 = bufferSize) (noNewline : Ascii.newline ∉ line)
      (later : Buffered (Ascii.carriageReturn :: rest) lines) :
      Buffered (line ++ Ascii.carriageReturn :: rest) (line :: lines)

/-! ### What is handed over -/

/-- Bytes of a line are held until the buffer is full. -/
theorem splitFrom_append {line : Bytes} (noNewline : Ascii.newline ∉ line) {size : Nat}
    (short : size + line.length < bufferSize) (reversed rest : Bytes) :
    splitFrom size reversed (line ++ rest) =
      splitFrom (size + line.length) (line.reverse ++ reversed) rest := by
  induction line generalizing size reversed with
  | nil => rfl
  | cons byte line ih =>
      rw [List.mem_cons, not_or] at noNewline
      rw [List.length_cons] at short ⊢
      have notFull : size + 1 ≠ bufferSize := by omega
      rw [List.cons_append, splitFrom, if_neg (Ne.symm noNewline.1), if_neg notFull,
        ih noNewline.2 (by omega), List.reverse_cons, List.append_assoc, Nat.add_assoc,
        Nat.add_comm 1]
      rfl

theorem split_append {line : Bytes} (noNewline : Ascii.newline ∉ line)
    (short : line.length < bufferSize) (rest : Bytes) :
    split (line ++ rest) = splitFrom line.length line.reverse rest := by
  rw [split, splitFrom_append noNewline (by rwa [Nat.zero_add]), Nat.zero_add, List.append_nil]

theorem reverse_dropReturn (line : Bytes) :
    (dropReturn line.reverse).reverse = withoutReturn line := by
  rcases List.eq_nil_or_concat line with rfl | ⟨first, byte, rfl⟩
  · rfl
  · rw [List.concat_eq_append, withoutReturn, List.reverse_concat, List.getLast?_concat,
      List.dropLast_concat]
    by_cases isReturn : byte = Ascii.carriageReturn
    · rw [dropReturn, if_pos isReturn, if_pos (congrArg some isReturn), List.reverse_reverse]
    · rw [dropReturn, if_neg isReturn, if_neg fun same => isReturn (Option.some.inj same)]
      simp

theorem exists_concat_of_full {line : Bytes} (full : line.length = bufferSize) :
    ∃ first byte, line = first ++ [byte] := by
  rcases List.eq_nil_or_concat line with rfl | ⟨first, byte, rfl⟩
  · cases full
  · exact ⟨first, byte, List.concat_eq_append⟩

theorem Buffered.map_text_split {text : Bytes} {lines : List Bytes}
    (buffered : Buffered text lines) : (split text).map Line.text = lines := by
  induction buffered with
  | done => rfl
  | @last line nonempty short noNewline =>
      have whole := split_append noNewline short []
      rw [List.append_nil] at whole
      rw [whole, splitFrom, if_neg (by simpa using nonempty)]
      simp
  | @line line rest lines short noNewline later ih =>
      rw [split_append noNewline short, splitFrom, if_pos rfl, reverse_dropReturn]
      exact congrArg (List.cons _) ih
  | @cut line rest lines full noNewline noReturn later ih =>
      obtain ⟨first, byte, rfl⟩ := exists_concat_of_full full
      rw [List.length_append, List.length_singleton] at full
      rw [List.getLast?_concat] at noReturn
      simp only [List.mem_append, List.mem_singleton, not_or] at noNewline
      have noReturn : byte ≠ Ascii.carriageReturn := fun same => noReturn (congrArg some same)
      rw [List.append_assoc, split_append noNewline.1 (by omega), List.singleton_append, splitFrom,
        if_neg (Ne.symm noNewline.2), if_pos full, if_neg noReturn, List.map_cons,
        List.reverse_cons, List.reverse_reverse]
      exact congrArg (List.cons _) ih
  | @cutBeforeReturn line rest lines full noNewline later ih =>
      rw [split_append noNewline (by omega), splitFrom, if_neg (by decide), if_pos full,
        if_pos rfl, List.map_cons, List.reverse_reverse]
      exact congrArg (List.cons _) ih

/-- Every text is handed over. The induction is on the number of bytes that are left. -/
theorem exists_buffered (text : Bytes) : ∃ lines, Buffered text lines := by
  induction size : text.length using Nat.strongRecOn generalizing text with
  | ind length ih =>
      obtain ⟨front, rest, rfl, short⟩ : ∃ front rest, text = front ++ rest ∧
          (front.length = bufferSize ∨ rest = [] ∧ front.length < bufferSize) := by
        refine ⟨text.take bufferSize, text.drop bufferSize, (List.take_append_drop ..).symm, ?_⟩
        rw [List.length_take, List.drop_eq_nil_iff]
        omega
      rw [List.length_append] at size
      by_cases newline : Ascii.newline ∈ front
      · obtain ⟨line, more, rfl, noNewline⟩ := List.eq_append_cons_of_mem newline
        rw [List.length_append, List.length_cons] at size short
        obtain ⟨lines, later⟩ := ih (more ++ rest).length (by simp; omega) _ rfl
        rw [List.append_assoc, List.cons_append]
        exact ⟨_, .line (by omega) noNewline later⟩
      · rcases short with full | ⟨rfl, short⟩
        · obtain ⟨first, byte, rfl⟩ := exists_concat_of_full full
          by_cases isReturn : byte = Ascii.carriageReturn
          · subst isReturn
            rw [List.length_append, List.length_singleton] at size full
            obtain ⟨lines, later⟩ := ih (Ascii.carriageReturn :: rest).length
              (by rw [List.length_cons]; rw [bufferSize] at full; omega) _ rfl
            rw [List.append_assoc, List.singleton_append]
            exact ⟨_, .cutBeforeReturn full (fun mem => newline (List.mem_append_left _ mem)) later⟩
          · obtain ⟨lines, later⟩ := ih rest.length (by rw [full, bufferSize] at size; omega) _ rfl
            refine ⟨_, .cut full newline ?_ later⟩
            rw [List.getLast?_concat]
            exact fun same => isReturn (Option.some.inj same)
        · rw [List.append_nil]
          by_cases isEmpty : front = []
          · rw [isEmpty]
            exact ⟨[], .done⟩
          · exact ⟨[front], .last isEmpty short newline⟩

/-- What is handed over is determined by the text. -/
theorem buffered_iff {text : Bytes} {lines : List Bytes} :
    Buffered text lines ↔ lines = (split text).map Line.text := by
  obtain ⟨lines', buffered⟩ := exists_buffered text
  rw [buffered.map_text_split]
  constructor
  · intro other
    rw [← other.map_text_split, buffered.map_text_split]
  · rintro rfl
    exact buffered

/-- A line that is shorter than the buffer and does not end with a carriage return. -/
structure IsShort (line : Bytes) : Prop where
  short : line.length < bufferSize
  noNewline : Ascii.newline ∉ line
  noReturn : line.getLast? ≠ some Ascii.carriageReturn

/-- The text of some lines, each of which ends with a line feed. -/
def unlines (lines : List Bytes) : Bytes := lines.flatMap (· ++ [Ascii.newline])

/-- Short lines are handed over as they are. -/
theorem buffered_unlines {lines : List Bytes} (each : ∀ line ∈ lines, IsShort line) :
    Buffered (unlines lines) lines := by
  induction lines with
  | nil => exact .done
  | cons line rest ih =>
      obtain ⟨isShort, later⟩ := List.forall_mem_cons.mp each
      have first : unlines (line :: rest) = line ++ Ascii.newline :: unlines rest := by
        rw [unlines, List.flatMap_cons, List.append_assoc]
        rfl
      have whole := Buffered.line isShort.short isShort.noNewline (ih later)
      rwa [withoutReturn, if_neg isShort.noReturn, ← first] at whole

/-! ### What is written -/

/-- The lines of a text as they are written. What stands behind the last line feed is a
line unless it is empty. -/
def written (text : Bytes) : List Bytes :=
  let parts := text.splitOn Ascii.newline
  parts.dropLast.map withoutReturn ++ parts.getLast?.toList.filter fun last => !last.isEmpty

/-- Every line is shorter than the buffer. A last line without a line feed may fill it,
but not with a carriage return. -/
def Fits (text : Bytes) : Prop :=
  let parts := text.splitOn Ascii.newline
  (∀ part ∈ parts.dropLast, part.length < bufferSize) ∧
    ∀ last ∈ parts.getLast?, last.length < bufferSize ∨
      last.length = bufferSize ∧ last.getLast? ≠ some Ascii.carriageReturn

instance (text : Bytes) : Decidable (Fits text) := inferInstanceAs (Decidable (_ ∧ _))

theorem splitOn_append {line : Bytes} (noNewline : Ascii.newline ∉ line) (rest : Bytes) :
    (line ++ rest).splitOn Ascii.newline =
      (rest.splitOn Ascii.newline).modifyHead (line ++ ·) := by
  obtain ⟨first, others, parts⟩ := List.exists_cons_of_ne_nil
    (List.splitOn_ne_nil Ascii.newline rest)
  rw [parts, List.modifyHead_cons]
  induction line with
  | nil => exact parts
  | cons byte line ih =>
      rw [List.mem_cons, not_or] at noNewline
      rw [List.cons_append, List.splitOn_cons_eq_if_modifyHead,
        if_neg (by simpa using Ne.symm noNewline.1), ih noNewline.2, List.modifyHead_cons,
        List.cons_append]

theorem splitOn_append_newline {line : Bytes} (noNewline : Ascii.newline ∉ line) (rest : Bytes) :
    (line ++ Ascii.newline :: rest).splitOn Ascii.newline =
      line :: rest.splitOn Ascii.newline := by
  rw [splitOn_append noNewline, List.splitOn_cons_eq_if_modifyHead, if_pos (beq_self_eq_true _),
    List.modifyHead_cons, List.append_nil]

theorem written_append_newline {line : Bytes} (noNewline : Ascii.newline ∉ line) (rest : Bytes) :
    written (line ++ Ascii.newline :: rest) = withoutReturn line :: written rest := by
  have nonempty := List.splitOn_ne_nil Ascii.newline rest
  simp only [written]
  rw [splitOn_append_newline noNewline, List.dropLast_cons_of_ne_nil nonempty,
    List.getLast?_cons_of_ne_nil nonempty, List.map_cons, List.cons_append]

theorem fits_append_newline {line : Bytes} (noNewline : Ascii.newline ∉ line) (rest : Bytes) :
    Fits (line ++ Ascii.newline :: rest) ↔ line.length < bufferSize ∧ Fits rest := by
  have nonempty := List.splitOn_ne_nil Ascii.newline rest
  simp only [Fits]
  rw [splitOn_append_newline noNewline, List.dropLast_cons_of_ne_nil nonempty,
    List.getLast?_cons_of_ne_nil nonempty, List.forall_mem_cons, and_assoc]

theorem written_of_noNewline {line : Bytes} (nonempty : line ≠ [])
    (noNewline : Ascii.newline ∉ line) : written line = [line] := by
  simp [written, List.splitOn_eq_singleton noNewline, nonempty]

theorem fits_iff_of_noNewline {line : Bytes} (noNewline : Ascii.newline ∉ line) :
    Fits line ↔ line.length < bufferSize ∨
      line.length = bufferSize ∧ line.getLast? ≠ some Ascii.carriageReturn := by
  simp [Fits, List.splitOn_eq_singleton noNewline]

theorem noNewline_append {line more : Bytes} (noNewline : Ascii.newline ∉ line)
    (others : Ascii.newline ∉ more) : Ascii.newline ∉ line ++ more := by
  rw [List.mem_append, not_or]
  exact ⟨noNewline, others⟩

/-- More bytes in front make a line longer and no new line. -/
theorem length_written_append {line rest : Bytes} (noNewline : Ascii.newline ∉ line)
    (nonempty : rest ≠ []) : (written (line ++ rest)).length = (written rest).length := by
  by_cases newline : Ascii.newline ∈ rest
  · obtain ⟨more, later, rfl, others⟩ := List.eq_append_cons_of_mem newline
    rw [← List.append_assoc, written_append_newline (noNewline_append noNewline others),
      written_append_newline others, List.length_cons, List.length_cons]
  · rw [written_of_noNewline (List.append_ne_nil_of_right_ne_nil line nonempty)
      (noNewline_append noNewline newline), written_of_noNewline nonempty newline]
    rfl

/-- Bytes that fill the buffer do not fit if more follows or if the last one is a carriage
return. -/
theorem not_fits_append {line rest : Bytes} (noNewline : Ascii.newline ∉ line)
    (full : line.length = bufferSize)
    (goesOn : rest ≠ [] ∨ line.getLast? = some Ascii.carriageReturn) : ¬ Fits (line ++ rest) := by
  by_cases newline : Ascii.newline ∈ rest
  · obtain ⟨more, later, rfl, others⟩ := List.eq_append_cons_of_mem newline
    rw [← List.append_assoc, fits_append_newline (noNewline_append noNewline others),
      List.length_append]
    omega
  · rw [fits_iff_of_noNewline (noNewline_append noNewline newline), List.length_append]
    rintro (short | ⟨fills, noReturn⟩)
    · omega
    · obtain rfl : rest = [] := List.eq_nil_of_length_eq_zero (by omega)
      rw [List.append_nil] at noReturn
      exact goesOn.elim (fun nonempty => nonempty rfl) noReturn

/-- Lines that are those of a text as written if the text fits, and more of them if not. -/
structure Compares (text : Bytes) (lines : List Bytes) : Prop where
  same : Fits text → lines = written text
  more : ¬ Fits text → (written text).length < lines.length

theorem Compares.length_le {text : Bytes} {lines : List Bytes} (compares : Compares text lines) :
    (written text).length ≤ lines.length := by
  by_cases fits : Fits text
  · exact Nat.le_of_eq (congrArg List.length (compares.same fits)).symm
  · exact Nat.le_of_lt (compares.more fits)

theorem Buffered.compares {text : Bytes} {lines : List Bytes} (buffered : Buffered text lines) :
    Compares text lines := by
  induction buffered with
  | done => exact ⟨fun _ => rfl, fun long => absurd (by decide) long⟩
  | @last line nonempty short noNewline =>
      have fits := (fits_iff_of_noNewline noNewline).mpr (.inl short)
      exact ⟨fun _ => (written_of_noNewline nonempty noNewline).symm, fun long => absurd fits long⟩
  | @line line rest lines short noNewline later ih =>
      have fits_iff := fits_append_newline noNewline rest
      have lines_eq := written_append_newline noNewline rest
      constructor
      · intro fits
        rw [lines_eq, ih.same (fits_iff.mp fits).2]
      · intro long
        have long : ¬ Fits rest := fun fits => long (fits_iff.mpr ⟨short, fits⟩)
        rw [lines_eq]
        exact Nat.succ_lt_succ (ih.more long)
  | @cut line rest lines full noNewline noReturn later ih =>
      by_cases isLast : rest = []
      · subst isLast
        obtain rfl : lines = [] := ih.same (by decide)
        have nonempty : line ≠ [] := by
          rintro rfl
          cases full
        have fits := (fits_iff_of_noNewline noNewline).mpr (.inr ⟨full, noReturn⟩)
        rw [List.append_nil]
        exact ⟨fun _ => (written_of_noNewline nonempty noNewline).symm,
          fun long => absurd fits long⟩
      · have long := not_fits_append noNewline full (.inl isLast)
        refine ⟨fun fits => absurd fits long, fun _ => ?_⟩
        rw [length_written_append noNewline isLast]
        exact Nat.lt_succ_of_le ih.length_le
  | @cutBeforeReturn line rest lines full noNewline later ih =>
      have isReturn : (line ++ [Ascii.carriageReturn]).getLast? = some Ascii.carriageReturn :=
        List.getLast?_concat
      have noNewline' : Ascii.newline ∉ line ++ [Ascii.carriageReturn] :=
        noNewline_append noNewline (by decide)
      have long : ¬ Fits (line ++ [Ascii.carriageReturn] ++ rest) :=
        not_fits_append noNewline' (by rwa [List.length_append]) (.inr isReturn)
      rw [List.append_assoc, List.singleton_append] at long
      refine ⟨fun fits => absurd fits long, fun _ => ?_⟩
      rw [length_written_append noNewline (List.cons_ne_nil _ _)]
      exact Nat.lt_succ_of_le ih.length_le

/-- Exactly the texts that fit are handed over as they are written. -/
theorem map_text_split_eq_written_iff (text : Bytes) :
    (split text).map Line.text = written text ↔ Fits text := by
  have compares := (buffered_iff.mpr rfl : Buffered text _).compares
  refine ⟨fun same => Decidable.byContradiction fun long => ?_, compares.same⟩
  exact Nat.ne_of_lt (compares.more long) (congrArg List.length same).symm

end Juxta.Command.Line
