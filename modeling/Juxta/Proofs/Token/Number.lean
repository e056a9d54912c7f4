/-
# Numbers in source text

A number that starts at a digit takes the longest run of digits, underscores and
at most one point. A point at the very end of the run is given back and starts
an operator. While the scanner is inside a number, the bytes so far are such a
run, and it goes on with a byte exactly if the run with this byte is one too; so
it stops only where the run is longest. What the number denotes is read off the
run: the integer of its digits, scaled by those behind the point.
-/

import Juxta.Proofs.Fraction.Rational
import Juxta.Proofs.Token.Comment
import Mathlib.Data.List.TakeWhile
import Mathlib.Data.Nat.Digits.Defs

namespace Juxta

theorem Numeral.digitsValue_eq_ofDigits (digits : Bytes) :
    digitsValue digits = Nat.ofDigits 10 (digits.map Ascii.digitValue).reverse := by
  rw [digitsValue, Nat.ofDigits_eq_foldr, List.foldr_reverse, List.foldl_map]
  simp only [Nat.cast_id, Nat.add_comm]

/-- A decimal number is scaled by a power of ten. -/
theorem Fraction.denotes_ofDecimal (digits : Int) (scale : Nat) :
    (ofDecimal digits scale).Denotes (digits / 10 ^ scale) := by
  have nonzero : (10 : Int) ^ scale ≠ 0 := pow_ne_zero scale (by decide)
  have denotes := (cancels_reduced digits (10 ^ scale)).denotes nonzero
  push_cast at denotes
  exact denotes

theorem Fraction.den_ofDecimal_pos (digits : Int) (scale : Nat) :
    0 < (ofDecimal digits scale).den := by
  obtain ⟨factor, positive, -, den_eq⟩ := cancels_reduced digits (10 ^ scale)
  have product : 0 < factor * (reduced digits (10 ^ scale)).den := by
    rw [← den_eq]
    exact pow_pos (by decide) scale
  exact (pos_iff_pos_of_mul_pos product).mp positive

theorem Fraction.gcd_ofDecimal (digits : Int) (scale : Nat) :
    Int.gcd (ofDecimal digits scale).num (ofDecimal digits scale).den = 1 := by
  rcases isLowest_ofDecimal digits scale with coprime | ⟨-, zero⟩
  · exact coprime
  · exact absurd zero (den_ofDecimal_pos digits scale).ne'

namespace Token

/-- Bytes of one number: figures, with at most one point among them. -/
def IsRun (bytes : Bytes) : Prop :=
  (∀ byte ∈ bytes, isFigure byte) ∧ bytes.count Ascii.point ≤ 1

-- Decided byte by byte of the run, and not over all bytes that there are.
instance (bytes : Bytes) : Decidable (IsRun bytes) :=
  @instDecidableAnd _ _ (List.decidableBAll _ bytes) (Nat.decLe _ _)

/-- The longest run at the start of a text. -/
structure IsLongestRun (run text : Bytes) : Prop where
  starts : run <+: text
  isRun : IsRun run
  longest : ∀ other, other <+: text → IsRun other → other.length ≤ run.length

theorem IsRun.beginning {part bytes : Bytes} (isRun : IsRun bytes) (isPrefix : part <+: bytes) :
    IsRun part :=
  ⟨fun byte mem => isRun.1 byte (isPrefix.subset mem),
    (isPrefix.sublist.count_le _).trans isRun.2⟩

theorem IsLongestRun.unique {run run' text : Bytes} (longest : IsLongestRun run text)
    (longest' : IsLongestRun run' text) : run = run' := by
  have shorter := longest'.longest run longest.starts longest.isRun
  have isPrefix := List.prefix_of_prefix_length_le longest.starts longest'.starts shorter
  exact isPrefix.eq_of_length_le (longest.longest run' longest'.starts longest'.isRun)

/-- A run that does not go on with the next byte is the longest. -/
theorem isLongestRun_of_stops {run later : Bytes} (isRun : IsRun run)
    (stops : ∀ byte ∈ later.head?, ¬ IsRun (run ++ [byte])) : IsLongestRun run (run ++ later) where
  starts := List.prefix_append run later
  isRun := isRun
  longest other isPrefix isRun' := by
    by_contra longer
    cases later with
    | nil =>
        rw [List.append_nil] at isPrefix
        exact longer isPrefix.length_le
    | cons byte later =>
        apply stops byte rfl
        apply isRun'.beginning
        apply List.prefix_of_prefix_length_le _ isPrefix
        · simp
          omega
        · exact ⟨later, by simp⟩

/-- The bytes of an unfinished number are a run, and it is known whether they
have a point. -/
structure Figures.IsSound (figures : Figures) : Prop where
  isRun : IsRun figures.reversed.reverse
  pointed : figures.pointed ↔ Ascii.point ∈ figures.reversed

theorem isRun_concat {bytes : Bytes} {byte : UInt8} :
    IsRun (bytes ++ [byte]) ↔
      IsRun bytes ∧ isFigure byte ∧ (byte = Ascii.point → Ascii.point ∉ bytes) := by
  have points : (bytes ++ [byte]).count Ascii.point ≤ 1 ↔
      bytes.count Ascii.point ≤ 1 ∧ (byte = Ascii.point → Ascii.point ∉ bytes) := by
    rw [List.count_append, ← List.count_eq_zero]
    by_cases isPoint : byte = Ascii.point
    · simp only [isPoint, List.count_singleton_self, forall_const]
      omega
    · rw [List.count_singleton, beq_false_of_ne isPoint]
      simp [isPoint]
  rw [IsRun, IsRun, List.forall_mem_append, List.forall_mem_singleton, points]
  tauto

/-- A number goes on with a byte exactly if the run does. -/
theorem Figures.IsSound.accepts_iff {figures : Figures} (sound : figures.IsSound) (byte : UInt8) :
    figures.accepts byte ↔ IsRun (figures.reversed.reverse ++ [byte]) := by
  rw [isRun_concat, List.mem_reverse, ← sound.pointed]
  by_cases isPoint : byte = Ascii.point
  · have noDigit : Ascii.isDigit Ascii.point = false := rfl
    have noUnderscore : Ascii.point ≠ Ascii.underscore := by decide
    simp [sound.isRun, accepts, isFigure, isPoint, noDigit, noUnderscore]
  · simp [sound.isRun, accepts, isFigure, isPoint]

/-- The number that goes on with an accepted byte. -/
theorem Figures.IsSound.step {figures : Figures} (sound : figures.IsSound) {byte : UInt8}
    (accepted : figures.accepts byte) :
    Figures.IsSound ⟨figures.start, byte :: figures.reversed,
      figures.pointed || byte = Ascii.point⟩ where
  isRun := by
    rw [List.reverse_cons]
    exact (sound.accepts_iff byte).mp accepted
  pointed := by
    rw [Bool.or_eq_true, decide_eq_true_eq, sound.pointed, List.mem_cons, or_comm, eq_comm]

/-- A number goes on over a text as long as the run does. -/
theorem exists_run_number (text : Bytes) {figures : Figures} (sound : figures.IsSound) :
    ∃ more later pointed, text = more ++ later ∧
      (∀ pos, (Mode.number figures).run pos more =
        ([], .number ⟨figures.start, more.reverse ++ figures.reversed, pointed⟩)) ∧
      Figures.IsSound ⟨figures.start, more.reverse ++ figures.reversed, pointed⟩ ∧
      ∀ byte ∈ later.head?,
        ¬ IsRun ((more.reverse ++ figures.reversed).reverse ++ [byte]) := by
  induction text generalizing figures with
  | nil => exact ⟨[], [], figures.pointed, rfl, fun _ => rfl, sound, by simp⟩
  | cons byte rest ih =>
      by_cases accepted : figures.accepts byte
      · obtain ⟨more, later, pointed, rfl, run, sound', stops⟩ := ih (sound.step accepted)
        have longer : (byte :: more).reverse ++ figures.reversed =
            more.reverse ++ byte :: figures.reversed := by simp
        refine ⟨byte :: more, later, pointed, rfl, fun pos => ?_, ?_, ?_⟩
        · rw [Mode.run, Mode.step, stepNumber, if_pos accepted, run, longer]
          rfl
        · rw [longer]
          exact sound'
        · rw [longer]
          exact stops
      · refine ⟨[], byte :: rest, figures.pointed, rfl, fun _ => rfl, sound, ?_⟩
        rintro _ ⟨⟩
        exact fun isRun => accepted ((sound.accepts_iff byte).mpr isRun)

/-- The value of a text is the integer of its digits, scaled by those behind the point. -/
theorem Figures.denotes_value (text : Bytes) :
    (value text).Denotes
      ((Nat.ofDigits 10 ((text.filter Ascii.isDigit).map Ascii.digitValue).reverse : ℕ) /
        10 ^ (text.dropWhile (· != Ascii.point)).countP Ascii.isDigit) := by
  rw [List.countP_eq_length_filter, ← Numeral.digitsValue_eq_ofDigits]
  have denotes := Fraction.denotes_ofDecimal (Numeral.digitsValue (text.filter Ascii.isDigit))
    ((text.dropWhile (· != Ascii.point)).filter Ascii.isDigit).length
  rwa [Int.cast_natCast] at denotes

/-- A run without a point at its end. -/
def withoutFinalPoint (run : Bytes) : Bytes :=
  if run.getLast? = some Ascii.point then run.dropLast else run

theorem withoutFinalPoint_concat (front : Bytes) :
    withoutFinalPoint (front ++ [Ascii.point]) = front := by
  simp [withoutFinalPoint]

theorem Figures.endsInPoint_iff (start : Nat) (run : Bytes) (pointed : Bool) :
    (Figures.mk start run.reverse pointed).endsInPoint ↔ run.getLast? = some Ascii.point := by
  rw [endsInPoint, List.head?_reverse, beq_iff_eq]

/-- A final point changes neither the digits nor their scale. -/
theorem value_withoutFinalPoint {run : Bytes} (isRun : IsRun run) :
    Figures.value (withoutFinalPoint run) = Figures.value run := by
  by_cases final : run.getLast? = some Ascii.point
  · obtain ⟨front, rfl⟩ := List.getLast?_eq_some_iff.mp final
    have noPoint : ∀ byte ∈ front, byte != Ascii.point := by
      intro byte mem
      rw [bne_iff_ne]
      rintro rfl
      exact (isRun_concat.mp isRun).2.2 rfl mem
    have digits : (front ++ [Ascii.point]).filter Ascii.isDigit = front.filter Ascii.isDigit := by
      rw [List.filter_append, List.filter_singleton]
      exact List.append_nil _
    have behind : (front ++ [Ascii.point]).dropWhile (· != Ascii.point) = [Ascii.point] :=
      List.dropWhile_append_of_pos noPoint
    have nothing : front.dropWhile (· != Ascii.point) = [] :=
      List.dropWhile_eq_nil_iff.mpr noPoint
    rw [withoutFinalPoint_concat, Figures.value, Figures.value, digits, behind, nothing]
    rfl
  · rw [withoutFinalPoint, if_neg final]

/-- The token of a finished number. -/
theorem Figures.token_eq (start : Nat) (run : Bytes) (pointed : Bool) :
    (Figures.mk start run.reverse pointed).token =
      ⟨.number (value (withoutFinalPoint run)), withoutFinalPoint run, start⟩ := by
  have text : (if (Figures.mk start run.reverse pointed).endsInPoint then run.reverse.tail
      else run.reverse).reverse = withoutFinalPoint run := by
    simp only [endsInPoint_iff, withoutFinalPoint]
    split
    · rw [List.tail_reverse, List.reverse_reverse]
    · exact List.reverse_reverse run
  rw [token, text]

/-- Behind a number the scanner goes on with what the number does not take. -/
theorem complete_pending? (start : Nat) (run : Bytes) (pointed : Bool) (later : Bytes) :
    (Mode.ofPending (Figures.mk start run.reverse pointed).pending?).complete
        (start + run.length) later =
      scanFrom (start + (withoutFinalPoint run).length)
        ((run ++ later).drop (withoutFinalPoint run).length) := by
  have ends := Figures.endsInPoint_iff start run pointed
  by_cases final : run.getLast? = some Ascii.point
  · rw [Figures.pending?, if_pos (ends.mpr final)]
    obtain ⟨front, rfl⟩ := List.getLast?_eq_some_iff.mp final
    have length : (front ++ [Ascii.point]).reverse.length - 1 = front.length := by simp
    have quiet : Mode.between.run (start + front.length) [Ascii.point] =
        ([], .pending ⟨false, start + front.length, [Ascii.point]⟩) := rfl
    rw [withoutFinalPoint_concat, List.append_assoc, List.drop_left, length, List.length_append]
    exact (Mode.complete_append_of_quiet quiet later).symm
  · rw [Figures.pending?, if_neg (mt ends.mp final), withoutFinalPoint, if_neg final,
      List.drop_left]
    rfl

/-- From a digit on, the longest run becomes one number, less a final point, and
the rest of the text is scanned as if it stood alone. -/
theorem exists_complete_number {digit : UInt8} (isDigit : Ascii.isDigit digit) (rest : Bytes)
    (word : Option Pending) (pos : Nat) :
    ∃ run, IsLongestRun run (digit :: rest) ∧
      (Mode.ofPending word).complete pos (digit :: rest) =
        (scanFrom (pos + (withoutFinalPoint run).length)
          ((digit :: rest).drop (withoutFinalPoint run).length)).map
          (Pending.flush word ++
            [⟨.number (Figures.value run), withoutFinalPoint run, pos⟩] ++ ·) := by
  have begun : Figures.IsSound ⟨pos, [digit], false⟩ := by
    constructor
    · exact ⟨by simp [isFigure, isDigit], List.count_le_length⟩
    · simpa using (ne_point_of_isDigit isDigit).symm
  obtain ⟨more, later, pointed, rfl, goesOn, sound, stops⟩ := exists_run_number rest begun
  have reversed : more.reverse ++ [digit] = (digit :: more).reverse := List.reverse_cons.symm
  simp only [reversed, List.reverse_reverse] at goesOn sound stops
  have isRun : IsRun (digit :: more) := by
    have isRun := sound.isRun
    rwa [List.reverse_reverse] at isRun
  refine ⟨digit :: more, isLongestRun_of_stops isRun stops, ?_⟩
  have first : stepPlain word pos digit = (Pending.flush word, .number ⟨pos, [digit], false⟩) := by
    rw [stepPlain, ByteClass.of_digit digit isDigit]
  have refused : ∀ figures, Mode.number ⟨pos, (digit :: more).reverse, pointed⟩ = .number figures →
      ∀ byte ∈ later.head?, figures.accepts byte = false := by
    rintro _ ⟨⟩ byte isNext
    rw [Bool.eq_false_iff]
    intro accepted
    apply stops byte isNext
    have longer := (sound.accepts_iff byte).mp accepted
    rwa [List.reverse_reverse] at longer
  rw [Mode.complete_cons, Mode.step_ofPending, first, Mode.complete_append_of_quiet (goesOn _),
    Mode.complete_eq_interrupted rfl refused]
  have place : pos + 1 + more.length = pos + (digit :: more).length := by
    rw [List.length_cons, Nat.add_right_comm, Nat.add_assoc]
  simp only [Mode.interrupted, map_append_map, place, complete_pending?, Figures.token_eq,
    value_withoutFinalPoint isRun]
  rfl

/-- Wherever a source text has a digit that the scanner reads with nothing but a
word or an operator unfinished, the longest run from there is one number token,
less a final point, and scanning resumes right behind the text of the token. So no
number makes the scan fail. The value is in lowest terms with a positive
denominator: the integer of all digits of the run, divided by ten to the number of
digits behind the point. -/
theorem scan_number (before rest : Bytes) {digit : UInt8} {word : Option Pending}
    (isDigit : Ascii.isDigit digit)
    (reached : (Mode.between.run 0 before).2 = .ofPending word) :
    ∃ run value, IsLongestRun run (digit :: rest) ∧
      (let source := before ++ digit :: rest
       let text := withoutFinalPoint run
       let behind := before.length + text.length
       scan source = (scanFrom behind (source.drop behind)).map
         ((Mode.between.run 0 before).1 ++ Pending.flush word ++
           [⟨.number value, text, before.length⟩] ++ ·)) ∧
      (let digits := run.filter Ascii.isDigit
       let scale := (run.dropWhile (· != Ascii.point)).countP Ascii.isDigit
       value.Denotes ((Nat.ofDigits 10 (digits.map Ascii.digitValue).reverse : ℕ) / 10 ^ scale)) ∧
      0 < value.den ∧ Int.gcd value.num value.den = 1 := by
  obtain ⟨run, longest, completed⟩ := exists_complete_number isDigit rest word before.length
  refine ⟨run, Figures.value run, longest, ?_, Figures.denotes_value run,
    Fraction.den_ofDecimal_pos _ _, Fraction.gcd_ofDecimal _ _⟩
  have split := Mode.complete_append .between 0 before (digit :: rest)
  rw [reached, Nat.zero_add, completed, map_append_map, ← List.append_assoc] at split
  simp only [List.drop_length_add_append]
  exact split

/-- The separators of a number count for nothing, and of two points the second one
belongs to the operator behind the number. -/
theorem scan_number_separated :
    let source := utf8 "w-12_3.4_50.>g"
    Ascii.isDigit 0x31 ∧
      (Mode.between.run 0 (utf8 "w-")).2 = .ofPending (some ⟨false, 1, utf8 "-"⟩) ∧
      IsLongestRun (utf8 "12_3.4_50") (source.drop 2) ∧
      ∃ value, scan source = (scanFrom 11 (utf8 ".>g")).map
          ([⟨.word, utf8 "w", 0⟩, ⟨.operator, utf8 "-", 1⟩,
            ⟨.number value, utf8 "12_3.4_50", 2⟩] ++ ·) ∧
        value.Denotes (123450 / 10 ^ 3) ∧ 0 < value.den ∧ Int.gcd value.num value.den = 1 := by
  intro source
  have isDigit : Ascii.isDigit 0x31 := by decide
  have reached : (Mode.between.run 0 (utf8 "w-")).2 =
      .ofPending (some ⟨false, 1, utf8 "-"⟩) := rfl
  have expected : IsLongestRun (utf8 "12_3.4_50") (utf8 "12_3.4_50" ++ utf8 ".>g") := by
    apply isLongestRun_of_stops
    · decide
    · rintro _ ⟨⟩
      decide
  obtain ⟨run, value, longest, scanned, denotes, positive, lowest⟩ :=
    scan_number (utf8 "w-") (utf8 "2_3.4_50.>g") isDigit reached
  obtain rfl := longest.unique expected
  have digits : Nat.ofDigits 10
      (((utf8 "12_3.4_50").filter Ascii.isDigit).map Ascii.digitValue).reverse = 123450 := by rfl
  have scale : ((utf8 "12_3.4_50").dropWhile (· != Ascii.point)).countP Ascii.isDigit = 3 := by rfl
  simp only [digits, scale, Nat.cast_ofNat] at denotes
  exact ⟨isDigit, reached, expected, value, scanned, denotes, positive, lowest⟩

end Token

end Juxta
