/-
# Counts that programs compute

The numbers that programs compute are the fractions in lowest terms, all of them:
whatever a program divides is in lowest terms, and a quotient of two differences
gives each of them. A natural number is therefore computed as two fractions, over
one and over minus one. A trim or a shift reads the first as a count and refuses
the second, although the two numbers are equal.
-/

import Juxta.Proofs.Eval.Counted
import Juxta.Proofs.Fraction.Order
import Juxta.Proofs.Program.LowestTerms
import Juxta.Proofs.Program.ReadBack

namespace Juxta

open Token (Lexeme Spells)
open Juxta.Tree (Reading)

namespace Fraction

theorem subtract_ofInt (first second : Int) :
    (ofInt first).subtract (ofInt second) = ofInt (first - second) := by
  have simplified := simplify_of_isLowest (isLowest_ofInt (first - second))
  simp only [ofInt] at simplified
  simp [subtract, add, negate, ofInt, reduced, ← Int.sub_eq_add_neg, simplified]

/-- A fraction in lowest terms that denotes an integer is that integer over one, unless
its denominator is negative. -/
theorem Denotes.eq_ofInt {number : Fraction} {whole : ℤ} (denotes : number.Denotes whole)
    (lowest : number.IsLowest) (positive : 0 < number.den) : number = ofInt whole := by
  have product : number.num = whole * number.den := by
    have scaled := denotes.num_mul_eq 1
    rw [Int.mul_one, Int.mul_one] at scaled
    exact_mod_cast scaled
  have one : number.den = 1 := by
    rcases lowest with coprime | ⟨-, zero⟩
    · rw [product, Int.gcd_mul_left_left] at coprime
      omega
    · omega
  obtain ⟨num, den⟩ := number
  simp only at product one
  rw [product, one, Int.mul_one, ofInt]

/-- A fraction in lowest terms is read as a count exactly if it denotes a natural number
and its denominator is positive. -/
theorem Denotes.isCount_iff {number : Fraction} {x : ℚ} (denotes : number.Denotes x)
    (lowest : number.IsLowest) :
    number.den = 1 ∧ 0 ≤ number.num ↔ 0 < number.den ∧ ∃ count : ℕ, x = count := by
  constructor
  · rintro ⟨one, nonneg⟩
    refine ⟨by omega, number.num.toNat, ?_⟩
    have same := denotes.2
    rw [one, Int.cast_one, div_one] at same
    rw [← same]
    exact_mod_cast (Int.toNat_of_nonneg nonneg).symm
  · rintro ⟨positive, count, rfl⟩
    have whole : number = ofInt count := Denotes.eq_ofInt denotes lowest positive
    rw [whole]
    exact ⟨rfl, Int.natCast_nonneg count⟩

/-- Natural numbers are the integers that are not negative. -/
theorem exists_natural_iff {x : ℚ} :
    (∃ count : ℕ, x = count) ↔ 0 ≤ x ∧ ∃ whole : ℤ, x = whole := by
  constructor
  · rintro ⟨count, rfl⟩
    exact ⟨Nat.cast_nonneg count, count, by rw [Int.cast_natCast]⟩
  · rintro ⟨nonneg, whole, rfl⟩
    refine ⟨whole.toNat, ?_⟩
    exact_mod_cast (Int.toNat_of_nonneg (Int.cast_nonneg_iff.mp nonneg)).symm

end Fraction

/-- Any operator but the access evaluates both operands and then acts on their values. -/
theorem Tree.evalWith_combination {σ : Type} {look : Scope Value → Bytes → Run σ Value}
    {call : Closure Value → Value → Run σ Value} {scope : Scope Value} {text : Bytes}
    {meaning : Operator} (denoted : Operator.ofText? text = some meaning)
    (other : meaning ≠ .access) {left right : Tree} {a b : Value}
    (first : left.evalWith look call scope = pure a)
    (second : right.evalWith look call scope = pure b) :
    (combination text left right).evalWith look call scope = meaning.apply call a b := by
  rw [Tree.evalWith, first, second, denoted]
  · rfl
  · intro name access
    rw [denoted] at access
    exact absurd (Option.some.inj access) other

namespace Program

/-! ### What programs compute -/

/-- A number that some program computes, where the scope of the program holds only
numbers in lowest terms and the host answers such values with such values. -/
def IsComputed (number : Fraction) : Prop :=
  ∃ (σ : Type) (environment : Environment) (host : Host σ) (scope : Scope Value) (source : Bytes)
    (state : σ), (∀ held ∈ environment.captured scope, held.InLowestTerms environment) ∧
      host.Keeps (Value.InLowestTerms environment) ∧
      ((interpret environment host scope source).start state).1 = .ok (.number number)

theorem IsComputed.isLowest {number : Fraction} (computed : IsComputed number) :
    number.IsLowest := by
  obtain ⟨σ, environment, host, scope, source, state, captured, keeps, result⟩ := computed
  rw [interpret] at result
  cases parsed : read source with
  | error failure =>
      rw [parsed] at result
      cases result
  | ok tree =>
      rw [parsed] at result
      obtain ⟨-, -, lowest, -⟩ := (Value.closedSort_inLowestTerms environment).eval_logging
        (Tree.hereditary_inLowestTerms fun _ => trivial) keeps maxDepth captured
        (inLowestTerms_read parsed) state
      exact lowest _ result number (.number number)

/-- The difference of two numerals in parentheses. -/
def differenceSource (first second : Nat) : Bytes :=
  Ascii.openParen :: Numeral.ofNat first ++ Ascii.space :: Ascii.minus :: Ascii.space ::
    Numeral.ofNat second ++ [Ascii.closeParen]

/-- The lexemes of a difference in parentheses. -/
def differenceLexemes (first second : Nat) : List Lexeme :=
  [⟨.bracket, [Ascii.openParen]⟩, ⟨.number (Fraction.ofInt first), Numeral.ofNat first⟩,
    ⟨.operator, [Ascii.minus]⟩, ⟨.number (Fraction.ofInt second), Numeral.ofNat second⟩,
    ⟨.bracket, [Ascii.closeParen]⟩]

/-- The tree of a difference in parentheses. -/
def differenceTree (first second : Nat) : Tree :=
  .wrap (.combination Operator.subtract.text (.number (Fraction.ofInt first))
    (.number (Fraction.ofInt second)))

theorem spells_differenceSource (first second : Nat) :
    Spells (differenceSource first second) (differenceLexemes first second) := by
  have minus : Spells [Ascii.minus] [⟨.operator, [Ascii.minus]⟩] :=
    fun pos => ⟨[⟨.operator, [Ascii.minus], pos⟩], rfl, rfl⟩
  have closed := (Token.spells_ofNat second).append_bracket Ascii.closeParen rfl Token.spells_nil
  have difference := (Token.spells_ofNat first).append_blank Ascii.space rfl
    (minus.append_blank Ascii.space rfl closed)
  simpa [differenceSource, differenceLexemes] using
    Token.spells_nil.append_bracket Ascii.openParen rfl difference

theorem leadsTo_differenceTree {first second : Nat} {tokens : List Token}
    (spelled : tokens.map Token.lexeme = differenceLexemes first second)
    (frames : List Tree.Frame) (branches : List Tree) :
    (Reading.inside frames branches).LeadsTo tokens
      (.inside frames (differenceTree first second :: branches)) := by
  obtain ⟨opening, inner, rfl, inside⟩ := Token.exists_of_map_lexeme spelled
  obtain ⟨firstPos, others, rfl, behindFirst⟩ := Token.exists_of_map_lexeme inside
  obtain ⟨minusPos, others, rfl, behindMinus⟩ := Token.exists_of_map_lexeme behindFirst
  obtain ⟨secondPos, others, rfl, behindSecond⟩ := Token.exists_of_map_lexeme behindMinus
  obtain ⟨closing, rfl⟩ := Token.exists_of_map_lexeme_singleton behindSecond
  have closes : (Reading.inside (.bracket (.group opening) branches :: frames)
      [.number (Fraction.ofInt second), .operator [Ascii.minus] minusPos,
        .number (Fraction.ofInt first)]).next ⟨.bracket, [Ascii.closeParen], closing⟩ =
      .goOn (.inside frames (differenceTree first second :: branches)) := by
    rw [Reading.next_terminator rfl rfl]
    rfl
  exact .cons rfl (.cons rfl (.cons rfl (.cons rfl (.cons closes (Reading.leadsTo_nil _)))))

theorem evalWith_differenceTree {σ : Type} (look : Scope Value → Bytes → Run σ Value)
    (call : Closure Value → Value → Run σ Value) (scope : Scope Value) (value : Int) :
    (differenceTree value.toNat (-value).toNat).evalWith look call scope =
      pure (.number (Fraction.ofInt value)) := by
  have meaning : Operator.ofText? Operator.subtract.text = some .subtract := by decide
  have numeral (number : Fraction) : (Tree.number number).evalWith look call scope =
      pure (.number number) := by rw [Tree.evalWith]
  have difference : (Fraction.ofInt value.toNat).subtract (Fraction.ofInt (-value).toNat) =
      Fraction.ofInt value := by
    rw [Fraction.subtract_ofInt]
    congr 1
    omega
  rw [differenceTree, Tree.wrap, Tree.evalWith,
    Tree.evalWith_combination meaning (by decide) (numeral _) (numeral _), ← difference]
  rfl

/-- A fraction as the quotient of two differences. -/
def quotientSource (number : Fraction) : Bytes :=
  differenceSource number.num.toNat (-number.num).toNat ++ Ascii.space :: Ascii.slash ::
    Ascii.space :: differenceSource number.den.toNat (-number.den).toNat

/-- The tree of a quotient of two differences. -/
def quotientTree (number : Fraction) : Tree :=
  .wrap (.combination Operator.divide.text
    (differenceTree number.num.toNat (-number.num).toNat)
    (differenceTree number.den.toNat (-number.den).toNat))

theorem read_quotientSource (number : Fraction) :
    read (quotientSource number) = .ok (quotientTree number) := by
  have spelled : Spells (quotientSource number)
      (differenceLexemes number.num.toNat (-number.num).toNat ++ ⟨.operator, [Ascii.slash]⟩ ::
        differenceLexemes number.den.toNat (-number.den).toNat) :=
    (spells_differenceSource _ _).append_blank Ascii.space rfl
      (Token.spells_slash.append_blank Ascii.space rfl (spells_differenceSource _ _))
  obtain ⟨tokens, scanned, lexemes⟩ := spelled 0
  obtain ⟨front, back, rfl, numerator, later⟩ := List.map_eq_append_iff.mp lexemes
  obtain ⟨pos, back, rfl, denominator⟩ := Token.exists_of_map_lexeme later
  have divides (branches : List Tree) : (Reading.inside [] branches).next
      ⟨.operator, [Ascii.slash], pos⟩ =
        .goOn (.inside [] (.operator [Ascii.slash] pos :: branches)) := rfl
  have run := (leadsTo_differenceTree numerator [] []).append
    (.cons (divides _) (leadsTo_differenceTree denominator [] _)) []
  rw [List.append_nil] at run
  have parsed : Tree.parse (front ++ ⟨.operator, [Ascii.slash], pos⟩ :: back) =
      .ok (quotientTree number) := by
    rw [Tree.parse, Tree.readExpression, Tree.read_eq_run, run]
    rfl
  rw [read, Token.scan_eq_scanFrom, scanned]
  simp only [parsed]

/-- Every fraction in lowest terms is the value of a program that needs nothing from its
surroundings. -/
theorem interpret_quotientSource {σ : Type} {number : Fraction} (lowest : number.IsLowest)
    (environment : Environment) (host : Host σ) (scope : Scope Value) :
    interpret environment host scope (quotientSource number) = pure (.number number) := by
  have meaning : Operator.ofText? Operator.divide.text = some .divide := by decide
  have quotient := congrArg Value.number (Fraction.divide_ofInt lowest)
  rw [interpret, read_quotientSource]
  simp only [quotientTree, Tree.eval, Tree.wrap, Tree.evalWith]
  rw [Tree.evalWith_combination meaning (by decide) (evalWith_differenceTree ..)
    (evalWith_differenceTree ..)]
  exact congrArg pure quotient

/-- The numbers that programs compute are the fractions in lowest terms. -/
theorem isComputed_iff_isLowest {number : Fraction} : IsComputed number ↔ number.IsLowest := by
  refine ⟨IsComputed.isLowest, fun lowest => ?_⟩
  let silent : Host Unit := ⟨fun _ _ => throw []⟩
  refine ⟨Unit, Environment.initial, silent, Scope.atLevel 0, quotientSource number, (), ?_, ?_, ?_⟩
  · simp [Environment.captured, Environment.boundAt, Environment.initial, Scope.atLevel, Dict.empty]
  · rintro name argument state value later lowest ⟨⟩
  · rw [interpret_quotientSource lowest]
    rfl

end Program

/-! ### What is made of the numbers -/

namespace Fraction

/-- Negating both integers leaves the rational as it is. -/
theorem Denotes.negateBoth {number : Fraction} {x : ℚ} (denotes : number.Denotes x) :
    Denotes ⟨-number.num, -number.den⟩ x := by
  obtain ⟨nonzero, rfl⟩ := denotes
  refine ⟨neg_ne_zero.mpr nonzero, ?_⟩
  rw [Int.cast_neg, Int.cast_neg, neg_div_neg_eq]

theorem IsLowest.negateBoth {number : Fraction} (lowest : number.IsLowest) :
    IsLowest ⟨-number.num, -number.den⟩ := by
  simpa [IsLowest] using lowest

/-- Equal numbers denote the same rational. -/
theorem Denotes.of_isEqual {number other : Fraction} {x : ℚ} (denotes : number.Denotes x)
    (nonzero : other.den ≠ 0) (equal : number.isEqual other) : other.Denotes x := by
  have denotes' : other.Denotes (other.num / other.den) := ⟨nonzero, rfl⟩
  have crosswise : number.num * other.den = other.num * number.den := by
    simpa [isEqual] using equal
  have same := (holds_crosswise_iff denotes denotes' .equal).mp crosswise
  have rationals : x = other.num / other.den := by
    split at same
    · exact same
    · exact same.symm
  rwa [rationals]

end Fraction

namespace Counted

variable {σ : Type} (kind : Counted) (call : Closure Value → Value → Run σ Value) (state : σ)
  (string : Bytes) {number : Fraction} {x : ℚ}

/-- What a counted operator makes of a string and a number. -/
def outcome (number : Fraction) : Except Failure Value :=
  ((kind.operator.apply call (.string string) (.number number)).start state).1

theorem outcome_eq_ok {count : ℕ} (denotes : number.Denotes count) (lowest : number.IsLowest)
    (positive : 0 < number.den) :
    kind.outcome call state string number =
      .ok (.string (kind.change string (min count Value.maxCount))) := by
  have whole : number = Fraction.ofInt count := Fraction.Denotes.eq_ofInt denotes lowest positive
  rw [outcome, whole, start_apply_ofNat]

theorem outcome_eq_error (denotes : number.Denotes x) (lowest : number.IsLowest)
    (refused : ¬ (0 < number.den ∧ ∃ count : ℕ, x = count)) :
    kind.outcome call state string number =
      .error (.eval ⟨kind.operator.text, .countNotNatural number⟩) := by
  rw [outcome, start_apply_number, if_neg ((denotes.isCount_iff lowest).not.mpr refused)]

theorem exists_outcome_eq_error_iff (denotes : number.Denotes x) (lowest : number.IsLowest) :
    (∃ failure, kind.outcome call state string number = .error failure) ↔
      x < 0 ∨ (¬ ∃ whole : ℤ, x = whole) ∨ number.den < 0 := by
  have nonzero := denotes.1
  constructor
  · rintro ⟨failure, refused⟩
    by_contra accepted
    simp only [not_or, not_not, not_lt] at accepted
    obtain ⟨count, rfl⟩ := Fraction.exists_natural_iff.mpr ⟨accepted.1, accepted.2.1⟩
    rw [outcome_eq_ok kind call state string denotes lowest (by omega)] at refused
    cases refused
  · intro cause
    refine ⟨_, outcome_eq_error kind call state string denotes lowest ?_⟩
    rintro ⟨positive, natural⟩
    obtain ⟨nonneg, whole⟩ := Fraction.exists_natural_iff.mp natural
    rcases cause with negative | fractional | negative
    · exact absurd negative (not_lt.mpr nonneg)
    · exact fractional whole
    · omega

theorem toOption_outcome_of_refused
    (refused : ∃ failure, kind.outcome call state string number = .error failure) :
    (kind.outcome call state string number).toOption = none := by
  obtain ⟨failure, same⟩ := refused
  rw [same, Except.toOption]

/-- For the outcome, a natural number is the sign of its denominator. -/
theorem toOption_outcome_of_natural {count : ℕ} (denotes : number.Denotes count)
    (lowest : number.IsLowest) :
    (kind.outcome call state string number).toOption =
      if 0 < number.den then
        some (.string (kind.change string (min count Value.maxCount)))
      else none := by
  split
  case isTrue positive =>
    rw [outcome_eq_ok kind call state string denotes lowest positive, Except.toOption]
  case isFalse notPositive =>
    have nonzero := denotes.1
    apply toOption_outcome_of_refused
    exact (exists_outcome_eq_error_iff kind call state string denotes lowest).mpr
      (.inr (.inr (by omega)))

theorem toOption_outcome_eq_iff {other : Fraction} (denotes : number.Denotes x)
    (lowest : number.IsLowest) (denotes' : other.Denotes x) (lowest' : other.IsLowest) :
    (kind.outcome call state string number).toOption =
        (kind.outcome call state string other).toOption ↔
      0 < number.den * other.den ∨ x < 0 ∨ ¬ ∃ whole : ℤ, x = whole := by
  by_cases natural : ∃ count : ℕ, x = count
  · obtain ⟨nonneg, whole⟩ := Fraction.exists_natural_iff.mp natural
    obtain ⟨count, rfl⟩ := natural
    have nonzero := denotes.1
    have nonzero' := denotes'.1
    rw [toOption_outcome_of_natural kind call state string denotes lowest,
      toOption_outcome_of_natural kind call state string denotes' lowest']
    have signs : 0 < number.den * other.den ↔ (0 < number.den ↔ 0 < other.den) := by
      rw [mul_pos_iff]
      omega
    simp only [not_lt.mpr nonneg, whole, not_true_eq_false, or_false, signs]
    by_cases positive : 0 < number.den <;> by_cases positive' : 0 < other.den <;>
      simp [positive, positive']
  · have cause : x < 0 ∨ ¬ ∃ whole : ℤ, x = whole := by
      rw [Fraction.exists_natural_iff, not_and_or, not_le] at natural
      exact natural
    have refused {fraction : Fraction} (denotes : fraction.Denotes x)
        (lowest : fraction.IsLowest) :
        (kind.outcome call state string fraction).toOption = none := by
      apply toOption_outcome_of_refused
      apply (exists_outcome_eq_error_iff kind call state string denotes lowest).mpr
      exact cause.imp_right .inl
    simp only [refused denotes lowest, refused denotes' lowest', cause, or_true]

/-- A number that a program computes is refused as a count exactly if it is negative or
not an integer or has a negative denominator, and otherwise it is the count. Two equal
numbers have the same outcome exactly if their denominators have the same sign or no
count is equal to them. The sign of the denominator is not one of the rational: with
both integers negated, the same rational is computed as well. -/
theorem outcome_of_isComputed (computed : Program.IsComputed number) (denotes : number.Denotes x) :
    ((∃ failure, kind.outcome call state string number = .error failure) ↔
        x < 0 ∨ (¬ ∃ whole : ℤ, x = whole) ∨ number.den < 0) ∧
      (∀ count : ℕ, x = count → 0 < number.den →
        kind.outcome call state string number =
          .ok (.string (kind.change string (min count Value.maxCount)))) ∧
      (∀ other : Fraction, Program.IsComputed other → other.den ≠ 0 →
        (Value.number number).isEqual (.number other) →
        ((kind.outcome call state string number).toOption =
            (kind.outcome call state string other).toOption ↔
          0 < number.den * other.den ∨ x < 0 ∨ ¬ ∃ whole : ℤ, x = whole)) ∧
      Program.IsComputed ⟨-number.num, -number.den⟩ ∧
      Fraction.Denotes ⟨-number.num, -number.den⟩ x := by
  have lowest := computed.isLowest
  refine ⟨exists_outcome_eq_error_iff kind call state string denotes lowest, ?_, ?_,
    Program.isComputed_iff_isLowest.mpr lowest.negateBoth, denotes.negateBoth⟩
  · rintro count rfl positive
    exact outcome_eq_ok kind call state string denotes lowest positive
  · intro other computed' nonzero equal
    exact toOption_outcome_eq_iff kind call state string denotes lowest
      (denotes.of_isEqual nonzero equal) computed'.isLowest

theorem outcome_of_isComputed_eight :
    let call : Closure Value → Value → Run Unit Value := fun _ _ => throw .tooDeep
    let number : Fraction := ⟨8, 1⟩
    let other : Fraction := ⟨-8, -1⟩
    Program.IsComputed number ∧ number.Denotes 8 ∧ Program.IsComputed other ∧ other.Denotes 8 ∧
      (Value.number number).isEqual (.number other) ∧
      shiftLeft.outcome call () (utf8 "ab") number = .ok (.string [0x62, 0x00]) ∧
      (∃ failure, shiftLeft.outcome call () (utf8 "ab") other = .error failure) ∧
      (shiftLeft.outcome call () (utf8 "ab") number).toOption ≠
        (shiftLeft.outcome call () (utf8 "ab") other).toOption := by
  intro call number other
  have computed : Program.IsComputed number := Program.isComputed_iff_isLowest.mpr (by decide)
  have denotes : number.Denotes 8 := ⟨by decide, by norm_num [number]⟩
  obtain ⟨-, accepted, equals, computed', denotes'⟩ :=
    outcome_of_isComputed shiftLeft call () (utf8 "ab") computed denotes
  obtain ⟨refused, -⟩ := outcome_of_isComputed shiftLeft call () (utf8 "ab") computed' denotes'
  have whole : ∃ whole : ℤ, (8 : ℚ) = whole := ⟨8, by norm_num⟩
  refine ⟨computed, denotes, computed', denotes', rfl, ?_, ?_, ?_⟩
  · exact (accepted 8 (by norm_num) (by decide)).trans rfl
  · exact refused.mpr (.inr (.inr (by decide)))
  · rw [ne_eq, equals other computed' (by decide) rfl]
    simp [number, other, whole]

/-- Minus eight divided by minus one is eight, and no count. -/
theorem interpret_shift_negatedCount :
    let host : Host Unit := ⟨fun _ _ => throw []⟩
    let outcome (source : String) : Except Failure Value :=
      ((Program.interpret Environment.initial host (Scope.atLevel 0) (utf8 source)).start ()).1
    let number : Fraction := ⟨-8, -1⟩
    outcome "(0 - 8) / (0 - 1)" = .ok (.number number) ∧ number.Denotes 8 ∧
      outcome "(0 - 8) / (0 - 1) = 8" = .ok (.number ⟨1, 1⟩) ∧
      outcome "\"ab\" << 8" = .ok (.string [0x62, 0x00]) ∧
      outcome "\"ab\" << ((0 - 8) / (0 - 1))" =
        .error (.eval ⟨utf8 "<<", .countNotNatural number⟩) := by
  intro host outcome number
  refine ⟨rfl, ⟨by decide, ?_⟩, rfl, rfl, rfl⟩
  norm_num [number]

end Counted

end Juxta
