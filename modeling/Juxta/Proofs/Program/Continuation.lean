/-
# Programs typed line by line

A program that is split at a line end is never rejected for its first lines
alone. Scanning the first lines fails only inside a string or a comment, which
asks for more. Otherwise their tokens are the first tokens of the program, and a
parse error in them that asks for no more would be one of the whole program.
-/

import Juxta.Program
import Juxta.Proofs.Token.Scan
import Juxta.Proofs.Tree.Continuation

namespace Juxta.Program

/-- If a text with a line end in it is a program in which every operator is
known, then the part before the line end is a program as well, or more text is
asked for after it. -/
theorem read_eq_ok_or_needsMore (first second : Bytes) (tree : Tree)
    (whole : read (first ++ Ascii.newline :: second) = .ok tree)
    (known : ∀ tokens, Token.scan (first ++ Ascii.newline :: second) = .ok tokens →
      ∀ token ∈ tokens, token.kind = .operator → Operator.isKnown token.text) :
    (∃ tree, read first = .ok tree) ∨ needsMore first = true := by
  cases scanned : Token.scan first with
  | error error =>
      right
      simp [needsMore, read, scanned, Failure.isIncomplete]
  | ok tokens =>
      have split := Token.scanFrom_append scanned
        (show Token.delimiterTokens _ Ascii.newline = some [] from rfl) second
      rw [← Token.scan_eq_scanFrom] at split
      cases later : Token.scanFrom (0 + first.length + 1) second with
      | error error =>
          rw [later] at split
          simp [read, split, Except.map] at whole
      | ok others =>
          have tokensSplit : Token.scan (first ++ Ascii.newline :: second) =
              .ok (tokens ++ others) := by
            rw [split, later]
            simp [Except.map]
          have firstKnown : ∀ token ∈ tokens, token.kind = .operator →
              Operator.isKnown token.text := fun token mem =>
            known _ tokensSplit token (List.mem_append_left others mem)
          cases parsed : Tree.parse tokens with
          | ok tree' => exact .inl ⟨tree', by simp [read, scanned, parsed]⟩
          | error error =>
              right
              cases final : error.isIncomplete with
              | true => simp [needsMore, read, scanned, parsed, Failure.isIncomplete, final]
              | false =>
                  -- The whole program would be rejected as well.
                  obtain ⟨error', rejected⟩ :=
                    Tree.parse_append_of_error firstKnown parsed final others
                  simp [read, tokensSplit, rejected] at whole

/-- The cut falls behind an operator, inside a function in brackets. -/
theorem needsMore_cut_function :
    (∃ tree, read (utf8 "(\\x x +" ++ Ascii.newline :: utf8 "1) 2") = .ok tree) ∧
      needsMore (utf8 "(\\x x +") = true := by
  let source := utf8 "(\\x x +" ++ Ascii.newline :: utf8 "1) 2"
  have check : ((Token.scan source).toOption.getD []).all fun token =>
      token.kind ≠ .operator || Operator.isKnown token.text := by decide
  have whole : ∃ tree, read source = .ok tree := ⟨_, rfl⟩
  obtain ⟨tree, parsed⟩ := whole
  refine ⟨⟨tree, parsed⟩, ?_⟩
  have answer := read_eq_ok_or_needsMore (utf8 "(\\x x +") (utf8 "1) 2") tree parsed
  have known : ∀ tokens, Token.scan source = .ok tokens → ∀ token ∈ tokens,
      token.kind = .operator → Operator.isKnown token.text := by
    intro tokens scanned token mem kind
    rw [scanned] at check
    simpa [kind] using List.all_eq_true.mp check token mem
  rcases answer known with ⟨early, accepted⟩ | more
  · cases accepted
  · exact more

end Juxta.Program
