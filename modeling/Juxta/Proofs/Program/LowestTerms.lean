/-
# Programs keep numbers in lowest terms

Number tokens are in lowest terms, hence so is every number written in the tree
of a program. A program is run with a host and with the same host under a log:
outcomes and states stay the same, and whatever is returned or handed to the host
is in lowest terms, if the scope of the program and the answers of the host are.
-/

import Juxta.Program
import Juxta.Proofs.Eval.Host
import Juxta.Proofs.Token.Scanned
import Juxta.Proofs.Tree.Built
import Juxta.Proofs.Value.Reach

namespace Juxta

variable {σ : Type}

namespace Token

/-- A number token denotes a fraction in lowest terms. -/
def InLowestTerms (token : Token) : Prop :=
  ∀ value, token.kind = .number value → value.IsLowest

theorem holdsOfScanned_inLowestTerms : HoldsOfScanned InLowestTerms where
  pending word value kind := by
    cases isWord : word.isWord <;> simp [Pending.token, isWord] at kind
  number figures value kind := by
    cases kind
    exact Fraction.isLowest_ofDecimal _ _
  string value text pos value' kind := by cases kind
  bracket byte pos isBracket value kind := by cases kind
  special byte pos isSpecial value kind := by cases kind
  null byte pos value kind := by cases kind
  infinity byte pos value kind := by
    cases kind
    exact Fraction.isLowest_infinity

end Token

namespace Tree

theorem keptByReader_inLowestTerms : KeptByReader InLowestTerms where
  empty := by simp [InLowestTerms, empty, numbers]
  wrap lowest := by simpa [InLowestTerms, wrap, numbers] using lowest
  child {tree} lowest := by
    cases tree with
    | expression inner _ => simpa [InLowestTerms, child, numbers] using lowest
    | _ => exact lowest
  application callee argument := by
    simp only [InLowestTerms, numbers, List.forall_mem_append]
    exact ⟨callee, argument⟩
  combination _ left right := by
    simp only [InLowestTerms, numbers, List.forall_mem_append]
    exact ⟨left, right⟩
  functionOf lowest := by simpa [InLowestTerms, functionOf, numbers] using lowest
  list each := by
    intro number mem
    rw [numbers, mem_numbersOfElements] at mem
    obtain ⟨element, inside, written⟩ := mem
    exact each element inside number written
  dictionary each := by
    intro number mem
    rw [numbers, mem_numbersOfEntries] at mem
    obtain ⟨entry, inside, written | written⟩ := mem
    · exact (each entry inside).1 number written
    · exact (each entry inside).2 number written

theorem inLowestTerms_leaf {token : Token} (lowest : token.InLowestTerms) {tree : Tree}
    (leaf : token.leaf? = some tree) : tree.InLowestTerms := by
  rw [Token.leaf?] at leaf
  split at leaf
  case h_3 value kind =>
    cases leaf
    simpa [InLowestTerms, numbers] using lowest value kind
  all_goals
    cases leaf <;> simp [InLowestTerms, numbers]

end Tree

theorem Program.inLowestTerms_read {source : Bytes} {tree : Tree}
    (parsed : Program.read source = .ok tree) : tree.InLowestTerms := by
  refine Program.holds_read Tree.keptByReader_inLowestTerms ?_ parsed
  intro tokens scanned token mem leaf
  exact Tree.inLowestTerms_leaf (Token.holdsOfScanned_inLowestTerms.scan scanned token mem)

namespace Program

/-- A program whose scope holds only numbers in lowest terms, run with a host
that answers such values with such values, returns only numbers in lowest terms
and hands only such numbers to the host. -/
theorem interpret_inLowestTerms (environment : Environment) (host : Host σ) (scope : Scope Value)
    (source : Bytes) (state : σ)
    (captured : ∀ held ∈ environment.captured scope, held.InLowestTerms environment)
    (keeps : host.Keeps (Value.InLowestTerms environment)) :
    let plain := (interpret environment host scope source).start state
    let logged := (interpret environment host.logging scope source).start (state, [])
    logged.1 = plain.1 ∧ logged.2.1 = plain.2 ∧
      (∀ value, plain.1 = .ok value → value.InLowestTerms environment) ∧
      ∀ call ∈ logged.2.2, call.argument.InLowestTerms environment := by
  rw [interpret, interpret]
  cases parsed : read source with
  | error failure => exact ⟨rfl, rfl, nofun, nofun⟩
  | ok tree =>
      exact (Value.closedSort_inLowestTerms environment).eval_logging
        (Tree.hereditary_inLowestTerms fun _ => trivial) keeps maxDepth captured
        (inLowestTerms_read parsed) state

/-- A host of one function that gives its argument back and counts its calls. -/
def echo : Host Nat where
  call _ argument := ExceptT.mk fun calls => (.ok argument, calls + 1)

/-- One level that binds a half and the function of the host. -/
def halfAndEcho : Environment :=
  ⟨[⟨⟨[(utf8 "half", .number ⟨1, 2⟩), (utf8 "f", .closure (.host (utf8 "echo")))]⟩, none⟩]⟩

theorem interpret_echo_inLowestTerms :
    let source := utf8 "(\\x f (x * (4 / 6))) half"
    (interpret halfAndEcho echo (Scope.atLevel 0) source).start 0 = (.ok (.number ⟨1, 3⟩), 1) ∧
      (interpret halfAndEcho echo.logging (Scope.atLevel 0) source).start (0, []) =
        (.ok (.number ⟨1, 3⟩), 1, [⟨utf8 "echo", .number ⟨1, 3⟩, .ok (.number ⟨1, 3⟩)⟩]) ∧
      (Value.number ⟨1, 3⟩).InLowestTerms halfAndEcho := by
  have captured : ∀ held ∈ halfAndEcho.captured (Scope.atLevel 0),
      held.InLowestTerms halfAndEcho := by
    intro held mem number reaches
    obtain rfl | rfl : held = .number ⟨1, 2⟩ ∨ held = .closure (.host (utf8 "echo")) := by
      simpa [halfAndEcho, Environment.captured, Environment.boundAt, Scope.atLevel] using mem
    · cases reaches
      decide
    · cases reaches
  have keeps : echo.Keeps (Value.InLowestTerms halfAndEcho) := by
    rintro name argument state value later lowest ⟨⟩
    exact lowest
  have sound := interpret_inLowestTerms halfAndEcho echo (Scope.atLevel 0)
    (utf8 "(\\x f (x * (4 / 6))) half") 0 captured keeps
  exact ⟨rfl, rfl, sound.2.2.1 _ rfl⟩

end Program

end Juxta
