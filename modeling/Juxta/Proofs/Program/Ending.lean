/-
# How programs end

A program whose functions have well-formed bodies ends with a value, with the
error of its scanner or its reader, with the error of the last call of the host,
which passes through unchanged, or with an error of evaluation that blames its
operands; it may also be cut off. Operators compute with fractions only where
their own text denotes an operation on fractions, so no error of that table is
ever seen.
-/

import Juxta.Program
import Juxta.Proofs.Eval.Host
import Juxta.Proofs.Tree.WellFormed

namespace Juxta

open Run (Relation)

variable {σ α β : Type}

namespace Value

/-- A value is inside another, or is that value itself. -/
inductive Part (environment : Environment) : (whole part : Value) → Prop
  | self (value : Value) : Part environment value value
  | item {items : List Value} {item part : Value} (mem : item ∈ items)
      (inside : Part environment item part) : Part environment (list items) part
  | entry {dict : Dict Value} {entry : Bytes × Value} {part : Value} (mem : entry ∈ dict.entries)
      (inside : Part environment entry.2 part) : Part environment (dictionary dict) part
  | captured {scope : Scope Value} {parameter : Option Bytes} {body : Tree} {held part : Value}
      (mem : held ∈ environment.captured scope) (inside : Part environment held part) :
      Part environment (closure (.lambda scope parameter body)) part

/-- A value is there, and if it is a function of the language its body is well formed. -/
def IsProper : Value → Prop
  | nothing => False
  | closure (.lambda _ _ body) => body.WellFormed
  | _ => True

/-- Every value inside a value is there, and every function has a well-formed body. -/
def IsSound (environment : Environment) (value : Value) : Prop :=
  ∀ part, value.Part environment part → part.IsProper

theorem closedSort_isSound (environment : Environment) :
    ClosedSort environment (fun _ => True) Tree.WellFormed (IsSound environment) where
  number := by
    refine ⟨fun _ => trivial, fun _ part inside => ?_⟩
    cases inside
    exact trivial
  string := by
    intro bytes part inside
    cases inside
    exact trivial
  null := by
    intro part inside
    cases inside
    exact trivial
  list := by
    refine ⟨fun sound item mem part inside => sound part (.item mem inside), ?_⟩
    intro each part inside
    cases inside with
    | self => exact trivial
    | item mem inside => exact each _ mem part inside
  dictionary := by
    refine ⟨fun sound entry mem part inside => sound part (.entry mem inside), ?_⟩
    intro each part inside
    cases inside with
    | self => exact trivial
    | entry mem inside => exact each _ mem part inside
  lambda := by
    refine ⟨fun sound => ⟨sound _ (.self _), fun held mem part inside =>
      sound part (.captured mem inside)⟩, ?_⟩
    rintro ⟨wellFormed, captured⟩ part inside
    cases inside with
    | self => exact wellFormed
    | captured mem inside => exact captured _ mem part inside
  ofInt _ := trivial
  operate _ _ _ _ _ := trivial

end Value

/-- What the log of a run has to say about a failure of evaluation: a failure of
the host is the answer to the last call. -/
def Failure.IsExplained (log : List Host.Call) : Failure → Prop
  | .eval error => error.IsOrdinary
  | .host text => ∃ call, log.getLast? = some call ∧ call.answer = .error text
  | .tooDeep => True
  | .lex _ | .parse _ => False

/-- A run and the same run with a log end in the same state, with related results
or with a failure that the log explains. -/
inductive Run.Explains (results : α → β → Prop) :
    Except Failure α × σ → Except Failure β × σ × List Host.Call → Prop
  | ok {first : α} {second : β} (later : σ) (log : List Host.Call)
      (related : results first second) :
      Explains results (.ok first, later) (.ok second, later, log)
  | error {failure : Failure} (later : σ) {log : List Host.Call}
      (explained : failure.IsExplained log) :
      Explains results (.error failure, later) (.error failure, later, log)

/-- The relation between runs and logged runs. -/
def Run.explaining : Relation σ (σ × List Host.Call) where
  relates results first second :=
    ∀ state log, Explains results (first.start state) (second.start (state, log))
  permits failure := ∀ log, failure.IsExplained log
  ordinary isOrdinary _ := isOrdinary
  ofPure related state log := .ok state log related
  ofThrow permitted state log := .error state (permitted log)
  bind {_ _ _ _ _ _ first second _ _} related later := by
    intro state log
    have explains := related state log
    rw [start_bind, start_bind]
    generalize first.start state = ending, second.start (state, log) = ending' at explains
    cases explains with
    | ok middle log same => exact later _ _ same middle log
    | error middle explained => exact .error middle explained

/-- The error of a call is the last answer of the log. -/
theorem Host.Keeps.alike_explaining {values : Value → Prop} {host : Host σ}
    (keeps : host.Keeps values) : host.Alike Run.explaining values host.logging := by
  intro name argument sort state log
  rw [Run.start_ofHost, Host.start_ofHost_logging]
  rcases answered : (host.call name argument).run.run state with ⟨answer, later⟩
  cases answer with
  | ok value => exact .ok later _ ⟨keeps name argument state value later sort answered, rfl⟩
  | error text => exact .error later ⟨_, List.getLast?_concat, rfl⟩

namespace Operator

/-- Operators compute with fractions by the table of operations on fractions: on
two numbers an operator gives what its own text denotes there, and a size is
lessened by what the text of the subtraction denotes. An operator whose text is
not in the table compares kinds or refuses two numbers. -/
structure FollowsTable (call : Closure Value → Value → Run σ Value) : Prop where
  numbers : ∀ (operator : Operator) (x y : Fraction),
    match Fraction.operateText operator.text x y with
    | .ok result => operator.apply call (.number x) (.number y) = pure (.number result)
    | .error _ => operator = .sameKind ∨ ∃ error : EvalError, error.IsOrdinary ∧
        operator.apply call (.number x) (.number y) = throw (.eval error)
  sizes : ∀ (value : Value) (size : Nat) (y : Fraction), value.size? = some size →
    ∃ result, Fraction.operateText subtract.text (Fraction.ofInt size) y = .ok result ∧
      sizeMinus.apply call value (.number y) = pure (.number result)

theorem followsTable (call : Closure Value → Value → Run σ Value) : FollowsTable call where
  numbers operator x y := by
    cases operator with
    | multiply | divide | add | subtract | atMost | atLeast | less | greater | equal => exact rfl
    | sameKind => exact .inl rfl
    | access | map | trimLeft | trimRight | sizeMinus | appendLists | appendStrings | merge
    | shiftLeft | shiftRight | bitAnd | bitOr | bitXor =>
        refine .inr ⟨_, ?_, rfl⟩
        exact ⟨nofun, nofun⟩
  sizes value size y sized := by
    refine ⟨_, rfl, ?_⟩
    simp only [apply, sizeLess, sized]
    rfl

end Operator

namespace Program

/-- The value of a source text, with at most `depth` calls inside each other. -/
def interpretWithin (depth : Nat) (environment : Environment) (host : Host σ)
    (scope : Scope Value) (source : Bytes) : Run σ Value :=
  match read source with
  | .error failure => throw failure
  | .ok tree => tree.eval environment host depth scope

theorem interpret_eq_interpretWithin (environment : Environment) (host : Host σ)
    (scope : Scope Value) (source : Bytes) :
    interpret environment host scope source =
      interpretWithin maxDepth environment host scope source :=
  rfl

/-- The ways in which a program ends that is not cut off. The log holds the calls
of the host that it made. -/
inductive Ending (environment : Environment) (source : Bytes) (log : List Host.Call) :
    Except Failure Value → Prop
  | value {value : Value} (sound : value.IsSound environment) :
      Ending environment source log (.ok value)
  | lex {error : LexError} (unscanned : Token.scan source = .error error) :
      Ending environment source log (.error (.lex error))
  | parse {tokens : List Token} {error : ParseError} (scanned : Token.scan source = .ok tokens)
      (unparsed : Tree.parse tokens = .error error) :
      Ending environment source log (.error (.parse error))
  | host {call : Host.Call} {text : Bytes} (last : log.getLast? = some call)
      (refused : call.answer = .error text) :
      Ending environment source log (.error (.host text))
  | eval {error : EvalError} (isOrdinary : error.IsOrdinary) :
      Ending environment source log (.error (.eval error))

theorem ending_of_read {environment : Environment} {source : Bytes} {log : List Host.Call}
    {failure : Failure} (unread : read source = .error failure) :
    Ending environment source log (.error failure) := by
  rw [read] at unread
  cases scanned : Token.scan source with
  | error error =>
      rw [scanned] at unread
      cases unread
      exact .lex scanned
  | ok tokens =>
      rw [scanned] at unread
      cases parsed : Tree.parse tokens with
      | error error =>
          simp only [parsed] at unread
          cases unread
          exact .parse scanned parsed
      | ok tree =>
          simp only [parsed] at unread
          cases unread

theorem ending_of_isExplained {environment : Environment} {source : Bytes}
    {log : List Host.Call} {failure : Failure} (explained : failure.IsExplained log)
    (finished : failure ≠ .tooDeep) : Ending environment source log (.error failure) := by
  cases failure with
  | lex error => exact explained.elim
  | parse error => exact explained.elim
  | eval error => exact .eval explained
  | host text =>
      obtain ⟨call, last, refused⟩ := explained
      exact .host last refused
  | tooDeep => exact absurd rfl finished

theorem wellFormed_read {source : Bytes} {tree : Tree} (parsed : read source = .ok tree) :
    tree.WellFormed :=
  holds_read Tree.keptByReader_wellFormed (fun _ _ _ _ _ leaf => Tree.wellFormed_leaf leaf) parsed

/-- A program in a scope that holds sound values only, run with a host that
answers sound values with sound values or with errors, ends in one of the listed
ways unless it is cut off: with a sound value, with the error of reading it, with
the answer to the last call of the host, or with an ordinary error of evaluation.
The log changes nothing else, and operators never miss an operation on fractions. -/
theorem interpretWithin_ending (depth : Nat) (environment : Environment) (host : Host σ)
    (scope : Scope Value) (source : Bytes) (state : σ)
    (captured : ∀ held ∈ environment.captured scope, held.IsSound environment)
    (keeps : host.Keeps (Value.IsSound environment)) :
    let plain := (interpretWithin depth environment host scope source).start state
    let logged := (interpretWithin depth environment host.logging scope source).start (state, [])
    logged.1 = plain.1 ∧ logged.2.1 = plain.2 ∧
      (plain.1 ≠ .error .tooDeep → Ending environment source logged.2.2 plain.1) ∧
      Operator.FollowsTable (Closure.call environment host depth) := by
  intro plain logged
  rw [← and_assoc, ← and_assoc]
  refine ⟨?_, Operator.followsTable _⟩
  cases parsed : read source with
  | error failure =>
      have endings : plain = (.error failure, state) ∧ logged = (.error failure, state, []) := by
        simp only [plain, logged, interpretWithin, parsed]
        exact ⟨rfl, rfl⟩
      rw [endings.1, endings.2]
      exact ⟨⟨rfl, rfl⟩, fun _ => ending_of_read parsed⟩
  | ok tree =>
      have related := (Value.closedSort_isSound environment).relates_eval
        (Tree.hereditary_wellFormed Run.explaining.permits) (fun _ => trivial)
        keeps.alike_explaining depth captured (wellFormed_read parsed)
      have explains : Run.Explains (Value.Same (Value.IsSound environment)) plain logged := by
        simp only [plain, logged, interpretWithin, parsed]
        exact related state []
      generalize plain = ending, logged = ending' at explains
      cases explains with
      | ok later log same =>
          obtain ⟨sound, rfl⟩ := same
          exact ⟨⟨rfl, rfl⟩, fun _ => .value sound⟩
      | error later explained =>
          refine ⟨⟨rfl, rfl⟩, fun finished => ending_of_isExplained explained ?_⟩
          rintro rfl
          exact finished rfl

/-- A host of one function that refuses every argument and counts its calls. -/
def refusing : Host Nat where
  call _ _ := ExceptT.mk fun calls => (.error (utf8 "no entry"), calls + 1)

/-- The tree of `f (x * 3)`. -/
def tripledCall : Tree :=
  .wrap (.application (.word (utf8 "f"))
    (.wrap (.combination (utf8 "*") (.word (utf8 "x")) (.number ⟨3, 1⟩))))

/-- A level with the function of the host, and inside it a level with a function
that hands it three times its argument. -/
def tripling : Environment :=
  ⟨[⟨⟨[(utf8 "g", .closure (.lambda (Scope.atLevel 0) (some (utf8 "x")) tripledCall))]⟩, some 0⟩,
    ⟨⟨[(utf8 "f", .closure (.host (utf8 "f")))]⟩, none⟩]⟩

theorem interpretWithin_ending_refusing :
    let source := utf8 "g 2"
    read (utf8 "f (x * 3)") = .ok tripledCall ∧
      (interpret tripling refusing (Scope.atLevel 1) source).start 0 =
        (.error (.host (utf8 "no entry")), 1) ∧
      Ending tripling source [⟨utf8 "f", .number ⟨6, 1⟩, .error (utf8 "no entry")⟩]
        (.error (.host (utf8 "no entry"))) := by
  have body : read (utf8 "f (x * 3)") = .ok tripledCall := rfl
  have hostSound : (Value.closure (.host (utf8 "f"))).IsSound tripling := by
    intro part inside
    cases inside
    exact trivial
  have lambdaSound : (Value.closure (.lambda (Scope.atLevel 0) (some (utf8 "x"))
      tripledCall)).IsSound tripling := by
    refine (Value.closedSort_isSound tripling).lambda.mpr ⟨wellFormed_read body, ?_⟩
    intro held mem
    obtain rfl : held = .closure (.host (utf8 "f")) := by
      simpa [tripling, Environment.captured, Environment.boundAt, Scope.atLevel] using mem
    exact hostSound
  have captured : ∀ held ∈ tripling.captured (Scope.atLevel 1), held.IsSound tripling := by
    intro held mem
    obtain rfl | rfl : held = .closure (.lambda (Scope.atLevel 0) (some (utf8 "x")) tripledCall) ∨
        held = .closure (.host (utf8 "f")) := by
      simpa [tripling, Environment.captured, Environment.boundAt, Scope.atLevel] using mem
    · exact lambdaSound
    · exact hostSound
  have keeps : refusing.Keeps (Value.IsSound tripling) := by
    rintro name argument state value later _ ⟨⟩
  have refused : (interpret tripling refusing (Scope.atLevel 1) (utf8 "g 2")).start 0 =
      (.error (.host (utf8 "no entry")), 1) := rfl
  have ending := interpretWithin_ending maxDepth tripling refusing (Scope.atLevel 1)
    (utf8 "g 2") 0 captured keeps
  rw [← interpret_eq_interpretWithin, refused] at ending
  refine ⟨body, refused, ending.2.2.1 ?_⟩
  intro cutOff
  cases cutOff

end Program

end Juxta
