/-
# Sessions

A host that embeds the language keeps a session: an environment and a stack of
its levels. Definitions go to the level on top of the stack, and programs are
evaluated there. How programs are evaluated is a parameter of the session: an
evaluation hands back the session after it, with whatever it made of the levels.
-/

import Juxta.Eval.Arena

namespace Juxta

/-- An environment with the level on top and the levels below it. -/
structure Session where
  environment : Environment
  top : Nat
  below : List Nat

namespace Session

/-- What a host hands to a session: data, functions and values of its own, and programs,
each of which stands for its value, or for nothing where it fails. -/
inductive Supply
  | number (value : Fraction)
  | string (bytes : Bytes)
  | null
  | list (items : List Supply)
  | dictionary (entries : List (Bytes × Supply))
  | function (name : Bytes)
  | foreign
  | nothing
  | program (source : Bytes)
  deriving Inhabited

/-- What a host asks of a session. -/
inductive Request
  | define (name : Bytes) (supply : Supply)
  | defineSource (name source : Bytes)
  | eval (source : Bytes)
  | get (name : Bytes)
  | call (name : Bytes) (argument : Supply)
  | extend (name : Bytes) (supply : Supply)
  | push
  | pop

/-- What a session answers, with values of any kind. -/
inductive Answer (α : Type)
  | result (value : α)
  | failed (failure : Failure)
  | found (value : α)
  | absent
  | called (isHost : Bool) (result : Except Failure α)
  | notFunction
  | depth (size : Nat)

variable {σ : Type}

/-- The session of one empty level. -/
def initial : Session := ⟨Environment.initial, 0, []⟩

/-- The scope of programs. -/
def scope (session : Session) : Scope Value := Scope.atLevel session.top

/-- Defines a name at the top level. -/
def define (session : Session) (name : Bytes) (value : Value) : Session :=
  { session with environment := session.environment.define session.top name value }

/-- The value of a name at the top level. -/
def get? (session : Session) (name : Bytes) : Option Value :=
  session.environment.get? session.top name

/-- Puts a new level on top. -/
def enter (session : Session) (bindings : Dict Value) : Session :=
  ⟨session.environment.nest session.top bindings, session.environment.size,
    session.top :: session.below⟩

/-- Drops the top level, unless it is the only one. -/
def leave (session : Session) : Session :=
  match session.below with
  | [] => session
  | next :: below => { session with top := next, below := below }

/-- The number of levels on the stack. -/
def depth (session : Session) : Nat := session.below.length + 1

/-- The value of a program at the top level. -/
def interpret (session : Session) (host : Host σ) (source : Bytes) : Run σ Value :=
  Program.interpret session.environment host session.scope source

/-- Calls a function of the session. -/
def call (session : Session) (host : Host σ) (closure : Closure Value) (argument : Value) :
    Run σ Value :=
  Closure.call session.environment host Program.maxDepth closure argument

/-- A way to evaluate programs and to call functions in a session. -/
structure Evaluator (σ : Type) where
  interpret : Session → Bytes → StateM σ (Except Failure Value × Session)
  call : Session → Closure Value → Value → StateM σ (Except Failure Value × Session)

/-- The evaluation that keeps arguments in the scopes of functions. It is not handed
the environment to change. -/
def Evaluator.persistent (host : Host σ) : Evaluator σ where
  interpret session source := do return (← (session.interpret host source).run, session)
  call session closure argument := do
    return (← (session.call host closure argument).run, session)

/-- A run in the arena of a session. The levels that it leaves are those of the
session after it. -/
def inArena (session : Session) (run : Run (Arena σ) Value) :
    StateM σ (Except Failure Value × Session) := fun state =>
  let (outcome, after) := run.run.run ⟨session.environment, state⟩
  ((outcome, { session with environment := after.environment }), after.state)

/-- The evaluation that keeps arguments at levels of their own. -/
def Evaluator.arena (host : Host σ) : Evaluator σ where
  interpret session source := session.inArena (Arena.interpret host session.scope source)
  call session closure argument :=
    session.inArena (Arena.call host Program.maxDepth closure argument)

mutual

/-- The value that is handed to a session, and the session after it was made. The
programs in it run one after the other. -/
def supply (session : Session) (evaluator : Evaluator σ) : Supply → StateM σ (Value × Session)
  | .number value => return (.number value, session)
  | .string bytes => return (.string bytes, session)
  | .null => return (.null, session)
  | .list items => do
      let (values, after) ← session.supplyItems evaluator items
      return (.list values, after)
  | .dictionary entries => do
      let (values, after) ← session.supplyEntries evaluator entries
      return (.dictionary (Dict.ofList values), after)
  | .function name => return (.closure (.host name), session)
  | .foreign => return (.foreign, session)
  | .nothing => return (.nothing, session)
  | .program source => do
      let (outcome, after) ← evaluator.interpret session source
      return (outcome.toOption.getD .nothing, after)

/-- The items of a list that is handed to a session. -/
def supplyItems (session : Session) (evaluator : Evaluator σ) :
    List Supply → StateM σ (List Value × Session)
  | [] => return ([], session)
  | item :: rest => do
      let (value, next) ← session.supply evaluator item
      let (values, after) ← next.supplyItems evaluator rest
      return (value :: values, after)

/-- The entries of a dictionary that is handed to a session. -/
def supplyEntries (session : Session) (evaluator : Evaluator σ) :
    List (Bytes × Supply) → StateM σ (List (Bytes × Value) × Session)
  | [] => return ([], session)
  | (key, supplied) :: rest => do
      let (value, next) ← session.supply evaluator supplied
      let (values, after) ← next.supplyEntries evaluator rest
      return ((key, value) :: values, after)

end

/-- Whether a function belongs to the host. -/
def isHost : Closure Value → Bool
  | .host _ => true
  | .lambda _ _ _ => false

/-- Answers a request, with the session after it. -/
def perform (session : Session) (evaluator : Evaluator σ) :
    Request → StateM σ (Answer Value × Session)
  | .define name supply => do
      let (value, after) ← session.supply evaluator supply
      return (.result value, after.define name value)
  | .defineSource name source => do
      match ← evaluator.interpret session source with
      | (.ok value, after) => return (.result value, after.define name value)
      | (.error failure, after) => return (.failed failure, after)
  | .eval source => do
      match ← evaluator.interpret session source with
      | (.ok value, after) => return (.result value, after)
      | (.error failure, after) => return (.failed failure, after)
  | .get name =>
      match session.get? name with
      | some value => return (.found value, session)
      | none => return (.absent, session)
  | .call name argument => do
      let (value, ready) ← session.supply evaluator argument
      match ready.get? name with
      | some (.closure closure) =>
          let (result, after) ← evaluator.call ready closure value
          return (.called (isHost closure) result, after)
      | _ => return (.notFunction, ready)
  | .extend name supply => do
      let (value, after) ← session.supply evaluator supply
      let inner := after.enter (Dict.empty.set name value)
      return (.depth inner.depth, inner)
  | .push =>
      let inner := session.enter Dict.empty
      return (.depth inner.depth, inner)
  | .pop =>
      let outer := session.leave
      return (.depth outer.depth, outer)

/-- Answers requests one after the other. -/
def performAll (session : Session) (evaluator : Evaluator σ) :
    List Request → StateM σ (List (Answer Value) × Session)
  | [] => return ([], session)
  | request :: rest => do
      let (answer, next) ← session.perform evaluator request
      let (answers, last) ← next.performAll evaluator rest
      return (answer :: answers, last)

end Session

end Juxta
