/-
# Requests that only look

Evaluating a program, looking a name up and calling a function are requests that only
look at a session. The evaluator that holds arguments in scopes then leaves the session
as it is, and the one that works in an arena leaves its levels and its stack, whether
programs succeed or fail. What such requests leave behind is in the state of the host.
If that state is only a log, so that what a function of the host answers and what it
adds to the log do not depend on what is in the log already, then nothing that is asked
of the session later can tell the difference: where arguments are held in scopes, such
requests can be put anywhere into a session or taken out of it, and every other request
is answered as before and adds the same to the log.
-/

import Juxta.Proofs.Eval.Arena
import Juxta.Proofs.Session.Compared
import Juxta.Value.Format

namespace Juxta

variable {ε ι σ : Type}

/-- A log beside the same log with something before it. -/
def Run.Preceded (before log log' : List ε) : Prop := log = before ++ log'

/-- What a host answers, and what it adds to its log, is the same whatever the
log holds already. -/
def Host.OnlyLogs (host : Host (List ε)) : Prop :=
  ∀ name argument log, (host.call name argument).run.run log =
    (((host.call name argument).run.run []).1, log ++ ((host.call name argument).run.run []).2)

theorem Host.OnlyLogs.alike {host : Host (List ε)} (onlyLogs : host.OnlyLogs) (before : List ε) :
    host.Alike (Run.relatedBy (Run.Preceded before)) (fun _ => True) host := by
  rintro name argument _ _ log rfl
  rw [Run.start_ofHost, Run.start_ofHost, onlyLogs name argument (before ++ log),
    onlyLogs name argument log]
  exact ⟨Value.agree_same_refl _, List.append_assoc _ _ _⟩

theorem Value.seenAsOne_same : SeenAsOne (Same fun _ => True) where
  likeness := (ClosedSort.all Environment.initial).likeness
  dump_eq same := congrArg dump same.2
  host _ := ⟨trivial, rfl⟩
  foreign := ⟨trivial, rfl⟩
  nothing := ⟨trivial, rfl⟩

namespace Session

/-! ### One session, twice -/

/-- A session beside itself, of which something is kept, with related states of the
host. -/
def twice (kept : Session → Prop) (states : σ → σ → Prop) : Comparison Run.Always σ σ where
  sessions _ session session' := kept session ∧ session = session'
  states := states
  values _ := Value.Same fun _ => True

variable {kept : Session → Prop} {states : σ → σ → Prop} {host : Host σ}

theorem sessions_twice {session : Session} (isKept : kept session) :
    (twice kept states).sessions .now session session :=
  ⟨isKept, rfl⟩

theorem optionRel_same (found : Option Value) :
    Option.Rel (Value.Same fun _ => True) found found := by
  cases found with
  | none => exact .none
  | some value => exact .some ⟨trivial, rfl⟩

/-- Whatever is kept of a session, it is kept where arguments are held in scopes. -/
theorem evaluates_persistent (kept : Session → Prop)
    (hosts : host.Alike (Run.relatedBy states) (fun _ => True) host) :
    (twice kept states).Evaluates (.persistent host) (.persistent host) where
  seenAsOne _ := Value.seenAsOne_same
  lasting _ _ _ same := same
  get? := by
    rintro _ session _ ⟨_, rfl⟩ name
    exact optionRel_same _
  interpret := by
    rintro _ session _ ⟨isKept, rfl⟩ source state state' before
    have related : Run.Related states (Value.Same fun _ => True)
        (session.interpret host source) (session.interpret host source) := by
      rw [Session.interpret, Program.interpret]
      cases Program.read source with
      | error failure => exact Run.related_throw failure
      | ok tree =>
          exact (Value.ClosedSort.all session.environment).relates_eval
            (Tree.hereditary_all fun _ => trivial) trivial hosts _ (fun _ _ => trivial) trivial
    obtain ⟨agree, after⟩ := related state state' before
    exact ⟨.now, le_rfl, after, ⟨isKept, rfl⟩, agree⟩
  call := by
    rintro _ session _ ⟨isKept, rfl⟩ function _ argument _ functions arguments state state' before
    obtain ⟨agree, after⟩ := (Value.ClosedSort.all session.environment).callsAlike
      (Tree.hereditary_all fun _ => trivial) trivial hosts Program.maxDepth _ _ _ _ functions
      arguments state state' before
    exact ⟨.now, le_rfl, after, ⟨isKept, rfl⟩, agree⟩

/-- The levels of a session are levels of another one, with the same stack. -/
structure Extends (session later : Session) : Prop where
  levels : session.environment ≤ later.environment
  top : later.top = session.top
  below : later.below = session.below

theorem Extends.refl (session : Session) : session.Extends session := ⟨le_rfl, rfl, rfl⟩

theorem Extends.trans {session next last : Session} (first : session.Extends next)
    (second : next.Extends last) : session.Extends last :=
  ⟨first.levels.trans second.levels, second.top.trans first.top, second.below.trans first.below⟩

/-- A run that only adds levels to the arena of a session. -/
theorem relates_inArena
    (keeps : ∀ {session later}, session.Extends later → kept session → kept later)
    {session : Session} (isKept : kept session) {run : Run (Arena σ) Value}
    (related : Run.Related (Arena.Keeps session.environment states) (Value.Same fun _ => True)
      run run) :
    (twice kept states).Relates .now
      (fun _ => Run.Agree (fun _ => True) (Value.Same fun _ => True)) (session.inArena run)
      (session.inArena run) := by
  intro state state' before
  obtain ⟨agree, le, levels, after⟩ := related ⟨session.environment, state⟩
    ⟨session.environment, state'⟩ ⟨le_rfl, rfl, before⟩
  refine ⟨.now, le_rfl, after, ⟨keeps ⟨le, rfl, rfl⟩ isKept, ?_⟩, agree⟩
  exact congrArg (fun environment => { session with environment := environment }) levels

/-- What is kept of a session while levels are added, is kept in an arena. -/
theorem evaluates_arena (kept : Session → Prop)
    (keeps : ∀ {session later}, session.Extends later → kept session → kept later)
    (hosts : host.Alike (Run.relatedBy states) (fun _ => True) host) :
    (twice kept states).Evaluates (.arena host) (.arena host) where
  seenAsOne _ := Value.seenAsOne_same
  lasting _ _ _ same := same
  get? := by
    rintro _ session _ ⟨_, rfl⟩ name
    exact optionRel_same _
  interpret := by
    rintro _ session _ ⟨isKept, rfl⟩ source
    exact relates_inArena keeps isKept (Arena.related_interpret hosts _ _ source)
  call := by
    rintro _ session _ ⟨isKept, rfl⟩ function _ argument _ ⟨_, ⟨⟩⟩ ⟨_, rfl⟩
    exact relates_inArena keeps isKept (Arena.related_call hosts _ _ function argument)

/-- A request that only looks leaves the session as it is, where arguments are held in
scopes. -/
theorem perform_persistent_of_observes (host : Host σ) (session : Session) {request : Request}
    (observes : request.Observes) (state : σ) :
    ((session.perform (.persistent host) request).run state).1.2 = session := by
  have evaluates := evaluates_persistent (fun later => later = session) (Arena.alike_self host)
  obtain ⟨-, -, -, ⟨same, -⟩, -⟩ :=
    evaluates.perform_of_observes (sessions_twice rfl) observes state state rfl
  exact same

theorem evaluates_extends (host : Host σ) (session : Session) :
    (twice session.Extends Eq).Evaluates (.arena host) (.arena host) :=
  evaluates_arena session.Extends (fun more extended => extended.trans more)
    (Arena.alike_self host)

theorem run_bind {α β : Type} (action : StateM σ α) (next : α → StateM σ β) (state : σ) :
    (action >>= next).run state = (next (action.run state).1).run (action.run state).2 :=
  rfl

theorem extends_interpret_arena (host : Host σ) (session : Session) (source : Bytes) (state : σ) :
    session.Extends (((Evaluator.arena host).interpret session source).run state).1.2 :=
  ⟨Arena.le_interpret host session.scope source ⟨session.environment, state⟩, rfl, rfl⟩

theorem extends_supply_arena (host : Host σ) (session : Session) (supplied : Supply) (state : σ) :
    session.Extends ((session.supply (.arena host) supplied).run state).1.2 := by
  obtain ⟨-, -, -, ⟨extended, -⟩, -⟩ := (evaluates_extends host session).supply
    (sessions_twice (.refl session)) supplied state state rfl
  exact extended

/-- A request that only looks leaves the levels and the stack of the session as they are,
where arguments are held at levels. -/
theorem extends_perform_arena_of_observes (host : Host σ) (session : Session) {request : Request}
    (observes : request.Observes) (state : σ) :
    session.Extends ((session.perform (.arena host) request).run state).1.2 := by
  obtain ⟨-, -, -, ⟨extended, -⟩, -⟩ := (evaluates_extends host session).perform_of_observes
    (sessions_twice (.refl session)) observes state state rfl
  exact extended

/-! ### Logs -/

/-- Whatever an evaluator runs has the same result, and adds the same to a log, whatever
the log holds already. -/
def Evaluator.OnlyLogs (evaluator : Evaluator (List ε)) : Prop :=
  ∀ before, (twice (fun _ => True) (Run.Preceded before)).Evaluates evaluator evaluator

theorem changes_twice (states : σ → σ → Prop) : (twice (fun _ => True) states).Changes where
  define := by
    rintro _ session _ ⟨_, rfl⟩ name value _ ⟨_, rfl⟩
    exact ⟨.now, le_rfl, trivial, rfl⟩
  enter := by
    rintro _ session _ ⟨_, rfl⟩ bindings bindings' related
    obtain ⟨-, rfl⟩ := Value.dictAlike_same_iff.mp related
    exact ⟨.now, le_rfl, trivial, rfl⟩
  leave := by
    rintro _ session _ ⟨_, rfl⟩
    exact ⟨trivial, rfl⟩
  depth := by
    rintro _ session _ ⟨_, rfl⟩
    rfl

theorem Answer.Alike.eq {values : Value → Prop} {answer answer' : Answer Value}
    (alike : answer.Alike (Value.Same values) answer') : answer = answer' := by
  cases alike with
  | result same | found same => rw [same.2]
  | called isHost results => rw [Value.eq_of_agree_same results]
  | failed | absent | notFunction | depth => rfl

/-! ### Chronicles -/

/-- What is left of a labelled request: its answer, what it added to the log, and
the session after it. -/
structure Entry (ι ε : Type) where
  label : ι
  answer : Answer Value
  added : List ε
  after : Session

/-- What an answer shows: the dump and the printed form instead of a value. -/
def Answer.shown (answer : Answer Value) : Answer (Dump × Bytes) :=
  answer.map fun value => (value.dump, value.format)

/-- What an entry shows: the answer, and what was added to the log. -/
def Entry.shown (entry : Entry ι ε) : ι × Answer (Dump × Bytes) × List ε :=
  (entry.label, entry.answer.shown, entry.added)

/-- The entries of labelled requests that are performed one after the other, from
a log on. -/
def chronicle (session : Session) (evaluator : Evaluator (List ε)) (log : List ε) :
    List (ι × Request) → List (Entry ι ε)
  | [] => []
  | (label, request) :: rest =>
      let performed := (session.perform evaluator request).run log
      ⟨label, performed.1.1, performed.2.drop log.length, performed.1.2⟩ ::
        performed.1.2.chronicle evaluator performed.2 rest

theorem run_performAll_cons (session : Session) (evaluator : Evaluator σ) (request : Request)
    (rest : List Request) (state : σ) :
    (session.performAll evaluator (request :: rest)).run state =
      let first := (session.perform evaluator request).run state
      let later := (first.1.2.performAll evaluator rest).run first.2
      ((first.1.1 :: later.1.1, later.1.2), later.2) := rfl

/-- The entries hold the answers to the requests. -/
theorem answers_performAll (session : Session) (evaluator : Evaluator (List ε)) (log : List ε)
    (steps : List (ι × Request)) :
    ((session.performAll evaluator (steps.map Prod.snd)).run log).1.1 =
      (session.chronicle evaluator log steps).map Entry.answer := by
  induction steps generalizing session log with
  | nil => rfl
  | cons step rest ih =>
      rw [List.map_cons, run_performAll_cons]
      exact congrArg (List.cons _) (ih _ _)

section OnlyLogs

variable {evaluator : Evaluator (List ε)} (onlyLogs : evaluator.OnlyLogs)
include onlyLogs

/-- A request is answered in the same way, and adds the same to the log, whatever
the log holds already. -/
theorem perform_of_onlyLogs (session : Session) (request : Request) (log : List ε) :
    (session.perform evaluator request).run log =
      (((session.perform evaluator request).run []).1,
        log ++ ((session.perform evaluator request).run []).2) := by
  obtain ⟨_, _, logs, ⟨-, sessions⟩, answers⟩ := (onlyLogs log).perform (changes_twice _)
    (sessions_twice trivial) request log [] (List.append_nil log).symm
  exact Prod.ext (Prod.ext (Answer.Alike.eq answers) sessions) logs

/-- An entry depends on the session alone. -/
theorem chronicle_cons (session : Session) (log : List ε) (label : ι) (request : Request)
    (rest : List (ι × Request)) :
    session.chronicle evaluator log ((label, request) :: rest) =
      let performed := (session.perform evaluator request).run []
      ⟨label, performed.1.1, performed.2, performed.1.2⟩ ::
        performed.1.2.chronicle evaluator (log ++ performed.2) rest := by
  rw [chronicle, perform_of_onlyLogs onlyLogs, List.drop_left]

/-- The entries hold all that is added to the log. -/
theorem log_performAll (session : Session) (log : List ε) (steps : List (ι × Request)) :
    ((session.performAll evaluator (steps.map Prod.snd)).run log).2 =
      log ++ (session.chronicle evaluator log steps).flatMap Entry.added := by
  induction steps generalizing session log with
  | nil => exact (List.append_nil log).symm
  | cons step rest ih =>
      obtain ⟨label, request⟩ := step
      rw [List.map_cons, run_performAll_cons, perform_of_onlyLogs onlyLogs, chronicle_cons onlyLogs,
        List.flatMap_cons, ← List.append_assoc]
      exact ih _ _

/-- Leaving out requests that leave the session as it is leaves out their entries and
nothing else. -/
theorem chronicle_filter (keep : ι → Bool) {steps : List (ι × Request)}
    (leaves : ∀ step ∈ steps, keep step.1 = false → ∀ session : Session,
      ((session.perform evaluator step.2).run []).1.2 = session) (session : Session)
    (log log' : List ε) :
    (session.chronicle evaluator log steps).filter (fun entry => keep entry.label) =
      session.chronicle evaluator log' (steps.filter fun step => keep step.1) := by
  induction steps generalizing session log log' with
  | nil => rfl
  | cons step rest ih =>
      obtain ⟨label, request⟩ := step
      obtain ⟨left, leaves⟩ := List.forall_mem_cons.mp leaves
      have later := ih leaves
      rw [chronicle_cons onlyLogs]
      cases kept : keep label with
      | true =>
          simp only [List.filter_cons, kept, if_true, chronicle_cons onlyLogs]
          exact congrArg (List.cons _) (later _ _ _)
      | false =>
          simp only [List.filter_cons, kept, left kept session]
          exact later session _ _

end OnlyLogs

/-- Where arguments are held in scopes, requests that only look can be put into a session
and taken out of it at any place: the entries of the other requests stay the same. -/
theorem chronicle_persistent_filter {host : Host (List ε)} (onlyLogs : host.OnlyLogs)
    (keep : ι → Bool) {steps : List (ι × Request)}
    (observing : ∀ step ∈ steps, keep step.1 = false → step.2.Observes) (session : Session)
    (log log' : List ε) :
    (session.chronicle (.persistent host) log steps).filter (fun entry => keep entry.label) =
      session.chronicle (.persistent host) log' (steps.filter fun step => keep step.1) := by
  have logs : (Evaluator.persistent host).OnlyLogs := fun before =>
    evaluates_persistent _ (onlyLogs.alike before)
  apply chronicle_filter logs
  intro step mem dropped session
  exact perform_persistent_of_observes host session (observing step mem dropped) []

end Session

end Juxta
