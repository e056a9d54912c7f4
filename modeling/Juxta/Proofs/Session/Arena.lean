/-
# Sessions in an arena

A session whose evaluator works in an arena runs beside a session whose evaluator holds
arguments in scopes. The second one is never changed by an evaluation; the first one
gets new levels from every call. A chart says where the levels of the second are in the
first, and it is kept by every request: definitions change charted levels only, and a
level that is put on the stack is charted as it is made. So the two answer alike, and
requests that only look can be put into the session in the arena and taken out of it.
-/

import Juxta.Proofs.Eval.Chart
import Juxta.Proofs.Session.Observing

namespace Juxta

namespace Environment

variable {chart : List Nat} {arena environment : Environment}

/-- A definition at a charted level changes no level off the chart. -/
theorem outlasts_define {place : Nat} (mem : place ∈ chart) (name : Bytes) (value : Value) :
    Outlasts chart arena chart (arena.define place name value) where
  charted found := found
  others {place' level} off found := by
    have elsewhere : place' ≠ place := by
      rintro rfl
      exact off mem
    exact ⟨off, by rwa [level?_define, if_neg elsewhere]⟩

theorem outlasts_nest (chart : List Nat) (arena : Environment) (outer : Nat)
    (bindings : Dict Value) :
    Outlasts chart arena (chart ++ [arena.size]) (arena.nest outer bindings) where
  charted found := by
    rw [List.getElem?_append_left (List.getElem?_eq_some_iff.mp found).1]
    exact found
  others {place level} off found := by
    refine ⟨?_, arena.le_nest outer bindings place level found⟩
    rw [List.mem_append, List.mem_singleton, not_or]
    exact ⟨off, Nat.ne_of_lt (lt_size_of_level? found)⟩

/-- The same definition at a level and at its place. -/
theorem Charts.define (charts : environment.Charts chart arena) {number place : Nat}
    (charted : chart[number]? = some place) (name : Bytes) {value value' : Value}
    (values : value.LaidOut chart arena value') :
    (environment.define number name value).Charts chart (arena.define place name value') where
  size := charts.size.trans (size_define ..).symm
  distinct := charts.distinct
  levels {other place' level} charted' found := by
    have lasts : Outlasts chart arena chart (arena.define place name value') :=
      outlasts_define (List.mem_of_getElem? charted) name value'
    rw [level?_define] at found ⊢
    by_cases here : other = number
    · subst here
      obtain rfl : place = place' := Option.some.inj (charted.symm.trans charted')
      rw [if_pos rfl, Option.map_eq_some_iff] at found
      obtain ⟨before, found, rfl⟩ := found
      obtain ⟨before', found', laid⟩ := charts.levels charted found
      rw [if_pos rfl, found']
      exact ⟨_, rfl, (laid.outlasts lasts).bindings.set name (values.outlasts lasts),
        (laid.outlasts lasts).outer⟩
    · -- No place is charted twice.
      have elsewhere : place' ≠ place := by
        rintro rfl
        have bound := (List.getElem?_eq_some_iff.mp charted').1
        exact here ((List.getElem?_inj bound charts.distinct).mp (charted'.trans charted.symm))
      rw [if_neg here] at found
      obtain ⟨before', found', laid⟩ := charts.levels charted' found
      rw [if_neg elsewhere]
      exact ⟨before', found', laid.outlasts lasts⟩

/-- A new level inside a level, and inside its place. -/
theorem Charts.nest (charts : environment.Charts chart arena) {number place : Nat}
    (charted : chart[number]? = some place) {bindings bindings' : Dict Value}
    (related : bindings.Alike (Value.LaidOut chart arena) bindings') :
    (environment.nest number bindings).Charts (chart ++ [arena.size])
      (arena.nest place bindings') where
  size := by
    rw [List.length_append, charts.size, List.length_singleton, size_nest]
  distinct := by
    refine List.nodup_append.mpr ⟨charts.distinct, by simp, ?_⟩
    intro old mem new isNew
    rw [List.mem_singleton.mp isNew]
    exact Nat.ne_of_lt (charts.lt_size mem)
  levels {other place' level} charted' found := by
    have lasts := outlasts_nest chart arena place bindings'
    rw [level?_nest] at found ⊢
    by_cases newest : other = environment.size
    · subst newest
      rw [← charts.size, List.getElem?_concat_length] at charted'
      obtain rfl := Option.some.inj charted'
      rw [if_pos rfl] at found
      obtain rfl := Option.some.inj found
      rw [if_pos rfl]
      have inside : number < environment.size :=
        charts.size ▸ (List.getElem?_eq_some_iff.mp charted).1
      refine ⟨_, rfl, ?_, .some ⟨inside, charts.lt_size (List.mem_of_getElem? charted), ?_⟩⟩
      · exact related.imp fun _ _ entries => ⟨entries.1, entries.2.outlasts lasts⟩
      · exact lasts.charted charted
    · rw [if_neg newest] at found
      have bound := lt_size_of_level? found
      rw [List.getElem?_append_left (charts.size ▸ bound)] at charted'
      obtain ⟨before', found', laid⟩ := charts.levels charted' found
      rw [if_neg (Nat.ne_of_lt (lt_size_of_level? found'))]
      exact ⟨before', found', laid.outlasts lasts⟩

end Environment

namespace Session

variable {ε ι σ : Type} {host : Host σ}

/-- The levels of a session and its stack lie in another session at the places of a
chart. -/
structure Charted (chart : List Nat) (session arena : Session) : Prop where
  levels : session.environment.Charts chart arena.environment
  top : chart[session.top]? = some arena.top
  below : List.Forall₂ (fun level place => chart[level]? = some place) session.below arena.below

/-- The chart and the arena while two sessions are compared. -/
structure Stage where
  chart : List Nat
  arena : Environment

/-- A stage is later if it outlasts the other one. -/
instance : Preorder Stage where
  le stage later := Environment.Outlasts stage.chart stage.arena later.chart later.arena
  le_refl stage := Environment.outlasts_of_le stage.chart le_rfl
  le_trans _ _ _ first second :=
    ⟨fun found => second.charted (first.charted found), fun off found =>
      second.others (first.others off found).1 (first.others off found).2⟩

/-- The comparison of a session with a session in an arena. -/
def charted (σ : Type) : Comparison Stage σ σ where
  sessions stage session arena :=
    Charted stage.chart session arena ∧ arena.environment = stage.arena
  states := Eq
  values stage := Value.LaidOut stage.chart stage.arena

variable {chart : List Nat} {session arena : Session}

theorem Charted.extend (charts : Charted chart session arena) {later : Environment}
    (le : arena.environment ≤ later) :
    Charted chart session { arena with environment := later } :=
  ⟨charts.levels.of_le le, charts.top, charts.below⟩

/-- A run that follows another one in the arena of a charted session. -/
theorem relates_follows (charts : Charted chart session arena) {run : Run σ Value}
    {run' : Run (Arena σ) Value}
    (related : (Arena.follows session.environment chart).relates arena.environment
      (Value.LaidOut chart) run run') :
    (charted σ).Relates ⟨chart, arena.environment⟩
      (fun later => Run.Agree (fun _ => True) (Value.LaidOut later.chart later.arena))
      (do return (← run.run, session)) (arena.inArena run') := by
  rintro state _ rfl
  obtain ⟨later, le, same, agree⟩ := related charts.levels state
  refine ⟨⟨chart, later⟩, Environment.outlasts_of_le chart le, ?_, ?_, agree⟩
  · exact (congrArg Arena.state same).symm
  · have levels : (run'.start ⟨arena.environment, state⟩).2.environment = later :=
      congrArg Arena.environment same
    exact ⟨levels ▸ charts.extend (levels ▸ le), levels⟩

theorem laidOut_scope (charts : Charted chart session arena) :
    session.scope.LaidOut chart arena.environment arena.top :=
  ⟨arena.top, [], charts.top, .base, .nil⟩

/-- The evaluator that holds arguments in scopes and the one that works in an arena. -/
theorem evaluates_charted (uniform : host.IsUniform) :
    (charted σ).Evaluates (.persistent host) (.arena host) where
  seenAsOne stage := Value.LaidOut.seenAsOne stage.chart stage.arena
  lasting le _ _ laid := laid.outlasts le
  get? := by
    rintro ⟨chart, _⟩ session arena ⟨charts, rfl⟩ name
    exact charts.levels.get? name charts.top
  interpret := by
    rintro ⟨chart, _⟩ session arena ⟨charts, rfl⟩ source
    exact relates_follows charts (Arena.follows_interpret uniform (laidOut_scope charts) source)
  call := by
    rintro ⟨chart, _⟩ session arena ⟨charts, rfl⟩ function function' argument argument' functions
      arguments
    exact relates_follows charts (Arena.callsAlike_follows uniform session.environment chart
      arena.environment Program.maxDepth _ le_rfl _ _ _ _ functions arguments)

theorem changes_charted : (charted σ).Changes where
  define := by
    rintro ⟨chart, _⟩ session arena ⟨charts, rfl⟩ name value value' values
    have onChart := List.mem_of_getElem? charts.top
    refine ⟨⟨chart, _⟩, Environment.outlasts_define onChart name value', ?_, rfl⟩
    exact ⟨charts.levels.define charts.top name values, charts.top, charts.below⟩
  enter := by
    rintro ⟨chart, _⟩ session arena ⟨charts, rfl⟩ bindings bindings' related
    have lasts := Environment.outlasts_nest chart arena.environment arena.top bindings'
    refine ⟨⟨_, _⟩, lasts, ?_, rfl⟩
    refine ⟨charts.levels.nest charts.top related, ?_, .cons (lasts.charted charts.top) ?_⟩
    · rw [enter, enter, ← charts.levels.size, List.getElem?_concat_length]
    · exact charts.below.imp fun _ _ found => lasts.charted found
  leave := by
    rintro ⟨chart, _⟩ ⟨levels, top, below⟩ ⟨levels', top', below'⟩ ⟨⟨charts, first, others⟩, rfl⟩
    cases others with
    | nil => exact ⟨⟨charts, first, .nil⟩, rfl⟩
    | cons next rest => exact ⟨⟨charts, next, rest⟩, rfl⟩
  depth := by
    rintro ⟨chart, _⟩ session arena ⟨charts, rfl⟩
    rw [depth, depth, charts.below.length_eq]

theorem charted_initial : Charted [0] initial initial := by
  refine ⟨⟨rfl, by simp, ?_⟩, rfl, .nil⟩
  intro number place level found level?
  obtain ⟨rfl, rfl⟩ : number = 0 ∧ place = 0 := by
    cases number with
    | zero => exact ⟨rfl, (Option.some.inj found).symm⟩
    | succ number => simp at found
  obtain rfl : (⟨Dict.empty, none⟩ : Level) = level := Option.some.inj level?
  exact ⟨_, rfl, .nil, .none⟩

/-! ### Chronicles in an arena -/

/-- One request of charted sessions: the answers show the same, the host is left in the
same state, and the sessions after it are charted. -/
theorem Charted.perform (charts : Charted chart session arena) (uniform : host.IsUniform)
    (request : Request) (state : σ) :
    let ending := (session.perform (.persistent host) request).run state
    let ending' := (arena.perform (.arena host) request).run state
    (∃ chart', Charted chart' ending.1.2 ending'.1.2) ∧ ending.2 = ending'.2 ∧
      ending.1.1.shown = ending'.1.1.shown := by
  have sessions : (charted σ).sessions ⟨chart, arena.environment⟩ session arena := ⟨charts, rfl⟩
  obtain ⟨later, -, states, ⟨charts, -⟩, answers⟩ :=
    (evaluates_charted uniform).perform changes_charted sessions request state state rfl
  refine ⟨⟨later.chart, charts⟩, states, Answer.Alike.map_eq ?_ answers⟩
  intro value value' laid
  have dumps := (Value.LaidOut.seenAsOne later.chart later.arena).dump_eq laid
  rw [dumps, Value.format_eq_of_dump_eq dumps]

/-- From charted sessions on, the same requests show the same. -/
theorem Charted.shown_chronicle {host : Host (List ε)} (uniform : host.IsUniform)
    (charts : Charted chart session arena) (steps : List (ι × Request)) (log : List ε) :
    (session.chronicle (.persistent host) log steps).map Entry.shown =
      (arena.chronicle (.arena host) log steps).map Entry.shown := by
  induction steps generalizing session arena chart log with
  | nil => rfl
  | cons step rest ih =>
      obtain ⟨label, request⟩ := step
      obtain ⟨⟨chart', charts'⟩, logs, answers⟩ := charts.perform uniform request log
      rw [chronicle, chronicle, List.map_cons, List.map_cons, ih charts', logs]
      simp only [Entry.shown, answers]

/-- A request in an arena leaves every level as it is but for the one on top, and that
one as well if it only looks. -/
theorem level?_perform_arena (host : Host σ) (session : Session) (request : Request) (state : σ)
    {number : Nat} {level : Level} (found : session.environment.level? number = some level)
    (kept : request.Observes ∨ number ≠ session.top) :
    ((session.perform (.arena host) request).run state).1.2.environment.level? number =
      some level := by
  have observed (observes : request.Observes) :
      ((session.perform (.arena host) request).run state).1.2.environment.level? number =
        some level :=
    (extends_perform_arena_of_observes host session observes state).levels number level found
  have defined {after : Session} (extended : session.Extends after) (other : number ≠ session.top)
      (name : Bytes) (value : Value) :
      (after.define name value).environment.level? number = some level := by
    rw [define, Environment.level?_define, extended.top, if_neg other]
    exact extended.levels number level found
  have entered {after : Session} (extended : session.Extends after) (bindings : Dict Value) :
      (after.enter bindings).environment.level? number = some level :=
    Environment.le_nest _ _ _ number level (extended.levels number level found)
  rcases kept with observes | other
  · exact observed observes
  cases request with
  | eval | get | call => exact observed trivial
  | define name supplied =>
      exact defined (extends_supply_arena host session supplied state) other _ _
  | defineSource name source =>
      have extended := extends_interpret_arena host session source state
      rw [perform, run_bind]
      revert extended
      rcases (((Evaluator.arena host).interpret session source).run state).1 with ⟨outcome, after⟩
      intro extended
      cases outcome with
      | ok value => exact defined extended other name value
      | error failure => exact extended.levels number level found
  | extend name supplied => exact entered (extends_supply_arena host session supplied state) _
  | push => exact entered (.refl session) _
  | pop =>
      obtain ⟨environment, top, below⟩ := session
      cases below <;> exact found

/-- Leaving out requests that only look leaves out what they show and nothing else. -/
theorem shown_chronicle_filter {host : Host (List ε)} (onlyLogs : host.OnlyLogs)
    (uniform : host.IsUniform) (keep : ι → Bool) {steps : List (ι × Request)}
    (observing : ∀ step ∈ steps, keep step.1 = false → step.2.Observes) (log : List ε) :
    ((initial.chronicle (.arena host) log steps).filter fun entry => keep entry.label).map
        Entry.shown =
      (initial.chronicle (.persistent host) [] (steps.filter fun step => keep step.1)).map
        Entry.shown := by
  have shownFilter (entries : List (Entry ι ε)) :
      (entries.filter fun entry => keep entry.label).map Entry.shown =
        (entries.map Entry.shown).filter fun shown => keep shown.1 := by
    rw [List.filter_map]
    rfl
  calc ((initial.chronicle (.arena host) log steps).filter fun entry => keep entry.label).map
        Entry.shown
    _ = ((initial.chronicle (.persistent host) log steps).filter fun entry =>
          keep entry.label).map Entry.shown := by
      rw [shownFilter, shownFilter, charted_initial.shown_chronicle uniform]
    _ = (initial.chronicle (.persistent host) [] (steps.filter fun step => keep step.1)).map
          Entry.shown := by
      rw [chronicle_persistent_filter onlyLogs keep observing initial log []]

/-- Requests that only look can be put into a session and taken out of it at any place,
also where every call adds a level to those that functions capture. Let two sequences of
labelled requests be the same but for such requests: then every request that both of
them keep shows the same answer in both and adds the same to the log, and these are the
answers that are shown where arguments are held in scopes. A request changes no level
but the one on top of the stack, and neither that level nor the stack if it only looks,
whatever comes of it. The entries are those of the requests as they are performed one
after the other. -/
theorem arena_chronicle_of_observing {host : Host (List ε)} (onlyLogs : host.OnlyLogs)
    (uniform : host.IsUniform) (keep : ι → Bool) {steps steps' : List (ι × Request)}
    (same : steps.filter (fun step => keep step.1) = steps'.filter fun step => keep step.1)
    (observing : ∀ step ∈ steps ++ steps', keep step.1 = false → step.2.Observes)
    (log log' : List ε) :
    let evaluator := Evaluator.arena host
    let ending := (initial.performAll evaluator (steps.map Prod.snd)).run log
    let ending' := (initial.performAll evaluator (steps'.map Prod.snd)).run log'
    let entries := initial.chronicle evaluator log steps
    let entries' := initial.chronicle evaluator log' steps'
    (entries.filter fun entry => keep entry.label).map Entry.shown =
        (entries'.filter fun entry => keep entry.label).map Entry.shown ∧
      entries.map Entry.shown =
        (initial.chronicle (.persistent host) log steps).map Entry.shown ∧
      ending.1.1 = entries.map Entry.answer ∧ ending.2 = log ++ entries.flatMap Entry.added ∧
      ending'.1.1 = entries'.map Entry.answer ∧
      ending'.2 = log' ++ entries'.flatMap Entry.added ∧
      ∀ (session : Session) (request : Request) (log : List ε),
        let after := ((session.perform evaluator request).run log).1.2
        (∀ number level, session.environment.level? number = some level →
          request.Observes ∨ number ≠ session.top →
          after.environment.level? number = some level) ∧
        (request.Observes → after.top = session.top ∧ after.below = session.below) := by
  obtain ⟨first, second⟩ := List.forall_mem_append.mp observing
  have logs : (Evaluator.arena host).OnlyLogs := fun before =>
    evaluates_arena _ (fun _ isKept => isKept) (onlyLogs.alike before)
  refine ⟨?_, (charted_initial.shown_chronicle uniform steps log).symm,
    answers_performAll initial _ log steps, log_performAll logs initial log steps,
    answers_performAll initial _ log' steps', log_performAll logs initial log' steps', ?_⟩
  · rw [shown_chronicle_filter onlyLogs uniform keep first, same,
      shown_chronicle_filter onlyLogs uniform keep second]
  · intro session request log
    refine ⟨fun number level => level?_perform_arena host session request log, ?_⟩
    intro observes
    have extended := extends_perform_arena_of_observes host session observes log
    exact ⟨extended.top, extended.below⟩

/-- A host of one function, which logs the printed form of its argument and gives
the argument back. -/
def logger : Host (List Bytes) where
  call _ argument := ExceptT.mk fun log => (.ok argument, log ++ [argument.format])

/-- A session with a function that captures the level of a call, which is called from a
level that is dropped again. -/
def scopedCalls : List (Nat × Request) :=
  [(0, .define (utf8 "log") (.function (utf8 "log"))),
    (1, .defineSource (utf8 "g") (utf8 "\\k \\x log (x + k)")),
    (2, .define (utf8 "h") (.list [.program (utf8 "g 5")])),
    (3, .extend (utf8 "k") (.number ⟨2, 1⟩)),
    (4, .eval (utf8 "[k, (h.0) k]")),
    (5, .pop),
    (6, .get (utf8 "h"))]

/-- The same session with requests in between that only look, two of which fail. -/
def scopedCallsObserved : List (Nat × Request) :=
  scopedCalls.take 2 ++ (7, .eval (utf8 "g 1 2")) :: (scopedCalls.drop 2).take 2 ++
    (8, .call (utf8 "g") (.program (utf8 "h.0"))) :: (9, .eval (utf8 "g 1 _")) ::
      scopedCalls.drop 4 ++ [(10, .eval (utf8 "("))]

theorem arena_chronicle_of_observing_scopedCalls :
    let plain := initial.chronicle (.arena logger) [] scopedCalls
    let observed := initial.chronicle (.arena logger) [utf8 "before"] scopedCallsObserved
    (observed.filter fun entry => entry.label < 7).map Entry.shown = plain.map Entry.shown ∧
      plain[4]?.map Entry.shown = some (4, .result (.list [.number ⟨2, 1⟩, .number ⟨7, 1⟩],
        utf8 "[2, 7]"), [utf8 "7"]) ∧
      plain.map (fun entry => entry.after.environment.size) = [1, 1, 2, 3, 4, 4, 4] ∧
      observed.map (fun entry => entry.after.environment.size) =
        [1, 1, 3, 4, 5, 6, 8, 9, 9, 9, 9] ∧
      observed[6]?.map Entry.shown =
        some (9, .failed (.eval ⟨utf8 "+", .unsupported .null .number⟩), []) := by
  have onlyLogs : logger.OnlyLogs := fun _ _ _ => rfl
  have uniform : logger.IsUniform := by
    intro alike seenAsOne name argument argument' log arguments
    have formats := Value.format_eq_of_dump_eq (seenAsOne.dump_eq arguments)
    exact ⟨.ok arguments, congrArg (fun format => log ++ [format]) formats⟩
  have same : (scopedCallsObserved.filter fun step => step.1 < 7) =
      scopedCalls.filter fun step => step.1 < 7 := rfl
  have observing : ∀ step ∈ scopedCallsObserved ++ scopedCalls,
      decide (step.1 < 7) = false → step.2.Observes := by
    simp [scopedCallsObserved, scopedCalls, Request.Observes]
  have kept := (arena_chronicle_of_observing onlyLogs uniform
    (fun label => decide (label < 7)) same observing [utf8 "before"] []).1
  intro plain observed
  have all : (plain.filter fun entry => decide (entry.label < 7)) = plain := rfl
  refine ⟨kept.trans (congrArg (List.map Entry.shown) all), rfl, ?_, ?_, rfl⟩
  · decide +kernel
  · decide +kernel

end Session

end Juxta
