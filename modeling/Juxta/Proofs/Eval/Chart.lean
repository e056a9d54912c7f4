/-
# Scopes laid out in an arena

The levels of an environment can lie anywhere in an arena, between levels that calls
have added there. A chart lists their places. What a scope keeps in its locals is laid
out as a path: one level off the chart for each local, the last one inside the place of
the level of the scope. Values are laid out when their functions are. A path lasts as
long as no level off the chart is changed, whatever happens to those on the chart. So
the evaluation that keeps arguments in scopes and the evaluation in an arena can be run
side by side, and they do the same.
-/

import Juxta.Proofs.Eval.Arena
import Juxta.Proofs.Eval.Host

namespace Juxta

open Run (Agree Staged)

variable {chart chart' : List Nat} {arena later environment : Environment}

/-- From a place on, each name is bound at a level of its own, down to a base. These
levels are off the chart. -/
inductive Environment.Path (arena : Environment) (chart : List Nat) (base : Nat) :
    (place : Nat) → (held : List (Bytes × Value)) → Prop
  | base : Path arena chart base base []
  | frame {place outer : Nat} {name : Bytes} {value : Value} {held : List (Bytes × Value)}
      (added : place ∉ chart) (inside : outer < place)
      (level : arena.level? place = some ⟨Dict.empty.set name value, some outer⟩)
      (rest : Path arena chart base outer held) :
      Path arena chart base place ((name, value) :: held)

namespace Value

/-- A value and the same value in an arena, where functions capture places. -/
inductive LaidOut (chart : List Nat) (arena : Environment) : Value → Value → Prop
  | number (value : Fraction) : LaidOut chart arena (number value) (number value)
  | string (bytes : Bytes) : LaidOut chart arena (string bytes) (string bytes)
  | null : LaidOut chart arena null null
  | foreign : LaidOut chart arena foreign foreign
  | nothing : LaidOut chart arena nothing nothing
  | host (name : Bytes) : LaidOut chart arena (closure (.host name)) (closure (.host name))
  | list {items items' : List Value} (lengths : items.length = items'.length)
      (each : ∀ pair ∈ items.zip items', LaidOut chart arena pair.1 pair.2) :
      LaidOut chart arena (list items) (list items')
  | dictionary {dict dict' : Dict Value} (lengths : dict.entries.length = dict'.entries.length)
      (keys : ∀ pair ∈ dict.entries.zip dict'.entries, pair.1.1 = pair.2.1)
      (each : ∀ pair ∈ dict.entries.zip dict'.entries, LaidOut chart arena pair.1.2 pair.2.2) :
      LaidOut chart arena (dictionary dict) (dictionary dict')
  | lambda {scope : Scope Value} {base place : Nat} {held : List (Bytes × Value)}
      (parameter : Option Bytes) (body : Tree) (charted : chart[scope.level]? = some base)
      (path : arena.Path chart base place held) (lengths : scope.locals.length = held.length)
      (names : ∀ pair ∈ scope.locals.zip held, pair.1.1 = pair.2.1)
      (each : ∀ pair ∈ scope.locals.zip held, LaidOut chart arena pair.1.2 pair.2.2) :
      LaidOut chart arena (closure (.lambda scope parameter body))
        (closure (.lambda (Scope.atLevel place) parameter body))

end Value

/-- The locals of a scope are laid out from a place on, inside the level of the scope. -/
def Scope.LaidOut (chart : List Nat) (arena : Environment) (scope : Scope Value) (place : Nat) :
    Prop :=
  ∃ base held, chart[scope.level]? = some base ∧ arena.Path chart base place held ∧
    List.Forall₂ (Dict.EntriesAlike (Value.LaidOut chart arena)) scope.locals held

theorem Scope.LaidOut.lambda {scope : Scope Value} {place : Nat}
    (laid : scope.LaidOut chart arena place) (parameter : Option Bytes) (body : Tree) :
    Value.LaidOut chart arena (.closure (.lambda scope parameter body))
      (.closure (.lambda (Scope.atLevel place) parameter body)) := by
  obtain ⟨base, held, charted, path, locals⟩ := laid
  obtain ⟨lengths, zipped⟩ := List.forall₂_iff_zip.mp locals
  exact .lambda parameter body charted path lengths (fun _ mem => (zipped mem).1)
    fun _ mem => (zipped mem).2

namespace Value.LaidOut

/-- A function that is laid out is one of the host, or its scope is laid out. -/
theorem closure_cases {function function' : Closure Value}
    (laid : LaidOut chart arena (closure function) (closure function')) :
    (∃ name, function = .host name ∧ function' = .host name) ∨
      ∃ scope place parameter body, function = .lambda scope parameter body ∧
        function' = .lambda (Scope.atLevel place) parameter body ∧
        scope.LaidOut chart arena place := by
  cases laid with
  | host name => exact .inl ⟨name, rfl, rfl⟩
  | lambda parameter body charted path lengths names each =>
      refine .inr ⟨_, _, parameter, body, rfl, rfl, _, _, charted, path, ?_⟩
      exact List.forall₂_iff_zip.mpr ⟨lengths, fun mem => ⟨names _ mem, each _ mem⟩⟩

theorem likeness (chart : List Nat) (arena : Environment) :
    Likeness (fun _ => True) (LaidOut chart arena) := by
  apply Likeness.ofItems .number .string .null .list .dictionary
  intro first second laid
  cases laid with
  | number value => exact .number trivial
  | string bytes => exact .string bytes
  | null => exact .null
  | foreign => exact .foreign .foreign
  | nothing => exact .nothing .nothing
  | host name => exact .closure (.host name)
  | list lengths each =>
      exact .list (List.forall₂_iff_zip.mpr ⟨lengths, fun mem => each _ mem⟩)
  | dictionary lengths keys each =>
      refine .dictionary (List.forall₂_iff_zip.mpr ⟨lengths, fun mem => ?_⟩)
      exact ⟨keys _ mem, each _ mem⟩
  | lambda parameter body charted path lengths names each =>
      exact .closure (.lambda parameter body charted path lengths names each)

/-- Hosts cannot see where functions are laid out. -/
theorem seenAsOne (chart : List Nat) (arena : Environment) :
    SeenAsOne (LaidOut chart arena) where
  likeness := likeness chart arena
  dump_eq laid := by
    apply (likeness chart arena).dump_eq _ laid
    intro function function' functions
    cases functions with
    | host name => rfl
    | lambda parameter body charted path lengths names each => rfl
  host := .host
  foreign := .foreign
  nothing := .nothing

end Value.LaidOut

/-! ### What lasts -/

/-- Places keep their numbers on a chart, and levels off the chart stay as they are. -/
structure Environment.Outlasts (chart : List Nat) (arena : Environment) (chart' : List Nat)
    (later : Environment) : Prop where
  charted : ∀ {number place : Nat}, chart[number]? = some place → chart'[number]? = some place
  others : ∀ {place : Nat} {level : Level}, place ∉ chart → arena.level? place = some level →
    place ∉ chart' ∧ later.level? place = some level

theorem Environment.outlasts_of_le (chart : List Nat) (le : arena ≤ later) :
    Outlasts chart arena chart later where
  charted found := found
  others off found := ⟨off, le _ _ found⟩

theorem Environment.Path.outlasts (lasts : Outlasts chart arena chart' later) {base place : Nat}
    {held : List (Bytes × Value)} (path : arena.Path chart base place held) :
    later.Path chart' base place held := by
  induction path with
  | base => exact .base
  | frame added inside level rest ih =>
      obtain ⟨off, found⟩ := lasts.others added level
      exact .frame off inside found ih

theorem Value.LaidOut.outlasts (lasts : Environment.Outlasts chart arena chart' later)
    {value value' : Value} (laid : value.LaidOut chart arena value') :
    value.LaidOut chart' later value' := by
  induction laid with
  | number value => exact .number value
  | string bytes => exact .string bytes
  | null => exact .null
  | foreign => exact .foreign
  | nothing => exact .nothing
  | host name => exact .host name
  | list lengths _ ih => exact .list lengths ih
  | dictionary lengths keys _ ih => exact .dictionary lengths keys ih
  | lambda parameter body charted path lengths names _ ih =>
      exact .lambda parameter body (lasts.charted charted) (path.outlasts lasts) lengths names ih

theorem Scope.LaidOut.outlasts (lasts : Environment.Outlasts chart arena chart' later)
    {scope : Scope Value} {place : Nat} (laid : scope.LaidOut chart arena place) :
    scope.LaidOut chart' later place := by
  obtain ⟨base, held, charted, path, locals⟩ := laid
  refine ⟨base, held, lasts.charted charted, path.outlasts lasts, locals.imp ?_⟩
  exact fun _ _ entries => ⟨entries.1, entries.2.outlasts lasts⟩

theorem Value.lastingLikeness_laidOut (chart : List Nat) :
    LastingLikeness (fun _ => True) (LaidOut chart) where
  likeness := LaidOut.likeness chart
  lasting le _ _ laid := laid.outlasts (Environment.outlasts_of_le chart le)

/-! ### Charts -/

/-- A level and a level of an arena with the same names, bound to values that are laid
out, each inside a level with a smaller number or inside none. -/
structure Level.LaidOut (chart : List Nat) (arena : Environment) (number place : Nat)
    (level level' : Level) : Prop where
  bindings : level.bindings.Alike (Value.LaidOut chart arena) level'.bindings
  outer : Option.Rel (fun outer outer' => outer < number ∧ outer' < place ∧
    chart[outer]? = some outer') level.outer level'.outer

theorem Level.LaidOut.outlasts (lasts : Environment.Outlasts chart arena chart' later)
    {number place : Nat} {level level' : Level}
    (laid : level.LaidOut chart arena number place level') :
    level.LaidOut chart' later number place level' := by
  obtain ⟨bindings, outer⟩ := laid
  refine ⟨bindings.imp fun _ _ entries => ⟨entries.1, entries.2.outlasts lasts⟩, ?_⟩
  generalize level.outer = around, level'.outer = around' at outer
  cases outer with
  | none => exact .none
  | some related => exact .some ⟨related.1, related.2.1, lasts.charted related.2.2⟩

/-- The levels of an environment lie at the places of a chart. -/
structure Environment.Charts (environment : Environment) (chart : List Nat)
    (arena : Environment) : Prop where
  size : chart.length = environment.size
  distinct : chart.Nodup
  levels : ∀ {number place : Nat} {level : Level}, chart[number]? = some place →
    environment.level? number = some level →
    ∃ level', arena.level? place = some level' ∧ level.LaidOut chart arena number place level'

namespace Environment

theorem Charts.exists_levels (charts : environment.Charts chart arena) {number place : Nat}
    (charted : chart[number]? = some place) :
    ∃ level level', environment.level? number = some level ∧ arena.level? place = some level' ∧
      level.LaidOut chart arena number place level' := by
  obtain ⟨bound, -⟩ := List.getElem?_eq_some_iff.mp charted
  obtain ⟨level, found⟩ := exists_level? (charts.size ▸ bound)
  obtain ⟨level', found', laid⟩ := charts.levels charted found
  exact ⟨level, level', found, found', laid⟩

theorem Charts.lt_size (charts : environment.Charts chart arena) {place : Nat}
    (mem : place ∈ chart) : place < arena.size := by
  obtain ⟨number, charted⟩ := List.mem_iff_getElem?.mp mem
  obtain ⟨-, level', -, found, -⟩ := charts.exists_levels charted
  exact lt_size_of_level? found

/-- A chart stays one while levels are added to the arena. -/
theorem Charts.of_le (charts : environment.Charts chart arena) (le : arena ≤ later) :
    environment.Charts chart later where
  size := charts.size
  distinct := charts.distinct
  levels charted found := by
    obtain ⟨level', found', laid⟩ := charts.levels charted found
    exact ⟨level', le _ _ found', laid.outlasts (outlasts_of_le chart le)⟩

/-- A name at a level and at its place. -/
theorem Charts.get? (charts : environment.Charts chart arena) (name : Bytes) {number place : Nat}
    (charted : chart[number]? = some place) :
    Option.Rel (Value.LaidOut chart arena) (environment.get? number name)
      (arena.get? place name) := by
  -- Levels around a level have smaller numbers.
  induction number using Nat.strongRecOn generalizing place with
  | ind number ih =>
      obtain ⟨⟨bindings, outer⟩, ⟨bindings', outer'⟩, found, found', laid⟩ :=
        charts.exists_levels charted
      have bound := laid.bindings.get? name
      have around := laid.outer
      have inside : ∀ older ∈ outer, older < number := by
        rintro older rfl
        cases around with
        | some related => exact related.1
      have inside' : ∀ older ∈ outer', older < place := by
        rintro older rfl
        cases around with
        | some related => exact related.2.1
      rw [get?_of_level? found inside, get?_of_level? found' inside']
      generalize bindings.get? name = here, bindings'.get? name = here' at bound
      cases bound with
      | some values => exact .some values
      | none =>
          cases around with
          | none => exact .none
          | some related => exact ih _ related.1 related.2.2

/-- A name from the start of a path on. -/
theorem Path.get? {base place : Nat} {held : List (Bytes × Value)}
    (path : arena.Path chart base place held) (name : Bytes) :
    arena.get? place name =
      match held.lookup name with
      | some value => some value
      | none => arena.get? base name := by
  induction path with
  | base => rfl
  | @frame place outer bound value held added inside level rest ih =>
      have around : ∀ older ∈ some outer, older < place := by
        rintro older ⟨⟩
        exact inside
      have single : (Dict.empty.set bound value).get? name = [(bound, value)].lookup name := rfl
      rw [get?_of_level? level around, single, List.lookup_cons, List.lookup_cons]
      cases name == bound with
      | true => rfl
      | false => exact ih

/-- A word in a scope and at the place where the scope is laid out. -/
theorem Charts.resolve? (charts : environment.Charts chart arena) {scope : Scope Value}
    {place : Nat} (laid : scope.LaidOut chart arena place) (name : Bytes) :
    Option.Rel (Value.LaidOut chart arena) (environment.resolve? scope name)
      (arena.get? place name) := by
  obtain ⟨base, held, charted, path, locals⟩ := laid
  have found : Option.Rel (Value.LaidOut chart arena) (scope.locals.lookup name)
      (held.lookup name) :=
    Dict.Alike.get? (show Dict.Alike _ ⟨scope.locals⟩ ⟨held⟩ from locals) name
  rw [Environment.resolve?, path.get?]
  generalize scope.locals.lookup name = here, held.lookup name = here' at found
  cases found with
  | some values => exact .some values
  | none => exact charts.get? name charted

/-- A scope is laid out at a level that is there. -/
theorem Charts.lt_size_of_laidOut (charts : environment.Charts chart arena) {scope : Scope Value}
    {place : Nat} (laid : scope.LaidOut chart arena place) : place < arena.size := by
  obtain ⟨base, held, charted, path, -⟩ := laid
  cases path with
  | base => exact charts.lt_size (List.mem_of_getElem? charted)
  | frame added inside level rest => exact lt_size_of_level? level

/-- The scope inside a call is laid out from the level on that the call adds. -/
theorem Charts.laidOut_bind (charts : environment.Charts chart arena) {scope : Scope Value}
    {place : Nat} (laid : scope.LaidOut chart arena place) (name : Bytes)
    {argument argument' : Value} (arguments : argument.LaidOut chart arena argument') :
    (scope.bind (some name) argument).LaidOut chart
      (arena.nest place (Dict.empty.set name argument')) arena.size := by
  have lasts := outlasts_of_le chart (arena.le_nest place (Dict.empty.set name argument'))
  have inside := charts.lt_size_of_laidOut laid
  obtain ⟨base, held, charted, path, locals⟩ := laid.outlasts lasts
  have off : arena.size ∉ chart := fun mem => Nat.lt_irrefl _ (charts.lt_size mem)
  refine ⟨base, (name, argument') :: held, charted, .frame off inside ?_ path, ?_⟩
  · rw [level?_nest, if_pos rfl]
  · exact .cons ⟨rfl, arguments.outlasts lasts⟩ locals

end Environment

/-! ### Runs side by side -/

namespace Arena

variable {σ : Type} {host : Host σ}

/-- A run and a run in an arena that is on a chart: the outcomes agree, the host is left
in the same state, and levels are only added to the arena. -/
def follows (environment : Environment) (chart : List Nat) : Staged Environment σ (Arena σ) where
  relates stage results first second := environment.Charts chart stage → ∀ state,
    ∃ later, stage ≤ later ∧ (second.start ⟨stage, state⟩).2 = ⟨later, (first.start state).2⟩ ∧
      Agree (fun _ => True) (results later) (first.start state).1 (second.start ⟨stage, state⟩).1
  permits _ := True
  ordinary _ := trivial
  ofPure related _ _ := ⟨_, le_rfl, rfl, .ok related⟩
  ofThrow _ _ _ := ⟨_, le_rfl, rfl, .error trivial⟩
  bind {_ _ _ _ stage _ _ first second _ _} related later := by
    intro charts state
    obtain ⟨middle, le, same, agree⟩ := related charts state
    rw [Run.start_bind, Run.start_bind]
    revert same agree
    rcases first.start state with ⟨outcome, after⟩
    rcases second.start ⟨stage, state⟩ with ⟨outcome', after'⟩
    rintro rfl agree
    cases agree with
    | ok results =>
        obtain ⟨last, le', same, agree⟩ := later middle le _ _ results (charts.of_le le) after
        exact ⟨last, le.trans le', same, agree⟩
    | error => exact ⟨middle, le, rfl, .error trivial⟩

/-- A word in a scope and at the place where the scope is laid out, from then on. -/
theorem relatedFrom_look {scope : Scope Value} {place : Nat}
    (laid : scope.LaidOut chart arena place) (name : Bytes) :
    Tree.RelatedFrom (follows environment chart) arena (Value.LaidOut chart)
      (environment.look scope name : Run σ Value) (look (Scope.atLevel place) name) := by
  intro stage reached charts state
  refine ⟨stage, le_rfl, rfl, .ok ?_⟩
  have words := charts.resolve? (laid.outlasts (Environment.outlasts_of_le chart reached)) name
  exact (Value.LaidOut.likeness chart stage).getD_null words

/-- A tree in a scope and at the place where the scope is laid out, if calls do the same. -/
theorem relatedFrom_evalWith {call : Closure Value → Value → Run σ Value}
    {call' : Closure Value → Value → Run (Arena σ) Value} {start : Environment}
    (calls : CallsAlikeFrom (follows environment chart) (Value.LaidOut chart) start call call')
    {scope : Scope Value} {place : Nat} (reached : start ≤ arena)
    (laid : scope.LaidOut chart arena place) (tree : Tree) :
    (follows environment chart).relates arena (Value.LaidOut chart)
      (tree.evalWith environment.look call scope)
      (tree.evalWith look call' (Scope.atLevel place)) := by
  have scopes : Tree.ScopesMatchFrom (follows environment chart) Eq (Value.LaidOut chart) arena
      (environment.look : Scope Value → Bytes → Run σ Value) look scope (Scope.atLevel place) := by
    constructor
    · exact fun name _ => relatedFrom_look laid name
    · rintro stage le parameter body _ rfl
      exact (laid.outlasts (Environment.outlasts_of_le chart le)).lambda parameter body
  exact Tree.relatedFrom_evalWith (Value.lastingLikeness_laidOut chart)
    (fun stage le => calls stage (reached.trans le)) (Tree.matching_eq fun _ => trivial) scopes
    tree tree rfl arena le_rfl

/-- A call of the host, which does not see where functions are laid out. -/
theorem relates_ofHost (uniform : host.IsUniform) (name : Bytes) {argument argument' : Value}
    (arguments : argument.LaidOut chart arena argument') :
    (follows environment chart).relates arena (Value.LaidOut chart)
      (Run.ofHost (host.call name argument))
      (outside (Run.ofHost (host.call name argument'))) := by
  intro charts state
  obtain ⟨agree, states⟩ := uniform _ (Value.LaidOut.seenAsOne chart arena) name argument
    argument' state arguments
  refine ⟨arena, le_rfl, ?_, ?_⟩
  · rw [start_outside, Run.start_ofHost, Run.start_ofHost, states]
  · rw [start_outside, Run.start_ofHost, Run.start_ofHost]
    generalize ((host.call name argument).run.run state).1 = answer,
      ((host.call name argument').run.run state).1 = answer' at agree
    cases agree with
    | ok values => exact .ok values
    | error => exact .error trivial

/-- Calls of the host and of functions that are laid out, at every depth. -/
theorem callsAlike_follows (uniform : host.IsUniform) (environment : Environment)
    (chart : List Nat) (start : Environment) (depth : Nat) :
    CallsAlikeFrom (follows environment chart) (Value.LaidOut chart) start
      (Closure.call environment host depth) (call host depth) := by
  induction depth with
  | zero =>
      intro stage _ function function' argument argument' functions arguments
      rcases functions.closure_cases with ⟨name, rfl, rfl⟩ | ⟨_, _, _, _, rfl, rfl, _⟩
      · exact relates_ofHost uniform name arguments
      · exact (follows environment chart).ofThrow trivial
  | succ depth ih =>
      intro stage reached function function' argument argument' functions arguments
      rcases functions.closure_cases with
        ⟨name, rfl, rfl⟩ | ⟨scope, place, parameter, body, rfl, rfl, laid⟩
      · exact relates_ofHost uniform name arguments
      · rw [Closure.call, call]
        intro charts state
        cases parameter with
        | none =>
            rw [Run.start_bind, start_enter_none]
            exact relatedFrom_evalWith ih reached laid body charts state
        | some name =>
            have le := stage.le_nest place (Dict.empty.set name argument')
            have inner := charts.laidOut_bind laid name arguments
            obtain ⟨last, le', same, agree⟩ :=
              relatedFrom_evalWith ih (reached.trans le) inner body (charts.of_le le) state
            rw [Run.start_bind, start_enter_some]
            exact ⟨last, le.trans le', same, agree⟩

/-- A program in a scope and at the place where the scope is laid out. -/
theorem follows_interpret (uniform : host.IsUniform) {scope : Scope Value} {place : Nat}
    (laid : scope.LaidOut chart arena place) (source : Bytes) :
    (follows environment chart).relates arena (Value.LaidOut chart)
      (Program.interpret environment host scope source)
      (interpret host (Scope.atLevel place) source) := by
  rw [Program.interpret, interpret]
  cases Program.read source with
  | error failure => exact (follows environment chart).ofThrow trivial
  | ok tree =>
      exact relatedFrom_evalWith (callsAlike_follows uniform environment chart arena _) le_rfl laid
        tree

end Arena

end Juxta
