import Primer.Proofs.Evaluation.History

/-!
# The points of a run

The events of a run are one list, and every activity that the run comes to has its place in it:
the events up to there give the store that the activity begins with, and the events of the activity
itself follow (`Program.exists_point`).

`Plan.Logged` says of a plan and a list of events that this holds for the activities that the plan
comes to directly.  A task is logged by its journal (`Task.logged_plan`), with one case for each
kind of task; from there on the places of activities are put together along the run.
-/

namespace Primer

open Journal

/-! ## Journals of tasks -/

/-- The events of a task. -/
def Task.journal (bound : Nat) : {α : Type} → (task : Task α) → Journal (task.perform bound)
  | _, .expression _ e => e.journal (Method.journal bound)
  | _, .arguments _ es => Expression.journalAll (Method.journal bound) es
  | _, .declaration _ decl => decl.journal (Method.journal bound)
  | _, .assignment _ target value => Expression.journalAssign (Method.journal bound) value target
  | _, .update _ name value => changeScope (·.assign name value)
  | _, .statement _ s => s.journal (Method.journal bound) bound
  | _, .block _ ss => Statement.journalAll (Method.journal bound) bound ss
  | _, .rounds _ name body count current =>
    Journal.forEach name (Statement.journalAll (Method.journal bound) bound body) count current
  | _, .repetition _ condition body left =>
    whileTrue (truth (condition.journal (Method.journal bound)))
      (Statement.journalAll (Method.journal bound) bound body) left
  | _, .invocation _ method values => Method.journal bound method values
  | _, .fields _ decls => each (Declaration.journal (Method.journal bound)) decls
  | _, .program environment tree => tree.journal environment bound

/-- The events of an activity. -/
def Activity.events (activity : Activity) : List Event :=
  (activity.task.journal activity.bound).events activity.machine

/-- The events of the activity stand in `events`, which begin from `store`, behind those that lead
to the store that the activity begins with. -/
def Activity.StandsIn (activity : Activity) (store : Store) (events : List Event) : Prop :=
  ∃ past rest, events = past ++ activity.events ++ rest ∧
    activity.machine.effects.store = store.replay past

namespace Activity.StandsIn

variable {activity : Activity} {store : Store} {events : List Event}

theorem refl (activity : Activity) :
    activity.StandsIn activity.machine.effects.store activity.events :=
  ⟨[], [], (List.append_nil _).symm, rfl⟩

theorem append_right (stands : activity.StandsIn store events) (more : List Event) :
    activity.StandsIn store (events ++ more) := by
  obtain ⟨past, rest, rfl, same⟩ := stands
  exact ⟨past, rest ++ more, List.append_assoc _ _ _, same⟩

theorem append_left {before : List Event}
    (stands : activity.StandsIn (store.replay before) events) :
    activity.StandsIn store (before ++ events) := by
  obtain ⟨past, rest, rfl, same⟩ := stands
  refine ⟨before ++ past, rest, ?_, ?_⟩
  · simp only [List.append_assoc]
  · rw [same, Store.replay_append]

theorem trans {other : Activity}
    (inner : other.StandsIn activity.machine.effects.store activity.events)
    (stands : activity.StandsIn store events) : other.StandsIn store events := by
  obtain ⟨past, rest, rfl, same⟩ := stands
  rw [same] at inner
  exact inner.append_left.append_right rest

end Activity.StandsIn

/-! ## Plans with a log -/

namespace Journal

variable {α β γ : Type}

theorem events_bind_of_error {first : Eval α} {next : α → Eval β} {head : Journal first}
    {tail : ∀ value, Journal (next value)} {machine after : Machine} {error : RunError}
    (ended : first machine = (.error error, after)) :
    (head.bind tail).events machine = head.events machine := by
  change head.bindEvents tail machine = _
  rw [bindEvents, ended, List.append_nil]

theorem events_bind_of_exhausted {first : Eval α} {next : α → Eval β} {head : Journal first}
    {tail : ∀ value, Journal (next value)} {machine after : Machine}
    (ended : first machine = (.exhausted, after)) :
    (head.bind tail).events machine = head.events machine := by
  change head.bindEvents tail machine = _
  rw [bindEvents, ended, List.append_nil]

/-- The events of three steps do not depend on which two are taken together. -/
theorem events_bind_assoc {first : Eval α} {next : α → Eval β} {last : β → Eval γ}
    (head : Journal first) (middle : ∀ value, Journal (next value))
    (tail : ∀ value, Journal (last value)) :
    ((head.bind middle).bind tail).events =
      (head.bind fun value => (middle value).bind tail).events := by
  funext machine
  rcases ended : first machine with ⟨value | error | -, after⟩
  · rw [events_bind_of_value ended]
    rcases ended' : next value after with ⟨value' | error | -, later⟩
    · rw [events_bind_of_value ((Eval.bind_of_value ended).trans ended'),
        events_bind_of_value ended, events_bind_of_value ended', List.append_assoc]
    · rw [events_bind_of_error ((Eval.bind_of_value ended).trans ended'),
        events_bind_of_value ended, events_bind_of_error ended']
    · rw [events_bind_of_exhausted ((Eval.bind_of_value ended).trans ended'),
        events_bind_of_value ended, events_bind_of_exhausted ended']
  · rw [events_bind_of_error (Eval.bind_of_error ended), events_bind_of_error ended,
      events_bind_of_error ended]
  · rw [events_bind_of_exhausted (Eval.bind_of_exhausted ended), events_bind_of_exhausted ended,
      events_bind_of_exhausted ended]

end Journal

theorem Opening.effects_enter (opening : Opening) (machine : Machine) :
    (opening.enter machine).effects = machine.effects := by
  cases opening <;> rfl

namespace Plan

variable {α β : Type}

/-- The activities that the plan comes to directly stand in the log. -/
def Logged (plan : Plan α) (log : Machine → List Event) : Prop :=
  ∀ machine activity, plan.Begins machine activity →
    activity.StandsIn machine.effects.store (log machine)

theorem logged_done (value : α) (log : Machine → List Event) : (Plan.done value).Logged log :=
  fun _ _ begins => nomatch begins

theorem logged_step_done (work : Eval α) (log : Machine → List Event) :
    (Plan.step work .done).Logged log := by
  intro machine activity begins
  cases begins with
  | step _ later => cases later

section Next

variable {δ : Type} {next : β → Plan α} {nextStep : β → Eval δ}
  {tail : ∀ value, Journal (nextStep value)}

/-- What comes after a step with a value comes after its events. -/
theorem standsIn_bind {first : Eval β} (head : Journal first)
    (logged : ∀ value, (next value).Logged (tail value).events) {machine after : Machine}
    {value : β} {activity : Activity} (ended : first machine = (.value value, after))
    (begins : (next value).Begins after activity) :
    activity.StandsIn machine.effects.store ((head.bind tail).events machine) := by
  have later := logged value after activity begins
  rw [events_bind_of_value ended]
  have same := head.store_eq machine
  rw [ended] at same
  rw [same] at later
  exact later.append_left

theorem logged_step {work : Eval β} (head : Journal work)
    (logged : ∀ value, (next value).Logged (tail value).events) :
    (Plan.step work next).Logged (head.bind tail).events := by
  intro machine activity begins
  cases begins with
  | step ended later => exact standsIn_bind head logged ended later

theorem logged_call {task : Task β} {bound : Nat}
    (logged : ∀ value, (next value).Logged (tail value).events) :
    (Plan.call task bound next).Logged ((task.journal bound).bind tail).events := by
  intro machine activity begins
  cases begins with
  | call => exact (Activity.StandsIn.refl ⟨task, bound, machine⟩).append_right _
  | afterCall ended later => exact standsIn_bind (task.journal bound) logged ended later

/-- Asking for a truth value is one task and a step. -/
theorem logged_truth {bound : Nat} {task : Task Value} {next : Bool → Plan α}
    {nextStep : Bool → Eval δ} {tail : ∀ truth, Journal (nextStep truth)}
    (logged : ∀ truth, (next truth).Logged (tail truth).events) :
    (Plan.call task bound fun value => Task.whenTrue value next).Logged
      ((truth (task.journal bound)).bind tail).events := by
  have assoc := events_bind_assoc (task.journal bound)
    (fun value => still (Eval.still_ofExcept value.toBool)) tail
  have inTurn : (Plan.call task bound fun value => Task.whenTrue value next).Logged _ :=
    logged_call fun value => logged_step (still (Eval.still_ofExcept value.toBool)) logged
  rw [← assoc] at inTurn
  exact inTurn

/-- Once the frame is open, the events of the work in it are those of the task. -/
def Encloses (opening : Opening) (start : Eval Unit) (task : Task β) (bound : Nat)
    (log : Machine → List Event) : Prop :=
  ∀ machine inside, start (opening.enter machine) = (.value (), inside) →
    log machine = (task.journal bound).events inside ∧
      inside.effects.store = machine.effects.store

theorem encloses_pure (opening : Opening) (task : Task β) (bound : Nat) :
    Encloses opening (pure ()) task bound
      fun machine => (task.journal bound).events (opening.enter machine) := by
  rintro machine inside ⟨⟩
  exact ⟨rfl, by rw [Opening.effects_enter]⟩

theorem encloses_changeScope (opening : Opening)
    (change : Scope Value FunctionBody → Except NamingError (Scope Value FunctionBody))
    (task : Task β) (bound : Nat) :
    Encloses opening (Eval.changeScope change) task bound
      fun machine => ((changeScope change).bind fun _ => task.journal bound).events
        (opening.enter machine) := by
  intro machine inside ended
  have same := (changeScope change).store_eq (opening.enter machine)
  rw [ended, Opening.effects_enter] at same
  exact ⟨events_bind_of_value ended, same⟩

theorem logged_enter {opening : Opening} {start : Eval Unit} {task : Task β} {bound : Nat}
    {head : Journal (opening.within (start >>= fun _ => task.perform bound))}
    (encloses : Encloses opening start task bound head.events)
    (logged : ∀ value, (next value).Logged (tail value).events) :
    (Plan.enter opening start task bound next).Logged (head.bind tail).events := by
  intro machine activity begins
  cases begins with
  | enter started =>
    rename_i inside
    obtain ⟨same, store⟩ := encloses machine inside started
    have stands : Activity.StandsIn ⟨task, bound, inside⟩ machine.effects.store
        (head.events machine) := by
      rw [same, ← store]
      exact .refl _
    exact stands.append_right _
  | afterEnter ended later => exact standsIn_bind head logged ended later

end Next

/-- A plan that ends with the value of its only piece of work. -/
theorem Logged.of_bind_pure {plan : Plan α} {step : Eval α} {journal : Journal step}
    (logged : plan.Logged (journal.bind fun value => still (Eval.still_pure value)).events) :
    plan.Logged journal.events := by
  have same : (journal.bind fun value => still (Eval.still_pure value)).events =
      journal.events := by
    funext machine
    rcases ended : step machine with ⟨value | error | -, after⟩
    · exact (events_bind_of_value ended).trans (List.append_nil _)
    · exact events_bind_of_error ended
    · exact events_bind_of_exhausted ended
  rwa [same] at logged

theorem logged_call_done (task : Task α) (bound : Nat) :
    (Plan.call task bound .done).Logged (task.journal bound).events :=
  .of_bind_pure (logged_call fun value => logged_done value _)

theorem logged_enter_done {opening : Opening} {start : Eval Unit} {task : Task α} {bound : Nat}
    {head : Journal (opening.within (start >>= fun _ => task.perform bound))}
    (encloses : Encloses opening start task bound head.events) :
    (Plan.enter opening start task bound .done).Logged head.events :=
  .of_bind_pure (logged_enter encloses fun value => logged_done value _)

theorem logged_unlessReturned {next : Plan Completion} {step : Eval Completion}
    {journal : Journal step} (logged : next.Logged journal.events) (completion : Completion) :
    (Task.unlessReturned next completion).Logged (unlessReturned journal completion).events := by
  cases completion with
  | completed => exact logged
  | returned value => exact logged_done _ _

theorem logged_apply {δ : Type} {next : Value → Plan α} {nextStep : Value → Eval δ}
    {tail : ∀ value, Journal (nextStep value)}
    (logged : ∀ value, (next value).Logged (tail value).events) (binders : Binders) (bound : Nat)
    (function : FunctionBody) (values : List Value) :
    (Task.applyPlan binders bound function values next).Logged
      ((function.journal (Method.journal bound) values).bind tail).events := by
  cases function with
  | native body => exact logged_step (ofNative (body values)) logged
  | defined method => exact logged_call logged

end Plan

/-! ## Tasks -/

namespace Task

open Plan

theorem logged_expression (spot : Spot) (bound : Nat) (e : Expression) :
    (expressionPlan spot bound e).Logged (e.journal (Method.journal bound)).events := by
  cases e with
  | literal note value => exact logged_done _ _
  | group note inner => exact logged_call_done (.expression (spot.down .inner) inner) bound
  | binary note operator left right =>
    have rightOperand : (Plan.call (.expression (spot.down .right) right) bound fun second =>
        whenTrue second fun truth => .done (Value.boolean truth)).Logged
          ((truth (right.journal (Method.journal bound))).bind fun value =>
            still (Eval.still_pure (Value.boolean value))).events :=
      logged_truth fun truth => logged_done _ _
    cases operator
    case and =>
      refine logged_truth fun truth => ?_
      cases truth with
      | true => exact rightOperand
      | false => exact logged_done _ _
    case or =>
      refine logged_truth fun truth => ?_
      cases truth with
      | true => exact logged_done _ _
      | false => exact rightOperand
    all_goals exact logged_call fun first => logged_call fun second => logged_step_done _ _
  | access note name binding => exact logged_step_done _ _
  | memberAccess note receiver name binding =>
    exact logged_call fun owner => logged_step_done _ _
  | call note name args binding =>
    refine logged_call fun values => ?_
    refine logged_step (still (Eval.still_inspectScope _)) fun function => ?_
    exact .of_bind_pure (logged_apply (fun value => logged_done value _) _ _ _ _)
  | memberCall note receiver name args binding =>
    exact logged_call fun owner => logged_call fun values => logged_step_done _ _

theorem logged_declaration (spot : Spot) (bound : Nat) (decl : Declaration) :
    ((declaration spot decl).plan bound).Logged (decl.journal (Method.journal bound)).events := by
  obtain ⟨name, typeName, value, span, binding⟩ := decl
  cases value with
  | none => exact logged_step_done _ _
  | some value => exact logged_call fun value => logged_step_done _ _

theorem logged_assignment (spot : Spot) (bound : Nat) (target value : Expression) :
    (assignmentPlan spot bound target value).Logged
      (Expression.journalAssign (Method.journal bound) value target).events := by
  cases target
  case access note name binding =>
    exact logged_call fun value =>
      logged_call_done (.update (spot.down .target) name value) bound
  case memberAccess note receiver name binding =>
    exact logged_call fun owner => logged_call fun value => logged_step_done _ _
  all_goals exact logged_step_done _ _

theorem logged_statement (spot : Spot) (bound : Nat) (s : Statement) :
    (statementPlan spot bound s).Logged (s.journal (Method.journal bound) bound).events := by
  cases s with
  | expression value => exact logged_call fun _ => logged_done _ _
  | declaration decl => exact logged_call fun _ => logged_done _ _
  | assignment target value => exact logged_call fun _ => logged_done _ _
  | conditional condition thenBody elseBody =>
    refine logged_truth fun truth => ?_
    cases truth with
    | true => exact logged_enter_done (encloses_pure .here (.block _ thenBody) bound)
    | false => exact logged_enter_done (encloses_pure .here (.block _ elseBody) bound)
  | forEach name range body =>
    refine logged_call fun value => ?_
    cases value
    case range range => exact logged_call_done (.rounds spot name body _ _) bound
    all_goals exact logged_step_done _ _
  | loop condition body => exact logged_call_done (.repetition spot condition body bound) bound
  | result value => exact logged_call fun _ => logged_done _ _

theorem logged_rounds (spot : Spot) (bound : Nat) (name : String) (body : List Statement)
    (count : Nat) (current : Int) :
    ((rounds spot name body count current).plan bound).Logged
      ((rounds spot name body count current).journal bound).events := by
  cases count with
  | zero => exact logged_done _ _
  | succ count =>
    exact logged_enter
      (encloses_changeScope .here _ (.block (spot.intoRound name) body) bound)
      (logged_unlessReturned (logged_call_done (.rounds spot name body count (current + 1)) bound))

theorem logged_repetition (spot : Spot) (bound : Nat) (condition : Expression)
    (body : List Statement) (left : Nat) :
    ((repetition spot condition body left).plan bound).Logged
      ((repetition spot condition body left).journal bound).events := by
  cases left with
  | zero => exact logged_step_done _ _
  | succ left =>
    refine logged_truth fun truth => ?_
    cases truth with
    | true =>
      exact logged_enter (encloses_pure .here (.block (spot.into .body) body) bound)
        (logged_unlessReturned (logged_call_done (.repetition spot condition body left) bound))
    | false => exact logged_done _ _

theorem logged_invocation (binders : Binders) (bound : Nat) (method : Method)
    (values : List Value) :
    (invocationPlan binders method values bound).Logged
      (Method.journal bound method values).events := by
  cases bound with
  | zero => exact logged_step_done _ _
  | succ bound =>
    rw [invocationPlan, Method.journal]
    by_cases matched : method.parameters.length = values.length
    · rw [if_pos matched, dif_pos matched]
      exact logged_enter
        (encloses_changeScope .root _ (.block (method.bodySpot binders) method.body) bound)
        fun _ => logged_done _ _
    · rw [if_neg matched]
      exact logged_step_done _ _

theorem logged_program (environment : Environment) (bound : Nat) (tree : Program) :
    ((program environment tree).plan bound).Logged (tree.journal environment bound).events := by
  refine logged_step _ fun _ => logged_call fun _ => logged_step _ fun _ => ?_
  refine logged_step _ fun main => logged_apply (fun value => ?_) _ bound main []
  cases value
  case integer => exact logged_done _ _
  all_goals exact logged_step_done _ _

/-- The activities that a task comes to directly stand in its journal. -/
theorem logged_plan {α : Type} (bound : Nat) (task : Task α) :
    (task.plan bound).Logged (task.journal bound).events := by
  cases task with
  | expression spot e => exact logged_expression spot bound e
  | arguments spot es =>
    cases es with
    | nil => exact logged_done _ _
    | cons e es => exact logged_call fun _ => logged_call fun _ => logged_done _ _
  | declaration spot decl => exact logged_declaration spot bound decl
  | assignment spot target value => exact logged_assignment spot bound target value
  | update => exact logged_step_done _ _
  | statement spot s => exact logged_statement spot bound s
  | block spot ss =>
    cases ss with
    | nil => exact logged_done _ _
    | cons s ss =>
      exact logged_call (logged_unlessReturned (logged_call_done (.block (spot.past s) ss) bound))
  | rounds spot name body count current => exact logged_rounds spot bound name body count current
  | repetition spot condition body left => exact logged_repetition spot bound condition body left
  | invocation binders method values => exact logged_invocation binders bound method values
  | fields binders decls =>
    cases decls with
    | nil => exact logged_done _ _
    | cons decl decls =>
      exact logged_call fun _ => logged_call_done (.fields _ decls) bound
  | program environment tree => exact logged_program environment bound tree

end Task

/-! ## Runs -/

/-- Every activity that a run comes to has its place among the events of the run. -/
theorem Program.exists_point {program : Program} {environment : Environment} {bound : Nat}
    {activity : Activity} (performs : program.Performs environment bound activity) :
    activity.StandsIn {} (program.history environment bound) := by
  induction performs with
  | refl => exact .refl ⟨.program environment program, bound, {}⟩
  | @tail first second _ begins ih =>
    exact (first.task.logged_plan first.bound first.machine second begins).trans ih

end Primer
