import Mathlib.Logic.Relation
import Primer.Evaluation.Program
import Primer.Proofs.Syntax.Place

/-!
# What a run does on the way

The evaluator is a family of recursive functions, and a statement about it can only name what goes
into a call and what comes out.  This module names what happens in between.

A `Task` is one call of one of the functions, `Task.perform` is that function.  `Task.plan` lists
the work of a task in order: steps that involve no other task, other tasks, and other tasks in a
frame of their own, each continuing with the value of the one before.  `Task.perform_eq_run` says
that a task does exactly what its plan says.

An `Activity` is a task on a machine.  `Activity.Begins` relates an activity to those that its plan
comes to, `Program.Performs` to everything that a run of a program comes to.
-/

namespace Primer

/-! ## Laws of steps -/

namespace Eval

variable {α β γ : Type}

theorem bind_of_value {first : Eval α} {next : α → Eval β} {machine after : Machine} {value : α}
    (h : first machine = (.value value, after)) : (first >>= next) machine = next value after := by
  change bind first next machine = _
  rw [bind, h]

theorem bind_of_error {first : Eval α} {next : α → Eval β} {machine after : Machine}
    {error : RunError} (h : first machine = (.error error, after)) :
    (first >>= next) machine = (.error error, after) := by
  change bind first next machine = _
  rw [bind, h]

theorem bind_of_exhausted {first : Eval α} {next : α → Eval β} {machine after : Machine}
    (h : first machine = (.exhausted, after)) :
    (first >>= next) machine = (.exhausted, after) := by
  change bind first next machine = _
  rw [bind, h]

theorem value_of_bind {first : Eval α} {next : α → Eval β} {machine after : Machine} {value : β}
    (h : (first >>= next) machine = (.value value, after)) :
    ∃ middle between, first machine = (.value middle, between) ∧
      next middle between = (.value value, after) := by
  rcases ended : first machine with ⟨middle | error | -, between⟩
  · exact ⟨middle, between, rfl, (bind_of_value ended).symm.trans h⟩
  · cases (bind_of_error ended).symm.trans h
  · cases (bind_of_exhausted ended).symm.trans h

theorem error_of_bind {first : Eval α} {next : α → Eval β} {machine after : Machine}
    {error : RunError} (h : (first >>= next) machine = (.error error, after)) :
    first machine = (.error error, after) ∨
      ∃ middle between, first machine = (.value middle, between) ∧
        next middle between = (.error error, after) := by
  rcases ended : first machine with ⟨middle | error | -, between⟩
  · exact .inr ⟨middle, between, rfl, (bind_of_value ended).symm.trans h⟩
  · cases (bind_of_error ended).symm.trans h
    exact .inl rfl
  · cases (bind_of_exhausted ended).symm.trans h

theorem pure_bind (value : α) (next : α → Eval β) : (pure value >>= next) = next value :=
  rfl

theorem bind_pure (step : Eval α) : (step >>= pure) = step := by
  funext machine
  rcases h : step machine with ⟨value | error | -, after⟩
  · exact bind_of_value h
  · exact bind_of_error h
  · exact bind_of_exhausted h

theorem bind_assoc (step : Eval α) (next : α → Eval β) (last : β → Eval γ) :
    (step >>= next >>= last) = (step >>= fun value => next value >>= last) := by
  funext machine
  rcases h : step machine with ⟨value | error | -, after⟩
  · rw [bind_of_value h]
    change bind (bind step next) last machine = bind (next value) last after
    simp only [bind, h]
  · rw [bind_of_error h]
    exact bind_of_error (bind_of_error h)
  · rw [bind_of_exhausted h]
    exact bind_of_exhausted (bind_of_exhausted h)

/-- Goes on after a piece of work unless it returned. -/
def unlessReturned (next : Eval Completion) : Completion → Eval Completion
  | .completed => next
  | .returned value => pure (.returned value)

theorem forEach_succ (name : String) (body : Eval Completion) (count : Nat) (current : Int) :
    forEach name body (count + 1) current =
      (nested (do
        changeScope (·.addVariable name (.integer current))
        body) >>= unlessReturned (forEach name body count (current + 1))) := by
  funext machine
  simp only [forEach]
  rcases ended : nested (do
      changeScope (·.addVariable name (.integer current))
      body) machine with ⟨(- | value) | error | -, after⟩
  · rw [bind_of_value ended]
    rfl
  · rw [bind_of_value ended]
    rfl
  · exact (bind_of_error ended).symm
  · exact (bind_of_exhausted ended).symm

theorem whileTrue_succ (condition : Eval Bool) (body : Eval Completion) (bound : Nat) :
    whileTrue condition body (bound + 1) =
      (condition >>= fun truth =>
        if truth then
          nested body >>= unlessReturned (whileTrue condition body bound)
        else
          pure .completed) := by
  funext machine
  simp only [whileTrue]
  rcases answered : condition machine with ⟨(- | -) | error | -, before⟩
  · rw [bind_of_value answered]
    rfl
  · rw [bind_of_value answered, if_pos rfl]
    dsimp only
    rcases ended : nested body before with ⟨(- | value) | error | -, after⟩
    · rw [bind_of_value ended]
      rfl
    · rw [bind_of_value ended]
      rfl
    · exact (bind_of_error ended).symm
    · exact (bind_of_exhausted ended).symm
  · exact (bind_of_error answered).symm
  · exact (bind_of_exhausted answered).symm

end Eval

theorem Expression.length_of_evaluateAll {call : MethodCall} {es : List Expression}
    {values : List Value} {machine after : Machine}
    (ended : evaluateAll call es machine = (.value values, after)) :
    values.length = es.length := by
  induction es generalizing values machine with
  | nil =>
    rw [evaluateAll] at ended
    cases ended
    rfl
  | cons e es ih =>
    rw [evaluateAll] at ended
    rcases Eval.value_of_bind ended with ⟨first, between, -, rest⟩
    rcases Eval.value_of_bind rest with ⟨others, _, evaluated, done⟩
    cases done
    exact congrArg (· + 1) (ih evaluated)

theorem Statement.executeAll_cons (call : MethodCall) (rounds : Nat) (s : Statement)
    (ss : List Statement) :
    Statement.executeAll call rounds (s :: ss) =
      (s.execute call rounds >>= Eval.unlessReturned (Statement.executeAll call rounds ss)) := by
  rw [Statement.executeAll]
  congr

/-! ## Tasks -/

/-- A call of one of the evaluator's functions; the index is the type of its result.  The spot of a
task plays no part in what the task does. -/
inductive Task : Type → Type where
  | expression (spot : Spot) (e : Expression) : Task Value
  | arguments (spot : Spot) (es : List Expression) : Task (List Value)
  | declaration (spot : Spot) (decl : Declaration) : Task Unit
  | assignment (spot : Spot) (target value : Expression) : Task Unit
  | update (spot : Spot) (name : String) (value : Value) : Task Unit
  | statement (spot : Spot) (s : Statement) : Task Completion
  | block (spot : Spot) (ss : List Statement) : Task Completion
  | rounds (spot : Spot) (name : String) (body : List Statement) (count : Nat) (current : Int) :
      Task Completion
  | repetition (spot : Spot) (condition : Expression) (body : List Statement) (left : Nat) :
      Task Completion
  | invocation (binders : Binders) (method : Method) (values : List Value) : Task Value
  | fields (binders : Binders) (decls : List Declaration) : Task Unit
  | program (environment : Environment) (tree : Program) : Task Int

/-- Carries out a task; `bound` limits how deep calls nest in it and how often its loops go
round. -/
def Task.perform (bound : Nat) : {α : Type} → Task α → Eval α
  | _, .expression _ e => e.evaluate (Method.call bound)
  | _, .arguments _ es => Expression.evaluateAll (Method.call bound) es
  | _, .declaration _ decl => decl.execute (Method.call bound)
  | _, .assignment _ target value => target.assign (Method.call bound) value
  | _, .update _ name value => Eval.changeScope (·.assign name value)
  | _, .statement _ s => s.execute (Method.call bound) bound
  | _, .block _ ss => Statement.executeAll (Method.call bound) bound ss
  | _, .rounds _ name body count current =>
    Eval.forEach name (Statement.executeAll (Method.call bound) bound body) count current
  | _, .repetition _ condition body left =>
    Eval.whileTrue (Eval.truth (condition.evaluate (Method.call bound)))
      (Statement.executeAll (Method.call bound) bound body) left
  | _, .invocation _ method values => Method.call bound method values
  | _, .fields _ decls => Eval.each (Declaration.execute (Method.call bound)) decls
  | _, .program environment tree => tree.execute environment bound

/-! ## Plans -/

/-- Where a new frame is opened: inside the frames that are open, or on the root frame alone. -/
inductive Opening where
  | here
  | root

namespace Opening

/-- The machine with the new frame. -/
def enter (opening : Opening) (machine : Machine) : Machine :=
  match opening with
  | .here => { machine with scope := machine.scope.push }
  | .root => { machine with scope := machine.scope.rootOnly.push }

/-- The machine after the work in the new frame ended in `after`; the work began from `before`. -/
def leave (opening : Opening) (before after : Machine) : Machine :=
  match opening with
  | .here => { after with scope := after.scope.pop }
  | .root => { after with scope := after.scope.pop.withInner before.scope.inner }

/-- Does `work` in a new frame, which is closed again however `work` ends. -/
def within {α : Type} (opening : Opening) (work : Eval α) : Eval α :=
  fun machine =>
    ((work (opening.enter machine)).1,
      opening.leave machine (work (opening.enter machine)).2)

end Opening

/-- The work of a task, in order. -/
inductive Plan (α : Type) : Type 1 where
  | done (value : α)
  | step {β : Type} (work : Eval β) (next : β → Plan α)
  | call {β : Type} (task : Task β) (bound : Nat) (next : β → Plan α)
  | enter {β : Type} (opening : Opening) (start : Eval Unit) (task : Task β) (bound : Nat)
      (next : β → Plan α)

namespace Plan

variable {α : Type}

/-- Carries out a plan. -/
def run : Plan α → Eval α
  | .done value => pure value
  | .step work next => work >>= fun value => (next value).run
  | .call task bound next => task.perform bound >>= fun value => (next value).run
  | .enter opening start task bound next =>
    opening.within (start >>= fun _ => task.perform bound) >>= fun value => (next value).run

end Plan

namespace Task

/-- Goes on with the truth value of `value`. -/
def whenTrue {α : Type} (value : Value) (next : Bool → Plan α) : Plan α :=
  .step (Eval.ofExcept value.toBool) next

/-- The plan of a short-circuit operator: `decisive` is the left operand that settles it. -/
def logicalPlan (decisive : Bool) (spot : Spot) (bound : Nat) (left right : Expression) :
    Plan Value :=
  .call (.expression (spot.down .left) left) bound fun first =>
    whenTrue first fun truth =>
      if truth = decisive then
        .done (.boolean decisive)
      else
        .call (.expression (spot.down .right) right) bound fun second =>
          whenTrue second fun truth => .done (.boolean truth)

/-- The plan of calling what a function name stands for. -/
def applyPlan {α : Type} (binders : Binders) (bound : Nat) (function : FunctionBody)
    (values : List Value) (next : Value → Plan α) : Plan α :=
  match function with
  | .native body => .step (Eval.ofNative (body values)) next
  | .defined method => .call (.invocation binders method values) bound next

/-- The plan of an expression. -/
def expressionPlan (spot : Spot) (bound : Nat) : Expression → Plan Value
  | .literal _ value => .done value.toValue
  | .group _ inner => .call (.expression (spot.down .inner) inner) bound .done
  | .binary _ .and left right => logicalPlan false spot bound left right
  | .binary _ .or left right => logicalPlan true spot bound left right
  | .binary _ operator left right =>
    .call (.expression (spot.down .left) left) bound fun first =>
      .call (.expression (spot.down .right) right) bound fun second =>
        .step (Eval.ofExcept (operator.apply first second)) .done
  | .access _ name _ => .step (Eval.inspectScope (·.getVariable name)) .done
  | .memberAccess _ receiver name _ =>
    .call (.expression (spot.down .receiver) receiver) bound fun owner =>
      .step (Eval.readField owner name) .done
  | .call _ name args _ =>
    .call (.arguments (spot.down .arguments) args) bound fun values =>
      .step (Eval.inspectScope (·.getFunction ⟨name, values.length⟩)) fun function =>
        applyPlan spot.binders bound function values .done
  | .memberCall _ receiver name args _ =>
    .call (.expression (spot.down .receiver) receiver) bound fun owner =>
      .call (.arguments (spot.down .arguments) args) bound fun values =>
        .step (Eval.callMember owner name values) .done

theorem expressionPlan_strict {operator : Operator} (strict : operator.precedence ≠ .logical)
    (spot : Spot) (bound : Nat) (note : Note) (left right : Expression) :
    expressionPlan spot bound (.binary note operator left right) =
      .call (.expression (spot.down .left) left) bound fun first =>
        .call (.expression (spot.down .right) right) bound fun second =>
          .step (Eval.ofExcept (operator.apply first second)) .done := by
  cases operator
  case and | or => exact absurd rfl strict
  all_goals rfl

/-- The plan of a statement. -/
def statementPlan (spot : Spot) (bound : Nat) : Statement → Plan Completion
  | .expression value =>
    .call (.expression (spot.down .value) value) bound fun _ => .done .completed
  | .declaration decl => .call (.declaration spot decl) bound fun _ => .done .completed
  | .assignment target value =>
    .call (.assignment spot target value) bound fun _ => .done .completed
  | .conditional condition thenBody elseBody =>
    .call (.expression (spot.down .condition) condition) bound fun value =>
      whenTrue value fun truth =>
        if truth then
          .enter .here (pure ()) (.block (spot.into .thenBody) thenBody) bound .done
        else
          .enter .here (pure ()) (.block (spot.into .elseBody) elseBody) bound .done
  | .forEach name range body =>
    .call (.expression (spot.down .range) range) bound fun
      | .range range => .call (.rounds spot name body range.length range.start) bound .done
      | other => .step (Eval.fail (.notIterable other.typeName)) .done
  | .loop condition body => .call (.repetition spot condition body bound) bound .done
  | .result value =>
    .call (.expression (spot.down .value) value) bound fun value => .done (.returned value)

/-- Goes on after a piece of work unless it returned. -/
def unlessReturned (next : Plan Completion) : Completion → Plan Completion
  | .completed => next
  | .returned value => .done (.returned value)

/-- The plan of an assignment.  The value is there before the variable is looked for. -/
def assignmentPlan (spot : Spot) (bound : Nat) (target value : Expression) : Plan Unit :=
  match target with
  | .access _ name _ =>
    .call (.expression (spot.down .value) value) bound fun value =>
      .call (.update (spot.down .target) name value) bound .done
  | .memberAccess _ receiver name _ =>
    .call (.expression ((spot.down .target).down .receiver) receiver) bound fun owner =>
      .call (.expression (spot.down .value) value) bound fun value =>
        .step (Eval.writeField owner name value) .done
  | _ => .step (Eval.fail (.unexpectedType "assignable access" "expression")) .done

/-- The plan of calling a method. -/
def invocationPlan (binders : Binders) (method : Method) (values : List Value) : Nat → Plan Value
  | 0 => .step Eval.exhausted .done
  | bound + 1 =>
    if method.parameters.length = values.length then
      .enter .root (method.bindParameters values)
        (.block (method.bodySpot binders) method.body) bound fun completion =>
          .done completion.result
    else
      .step
        (Eval.fail (.arityMismatch method.name method.parameters.length values.length)) .done

/-- Binds the methods of a program. -/
def defineMethods (methods : List Method) : Eval Unit :=
  Eval.each (fun method => Eval.changeScope (·.addFunction method.key (.defined method))) methods

/-- Finds the function that a run calls. -/
def findMain : Eval FunctionBody :=
  fun machine =>
    match machine.scope.getFunction ⟨"main", 0⟩ with
    | .ok main => (.value main, machine)
    | .error _ => (.error .missingMain, machine)

/-- Demands an integer of `main`. -/
def mainResult : Value → Plan Int
  | .integer value => .done value
  | other => .step (Eval.fail (.mainNotInteger other.typeName)) .done

/-- The plan of a task. -/
def plan (bound : Nat) : {α : Type} → Task α → Plan α
  | _, .expression spot e => expressionPlan spot bound e
  | _, .arguments _ [] => .done []
  | _, .arguments spot (e :: es) =>
    .call (.expression (spot.down .first) e) bound fun value =>
      .call (.arguments (spot.down .others) es) bound fun values => .done (value :: values)
  | _, .declaration spot decl =>
    match decl.value with
    | none => .step (Eval.changeScope (·.addVariable decl.name .nil)) .done
    | some e =>
      .call (.expression (spot.down .value) e) bound fun value =>
        .step (Eval.changeScope (·.addVariable decl.name value)) .done
  | _, .assignment spot target value => assignmentPlan spot bound target value
  | _, .update _ name value => .step (Eval.changeScope (·.assign name value)) .done
  | _, .statement spot s => statementPlan spot bound s
  | _, .block _ [] => .done .completed
  | _, .block spot (s :: ss) =>
    .call (.statement (spot.down .first) s) bound
      (unlessReturned (.call (.block (spot.past s) ss) bound .done))
  | _, .rounds _ _ _ 0 _ => .done .completed
  | _, .rounds spot name body (count + 1) current =>
    .enter .here (Eval.changeScope (·.addVariable name (.integer current)))
      (.block (spot.intoRound name) body) bound
      (unlessReturned (.call (.rounds spot name body count (current + 1)) bound .done))
  | _, .repetition _ _ _ 0 => .step Eval.exhausted .done
  | _, .repetition spot condition body (left + 1) =>
    .call (.expression (spot.down .condition) condition) bound fun value =>
      whenTrue value fun truth =>
        if truth then
          .enter .here (pure ()) (.block (spot.into .body) body) bound
            (unlessReturned (.call (.repetition spot condition body left) bound .done))
        else
          .done .completed
  | _, .invocation binders method values => invocationPlan binders method values bound
  | _, .fields _ [] => .done ()
  | _, .fields binders (decl :: decls) =>
    .call (.declaration ⟨decl.fieldPlace, binders⟩ decl) bound fun _ =>
      .call (.fields (binders.declare decl.name decl.fieldPlace) decls) bound .done
  | _, .program environment tree =>
    .step environment.define fun _ =>
      .call (.fields {} tree.fields) bound fun _ =>
        .step (defineMethods tree.methods) fun _ =>
          .step findMain fun main =>
            applyPlan (Binders.ofFields {} tree.fields) bound main [] mainResult

end Task

/-! ## A task does what its plan says -/

namespace Opening

variable {α : Type}

theorem within_here (work : Eval α) : Opening.here.within work = Eval.nested work :=
  rfl

end Opening

namespace Plan

variable {α β : Type}

theorem run_whenTrue (value : Value) (next : Bool → Plan α) :
    (Task.whenTrue value next).run =
      (Eval.ofExcept value.toBool >>= fun truth => (next truth).run) :=
  rfl

theorem run_step_done (work : Eval α) : (Plan.step work .done).run = work :=
  Eval.bind_pure _

end Plan

namespace Task

theorem perform_logical (decisive : Bool) (spot : Spot) (bound : Nat) (left right : Expression) :
    (logicalPlan decisive spot bound left right).run =
      (Eval.truth (left.evaluate (Method.call bound)) >>= fun truth =>
        if truth = decisive then
          pure (.boolean decisive)
        else
          Eval.truth (right.evaluate (Method.call bound)) >>= fun truth =>
            pure (.boolean truth)) := by
  simp only [logicalPlan, Plan.run, Eval.truth, Eval.bind_assoc, Plan.run_whenTrue]
  congr
  funext first
  congr
  funext truth
  split <;> rfl

theorem run_unlessReturned (next : Plan Completion) (completion : Completion) :
    (unlessReturned next completion).run = Eval.unlessReturned next.run completion := by
  cases completion <;> rfl

theorem perform_apply {α : Type} (binders : Binders) (bound : Nat) (function : FunctionBody)
    (values : List Value) (next : Value → Plan α) :
    (applyPlan binders bound function values next).run =
      (function.apply (Method.call bound) values >>= fun value => (next value).run) := by
  cases function <;> rfl

theorem perform_expression (spot : Spot) (bound : Nat) (e : Expression) :
    e.evaluate (Method.call bound) = (expressionPlan spot bound e).run := by
  cases e with
  | literal => rw [Expression.evaluate]; rfl
  | group =>
    rw [Expression.evaluate]
    simp only [expressionPlan, Plan.run, Eval.bind_pure, perform]
  | binary note operator left right =>
    cases operator
    case and =>
      rw [Expression.evaluate, expressionPlan, perform_logical]
      congr
      funext truth
      cases truth <;> rfl
    case or =>
      rw [Expression.evaluate, expressionPlan, perform_logical]
    all_goals
      simp only [Expression.evaluate, expressionPlan, Plan.run, Eval.bind_pure, perform]
  | access => rw [Expression.evaluate]; exact (Plan.run_step_done _).symm
  | memberAccess =>
    rw [Expression.evaluate]
    simp only [expressionPlan, Plan.run, Eval.bind_pure, perform]
  | call =>
    rw [Expression.evaluate]
    simp only [expressionPlan, Plan.run, perform_apply, Eval.bind_pure, perform]
  | memberCall =>
    rw [Expression.evaluate]
    simp only [expressionPlan, Plan.run, Eval.bind_pure, perform]

theorem perform_statement (spot : Spot) (bound : Nat) (s : Statement) :
    s.execute (Method.call bound) bound = (statementPlan spot bound s).run := by
  cases s with
  | expression value => rw [Statement.execute]; rfl
  | declaration decl => rw [Statement.execute]; rfl
  | assignment target value => rw [Statement.execute]; rfl
  | conditional condition thenBody elseBody =>
    rw [Statement.execute]
    simp only [statementPlan, Plan.run, Plan.run_whenTrue, Eval.truth, Eval.bind_assoc, perform]
    congr
    funext value
    congr
    funext truth
    cases truth <;> exact (Eval.bind_pure _).symm
  | forEach name range body =>
    rw [Statement.execute]
    simp only [statementPlan, Plan.run, perform]
    congr
    funext value
    cases value
    case range => exact (Eval.bind_pure _).symm
    all_goals exact (Eval.bind_pure _).symm
  | loop condition body =>
    rw [Statement.execute]
    simp only [statementPlan, Plan.run, Eval.bind_pure, perform]
  | result value => rw [Statement.execute]; rfl

theorem perform_assignment (spot : Spot) (bound : Nat) (target value : Expression) :
    target.assign (Method.call bound) value = (assignmentPlan spot bound target value).run := by
  unfold Expression.assign assignmentPlan
  split <;> simp only [Plan.run, Eval.bind_pure, perform]

theorem perform_rounds (spot : Spot) (bound : Nat) (name : String) (body : List Statement)
    (count : Nat) (current : Int) :
    (rounds spot name body count current).perform bound =
      ((rounds spot name body count current).plan bound).run := by
  cases count with
  | zero => rfl
  | succ count =>
    rw [perform, Eval.forEach_succ]
    simp only [plan, Plan.run, Opening.within_here, run_unlessReturned, Eval.bind_pure, perform]

theorem perform_repetition (spot : Spot) (bound : Nat) (condition : Expression)
    (body : List Statement) (left : Nat) :
    (repetition spot condition body left).perform bound =
      ((repetition spot condition body left).plan bound).run := by
  cases left with
  | zero => rfl
  | succ left =>
    rw [perform, Eval.whileTrue_succ]
    simp only [plan, Plan.run, Plan.run_whenTrue, Eval.truth, Eval.bind_assoc, perform]
    congr
    funext value
    congr
    funext truth
    cases truth with
    | false => rfl
    | true =>
      simp only [if_true, Plan.run, Opening.within_here, run_unlessReturned, Eval.pure_bind,
        Eval.bind_pure, perform]
      rfl

theorem perform_invocation (binders : Binders) (bound : Nat) (method : Method)
    (values : List Value) :
    Method.call bound method values = (invocationPlan binders method values bound).run := by
  cases bound with
  | zero => rfl
  | succ bound =>
    rw [Method.call, invocationPlan]
    split <;> rfl

theorem perform_program (environment : Environment) (bound : Nat) (tree : Program) :
    (program environment tree).perform bound = ((program environment tree).plan bound).run := by
  simp only [perform, Program.execute, plan, Plan.run, perform_apply]
  congr; funext _; congr; funext _; congr; funext _; congr; funext main; congr; funext value
  cases value <;> rfl

/-- A task does exactly what its plan says. -/
theorem perform_eq_run {α : Type} (bound : Nat) (task : Task α) :
    task.perform bound = (task.plan bound).run := by
  cases task with
  | expression spot e => exact perform_expression spot bound e
  | arguments spot es =>
    cases es with
    | nil => simp only [perform, Expression.evaluateAll, plan, Plan.run]
    | cons e es => simp only [perform, Expression.evaluateAll, plan, Plan.run]
  | declaration spot decl =>
    rw [perform, Declaration.execute, plan]
    cases decl.value with
    | none => exact (Plan.run_step_done _).symm
    | some e => simp only [Plan.run, Eval.bind_pure, perform]
  | assignment spot target value => exact perform_assignment spot bound target value
  | update => exact (Plan.run_step_done _).symm
  | statement spot s => exact perform_statement spot bound s
  | block spot ss =>
    cases ss with
    | nil => simp only [perform, Statement.executeAll, plan, Plan.run]
    | cons s ss =>
      simp only [perform, plan, Plan.run, run_unlessReturned, Eval.bind_pure,
        Statement.executeAll_cons]
  | rounds spot name body count current => exact perform_rounds spot bound name body count current
  | repetition spot condition body left => exact perform_repetition spot bound condition body left
  | invocation binders method values => exact perform_invocation binders bound method values
  | fields binders decls =>
    cases decls with
    | nil => rfl
    | cons decl decls => simp only [perform, Eval.each, plan, Plan.run, Eval.bind_pure]
  | program environment tree => exact perform_program environment bound tree

end Task

/-! ## Activities -/

/-- A task on a machine. -/
structure Activity where
  {result : Type}
  task : Task result
  bound : Nat
  machine : Machine

/-- How an activity ends. -/
def Activity.outcome (activity : Activity) : Outcome RunError activity.result × Machine :=
  activity.task.perform activity.bound activity.machine

/-- The activities that carrying out a plan comes to, without those that they come to in turn. -/
inductive Plan.Begins {α : Type} : Plan α → Machine → Activity → Prop
  | step {β : Type} {work : Eval β} {next : β → Plan α} {machine after : Machine} {value : β}
      {activity : Activity} :
    work machine = (.value value, after) → Plan.Begins (next value) after activity →
    Plan.Begins (.step work next) machine activity
  | call {β : Type} {task : Task β} {bound : Nat} {next : β → Plan α} {machine : Machine} :
    Plan.Begins (.call task bound next) machine ⟨task, bound, machine⟩
  | afterCall {β : Type} {task : Task β} {bound : Nat} {next : β → Plan α}
      {machine after : Machine} {value : β} {activity : Activity} :
    task.perform bound machine = (.value value, after) →
    Plan.Begins (next value) after activity →
    Plan.Begins (.call task bound next) machine activity
  | enter {β : Type} {opening : Opening} {start : Eval Unit} {task : Task β} {bound : Nat}
      {next : β → Plan α} {machine inside : Machine} :
    start (opening.enter machine) = (.value (), inside) →
    Plan.Begins (.enter opening start task bound next) machine ⟨task, bound, inside⟩
  | afterEnter {β : Type} {opening : Opening} {start : Eval Unit} {task : Task β} {bound : Nat}
      {next : β → Plan α} {machine after : Machine} {value : β} {activity : Activity} :
    opening.within (start >>= fun _ => task.perform bound) machine = (.value value, after) →
    Plan.Begins (next value) after activity →
    Plan.Begins (.enter opening start task bound next) machine activity

/-- The first activity comes to the second, directly. -/
def Activity.Begins (first second : Activity) : Prop :=
  (first.task.plan first.bound).Begins first.machine second

/-- A run of the program within `bound` comes to the activity. -/
def Program.Performs (program : Program) (environment : Environment) (bound : Nat) :
    Activity → Prop :=
  Relation.ReflTransGen Activity.Begins ⟨.program environment program, bound, {}⟩

end Primer
