import Mathlib.Data.Prod.Lex
import Primer.Proofs.Evaluation.Activity

/-!
# Contracts for activities

A contract says which activities are allowed, what each of them may be relied on to end in, and
which errors it may raise itself.  `Plan.Meets` goes through a plan from a given machine: every
activity that the plan comes to has to be allowed, and may be relied on.

`Contract.Obeyed` is what has to be shown of a contract, once for every kind of task.  Then every
allowed activity ends as the contract says, everything that it comes to is allowed, and an error of
it is the fault of some activity that it comes to.  The induction is on `Task.rank`: calls spend the
bound, the rest follows the structure of the program, and loops count their rounds.
-/

namespace Primer

/-! ## Activities come to smaller ones -/

/-- The size of a task within a bound, compared from left to right. -/
noncomputable def Task.rank (bound : Nat) : {α : Type} → Task α → Nat × Nat × Nat
  | _, .expression _ e => (bound, sizeOf e, 0)
  | _, .arguments _ es => (bound, sizeOf es, 0)
  | _, .declaration _ decl => (bound, sizeOf decl, 0)
  | _, .assignment _ target value => (bound, sizeOf target + sizeOf value, 0)
  | _, .update .. => (bound, 0, 0)
  | _, .statement _ s => (bound, sizeOf s, 0)
  | _, .block _ ss => (bound, sizeOf ss, 0)
  | _, .rounds _ _ body count _ => (bound, sizeOf body + 1, count)
  | _, .repetition _ condition body left => (bound, sizeOf condition + sizeOf body, left)
  | _, .invocation .. => (bound, 0, 0)
  | _, .fields _ decls => (bound, sizeOf decls, 0)
  | _, .program _ tree => (bound, sizeOf tree, 0)

/-- The order of ranks. -/
def Rank.Below : Nat × Nat × Nat → Nat × Nat × Nat → Prop :=
  Prod.Lex (· < ·) (Prod.Lex (· < ·) (· < ·))

theorem Rank.below_of_bound_lt {a b c d e f : Nat} (h : a < d) : Rank.Below (a, b, c) (d, e, f) :=
  .left _ _ h

theorem Rank.below_of_size_lt {a b c e f : Nat} (h : b < e) : Rank.Below (a, b, c) (a, e, f) :=
  .right _ (.left _ _ h)

theorem Rank.below_of_count_lt {a b c f : Nat} (h : c < f) : Rank.Below (a, b, c) (a, b, f) :=
  .right _ (.right _ h)

theorem Rank.below_wf : WellFounded Rank.Below :=
  (Prod.lex Nat.lt_wfRel (Prod.lex Nat.lt_wfRel Nat.lt_wfRel)).wf

/-- Every task in the plan is below `rank`. -/
def Plan.Below {α : Type} (rank : Nat × Nat × Nat) : Plan α → Prop
  | .done _ => True
  | .step _ next => ∀ value, (next value).Below rank
  | .call task bound next => Rank.Below (task.rank bound) rank ∧ ∀ value, (next value).Below rank
  | .enter _ _ task bound next =>
    Rank.Below (task.rank bound) rank ∧ ∀ value, (next value).Below rank

theorem Expression.sizeOf_pos (e : Expression) : 0 < sizeOf e := by
  cases e <;> simp only [literal.sizeOf_spec, group.sizeOf_spec, binary.sizeOf_spec,
    access.sizeOf_spec, memberAccess.sizeOf_spec, call.sizeOf_spec, memberCall.sizeOf_spec] <;>
    omega

theorem Statement.sizeOf_list_pos (ss : List Statement) : 0 < sizeOf ss := by
  cases ss <;> simp only [List.nil.sizeOf_spec, List.cons.sizeOf_spec] <;> omega

namespace Task

theorem logicalPlan_below (decisive : Bool) (spot : Spot) (bound : Nat) (note : Note)
    (operator : Operator) (left right : Expression) :
    (logicalPlan decisive spot bound left right).Below
      (bound, sizeOf (Expression.binary note operator left right), 0) := by
  refine ⟨Rank.below_of_size_lt ?_, fun first truth => ?_⟩
  · simp only [Expression.binary.sizeOf_spec]
    omega
  · dsimp only
    split
    · exact trivial
    · refine ⟨Rank.below_of_size_lt ?_, fun _ _ => trivial⟩
      simp only [Expression.binary.sizeOf_spec]
      omega

theorem applyPlan_below {α : Type} (binders : Binders) (bound : Nat) (function : FunctionBody)
    (values : List Value) {next : Value → Plan α} {size count : Nat} (positive : 0 < size)
    (rest : ∀ value, (next value).Below (bound, size, count)) :
    (applyPlan binders bound function values next).Below (bound, size, count) := by
  cases function with
  | native => exact rest
  | defined => exact ⟨Rank.below_of_size_lt positive, rest⟩

theorem expressionPlan_below (spot : Spot) (bound : Nat) (e : Expression) :
    (expressionPlan spot bound e).Below (bound, sizeOf e, 0) := by
  cases e with
  | literal => exact trivial
  | group note inner =>
    refine ⟨Rank.below_of_size_lt ?_, fun _ => trivial⟩
    simp only [Expression.group.sizeOf_spec]
    omega
  | binary note operator left right =>
    cases operator
    case and => exact logicalPlan_below _ _ _ _ _ _ _
    case or => exact logicalPlan_below _ _ _ _ _ _ _
    all_goals
      refine ⟨Rank.below_of_size_lt ?_, fun _ => ⟨Rank.below_of_size_lt ?_, fun _ _ => trivial⟩⟩
      all_goals
        simp only [Expression.binary.sizeOf_spec]
        omega
  | access => exact fun _ => trivial
  | memberAccess note receiver name binding =>
    refine ⟨Rank.below_of_size_lt ?_, fun _ _ => trivial⟩
    simp only [Expression.memberAccess.sizeOf_spec]
    omega
  | call note name args binding =>
    refine ⟨Rank.below_of_size_lt ?_, fun values function => ?_⟩
    · simp only [Expression.call.sizeOf_spec]
      omega
    · refine applyPlan_below _ _ _ _ ?_ fun _ => trivial
      simp only [Expression.call.sizeOf_spec]
      omega
  | memberCall note receiver name args binding =>
    refine ⟨Rank.below_of_size_lt ?_, fun _ => ⟨Rank.below_of_size_lt ?_, fun _ _ => trivial⟩⟩
    all_goals
      simp only [Expression.memberCall.sizeOf_spec]
      omega

theorem assignmentPlan_below (spot : Spot) (bound : Nat) (target value : Expression) :
    (assignmentPlan spot bound target value).Below (bound, sizeOf target + sizeOf value, 0) := by
  cases target with
  | access note name binding =>
    refine ⟨Rank.below_of_size_lt ?_, fun _ => ⟨Rank.below_of_size_lt ?_, fun _ => trivial⟩⟩
    all_goals
      simp only [Expression.access.sizeOf_spec]
      omega
  | memberAccess note receiver name binding =>
    refine ⟨Rank.below_of_size_lt ?_, fun _ => ⟨Rank.below_of_size_lt ?_, fun _ _ => trivial⟩⟩
    all_goals
      simp only [Expression.memberAccess.sizeOf_spec]
      omega
  | _ => exact fun _ => trivial

theorem statementPlan_below (spot : Spot) (bound : Nat) (s : Statement) :
    (statementPlan spot bound s).Below (bound, sizeOf s, 0) := by
  cases s with
  | expression value =>
    refine ⟨Rank.below_of_size_lt ?_, fun _ => trivial⟩
    simp only [Statement.expression.sizeOf_spec]
    omega
  | declaration decl =>
    refine ⟨Rank.below_of_size_lt ?_, fun _ => trivial⟩
    simp only [Statement.declaration.sizeOf_spec]
    omega
  | assignment target value =>
    refine ⟨Rank.below_of_size_lt ?_, fun _ => trivial⟩
    simp only [Statement.assignment.sizeOf_spec]
    omega
  | conditional condition thenBody elseBody =>
    refine ⟨Rank.below_of_size_lt ?_, fun value truth => ?_⟩
    · simp only [Statement.conditional.sizeOf_spec]
      omega
    · dsimp only
      split
      all_goals
        refine ⟨Rank.below_of_size_lt ?_, fun _ => trivial⟩
        simp only [Statement.conditional.sizeOf_spec]
        omega
  | forEach name range body =>
    refine ⟨Rank.below_of_size_lt ?_, fun value => ?_⟩
    · simp only [Statement.forEach.sizeOf_spec]
      omega
    · cases value
      case range =>
        refine ⟨Rank.below_of_size_lt ?_, fun _ => trivial⟩
        simp only [Statement.forEach.sizeOf_spec]
        have := range.sizeOf_pos
        omega
      all_goals exact fun _ => trivial
  | loop condition body =>
    refine ⟨Rank.below_of_size_lt ?_, fun _ => trivial⟩
    simp only [Statement.loop.sizeOf_spec]
    omega
  | result value =>
    refine ⟨Rank.below_of_size_lt ?_, fun _ => trivial⟩
    simp only [Statement.result.sizeOf_spec]
    omega

/-- Everything in the plan of a task is below the task. -/
theorem plan_below {α : Type} (bound : Nat) (task : Task α) :
    (task.plan bound).Below (task.rank bound) := by
  cases task with
  | expression spot e => exact expressionPlan_below spot bound e
  | arguments spot es =>
    cases es with
    | nil => exact trivial
    | cons e es =>
      refine ⟨Rank.below_of_size_lt ?_, fun _ => ⟨Rank.below_of_size_lt ?_, fun _ => trivial⟩⟩
      all_goals
        simp only [List.cons.sizeOf_spec]
        omega
  | declaration spot decl =>
    rcases decl with ⟨name, typeName, - | e, span, binding⟩
    · exact fun _ => trivial
    · refine ⟨Rank.below_of_size_lt ?_, fun _ _ => trivial⟩
      simp only [Declaration.mk.sizeOf_spec, Option.some.sizeOf_spec]
      omega
  | assignment spot target value => exact assignmentPlan_below spot bound target value
  | update => exact fun _ => trivial
  | statement spot s => exact statementPlan_below spot bound s
  | block spot ss =>
    cases ss with
    | nil => exact trivial
    | cons s ss =>
      refine ⟨Rank.below_of_size_lt ?_, fun completion => ?_⟩
      · simp only [List.cons.sizeOf_spec]
        omega
      · cases completion with
        | completed =>
          refine ⟨Rank.below_of_size_lt ?_, fun _ => trivial⟩
          simp only [List.cons.sizeOf_spec]
          omega
        | returned => exact trivial
  | rounds spot name body count current =>
    cases count with
    | zero => exact trivial
    | succ count =>
      refine ⟨Rank.below_of_size_lt (Nat.lt_succ_self _), fun completion => ?_⟩
      cases completion with
      | completed => exact ⟨Rank.below_of_count_lt (Nat.lt_succ_self _), fun _ => trivial⟩
      | returned => exact trivial
  | repetition spot condition body left =>
    cases left with
    | zero => exact fun _ => trivial
    | succ left =>
      have conditionPos := condition.sizeOf_pos
      have bodyPos := Statement.sizeOf_list_pos body
      refine ⟨Rank.below_of_size_lt (by omega), fun value truth => ?_⟩
      dsimp only
      split
      · refine ⟨Rank.below_of_size_lt (by omega), fun completion => ?_⟩
        cases completion with
        | completed => exact ⟨Rank.below_of_count_lt (Nat.lt_succ_self _), fun _ => trivial⟩
        | returned => exact trivial
      · exact trivial
  | invocation binders method values =>
    cases bound with
    | zero => exact fun _ => trivial
    | succ bound =>
      rw [plan, invocationPlan]
      split
      · exact ⟨Rank.below_of_bound_lt (Nat.lt_succ_self _), fun _ => trivial⟩
      · exact fun _ => trivial
  | fields binders decls =>
    cases decls with
    | nil => exact trivial
    | cons decl decls =>
      refine ⟨Rank.below_of_size_lt ?_, fun _ => ⟨Rank.below_of_size_lt ?_, fun _ => trivial⟩⟩
      all_goals
        simp only [List.cons.sizeOf_spec]
        omega
  | program environment tree =>
    rcases tree with ⟨decls, methods⟩
    refine fun _ => ⟨Rank.below_of_size_lt ?_, fun _ _ main => applyPlan_below _ _ _ _ ?_ ?_⟩
    · simp only [Program.mk.sizeOf_spec]
      omega
    · simp only [Program.mk.sizeOf_spec]
      omega
    · intro value
      cases value
      case integer => exact trivial
      all_goals exact fun _ => trivial

end Task

/-! ## Contracts -/

/-- What is agreed about activities.  An activity that is allowed with a condition has to end in it,
if it ends with a value.  An error that an activity raises itself has to be one of its faults. -/
structure Contract where
  allows : (activity : Activity) → (activity.result → Machine → Prop) → Prop
  fault : Activity → RunError → Prop

/-- Carrying out the plan from `machine` obeys the contract: it raises no other errors than `fault`,
comes to allowed activities only, and ends as `final` says. -/
def Plan.Meets {α : Type} (contract : Contract) (fault : RunError → Prop)
    (final : α → Machine → Prop) : Plan α → Machine → Prop
  | .done value, machine => final value machine
  | .step work next, machine =>
    (∀ value after, work machine = (.value value, after) →
      (next value).Meets contract fault final after) ∧
    ∀ error after, work machine = (.error error, after) → fault error
  | .call task bound next, machine =>
    ∃ post, contract.allows ⟨task, bound, machine⟩ post ∧
      ∀ value after, task.perform bound machine = (.value value, after) → post value after →
        (next value).Meets contract fault final after
  | .enter opening start task bound next, machine =>
    (∀ inside, start (opening.enter machine) = (.value (), inside) →
      ∃ post, contract.allows ⟨task, bound, inside⟩ post ∧
        ∀ value after, task.perform bound inside = (.value value, after) → post value after →
          (next value).Meets contract fault final (opening.leave machine after)) ∧
    ∀ error after, start (opening.enter machine) = (.error error, after) → fault error

/-- The plan of every allowed activity obeys the contract. -/
def Contract.Obeyed (contract : Contract) : Prop :=
  ∀ activity post, contract.allows activity post →
    (activity.task.plan activity.bound).Meets contract (contract.fault activity) post
      activity.machine

namespace Opening

variable {α : Type} {opening : Opening} {start : Eval Unit} {work : Eval α} {machine : Machine}

/-- How work in a new frame can end: it starts and ends there, or the start already fails. -/
theorem within_cases {outcome : Outcome RunError α} {after : Machine}
    (ended : opening.within (start >>= fun _ => work) machine = (outcome, after)) :
    (∃ inside last, start (opening.enter machine) = (.value (), inside) ∧
      work inside = (outcome, last) ∧ after = opening.leave machine last) ∨
    (∃ error last, start (opening.enter machine) = (.error error, last) ∧
      outcome = .error error) ∨
    outcome = .exhausted := by
  rcases started : start (opening.enter machine) with ⟨⟨⟩ | error | -, inside⟩
  · rw [within, Eval.bind_of_value started] at ended
    cases ended
    exact .inl ⟨inside, _, rfl, rfl, rfl⟩
  · rw [within, Eval.bind_of_error started] at ended
    cases ended
    exact .inr (.inl ⟨error, inside, rfl, rfl⟩)
  · rw [within, Eval.bind_of_exhausted started] at ended
    cases ended
    exact .inr (.inr rfl)

end Opening

namespace Plan.Meets

variable {α : Type} {contract : Contract} {fault : RunError → Prop} {final : α → Machine → Prop}

theorem of_value {β : Type} {work : Eval β} {next : β → Plan α} {machine after : Machine}
    {value : β} (ended : work machine = (.value value, after))
    (rest : (next value).Meets contract fault final after) :
    (Plan.step work next).Meets contract fault final machine := by
  refine ⟨fun value' after' ended' => ?_, fun error after' ended' => ?_⟩
  · cases ended.symm.trans ended'
    exact rest
  · cases ended.symm.trans ended'

theorem of_error {β : Type} {work : Eval β} {next : β → Plan α} {machine after : Machine}
    {error : RunError} (ended : work machine = (.error error, after)) (faulty : fault error) :
    (Plan.step work next).Meets contract fault final machine := by
  refine ⟨fun value after' ended' => ?_, fun error' after' ended' => ?_⟩
  · cases ended.symm.trans ended'
  · cases ended.symm.trans ended'
    exact faulty

theorem of_exhausted {β : Type} {work : Eval β} {next : β → Plan α} {machine after : Machine}
    (ended : work machine = (.exhausted, after)) :
    (Plan.step work next).Meets contract fault final machine := by
  refine ⟨fun value after' ended' => ?_, fun error after' ended' => ?_⟩ <;>
    cases ended.symm.trans ended'

/-- A plan that obeys the contract ends as it should, if the activities in it do. -/
theorem final_of_value {plan : Plan α} {rank : Nat × Nat × Nat} (below : plan.Below rank)
    (relied : ∀ activity post, Rank.Below (activity.task.rank activity.bound) rank →
      contract.allows activity post →
      ∀ value after, activity.outcome = (.value value, after) → post value after) :
    ∀ {machine after : Machine} {value : α}, plan.Meets contract fault final machine →
      plan.run machine = (.value value, after) → final value after := by
  induction plan with
  | done value =>
    intro machine after value meets ended
    cases ended
    exact meets
  | step work next ih =>
    intro machine after value meets ended
    obtain ⟨middle, between, first, rest⟩ := Eval.value_of_bind ended
    exact ih middle (below middle) (meets.1 middle between first) rest
  | call task bound next ih =>
    intro machine after value meets ended
    obtain ⟨middle, between, first, rest⟩ := Eval.value_of_bind ended
    obtain ⟨post, allowed, continues⟩ := meets
    have holds := relied ⟨task, bound, machine⟩ post below.1 allowed middle between first
    exact ih middle (below.2 middle) (continues middle between first holds) rest
  | enter opening start task bound next ih =>
    intro machine after value meets ended
    obtain ⟨middle, between, first, rest⟩ := Eval.value_of_bind ended
    obtain ⟨inside, last, started, performed, rfl⟩ | ⟨_, _, _, no⟩ | no :=
      Opening.within_cases first
    · obtain ⟨post, allowed, continues⟩ := meets.1 inside started
      have holds := relied ⟨task, bound, inside⟩ post below.1 allowed middle last performed
      exact ih middle (below.2 middle) (continues middle last performed holds) rest
    · cases no
    · cases no

variable (relied : ∀ activity post, contract.allows activity post →
  ∀ value after, activity.outcome = (.value value, after) → post value after)

include relied

/-- Every activity that a plan comes to is allowed. -/
theorem allows_of_begins {plan : Plan α} {machine : Machine} {activity : Activity}
    (begins : plan.Begins machine activity) :
    plan.Meets contract fault final machine → ∃ post, contract.allows activity post := by
  induction begins with
  | step ended _ ih => exact fun meets => ih (meets.1 _ _ ended)
  | call => exact fun ⟨post, allowed, _⟩ => ⟨post, allowed⟩
  | @afterCall _ task bound _ machine _ _ _ ended _ ih =>
    rintro ⟨post, allowed, continues⟩
    exact ih (continues _ _ ended (relied _ post allowed _ _ ended))
  | enter started =>
    intro meets
    obtain ⟨post, allowed, -⟩ := meets.1 _ started
    exact ⟨post, allowed⟩
  | @afterEnter _ opening start task bound _ machine _ _ _ ended _ ih =>
    intro meets
    obtain ⟨inside, last, started, performed, rfl⟩ | ⟨_, _, _, no⟩ | no :=
      Opening.within_cases ended
    · obtain ⟨post, allowed, continues⟩ := meets.1 inside started
      exact ih (continues _ _ performed (relied _ post allowed _ _ performed))
    · cases no
    · cases no

/-- An error of a plan is raised in one of its own steps, or by an activity that it comes to. -/
theorem fault_or_begins {plan : Plan α} {rank : Nat × Nat × Nat} (below : plan.Below rank) :
    ∀ {machine after : Machine} {error : RunError}, plan.Meets contract fault final machine →
      plan.run machine = (.error error, after) →
      fault error ∨ ∃ activity post last, plan.Begins machine activity ∧
        Rank.Below (activity.task.rank activity.bound) rank ∧ contract.allows activity post ∧
        activity.outcome = (.error error, last) := by
  induction plan with
  | done value =>
    intro machine after error meets ended
    cases ended
  | step work next ih =>
    intro machine after error meets ended
    obtain failed | ⟨middle, between, first, rest⟩ := Eval.error_of_bind ended
    · exact .inl (meets.2 _ _ failed)
    · obtain here | ⟨activity, post, last, begins, found⟩ :=
        ih middle (below middle) (meets.1 middle between first) rest
      · exact .inl here
      · exact .inr ⟨activity, post, last, .step first begins, found⟩
  | call task bound next ih =>
    intro machine after error meets ended
    obtain ⟨post, allowed, continues⟩ := meets
    obtain failed | ⟨middle, between, first, rest⟩ := Eval.error_of_bind ended
    · exact .inr ⟨⟨task, bound, machine⟩, post, after, .call, below.1, allowed, failed⟩
    · have holds := relied ⟨task, bound, machine⟩ post allowed middle between first
      obtain here | ⟨activity, post, last, begins, found⟩ :=
        ih middle (below.2 middle) (continues middle between first holds) rest
      · exact .inl here
      · exact .inr ⟨activity, post, last, .afterCall first begins, found⟩
  | enter opening start task bound next ih =>
    intro machine after error meets ended
    obtain failed | ⟨middle, between, first, rest⟩ := Eval.error_of_bind ended
    · obtain ⟨inside, last, started, performed, -⟩ | ⟨_, last, failed, same⟩ | no :=
        Opening.within_cases failed
      · obtain ⟨post, allowed, -⟩ := meets.1 inside started
        exact .inr ⟨⟨task, bound, inside⟩, post, last, .enter started, below.1, allowed, performed⟩
      · cases same
        exact .inl (meets.2 _ _ failed)
      · cases no
    · obtain ⟨inside, last, started, performed, rfl⟩ | ⟨_, _, _, no⟩ | no :=
        Opening.within_cases first
      · obtain ⟨post, allowed, continues⟩ := meets.1 inside started
        have holds := relied ⟨task, bound, inside⟩ post allowed middle last performed
        obtain here | ⟨activity, post, last, begins, found⟩ :=
          ih middle (below.2 middle) (continues middle last performed holds) rest
        · exact .inl here
        · exact .inr ⟨activity, post, last, .afterEnter first begins, found⟩
      · cases no
      · cases no

end Plan.Meets

namespace Contract.Obeyed

variable {contract : Contract}

/-- Activities allowed by an obeyed contract end as it says. -/
theorem post_of_value (obeyed : contract.Obeyed) (activity : Activity) :
    ∀ post, contract.allows activity post →
      ∀ value after, activity.outcome = (.value value, after) → post value after := by
  induction activity using
      (InvImage.wf (fun a : Activity => a.task.rank a.bound) Rank.below_wf).induction with
  | _ activity ih =>
    intro post allowed value after ended
    rw [Activity.outcome, Task.perform_eq_run] at ended
    exact (obeyed activity post allowed).final_of_value (Task.plan_below _ _)
      (fun smaller post below => ih smaller below post) ended

/-- What an allowed activity comes to is allowed. -/
theorem allows_of_reached (obeyed : contract.Obeyed) {first last : Activity}
    {post : first.result → Machine → Prop} (allowed : contract.allows first post)
    (reached : Relation.ReflTransGen Activity.Begins first last) :
    ∃ post, contract.allows last post := by
  induction reached with
  | refl => exact ⟨post, allowed⟩
  | tail _ begins ih =>
    obtain ⟨post, allowed⟩ := ih
    exact (obeyed _ post allowed).allows_of_begins obeyed.post_of_value begins

/-- An error of an allowed activity is the fault of one that it comes to. -/
theorem fault_of_error (obeyed : contract.Obeyed) {error : RunError} (activity : Activity) :
    ∀ post after, contract.allows activity post → activity.outcome = (.error error, after) →
      ∃ culprit, Relation.ReflTransGen Activity.Begins activity culprit ∧
        contract.fault culprit error := by
  induction activity using
      (InvImage.wf (fun a : Activity => a.task.rank a.bound) Rank.below_wf).induction with
  | _ activity ih =>
    intro post after allowed ended
    rw [Activity.outcome, Task.perform_eq_run] at ended
    obtain here | ⟨part, post, last, begins, below, allowed, failed⟩ :=
      (obeyed activity post allowed).fault_or_begins obeyed.post_of_value
        (Task.plan_below _ _) ended
    · exact ⟨activity, .refl, here⟩
    · obtain ⟨culprit, reached, faulty⟩ := ih part below post last allowed failed
      exact ⟨culprit, reached.head begins, faulty⟩

end Contract.Obeyed

end Primer
