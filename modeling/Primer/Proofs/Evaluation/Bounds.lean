import Primer.Proofs.Evaluation.Activity

/-!
# Bounds do not show in what ends

A run takes a bound on how deep its calls nest and how often its loops go round.  The bound decides
whether the run comes to an end, and nothing else: a run that ends within a bound ends in the same
way within every larger one (`Program.run_of_le`).  So one may speak of how a program ends.
-/

namespace Primer

namespace Eval

variable {α β : Type}

/-- Wherever `step` comes to an end, `longer` does the same. -/
def Outlasts (longer step : Eval α) : Prop :=
  ∀ machine, (step machine).1 ≠ .exhausted → longer machine = step machine

namespace Outlasts

theorem refl (step : Eval α) : Outlasts step step :=
  fun _ _ => rfl

/-- A step that never ends is outlasted by every other. -/
theorem exhausted (longer : Eval α) : Outlasts longer exhausted :=
  fun _ ends => absurd rfl ends

theorem bind {first first' : Eval α} {next next' : α → Eval β} (head : Outlasts first' first)
    (tail : ∀ value, Outlasts (next' value) (next value)) :
    Outlasts (first' >>= next') (first >>= next) := by
  intro machine ends
  rcases ended : first machine with ⟨value | error | -, between⟩
  · have same := (head machine (by rw [ended]; exact nofun)).trans ended
    rw [bind_of_value ended] at ends ⊢
    rw [bind_of_value same]
    exact tail value between ends
  · have same := (head machine (by rw [ended]; exact nofun)).trans ended
    rw [bind_of_error ended, bind_of_error same]
  · rw [bind_of_exhausted ended] at ends
    exact absurd rfl ends

theorem truth {step longer : Eval Value} (outlasts : Outlasts longer step) :
    Outlasts (truth longer) (truth step) :=
  outlasts.bind fun _ => refl _

theorem nested {step longer : Eval α} (outlasts : Outlasts longer step) :
    Outlasts (nested longer) (nested step) := by
  intro machine ends
  have same := outlasts ⟨machine.scope.push, machine.effects⟩ ends
  simp only [Eval.nested, same]

theorem atRoot {step longer : Eval α} (outlasts : Outlasts longer step) :
    Outlasts (atRoot longer) (atRoot step) := by
  intro machine ends
  have same := outlasts ⟨machine.scope.rootOnly, machine.effects⟩ ends
  simp only [Eval.atRoot, same]

theorem unlessReturned {next next' : Eval Completion} (outlasts : Outlasts next' next)
    (completion : Completion) :
    Outlasts (unlessReturned next' completion) (unlessReturned next completion) := by
  cases completion with
  | completed => exact outlasts
  | returned value => exact refl _

theorem forEach {body body' : Eval Completion} (outlasts : Outlasts body' body) (name : String)
    (count : Nat) (current : Int) :
    Outlasts (forEach name body' count current) (forEach name body count current) := by
  induction count generalizing current with
  | zero => exact refl _
  | succ count ih =>
    rw [forEach_succ, forEach_succ]
    refine (nested ?_).bind (unlessReturned (ih (current + 1)))
    exact (refl _).bind fun _ => outlasts

theorem whileTrue {condition condition' : Eval Bool} {body body' : Eval Completion}
    (asks : Outlasts condition' condition) (outlasts : Outlasts body' body) {bound bound' : Nat}
    (le : bound ≤ bound') :
    Outlasts (whileTrue condition' body' bound') (whileTrue condition body bound) := by
  induction bound generalizing bound' with
  | zero => exact exhausted _
  | succ bound ih =>
    match bound', le with
    | bound' + 1, le =>
      rw [whileTrue_succ, whileTrue_succ]
      refine asks.bind fun truth => ?_
      cases truth with
      | false => exact refl _
      | true => exact (nested outlasts).bind (unlessReturned (ih (Nat.le_of_succ_le_succ le)))

theorem each {ι : Type} {step step' : ι → Eval Unit} (outlasts : ∀ i, Outlasts (step' i) (step i))
    (items : List ι) : Outlasts (each step' items) (each step items) := by
  induction items with
  | nil => exact refl _
  | cons item items ih => exact (outlasts item).bind fun _ => ih

end Outlasts

end Eval

open Eval

/-! ## Expressions and statements -/

/-- Calls that go on for longer. -/
def MethodCall.Outlasts (longer call : MethodCall) : Prop :=
  ∀ method values, Eval.Outlasts (longer method values) (call method values)

variable {call longer : MethodCall} {rounds rounds' : Nat}

theorem FunctionBody.apply_outlasts (calls : longer.Outlasts call) (function : FunctionBody)
    (values : List Value) :
    Outlasts (function.apply longer values) (function.apply call values) := by
  cases function with
  | native body => exact .refl _
  | defined method => exact calls method values

mutual

theorem Expression.evaluate_outlasts (calls : longer.Outlasts call) :
    (e : Expression) → Outlasts (e.evaluate longer) (e.evaluate call)
  | .literal _ value => by
    rw [Expression.evaluate, Expression.evaluate]
    exact .refl _
  | .group _ inner => by
    rw [Expression.evaluate, Expression.evaluate]
    exact Expression.evaluate_outlasts calls inner
  | .binary _ operator left right => by
    have first := Expression.evaluate_outlasts calls left
    have second := Expression.evaluate_outlasts calls right
    cases operator
    case and | or =>
      rw [Expression.evaluate, Expression.evaluate]
      refine first.truth.bind fun truth => ?_
      cases truth
      all_goals first
        | exact .refl _
        | exact second.truth.bind fun _ => .refl _
    all_goals
      simp only [Expression.evaluate]
      exact first.bind fun _ => second.bind fun _ => .refl _
  | .access _ name _ => by
    rw [Expression.evaluate, Expression.evaluate]
    exact .refl _
  | .memberAccess _ receiver name _ => by
    rw [Expression.evaluate, Expression.evaluate]
    exact (Expression.evaluate_outlasts calls receiver).bind fun _ => .refl _
  | .call _ name arguments _ => by
    rw [Expression.evaluate, Expression.evaluate]
    refine (Expression.evaluateAll_outlasts calls arguments).bind fun values => ?_
    exact (Outlasts.refl _).bind fun function => function.apply_outlasts calls values
  | .memberCall _ receiver name arguments _ => by
    rw [Expression.evaluate, Expression.evaluate]
    refine (Expression.evaluate_outlasts calls receiver).bind fun _ => ?_
    exact (Expression.evaluateAll_outlasts calls arguments).bind fun _ => .refl _

theorem Expression.evaluateAll_outlasts (calls : longer.Outlasts call) : (es : List Expression) →
    Outlasts (Expression.evaluateAll longer es) (Expression.evaluateAll call es)
  | [] => by
    rw [Expression.evaluateAll, Expression.evaluateAll]
    exact .refl _
  | e :: es => by
    rw [Expression.evaluateAll, Expression.evaluateAll]
    refine (Expression.evaluate_outlasts calls e).bind fun _ => ?_
    exact (Expression.evaluateAll_outlasts calls es).bind fun _ => .refl _

end

theorem Declaration.execute_outlasts (calls : longer.Outlasts call) (decl : Declaration) :
    Outlasts (decl.execute longer) (decl.execute call) := by
  rcases decl with ⟨name, typeName, _ | value, span, binding⟩
  · exact .refl _
  · exact (value.evaluate_outlasts calls).bind fun _ => .refl _

theorem Expression.assign_outlasts (calls : longer.Outlasts call) (target value : Expression) :
    Outlasts (target.assign longer value) (target.assign call value) := by
  have valued := value.evaluate_outlasts calls
  cases target
  case access => exact valued.bind fun _ => .refl _
  case memberAccess receiver _ _ =>
    exact (receiver.evaluate_outlasts calls).bind fun _ => valued.bind fun _ => .refl _
  all_goals exact .refl _

mutual

theorem Statement.execute_outlasts (calls : longer.Outlasts call) (le : rounds ≤ rounds') :
    (s : Statement) → Outlasts (s.execute longer rounds') (s.execute call rounds)
  | .expression value => by
    rw [Statement.execute, Statement.execute]
    exact (value.evaluate_outlasts calls).bind fun _ => .refl _
  | .declaration decl => by
    rw [Statement.execute, Statement.execute]
    exact (decl.execute_outlasts calls).bind fun _ => .refl _
  | .assignment target value => by
    rw [Statement.execute, Statement.execute]
    exact (target.assign_outlasts calls value).bind fun _ => .refl _
  | .conditional condition thenBody elseBody => by
    rw [Statement.execute, Statement.execute]
    refine (condition.evaluate_outlasts calls).truth.bind fun truth => ?_
    cases truth with
    | true => exact (Statement.executeAll_outlasts calls le thenBody).nested
    | false => exact (Statement.executeAll_outlasts calls le elseBody).nested
  | .forEach name range body => by
    rw [Statement.execute, Statement.execute]
    refine (range.evaluate_outlasts calls).bind fun value => ?_
    cases value
    case range => exact (Statement.executeAll_outlasts calls le body).forEach _ _ _
    all_goals exact .refl _
  | .loop condition body => by
    rw [Statement.execute, Statement.execute]
    exact (condition.evaluate_outlasts calls).truth.whileTrue
      (Statement.executeAll_outlasts calls le body) le
  | .result value => by
    rw [Statement.execute, Statement.execute]
    exact (value.evaluate_outlasts calls).bind fun _ => .refl _

theorem Statement.executeAll_outlasts (calls : longer.Outlasts call) (le : rounds ≤ rounds') :
    (ss : List Statement) →
    Outlasts (Statement.executeAll longer rounds' ss) (Statement.executeAll call rounds ss)
  | [] => by
    rw [Statement.executeAll, Statement.executeAll]
    exact .refl _
  | s :: ss => by
    rw [Statement.executeAll_cons, Statement.executeAll_cons]
    have rest := Statement.executeAll_outlasts calls le ss
    exact (Statement.execute_outlasts calls le s).bind rest.unlessReturned

end

/-! ## Calls and runs -/

theorem Method.call_outlasts {bound bound' : Nat} (le : bound ≤ bound') :
    MethodCall.Outlasts (Method.call bound') (Method.call bound) := by
  induction bound generalizing bound' with
  | zero => exact fun _ _ => .exhausted _
  | succ bound ih =>
    match bound', le with
    | bound' + 1, le =>
      have less := Nat.le_of_succ_le_succ le
      intro method values
      rw [Method.call, Method.call]
      split
      · have body : Outlasts
            (method.bindParameters values >>= fun _ =>
              Statement.executeAll (Method.call bound') bound' method.body)
            (method.bindParameters values >>= fun _ =>
              Statement.executeAll (Method.call bound) bound method.body) :=
          (Outlasts.refl _).bind fun _ => Statement.executeAll_outlasts (ih less) less method.body
        exact body.nested.atRoot.bind fun _ => .refl _
      · exact .refl _

theorem Program.execute_outlasts (environment : Environment) (program : Program)
    {bound bound' : Nat} (le : bound ≤ bound') :
    Outlasts (program.execute environment bound') (program.execute environment bound) := by
  have calls := Method.call_outlasts le
  refine (Outlasts.refl _).bind fun _ => ?_
  refine (Outlasts.each (fun decl => decl.execute_outlasts calls) _).bind fun _ => ?_
  refine (Outlasts.refl _).bind fun _ => (Outlasts.refl _).bind fun main => ?_
  exact (main.apply_outlasts calls []).bind fun _ => .refl _

/-- A run that ends within a bound ends in the same way within every larger one. -/
theorem Program.run_of_le {environment : Environment} {program : Program} {bound bound' : Nat}
    (le : bound ≤ bound') (ends : program.run environment bound ≠ .exhausted) :
    program.run environment bound' = program.run environment bound := by
  have same := program.execute_outlasts environment le {}
  unfold Program.run at ends ⊢
  rcases ended : program.execute environment bound {} with ⟨value | error | -, after⟩
  all_goals rw [ended] at same ends
  · rw [same nofun]
  · rw [same nofun]
  · exact absurd rfl ends

/-- Within two bounds, a program cannot come to two ends. -/
theorem Program.run_eq_of_ends {environment : Environment} {program : Program} {bound bound' : Nat}
    (ends : program.run environment bound ≠ .exhausted)
    (ends' : program.run environment bound' ≠ .exhausted) :
    program.run environment bound = program.run environment bound' := by
  rcases Nat.le_total bound bound' with le | le
  · exact (run_of_le le ends).symm
  · exact run_of_le le ends'

end Primer
