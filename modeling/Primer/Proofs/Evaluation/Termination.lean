import Primer.Proofs.Evaluation.Conservation
import Primer.Proofs.Scope.Agreement
import Primer.Proofs.Syntax.Everywhere

/-!
# Work that ends

Only two things can go on for ever: a `WHILE` loop, and methods that call each other without end.  A
`FOR` loop knows its rounds when it begins.  So if there are no `WHILE` loops and every method calls
methods with smaller numbers only, a call ends within each bound above its number, and in the same
way within all of them (`Method.call_endAlike`).
-/

namespace Primer

/-! ## Steps that end -/

theorem Outcome.value_ne_exhausted {ε α : Type} (value : α) :
    (.value value : Outcome ε α) ≠ .exhausted :=
  nofun

theorem Outcome.error_ne_exhausted {ε α : Type} (error : ε) :
    (.error error : Outcome ε α) ≠ .exhausted :=
  nofun

namespace Eval

open Outcome

variable {α β : Type} {functions : List (FunctionKey × FunctionBody)}

/-- Where the functions are `functions`, the two steps do the same, they end, and the functions
stay. -/
def EndAlike (functions : List (FunctionKey × FunctionBody)) (step step' : Eval α) : Prop :=
  ∀ machine, machine.scope.OnlyRootFunctions functions →
    step machine = step' machine ∧ (step machine).1 ≠ .exhausted ∧
      (step machine).2.scope.OnlyRootFunctions functions

theorem EndAlike.bind {first first' : Eval α} {next next' : α → Eval β}
    (head : EndAlike functions first first')
    (tail : ∀ machine value after, machine.scope.OnlyRootFunctions functions →
      first machine = (.value value, after) → EndAlike functions (next value) (next' value)) :
    EndAlike functions (first >>= next) (first' >>= next') := by
  intro machine only
  rcases head machine only with ⟨same, ends, kept⟩
  rcases ended : first machine with ⟨value | error | -, between⟩
  · rw [ended] at same kept
    rw [bind_of_value ended, bind_of_value same.symm]
    exact tail machine value between only ended between kept
  · rw [ended] at same kept
    rw [bind_of_error ended, bind_of_error same.symm]
    exact ⟨rfl, error_ne_exhausted error, kept⟩
  · rw [ended] at ends
    exact absurd rfl ends

/-- A step that cannot be exhausted and leaves the scopes alone. -/
theorem endAlike_of_scope_eq {step : Eval α}
    (keeps : ∀ machine, (step machine).1 ≠ .exhausted ∧ (step machine).2.scope = machine.scope) :
    EndAlike functions step step := by
  intro machine only
  rcases keeps machine with ⟨ends, scope_eq⟩
  rw [scope_eq]
  exact ⟨rfl, ends, only⟩

theorem endAlike_pure (value : α) : EndAlike functions (pure value) (pure value) :=
  endAlike_of_scope_eq fun _ => ⟨value_ne_exhausted value, rfl⟩

theorem endAlike_fail (error : RunError) :
    EndAlike functions (fail error : Eval α) (fail error) :=
  endAlike_of_scope_eq fun _ => ⟨error_ne_exhausted error, rfl⟩

theorem endAlike_ofExcept (result : Except RunError α) :
    EndAlike functions (ofExcept result) (ofExcept result) := by
  cases result with
  | ok value => exact endAlike_pure value
  | error error => exact endAlike_fail error

theorem endAlike_inspectScope (look : Scope Value FunctionBody → Except NamingError α) :
    EndAlike functions (inspectScope look) (inspectScope look) := by
  refine endAlike_of_scope_eq fun machine => ?_
  rw [inspectScope]
  cases look machine.scope with
  | ok value => exact ⟨value_ne_exhausted value, rfl⟩
  | error error => exact ⟨error_ne_exhausted _, rfl⟩

theorem endAlike_ofNative (code : Native Ty α) :
    EndAlike functions (ofNative code) (ofNative code) := by
  refine endAlike_of_scope_eq fun ⟨scope, effects⟩ => ?_
  dsimp only [ofNative]
  cases (code.run effects).1 with
  | ok value => exact ⟨value_ne_exhausted value, rfl⟩
  | error error => exact ⟨error_ne_exhausted error, rfl⟩

theorem endAlike_readField (owner : Value) (name : String) :
    EndAlike functions (readField owner name) (readField owner name) := by
  cases owner
  case object ref => exact endAlike_ofNative (Native.readField ref name)
  all_goals exact endAlike_fail _

theorem endAlike_writeField (owner : Value) (name : String) (value : Value) :
    EndAlike functions (writeField owner name value) (writeField owner name value) := by
  cases owner
  case object ref => exact endAlike_ofNative (Native.writeField ref name value)
  all_goals exact endAlike_fail _

theorem endAlike_callMember (owner : Value) (name : String) (values : List Value) :
    EndAlike functions (callMember owner name values) (callMember owner name values) := by
  cases owner
  case object ref =>
    intro machine only
    dsimp only [callMember]
    split
    · exact endAlike_ofNative _ machine only
    · exact ⟨rfl, error_ne_exhausted _, only⟩
  all_goals exact endAlike_fail _

/-- A change of the scopes that leaves the functions alone. -/
theorem endAlike_changeScope
    {change : Scope Value FunctionBody → Except NamingError (Scope Value FunctionBody)}
    (keeps : ∀ scope changed, scope.OnlyRootFunctions functions → change scope = .ok changed →
      changed.OnlyRootFunctions functions) :
    EndAlike functions (changeScope change) (changeScope change) := by
  intro machine only
  rw [changeScope]
  cases changed : change machine.scope with
  | ok scope => exact ⟨rfl, value_ne_exhausted (), keeps _ _ only changed⟩
  | error error => exact ⟨rfl, error_ne_exhausted _, only⟩

theorem endAlike_addVariable (name : String) (value : Value) :
    EndAlike functions (changeScope (·.addVariable name value))
      (changeScope (·.addVariable name value)) :=
  endAlike_changeScope fun _ _ only added => only.addVariable added

theorem endAlike_assign (name : String) (value : Value) :
    EndAlike functions (changeScope (·.assign name value)) (changeScope (·.assign name value)) :=
  endAlike_changeScope fun _ _ only assigned => only.assign assigned

theorem endAlike_bindParameters (method : Method) (values : List Value) :
    EndAlike functions (method.bindParameters values) (method.bindParameters values) := by
  refine endAlike_changeScope fun scope changed only folded => ?_
  generalize method.parameters.zip values = pairs at folded
  induction pairs generalizing scope with
  | nil =>
    cases folded
    exact only
  | cons pair pairs ih =>
    rw [List.foldlM_cons] at folded
    rcases exists_of_bind_eq_ok folded with ⟨between, added, rest⟩
    exact ih between (only.addVariable added) rest

theorem EndAlike.nested {body body' : Eval α} (inside : EndAlike functions body body') :
    EndAlike functions (nested body) (nested body') := by
  rintro ⟨scope, effects⟩ only
  rcases inside ⟨scope.push, effects⟩ only.push with ⟨same, ends, kept⟩
  exact ⟨by simp only [Eval.nested, same], ends, kept.pop⟩

theorem EndAlike.atRoot {body body' : Eval α} (inside : EndAlike functions body body') :
    EndAlike functions (atRoot body) (atRoot body') := by
  rintro ⟨scope, effects⟩ only
  rcases inside ⟨scope.rootOnly, effects⟩ only.rootOnly with ⟨same, ends, kept⟩
  exact ⟨by simp only [Eval.atRoot, same], ends, kept.withInner only⟩

theorem EndAlike.truth {step step' : Eval Value} (asked : EndAlike functions step step') :
    EndAlike functions (truth step) (truth step') :=
  asked.bind fun _ _ _ _ _ => endAlike_ofExcept _

theorem EndAlike.unlessReturned {next next' : Eval Completion}
    (going : EndAlike functions next next') (completion : Completion) :
    EndAlike functions (unlessReturned next completion) (unlessReturned next' completion) := by
  cases completion with
  | completed => exact going
  | returned value => exact endAlike_pure _

/-- The rounds of a `FOR` loop are counted before the first one. -/
theorem EndAlike.forEach {body body' : Eval Completion} (inside : EndAlike functions body body')
    (name : String) (count : Nat) (current : Int) :
    EndAlike functions (forEach name body count current) (forEach name body' count current) := by
  induction count generalizing current with
  | zero => exact endAlike_pure _
  | succ count ih =>
    rw [forEach_succ, forEach_succ]
    have round := (endAlike_addVariable name (.integer current)).bind fun _ _ _ _ _ => inside
    exact round.nested.bind fun _ completion _ _ _ => (ih (current + 1)).unlessReturned completion

theorem EndAlike.each {step step' : α → Eval Unit} {items : List α}
    (one : ∀ item ∈ items, EndAlike functions (step item) (step' item)) :
    EndAlike functions (each step items) (each step' items) := by
  induction items with
  | nil => exact endAlike_pure _
  | cons item items ih =>
    rcases List.forall_mem_cons.mp one with ⟨first, others⟩
    exact first.bind fun _ _ _ _ _ => ih others

end Eval

open Eval

/-! ## Expressions and statements -/

section

variable {functions : List (FunctionKey × FunctionBody)} {call call' : MethodCall}

/-- If the expression is a call and leads to a method of the program, then this call ends. -/
def Expression.CallEnds (functions : List (FunctionKey × FunctionBody)) (call call' : MethodCall) :
    Expression → Prop
  | .call _ name args _ => ∀ method,
    functions.lookup ⟨name, args.length⟩ = some (.defined method) →
      ∀ values, EndAlike functions (call method values) (call' method values)
  | _ => True

namespace Expression

theorem apply_endAlike {function : FunctionBody} {values : List Value}
    (ends : ∀ method, function = .defined method →
      EndAlike functions (call method values) (call' method values)) :
    EndAlike functions (function.apply call values) (function.apply call' values) := by
  cases function with
  | native body => exact endAlike_ofNative _
  | defined method => exact ends method rfl

mutual

theorem evaluate_endAlike : (e : Expression) →
    (∀ part ∈ e.parts, part.CallEnds functions call call') →
    EndAlike functions (e.evaluate call) (e.evaluate call')
  | .literal _ value, _ => by
    rw [evaluate, evaluate]
    exact endAlike_pure _
  | .group _ inner, ends => by
    rw [evaluate, evaluate]
    exact evaluate_endAlike inner (List.forall_mem_cons.mp ends).2
  | .binary _ operator left right, ends => by
    rcases List.forall_mem_append.mp (List.forall_mem_cons.mp ends).2 with ⟨onLeft, onRight⟩
    have first := evaluate_endAlike left onLeft
    have second := evaluate_endAlike right onRight
    cases operator
    case and | or =>
      rw [evaluate, evaluate]
      refine first.truth.bind fun _ truth _ _ _ => ?_
      cases truth
      all_goals first
        | exact endAlike_pure _
        | exact second.truth.bind fun _ _ _ _ _ => endAlike_pure _
    all_goals
      simp only [evaluate]
      exact first.bind fun _ _ _ _ _ => second.bind fun _ _ _ _ _ => endAlike_ofExcept _
  | .access _ name _, _ => by
    rw [evaluate, evaluate]
    exact endAlike_inspectScope _
  | .memberAccess _ receiver name _, ends => by
    have owned := evaluate_endAlike receiver (List.forall_mem_cons.mp ends).2
    rw [evaluate, evaluate]
    exact owned.bind fun _ _ _ _ _ => endAlike_readField _ _
  | .call _ name args _, ends => by
    rcases List.forall_mem_cons.mp ends with ⟨here, onArgs⟩
    rw [evaluate, evaluate]
    refine (evaluateAll_endAlike args onArgs).bind fun _ values _ _ evaluated => ?_
    refine (endAlike_inspectScope _).bind fun machine function _ only found => ?_
    refine apply_endAlike fun method same => here method ?_ values
    rw [← length_of_evaluateAll evaluated, ← same]
    apply only.getFunction.mp
    rw [inspectScope] at found
    cases looked : machine.scope.getFunction ⟨name, values.length⟩ with
    | ok function' => rw [looked] at found; cases found; rfl
    | error => rw [looked] at found; cases found
  | .memberCall _ receiver name args _, ends => by
    rcases List.forall_mem_append.mp (List.forall_mem_cons.mp ends).2 with ⟨onReceiver, onArgs⟩
    rw [evaluate, evaluate]
    refine (evaluate_endAlike receiver onReceiver).bind fun _ owner _ _ _ => ?_
    exact (evaluateAll_endAlike args onArgs).bind fun _ _ _ _ _ => endAlike_callMember _ _ _

theorem evaluateAll_endAlike : (es : List Expression) →
    (∀ part ∈ allParts es, part.CallEnds functions call call') →
    EndAlike functions (evaluateAll call es) (evaluateAll call' es)
  | [], _ => by
    rw [evaluateAll, evaluateAll]
    exact endAlike_pure _
  | e :: es, ends => by
    rcases List.forall_mem_append.mp ends with ⟨first, others⟩
    rw [evaluateAll, evaluateAll]
    refine (evaluate_endAlike e first).bind fun _ value _ _ _ => ?_
    exact (evaluateAll_endAlike es others).bind fun _ _ _ _ _ => endAlike_pure _

end

end Expression

mutual

/-- There is no `WHILE` loop in the statement. -/
def Statement.loopFree : Statement → Bool
  | .conditional _ thenBody elseBody =>
    Statement.allLoopFree thenBody && Statement.allLoopFree elseBody
  | .forEach _ _ body => Statement.allLoopFree body
  | .loop .. => false
  | .expression _ | .declaration _ | .assignment .. | .result _ => true

def Statement.allLoopFree : List Statement → Bool
  | [] => true
  | s :: ss => s.loopFree && Statement.allLoopFree ss

end

theorem Declaration.execute_endAlike {decl : Declaration}
    (ends : ∀ e ∈ decl.expressions, e.CallEnds functions call call') :
    EndAlike functions (decl.execute call) (decl.execute call') := by
  rcases decl with ⟨name, typeName, _ | value, span, binding⟩
  · exact (endAlike_pure Value.nil).bind fun _ _ _ _ _ => endAlike_addVariable _ _
  · have valued := value.evaluate_endAlike fun part member =>
      ends part (List.mem_flatMap.mpr ⟨value, List.mem_singleton_self _, member⟩)
    exact valued.bind fun _ _ _ _ _ => endAlike_addVariable _ _

theorem Expression.assign_endAlike {target value : Expression}
    (ends : ∀ e ∈ target.parts ++ value.parts, e.CallEnds functions call call') :
    EndAlike functions (target.assign call value) (target.assign call' value) := by
  rcases List.forall_mem_append.mp ends with ⟨onTarget, onValue⟩
  have valued := value.evaluate_endAlike onValue
  cases target
  case access => exact valued.bind fun _ _ _ _ _ => endAlike_assign _ _
  case memberAccess receiver _ _ =>
    have owned := receiver.evaluate_endAlike (List.forall_mem_cons.mp onTarget).2
    exact owned.bind fun _ _ _ _ _ => valued.bind fun _ _ _ _ _ => endAlike_writeField _ _ _
  all_goals exact endAlike_fail _

namespace Statement

mutual

theorem execute_endAlike (rounds rounds' : Nat) : (s : Statement) → s.loopFree = true →
    (∀ e ∈ s.expressions, e.CallEnds functions call call') →
    EndAlike functions (s.execute call rounds) (s.execute call' rounds')
  | .expression value, _, ends => by
    rw [execute, execute]
    exact (value.evaluate_endAlike ends).bind fun _ _ _ _ _ => endAlike_pure _
  | .declaration decl, _, ends => by
    rw [execute, execute]
    exact (Declaration.execute_endAlike ends).bind fun _ _ _ _ _ => endAlike_pure _
  | .assignment target value, _, ends => by
    rw [execute, execute]
    exact (Expression.assign_endAlike ends).bind fun _ _ _ _ _ => endAlike_pure _
  | .conditional condition thenBody elseBody, free, ends => by
    rcases Bool.and_eq_true_iff.mp free with ⟨freeThen, freeElse⟩
    rcases List.forall_mem_append.mp ends with ⟨onCondition, inside⟩
    rcases List.forall_mem_append.mp inside with ⟨onThen, onElse⟩
    rw [execute, execute]
    refine (condition.evaluate_endAlike onCondition).truth.bind fun _ truth _ _ _ => ?_
    cases truth with
    | true => exact (executeAll_endAlike rounds rounds' thenBody freeThen onThen).nested
    | false => exact (executeAll_endAlike rounds rounds' elseBody freeElse onElse).nested
  | .forEach name range body, free, ends => by
    rcases List.forall_mem_append.mp ends with ⟨onRange, onBody⟩
    rw [execute, execute]
    refine (range.evaluate_endAlike onRange).bind fun _ value _ _ _ => ?_
    cases value
    case range => exact (executeAll_endAlike rounds rounds' body free onBody).forEach _ _ _
    all_goals exact endAlike_fail _
  | .loop _ _, free, _ => nomatch free
  | .result value, _, ends => by
    rw [execute, execute]
    exact (value.evaluate_endAlike ends).bind fun _ _ _ _ _ => endAlike_pure _

theorem executeAll_endAlike (rounds rounds' : Nat) : (ss : List Statement) →
    allLoopFree ss = true →
    (∀ e ∈ allExpressions ss, e.CallEnds functions call call') →
    EndAlike functions (executeAll call rounds ss) (executeAll call' rounds' ss)
  | [], _, _ => by
    rw [executeAll, executeAll]
    exact endAlike_pure _
  | s :: ss, free, ends => by
    rcases Bool.and_eq_true_iff.mp free with ⟨freeFirst, freeOthers⟩
    rcases List.forall_mem_append.mp ends with ⟨first, others⟩
    rw [executeAll_cons, executeAll_cons]
    refine (execute_endAlike rounds rounds' s freeFirst first).bind fun _ completion _ _ _ => ?_
    exact (executeAll_endAlike rounds rounds' ss freeOthers others).unlessReturned completion

end

end Statement

end

/-! ## Calls -/

/-- A call of the expression leads to methods with smaller numbers only. -/
def Expression.CallsBelow (functions : List (FunctionKey × FunctionBody)) (methods : List Method)
    (number : Nat) : Expression → Prop
  | .call _ name args _ => ∀ method,
    functions.lookup ⟨name, args.length⟩ = some (.defined method) →
      ∃ smaller < number, methods[smaller]? = some method
  | _ => True

/-- If methods call methods with smaller numbers only, a call within a bound above the number of the
method ends, and the bound plays no part. -/
theorem Method.call_endAlike {functions : List (FunctionKey × FunctionBody)} {methods : List Method}
    (free : ∀ method ∈ methods, Statement.allLoopFree method.body = true)
    (below : ∀ number method, methods[number]? = some method →
      ∀ e ∈ Statement.allExpressions method.body, e.CallsBelow functions methods number)
    (number : Nat) : ∀ method bound bound' values, methods[number]? = some method →
      number < bound → number < bound' →
      EndAlike functions (method.call bound values) (method.call bound' values) := by
  induction number using Nat.strongRecOn with
  | _ number ih =>
    intro method bound bound' values found above above'
    rcases bound with _ | bound
    · omega
    rcases bound' with _ | bound'
    · omega
    have ends : ∀ e ∈ Statement.allExpressions method.body,
        e.CallEnds functions (Method.call bound) (Method.call bound') := by
      intro e member
      have calls := below number method found e member
      cases e
      case call =>
        intro callee looked values
        rcases calls callee looked with ⟨smaller, less, found⟩
        exact ih smaller less callee bound bound' values found (by omega) (by omega)
      all_goals trivial
    rw [Method.call, Method.call]
    split
    · have body := (endAlike_bindParameters method values).bind fun _ _ _ _ _ =>
        Statement.executeAll_endAlike bound bound' method.body
          (free method (List.mem_of_getElem? found)) ends
      exact body.nested.atRoot.bind fun _ _ _ _ _ => endAlike_pure _
    · exact endAlike_fail _

end Primer
