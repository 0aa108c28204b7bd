import Primer.Proofs.Evaluation.Activity
import Primer.Proofs.Typing.Inversion

/-!
# What every step of a run conserves

A step may end with a value, with an error or not at all, and it leaves a machine in every case.
`Eval.Conserves` says that this machine is related to the one before, however the step ended.

A run has two kinds of work: expressions, which open frames only to close them again, and
statements, which also bind variables in the frame where they stand.  `Regime` asks of two
relations, one for each kind, what has to be known about single steps.  Then all expressions and
all statements keep them, through calls, loops, early returns and errors
(`Regime.evaluate`, `Regime.execute`).
-/

namespace Primer

namespace Eval

variable {α β : Type} {R S : Machine → Machine → Prop}

/-- However the step ends, the machine it leaves is related to the one it began with. -/
def Conserves (R : Machine → Machine → Prop) (step : Eval α) : Prop :=
  ∀ machine, R machine (step machine).2

theorem Conserves.mono (weaken : ∀ before after, R before after → S before after) {step : Eval α}
    (conserves : Conserves R step) : Conserves S step :=
  fun machine => weaken _ _ (conserves machine)

theorem Conserves.bind (trans : ∀ a b c, R a b → R b c → R a c) {first : Eval α}
    {next : α → Eval β} (head : Conserves R first) (tail : ∀ value, Conserves R (next value)) :
    Conserves R (first >>= next) := by
  intro machine
  have begun := head machine
  rcases ended : first machine with ⟨value | error | -, between⟩
  · rw [bind_of_value ended]
    rw [ended] at begun
    exact trans _ _ _ begun (tail value between)
  · rw [bind_of_error ended]
    rwa [ended] at begun
  · rw [bind_of_exhausted ended]
    rwa [ended] at begun

/-- A step that leaves the machine as it was. -/
def Still (step : Eval α) : Prop :=
  ∀ machine, (step machine).2 = machine

theorem Still.conserves (refl : ∀ machine, R machine machine) {step : Eval α} (still : Still step) :
    Conserves R step := by
  intro machine
  rw [still machine]
  exact refl machine

theorem still_pure (value : α) : Still (pure value) :=
  fun _ => rfl

theorem still_fail (error : RunError) : Still (fail error : Eval α) :=
  fun _ => rfl

theorem still_exhausted : Still (exhausted : Eval α) :=
  fun _ => rfl

theorem still_ofExcept (result : Except RunError α) : Still (ofExcept result) := by
  cases result <;> exact fun _ => rfl

theorem still_inspectScope (look : Scope Value FunctionBody → Except NamingError α) :
    Still (inspectScope look) := by
  intro machine
  rw [inspectScope]
  cases look machine.scope <;> rfl

end Eval

open Eval

/-- What has to be known about single steps, so that all expressions keep `E` and all statements
keep `S`. -/
structure Regime (E S : Machine → Machine → Prop) : Prop where
  refl : ∀ machine, E machine machine
  trans : ∀ a b c, E a b → E b c → E a c
  weaken : ∀ before after, E before after → S before after
  join : ∀ a b c, S a b → S b c → S a c
  native : ∀ {α : Type} (code : Native Ty α), Conserves E (ofNative code)
  declare : ∀ name value, Conserves S (changeScope (·.addVariable name value))
  assign : ∀ name value, Conserves S (changeScope (·.assign name value))
  nested : ∀ {α : Type} {body : Eval α}, Conserves S body → Conserves S (nested body)
  called : ∀ {α : Type} {body : Eval α}, Conserves S body → Conserves E (atRoot (Eval.nested body))

namespace Regime

variable {α β : Type} {E S : Machine → Machine → Prop} (regime : Regime E S)

include regime

/-! ## Steps -/

theorem still {step : Eval α} (still : Still step) : Conserves E step :=
  still.conserves regime.refl

theorem lift {step : Eval α} (conserves : Conserves E step) : Conserves S step :=
  conserves.mono regime.weaken

theorem idle {step : Eval α} (still : Still step) : Conserves S step :=
  regime.lift (regime.still still)

theorem bind {first : Eval α} {next : α → Eval β} (head : Conserves E first)
    (tail : ∀ value, Conserves E (next value)) : Conserves E (first >>= next) :=
  head.bind regime.trans tail

theorem andThen {first : Eval α} {next : α → Eval β} (head : Conserves S first)
    (tail : ∀ value, Conserves S (next value)) : Conserves S (first >>= next) :=
  head.bind regime.join tail

theorem readField (owner : Value) (name : String) : Conserves E (readField owner name) := by
  cases owner
  case object ref => exact regime.native _
  all_goals exact regime.still (still_fail _)

theorem writeField (owner : Value) (name : String) (value : Value) :
    Conserves E (writeField owner name value) := by
  cases owner
  case object ref => exact regime.native _
  all_goals exact regime.still (still_fail _)

theorem callMember (owner : Value) (name : String) (values : List Value) :
    Conserves E (callMember owner name values) := by
  cases owner
  case object ref =>
    intro machine
    dsimp only [Eval.callMember]
    split
    · exact regime.native _ machine
    · exact regime.refl machine
  all_goals exact regime.still (still_fail _)

theorem truth {step : Eval Value} (conserves : Conserves E step) : Conserves E (truth step) :=
  regime.bind conserves fun _ => regime.still (still_ofExcept _)

/-- Binding several variables is binding one after the other. -/
theorem addVariables (pairs : List (Parameter × Value)) (machine : Machine) (scope : Scope _ _)
    (folded : pairs.foldlM (fun scope (parameter, value) => scope.addVariable parameter.name value)
      machine.scope = .ok scope) : S machine { machine with scope } := by
  induction pairs generalizing machine with
  | nil =>
    cases folded
    exact regime.weaken _ _ (regime.refl machine)
  | cons pair pairs ih =>
    obtain ⟨parameter, value⟩ := pair
    rw [List.foldlM_cons] at folded
    obtain ⟨between, added, rest⟩ := exists_of_bind_eq_ok folded
    dsimp only at added
    have first := regime.declare parameter.name value machine
    rw [changeScope, added] at first
    exact regime.join _ _ _ first (ih { machine with scope := between } rest)

/-- If one of the variables cannot be bound, none is. -/
theorem bindParameters (method : Method) (values : List Value) :
    Conserves S (method.bindParameters values) := by
  intro machine
  rw [Method.bindParameters, changeScope]
  split
  · rename_i scope folded
    exact regime.addVariables _ machine scope folded
  · exact regime.weaken _ _ (regime.refl machine)

/-! ## Loops -/

theorem forEach {body : Eval Completion} (conserves : Conserves S body) (name : String)
    (count : Nat) (current : Int) : Conserves S (forEach name body count current) := by
  induction count generalizing current with
  | zero => exact regime.idle (still_pure _)
  | succ count ih =>
    rw [forEach_succ]
    have round := regime.nested (regime.andThen (regime.declare name (.integer current))
      fun _ => conserves)
    refine regime.andThen round fun completion => ?_
    cases completion with
    | completed => exact ih (current + 1)
    | returned value => exact regime.idle (still_pure _)

theorem whileTrue {condition : Eval Bool} {body : Eval Completion} (asks : Conserves E condition)
    (conserves : Conserves S body) (bound : Nat) :
    Conserves S (whileTrue condition body bound) := by
  induction bound with
  | zero => exact regime.idle still_exhausted
  | succ bound ih =>
    rw [whileTrue_succ]
    refine regime.andThen (regime.lift asks) fun truth => ?_
    cases truth with
    | false => exact regime.idle (still_pure _)
    | true =>
      refine regime.andThen (regime.nested conserves) fun completion => ?_
      cases completion with
      | completed => exact ih
      | returned value => exact regime.idle (still_pure _)

/-! ## Expressions and statements -/

variable {call : MethodCall}

theorem apply (calls : ∀ method values, Conserves E (call method values))
    (function : FunctionBody) (values : List Value) :
    Conserves E (function.apply call values) := by
  cases function with
  | native body => exact regime.native _
  | defined method => exact calls method values

mutual

theorem evaluateUsing (calls : ∀ method values, Conserves E (call method values)) :
    (e : Expression) → Conserves E (e.evaluate call)
  | .literal _ value => by
    rw [Expression.evaluate]
    exact regime.still (still_pure _)
  | .group _ inner => by
    rw [Expression.evaluate]
    exact evaluateUsing calls inner
  | .binary _ operator left right => by
    have first := evaluateUsing calls left
    have second := evaluateUsing calls right
    cases operator
    case and | or =>
      rw [Expression.evaluate]
      refine regime.bind (regime.truth first) fun truth => ?_
      cases truth
      all_goals first
        | exact regime.still (still_pure _)
        | exact regime.bind (regime.truth second) fun _ => regime.still (still_pure _)
    all_goals
      simp only [Expression.evaluate]
      exact regime.bind first fun _ => regime.bind second fun _ => regime.still (still_ofExcept _)
  | .access _ name _ => by
    rw [Expression.evaluate]
    exact regime.still (still_inspectScope _)
  | .memberAccess _ receiver name _ => by
    rw [Expression.evaluate]
    exact regime.bind (evaluateUsing calls receiver) fun _ => regime.readField _ _
  | .call _ name arguments _ => by
    rw [Expression.evaluate]
    refine regime.bind (evaluateAllUsing calls arguments) fun values => ?_
    exact regime.bind (regime.still (still_inspectScope _)) fun _ => regime.apply calls _ _
  | .memberCall _ receiver name arguments _ => by
    rw [Expression.evaluate]
    refine regime.bind (evaluateUsing calls receiver) fun owner => ?_
    exact regime.bind (evaluateAllUsing calls arguments) fun _ => regime.callMember _ _ _

theorem evaluateAllUsing (calls : ∀ method values, Conserves E (call method values)) :
    (es : List Expression) → Conserves E (Expression.evaluateAll call es)
  | [] => by
    rw [Expression.evaluateAll]
    exact regime.still (still_pure _)
  | e :: es => by
    rw [Expression.evaluateAll]
    refine regime.bind (evaluateUsing calls e) fun value => ?_
    exact regime.bind (evaluateAllUsing calls es) fun _ => regime.still (still_pure _)

end

theorem declaration (calls : ∀ method values, Conserves E (call method values))
    (decl : Declaration) : Conserves S (decl.execute call) := by
  have declares := regime.declare decl.name
  rw [Declaration.execute]
  cases decl.value with
  | none => exact regime.andThen (regime.idle (still_pure _)) declares
  | some value => exact regime.andThen (regime.lift (regime.evaluateUsing calls value)) declares

theorem assignment (calls : ∀ method values, Conserves E (call method values))
    (target value : Expression) : Conserves S (target.assign call value) := by
  have valued := regime.lift (regime.evaluateUsing calls value)
  unfold Expression.assign
  split
  · exact regime.andThen valued fun _ => regime.assign _ _
  · rename_i receiver name _
    refine regime.andThen (regime.lift (regime.evaluateUsing calls receiver)) fun owner => ?_
    exact regime.andThen valued fun _ => regime.lift (regime.writeField _ _ _)
  · exact regime.idle (still_fail _)

mutual

theorem executeUsing (calls : ∀ method values, Conserves E (call method values))
    (rounds : Nat) : (s : Statement) → Conserves S (s.execute call rounds)
  | .expression value => by
    rw [Statement.execute]
    exact regime.andThen (regime.lift (regime.evaluateUsing calls value)) fun _ =>
      regime.idle (still_pure _)
  | .declaration decl => by
    rw [Statement.execute]
    exact regime.andThen (regime.declaration calls decl) fun _ => regime.idle (still_pure _)
  | .assignment target value => by
    rw [Statement.execute]
    exact regime.andThen (regime.assignment calls target value) fun _ =>
      regime.idle (still_pure _)
  | .conditional condition thenBody elseBody => by
    have asks := regime.lift (regime.truth (regime.evaluateUsing calls condition))
    have thenKeeps := executeAllUsing calls rounds thenBody
    have elseKeeps := executeAllUsing calls rounds elseBody
    rw [Statement.execute]
    refine regime.andThen asks fun truth => ?_
    cases truth with
    | true => exact regime.nested thenKeeps
    | false => exact regime.nested elseKeeps
  | .forEach name range body => by
    have conserves := executeAllUsing calls rounds body
    rw [Statement.execute]
    refine regime.andThen (regime.lift (regime.evaluateUsing calls range)) fun value => ?_
    cases value
    case range => exact regime.forEach conserves _ _ _
    all_goals exact regime.idle (still_fail _)
  | .loop condition body => by
    rw [Statement.execute]
    exact regime.whileTrue (regime.truth (regime.evaluateUsing calls condition))
      (executeAllUsing calls rounds body) rounds
  | .result value => by
    rw [Statement.execute]
    exact regime.andThen (regime.lift (regime.evaluateUsing calls value)) fun _ =>
      regime.idle (still_pure _)

theorem executeAllUsing (calls : ∀ method values, Conserves E (call method values))
    (rounds : Nat) :
    (ss : List Statement) → Conserves S (Statement.executeAll call rounds ss)
  | [] => by
    rw [Statement.executeAll]
    exact regime.idle (still_pure _)
  | s :: ss => by
    have rest := executeAllUsing calls rounds ss
    rw [Statement.executeAll_cons]
    refine regime.andThen (executeUsing calls rounds s) fun completion => ?_
    cases completion with
    | completed => exact rest
    | returned value => exact regime.idle (still_pure _)

end

/-! ## Calls -/

theorem invoke (bound : Nat) (method : Method) (values : List Value) :
    Conserves E (method.call bound values) := by
  induction bound generalizing method values with
  | zero =>
    rw [Method.call]
    exact regime.still still_exhausted
  | succ bound ih =>
    rw [Method.call]
    split
    · have body := regime.andThen (regime.bindParameters method values) fun _ =>
        regime.executeAllUsing ih bound method.body
      exact regime.bind (regime.called body) fun _ => regime.still (still_pure _)
    · exact regime.still (still_fail _)

/-- Every expression conserves the relation of the expressions. -/
theorem evaluate (bound : Nat) (e : Expression) : Conserves E (e.evaluate (Method.call bound)) :=
  regime.evaluateUsing (regime.invoke bound) e

/-- Every statement conserves the relation of the statements. -/
theorem execute (bound rounds : Nat) (s : Statement) :
    Conserves S (s.execute (Method.call bound) rounds) :=
  regime.executeUsing (regime.invoke bound) rounds s

theorem executeAll (bound rounds : Nat) (ss : List Statement) :
    Conserves S (Statement.executeAll (Method.call bound) rounds ss) :=
  regime.executeAllUsing (regime.invoke bound) rounds ss

theorem fields (bound : Nat) (decls : List Declaration) :
    Conserves S (Eval.each (Declaration.execute (Method.call bound)) decls) := by
  induction decls with
  | nil => exact regime.idle (still_pure _)
  | cons decl decls ih =>
    exact regime.andThen (regime.declaration (regime.invoke bound) decl) fun _ => ih

end Regime

end Primer
