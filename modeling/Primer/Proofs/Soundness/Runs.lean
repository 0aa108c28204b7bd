import Primer.Pipeline
import Primer.Proofs.Soundness.Statements

/-!
# Runs keep the link

A call binds the parameters in a frame on top of the root frame, where the checker had them; the
fields are evaluated in the order in which they were checked.  With that every kind of task obeys
the contract, and two things follow for every run of a checked program: the link holds at every node
that it comes to (`Checked.allowed_of_performs`), and its error is the fault of some node
(`Checked.fault_of_run`).
-/

namespace Primer

section

variable {environment : Environment} {checked : Checked environment}
  {discipline : Discipline environment} {bound : Nat} {machine : Machine}

/-! ## Calls -/

/-- Parameters are bound on both sides, one after the other. -/
theorem Linked.bindParameters {parameters : List Parameter} {types : List Ty}
    {values : List Value} {scope inside : StaticScope} {binders : Binders}
    (linked : Linked checked discipline .methods scope binders machine)
    (fits : List.Forall₂ (discipline.fits machine.effects.store) types values)
    (arity : parameters.length = types.length) (key : FunctionKey)
    (defined : (parameters.zip types).foldlM
      (fun (scope : StaticScope) (parameter, type) =>
        scope.addVariable parameter.name ⟨parameter.name, parameter.name, type⟩) scope =
      .ok inside) :
    ∃ scope', (parameters.zip values).foldlM
        (fun (scope : Scope Value FunctionBody) (parameter, value) =>
          scope.addVariable parameter.name value) machine.scope = .ok scope' ∧
      Linked checked discipline .methods inside
        (parameters.foldl (fun binders parameter =>
          binders.declare parameter.name [.parameter parameter.name, .method key]) binders)
        { machine with scope := scope' } := by
  induction parameters generalizing types values scope binders machine with
  | nil =>
    cases defined
    exact ⟨machine.scope, rfl, linked⟩
  | cons parameter parameters ih =>
    cases fits with
    | nil => cases arity
    | @cons type value types values fitsFirst fitsRest =>
      rw [List.zip_cons_cons, List.foldlM_cons] at defined
      obtain ⟨middle, added, rest⟩ := exists_of_bind_eq_ok defined
      obtain ⟨between, added', linked'⟩ := linked.addVariable added fitsFirst
        [.parameter parameter.name, .method key]
      obtain ⟨scope', defined', linked''⟩ := ih linked' fitsRest (Nat.succ.inj arity) rest
      refine ⟨scope', ?_, linked''⟩
      rw [List.zip_cons_cons, List.foldlM_cons]
      dsimp only
      rw [added']
      exact defined'

/-- The places of the fields go along with the checker's scope. -/
theorem Checked.places (checked : Checked environment) :
    checked.globals.Agree (fun _ _ => True) checked.binders := by
  suffices ∀ {sources decls : List Declaration} {scope after : StaticScope} {binders : Binders},
      Attempt.each (Declaration.resolve environment.types) sources scope = ⟨decls, .ok after⟩ →
      scope.Agree (fun _ _ => True) binders →
      after.Agree (fun _ _ => True) (binders.ofFields sources) by
    refine this checked.fields_eq ?_
    rw [checked.natives_shape.1]
    exact ⟨.nil, .nil⟩
  intro sources
  induction sources with
  | nil =>
    intro decls scope after binders walked agree
    obtain ⟨-, rfl⟩ := Attempt.each_nil_eq_ok.mp walked
    exact agree
  | cons source sources ih =>
    intro decls scope after binders walked agree
    obtain ⟨decl, middle, rest, walkedFirst, walkedRest, -⟩ := Attempt.each_cons_eq_ok.mp walked
    obtain ⟨-, _, _, _, _, -, -, -, added, -⟩ := Declaration.resolve_eq_ok.mp walkedFirst
    exact ih walkedRest (agree.declare added _)

/-- The root frame with a new frame for the parameters of a method. -/
theorem Rooted.enter (rooted : Rooted checked discipline machine)
    {functions : List (FunctionKey × Signature)}
    (known : ∀ key found, functions.lookup key = some found →
      (checked.signatures .methods).lookup key = some found) :
    Linked checked discipline .methods
      ⟨⟨checked.globals.root.variableBindings, functions⟩, [{}]⟩ checked.binders.rootOnly.push
      { machine with scope := machine.scope.rootOnly.push } where
  values := ⟨rooted.values.root, .cons .nil .nil⟩
  places := ⟨checked.places.root, .cons .nil .nil⟩
  signatures := by
    refine ⟨functions, ⟨rfl, fun frame member => ?_⟩, known⟩
    rw [List.mem_singleton.mp member]
  bodies := rooted.bodies.rootOnly.push
  sound := rooted.sound
  settled := fun _ => ⟨List.cons_ne_nil _ _, rfl, rfl⟩

theorem Method.bodySpot_congr {method source : Method} {binders binders' : Binders}
    (name_eq : method.name = source.name) (parameters_eq : method.parameters = source.parameters)
    (root_eq : binders.root = binders'.root) :
    method.bodySpot binders = source.bodySpot binders' := by
  simp only [bodySpot, key, Scope.rootOnly, name_eq, parameters_eq, root_eq]

theorem Discipline.known_returns {method : Method} {signature : Signature}
    (found : method.signature environment.types = .ok signature) :
    discipline.known signature.returns := by
  obtain ⟨-, -, nil | ⟨name, found⟩⟩ := Method.signature_eq_ok found
  · rw [nil]
    exact Discipline.known_nil
  · exact discipline.known_of_get found

theorem invocation_meets {binders : Binders} {method : Method} {values : List Value}
    {signature : Signature} (activity : Activity) (defines : checked.Defines signature method)
    (root_eq : binders.root = checked.binders.root) (rooted : Rooted checked discipline machine)
    (fits : List.Forall₂ (discipline.fits machine.effects.store) signature.parameters values) :
    (Task.invocationPlan binders method values bound).Meets (checked.contract discipline)
      ((checked.contract discipline).fault activity)
      (fun value after => Rooted checked discipline after ∧
        after.scope.inner = machine.scope.inner ∧
        machine.effects.store.Grows after.effects.store ∧
        discipline.fits after.effects.store signature.returns value) machine := by
  obtain ⟨source, functions, inside, last, visits, walked, signature_eq, defined, subset, name_eq,
    parameters_eq⟩ := defines
  obtain ⟨-, parameters, -⟩ := Method.signature_eq_ok signature_eq
  have known : discipline.known signature.returns := Discipline.known_returns signature_eq
  cases bound with
  | zero => exact .of_exhausted rfl
  | succ bound =>
    have arity : method.parameters.length = values.length := by
      rw [parameters_eq, parameters.length_eq, fits.length_eq]
    rw [Task.invocationPlan, if_pos arity, Method.bodySpot_congr name_eq parameters_eq root_eq]
    obtain ⟨scope', bound_eq, linked⟩ :=
      (rooted.enter subset).bindParameters fits parameters.length_eq source.key defined
    have started : method.bindParameters values (Opening.root.enter machine) =
        (.value (), { machine with scope := scope' }) := by
      simp only [Method.bindParameters, Eval.changeScope, Opening.enter, parameters_eq, bound_eq]
    refine ⟨fun inside' started' => ?_, fun error after failed => ?_⟩
    · cases started.symm.trans started'
      refine ⟨_, .block visits linked known walked, fun completion after _ ran => ?_⟩
      obtain ⟨_, _, kept, -, -, -, returned⟩ := ran
      have rooted' := kept.linked.rooted
      refine ⟨⟨rooted'.values, rooted'.bodies.pop.withInner rooted.bodies, rooted'.sound⟩, rfl,
        kept.grows, ?_⟩
      cases completion with
      | completed => exact discipline.fits_nil known
      | returned value => exact returned value rfl
    · cases started.symm.trans failed

/-! ## Fields -/

theorem fields_meets {binders : Binders} {sources decls : List Declaration} {scope : StaticScope}
    (activity : Activity)
    (walked : Attempt.each (Declaration.resolve environment.types) sources scope =
      ⟨decls, .ok checked.globals⟩)
    (linked : Linked checked discipline .fields scope binders machine) (inner : scope.inner = [])
    (visited : ∀ name, scope.root.findVariable? name = none →
      checked.source.visit? environment [.field name] =
        Declaration.visit? environment.types name sources scope binders) :
    ((Task.fields binders decls).plan bound).Meets (checked.contract discipline)
      ((checked.contract discipline).fault activity)
      (fun _ after => ∃ binders', Kept checked discipline .fields checked.globals binders' machine
        after) machine := by
  cases sources with
  | nil =>
    obtain ⟨rfl, globals_eq⟩ := Attempt.each_nil_eq_ok.mp walked
    rw [globals_eq]
    exact ⟨binders, .refl linked⟩
  | cons source sources =>
    obtain ⟨decl, next, rest, walkedFirst, walkedRest, rfl⟩ := Attempt.each_cons_eq_ok.mp walked
    have name_eq := Declaration.name_of_resolve walkedFirst
    obtain ⟨-, _, _, _, type, -, -, -, added, -⟩ := Declaration.resolve_eq_ok.mp walkedFirst
    obtain ⟨root, frames⟩ := scope
    cases inner
    obtain ⟨frame, frameAdded, rfl⟩ := Scope.updateCurrent_root added
    obtain ⟨free, rfl⟩ := Frame.addVariable_eq_ok.mp frameAdded
    have visits : checked.Visits ⟨decl.fieldPlace, binders⟩ (.statement (.declaration source))
        ⟨root, []⟩ .nil := by
      rw [Checked.Visits, Declaration.fieldPlace, name_eq, visited _ free, Declaration.visit?,
        if_pos rfl, Declaration.fieldPlace]
    refine ⟨_, .declaration visits linked walkedFirst, fun _ between _ kept => ?_⟩
    refine ⟨_, .fields walkedRest kept.linked rfl fun name unbound => ?_, fun _ after _ ended => ?_⟩
    · have different : name ≠ source.name := by
        rintro rfl
        rw [Frame.findVariable?, List.lookup_cons_self] at unbound
        cases unbound
      rw [Frame.findVariable?, Bindings.lookup_cons_of_ne different] at unbound
      rw [visited name unbound, Declaration.visit?, if_neg different.symm, walkedFirst, name_eq,
        Declaration.fieldPlace, Declaration.fieldPlace, name_eq]
    · obtain ⟨binders', kept'⟩ := ended
      exact ⟨binders', kept'.onTop kept⟩

theorem Binders.ofFields_of_walked {types : Registry} {sources decls : List Declaration}
    {scope after : StaticScope} (binders : Binders)
    (walked : Attempt.each (Declaration.resolve types) sources scope = ⟨decls, .ok after⟩) :
    binders.ofFields decls = binders.ofFields sources := by
  induction sources generalizing decls scope binders with
  | nil =>
    obtain ⟨rfl, -⟩ := Attempt.each_nil_eq_ok.mp walked
    rfl
  | cons source sources ih =>
    obtain ⟨decl, next, rest, walkedFirst, walkedRest, rfl⟩ := Attempt.each_cons_eq_ok.mp walked
    rw [ofFields, List.foldl_cons, Declaration.fieldPlace, Declaration.name_of_resolve walkedFirst]
    exact ih _ walkedRest

/-! ## Programs -/

/-- The run when the fields are done and the methods are bound. -/
theorem Linked.methods_bound {binders : Binders}
    (linked : Linked checked discipline .fields checked.globals binders machine) :
    ∃ after, Task.defineMethods checked.program.methods machine = (.value (), after) ∧
      Rooted checked discipline after := by
  obtain ⟨⟨⟨fields, functions⟩, frames⟩, effects⟩ := machine
  have inner := linked.values.inner
  rw [checked.globals_shape] at inner
  obtain rfl := List.forall₂_nil_left_iff.mp inner
  obtain rfl := linked.bodies.root
  exact ⟨_, checked.defineMethods_eq fields effects, ⟨linked.values.root, .nil⟩, .of_root rfl,
    linked.sound⟩

theorem Checked.exists_main (checked : Checked environment) :
    ∃ signature body, Ty.integer.mustAccept signature.returns = .ok () ∧
      signature.parameters = [] ∧ checked.Callable .methods signature body ∧
      (checked.bodies .methods).lookup ⟨"main", 0⟩ = some body := by
  have required := checked.main_eq
  unfold StaticScope.requireMain at required
  cases found : checked.complete.getFunction ⟨"main", 0⟩ with
  | error => simp [found] at required
  | ok signature =>
    rw [found] at required
    have only : checked.complete.OnlyRootFunctions (checked.signatures .methods) := by
      obtain ⟨added, complete, -⟩ := checked.complete_shape
      rw [signatures, complete]
      exact .of_root rfl
    obtain ⟨body, body_eq, callable, key_eq⟩ :=
      checked.exists_callable (only.getFunction.mp found)
    have arity : signature.parameters.length = 0 := congrArg FunctionKey.arity key_eq
    exact ⟨signature, body, required, List.length_eq_zero_iff.mp arity, callable, body_eq⟩

theorem program_meets (checked : Checked environment) (discipline : Discipline environment)
    (activity : Activity) :
    ((Task.program environment checked.program).plan bound).Meets (checked.contract discipline)
      ((checked.contract discipline).fault activity) (fun _ _ => True) {} := by
  refine .of_value checked.define_eq ?_
  have started : Linked checked discipline .fields checked.natives {}
      ⟨⟨⟨[], checked.bodies .fields⟩, []⟩, {}⟩ := by
    refine ⟨?_, ?_, ⟨checked.signatures .fields, ?_, fun _ _ found => found⟩, .of_root rfl,
      discipline.sound_empty, fun stage_eq => absurd stage_eq (by decide)⟩ <;>
        rw [checked.natives_shape.1]
    · exact ⟨.nil, .nil⟩
    · exact ⟨.nil, .nil⟩
    · exact .of_root (by rw [Checked.signatures, checked.natives_shape.1])
  refine ⟨_, .fields checked.fields_eq started (by rw [checked.natives_shape.1])
    fun name _ => checked.field_visited name, fun _ between _ ended => ?_⟩
  obtain ⟨binders, kept⟩ := ended
  obtain ⟨defined, defined_eq, rooted⟩ := kept.linked.methods_bound
  refine .of_value defined_eq ?_
  obtain ⟨signature, body, integer, parameters, callable, body_eq⟩ := checked.exists_main
  have main_eq := rooted.bodies.getFunction.mpr body_eq
  refine .of_value (by rw [Task.findMain, main_eq]) ?_
  have root_eq : (Binders.ofFields {} checked.program.fields).root = checked.binders.root := by
    rw [Binders.ofFields_of_walked {} checked.fields_eq, Checked.binders]
  refine apply_meets callable rooted.sound (fun _ => ⟨rooted, root_eq⟩) (parameters ▸ .nil)
    fun value after _ fits => ?_
  have fits := Discipline.fits_of_mustAccept integer Discipline.known_integer fits
  cases value
  case integer => exact trivial
  all_goals exact .of_error rfl (.inl (discipline.outcome fits (by simp)))

/-! ## The contract is obeyed -/

theorem Checked.contract_obeyed (checked : Checked environment)
    (discipline : Discipline environment) : (checked.contract discipline).Obeyed := by
  intro activity post allowed
  cases allowed with
  | expression visits linked resolved => exact expression_meets visits linked resolved
  | arguments visits linked resolved arity known =>
    exact arguments_meets _ visits linked resolved arity known
  | declaration visits linked resolved => exact declaration_meets _ visits linked resolved
  | assignment visits linked access targetResolved valueResolved accepted =>
    exact assignment_meets _ visits linked access targetResolved valueResolved accepted
  | update visits linked resolved bound_eq binds => exact update_meets _ linked bound_eq binds
  | statement visits linked known resolved => exact statement_meets _ visits linked known resolved
  | block visits linked known resolved => exact block_meets _ visits linked known resolved
  | rounds visits linked known added resolved =>
    exact rounds_meets _ visits linked known added resolved
  | repetition visits linked known resolved boolean bodyResolved =>
    exact repetition_meets _ visits linked known resolved boolean bodyResolved
  | invocation defines root_eq rooted fits =>
    exact invocation_meets _ defines root_eq rooted fits
  | fields walked linked inner visited => exact fields_meets _ walked linked inner visited
  | program => exact program_meets checked discipline _

variable (checked discipline)

/-- What loading a source leaves behind. -/
theorem Checked.of_load {source : String} {program : Program}
    (loaded : environment.load source = .ok program) :
    ∃ checked : Checked environment,
      Program.parse source = .ok checked.source ∧ checked.program = program := by
  obtain ⟨tree, parsed, passed⟩ := Environment.load_eq_ok.mp loaded
  obtain ⟨natives, globals, complete, natives_eq, fields_eq, methods_eq, main_eq⟩ :=
    Program.resolve_eq_ok.mp (Program.check_eq_ok.mp passed)
  exact ⟨⟨tree, program, natives, globals, complete, natives_eq, fields_eq, methods_eq, main_eq⟩,
    parsed, rfl⟩

/-- Everything that a run comes to is linked to a visit of the checker. -/
theorem Checked.allowed_of_performs {activity : Activity}
    (performs : checked.program.Performs environment bound activity) :
    ∃ post, Allowed checked discipline activity post :=
  (checked.contract_obeyed discipline).allows_of_reached .program performs

/-- What a run comes to ends as the contract says. -/
theorem Checked.post_of_allowed {activity : Activity} {post : activity.result → Machine → Prop}
    (allowed : Allowed checked discipline activity post) {value : activity.result}
    {after : Machine} (ended : activity.outcome = (.value value, after)) : post value after :=
  (checked.contract_obeyed discipline).post_of_value activity post allowed value after ended

/-- An error of a run is harmless, or an operator refused its operands at some node. -/
theorem Checked.fault_of_run {error : RunError}
    (failed : checked.program.run environment bound = .error error) :
    discipline.harmless error ∨ ∃ activity,
      checked.program.Performs environment bound activity ∧
        activity.Refuses discipline.mixes error := by
  unfold Program.run at failed
  split at failed
  · cases failed
  · rename_i raised after ended
    cases failed
    obtain ⟨culprit, reached, harmless | refuses⟩ :=
      (checked.contract_obeyed discipline).fault_of_error
        ⟨.program environment checked.program, bound, {}⟩ _ after .program ended
    · exact .inl harmless
    · exact .inr ⟨culprit, reached, refuses⟩
  · cases failed

end

end Primer
