import Primer.Proofs.Soundness.Expressions

/-!
# Statements keep the link

One lemma for every kind of statement, for blocks and for the rounds of loops.  A body runs in a
frame of its own, so whatever it declares is gone when the frame is closed: `nested_meets` says that
the run is then linked as it was before.
-/

namespace Primer

/-! ## What checking keeps of a node -/

/-- The filled statement binds the same name. -/
theorem Spot.behind_of_resolve {types : Registry} {returns : Ty} {source s : Statement}
    {scope next : StaticScope} (spot : Spot)
    (resolved : source.resolve types returns scope = ⟨s, .ok next⟩) :
    spot.behind s = spot.behind source := by
  cases source with
  | expression =>
    obtain ⟨-, -, _, _, -, rfl⟩ := Statement.resolve_expression_eq_ok.mp resolved
    rfl
  | declaration decl =>
    obtain ⟨decl', declResolved, rfl⟩ := Statement.resolve_declaration_eq_ok.mp resolved
    rw [behind, behind, Declaration.name_of_resolve declResolved]
  | assignment =>
    obtain ⟨-, -, _, _, _, _, -, -, -, rfl⟩ := Statement.resolve_assignment_eq_ok.mp resolved
    rfl
  | conditional =>
    obtain ⟨-, -, _, _, _, _, _, _, -, -, -, -, rfl⟩ :=
      Statement.resolve_conditional_eq_ok.mp resolved
    rfl
  | forEach =>
    obtain ⟨-, -, _, _, _, _, _, -, -, -, -, rfl⟩ := Statement.resolve_forEach_eq_ok.mp resolved
    rfl
  | loop =>
    obtain ⟨-, _, _, _, _, -, -, -, rfl⟩ := Statement.resolve_loop_eq_ok.mp resolved
    rfl
  | result =>
    obtain ⟨-, _, _, -, -, rfl⟩ := Statement.resolve_result_eq_ok.mp resolved
    rfl

section

variable {environment : Environment} {checked : Checked environment}
  {discipline : Discipline environment} {stage : Stage} {spot : Spot} {scope : StaticScope}
  {returns : Ty} {bound : Nat} {machine : Machine}

/-! ## Declarations -/

theorem Discipline.known_declared {typeName : Option String} {type : Ty}
    (found : typeName.mapM environment.types.get = .ok (some type)) : discipline.known type := by
  cases typeName with
  | none => cases found
  | some name =>
    rw [Option.mapM_some] at found
    cases here : environment.types.get name with
    | error error =>
      rw [here] at found
      cases found
    | ok type' =>
      rw [here] at found
      cases found
      exact discipline.known_of_get here

theorem Discipline.fits_declared {name : String} {typeName : Option String}
    {declared : Option Ty} {initial type : Ty} {store : Store} {value : Value}
    (found : typeName.mapM environment.types.get = .ok declared)
    (typed : Declaration.type name declared (some initial) = .ok type)
    (fits : discipline.fits store initial value) : discipline.fits store type value := by
  cases declared with
  | none =>
    cases typed
    exact fits
  | some declared =>
    obtain ⟨⟨⟩, accepted, same⟩ := exists_of_bind_eq_ok typed
    cases same
    exact Discipline.fits_of_mustAccept accepted (Discipline.known_declared found) fits

theorem define_meets {activity : Activity} {before : Machine} {binders : Binders} {name : String}
    {found : Variable} {value : Value} {next : StaticScope} (place : Place)
    (kept : Kept checked discipline stage scope binders before machine)
    (added : scope.addVariable name found = .ok next)
    (binds : discipline.binds machine.effects.store found value) :
    (Plan.step (Eval.changeScope (·.addVariable name value)) .done).Meets
      (checked.contract discipline) ((checked.contract discipline).fault activity)
      (fun _ after => Kept checked discipline stage next (binders.declare name place) before after)
      machine := by
  obtain ⟨scope', added', linked⟩ := kept.linked.addVariable added binds place
  exact .of_value (by rw [Eval.changeScope, added']) ⟨linked, kept.grows⟩

theorem declaration_meets {source decl : Declaration} {next : StaticScope} (activity : Activity)
    (visits : checked.Visits spot (.statement (.declaration source)) scope returns)
    (linked : Linked checked discipline stage scope spot.binders machine)
    (resolved : source.resolve environment.types scope = ⟨decl, .ok next⟩) :
    ((Task.declaration spot decl).plan bound).Meets (checked.contract discipline)
      ((checked.contract discipline).fault activity)
      (fun _ after => Kept checked discipline stage next
        (Binders.declare spot.binders decl.name spot.place) machine after) machine := by
  obtain ⟨-, declared, filled, initial, type, declared_eq, valueResolved, type_eq, added, rfl⟩ :=
    Declaration.resolve_eq_ok.mp resolved
  obtain ⟨missing, same, rfl⟩ | ⟨value, value', initialType, present, initialResolved, same, rfl⟩ :=
    Declaration.resolveValue_eq_ok.mp valueResolved
  · obtain rfl : filled = none := (congrArg Declaration.value same).trans missing
    dsimp only [Task.plan]
    refine define_meets _ (.refl linked) added (discipline.fits_nil ?_)
    cases declared with
    | none => cases type_eq
    | some declared =>
      cases type_eq
      exact Discipline.known_declared declared_eq
  · obtain rfl : filled = some value' := congrArg Declaration.value same
    refine ⟨_, .expression (visits.down ?_ rfl) linked initialResolved,
      fun found between _ ⟨kept, fits⟩ => ?_⟩
    · simp only [Visit.enter?, present]
      rfl
    · exact define_meets _ kept added (Discipline.fits_declared declared_eq type_eq fits)

/-! ## Assignments -/

theorem assignment_meets {target target' value value' : Expression} {targetType valueType : Ty}
    (activity : Activity)
    (visits : checked.Visits spot (.statement (.assignment target value)) scope returns)
    (linked : Linked checked discipline stage scope spot.binders machine)
    (access : target.isAccess = true)
    (targetResolved : target.resolve scope = ⟨target', .ok targetType⟩)
    (valueResolved : value.resolve scope = ⟨value', .ok valueType⟩)
    (accepted : targetType.mustAccept valueType = .ok ()) :
    (Task.assignmentPlan spot bound target' value').Meets (checked.contract discipline)
      ((checked.contract discipline).fault activity)
      (fun _ after => Kept checked discipline stage scope spot.binders machine after) machine := by
  cases target
  case access note name binding =>
    obtain ⟨-, rfl, found, bound_eq, rfl, rfl⟩ :=
      Expression.resolve_access_eq_ok.mp targetResolved
    obtain ⟨_, -, old⟩ := linked.values.getVariable bound_eq
    refine ⟨_, .expression (visits.down rfl rfl) linked valueResolved,
      fun value between _ ⟨kept, fits⟩ => ?_⟩
    refine ⟨_, .update (visits.down rfl rfl) kept.linked targetResolved bound_eq
      (Discipline.fits_of_mustAccept accepted (discipline.known_of_fits old) fits),
      fun _ after _ kept' => kept'.onTop kept⟩
  case memberAccess note receiver name binding =>
    obtain ⟨-, rfl, receiver', owner, receiverResolved, field, rfl⟩ :=
      Expression.resolve_memberAccess_eq_ok.mp targetResolved
    have visitsTarget : checked.Visits (spot.down .target)
        (.expression (.memberAccess note receiver name none)) scope returns :=
      visits.down rfl rfl
    refine ⟨_, .expression (visitsTarget.down rfl rfl) linked receiverResolved,
      fun self between _ ⟨kept, fits⟩ => ?_⟩
    refine ⟨_, .expression (visits.down rfl rfl) kept.linked valueResolved,
      fun value later _ ⟨kept', fits'⟩ => ?_⟩
    have known := discipline.known_field (discipline.known_of_fits fits) field
    refine keeps_meets (discipline.writing kept'.linked.sound
      (discipline.fits_of_grows kept'.grows fits) field
      (Discipline.fits_of_mustAccept accepted known fits')) ?_
    intro _ after same sound grows _
    exact ⟨kept'.linked.effects same sound grows, (kept.grows.trans kept'.grows).trans grows⟩
  all_goals cases access

theorem update_meets {name : String} {found : Variable} {value : Value} (activity : Activity)
    (linked : Linked checked discipline stage scope spot.binders machine)
    (bound_eq : scope.getVariable name = .ok found)
    (binds : discipline.binds machine.effects.store found value) :
    ((Task.update spot name value).plan bound).Meets (checked.contract discipline)
      ((checked.contract discipline).fault activity)
      (fun _ after => Kept checked discipline stage scope spot.binders machine after) machine := by
  obtain ⟨scope', assigned, linked'⟩ := linked.assign bound_eq binds
  exact .of_value (by rw [Eval.changeScope, assigned]) ⟨linked', .refl _⟩

/-! ## Bodies -/

theorem Ran.unchanged {completion : Completion} {after : Machine} {binders : Binders}
    (kept : Kept checked discipline .methods scope binders machine after)
    (returned : Returns discipline returns completion after) :
    Ran checked discipline scope binders returns
      (fun scope' binders' => scope' = scope ∧ binders' = binders) machine completion after :=
  ⟨scope, binders, kept, rfl, rfl, fun _ => ⟨rfl, rfl⟩, returned⟩

theorem Returns.completed (machine : Machine) : Returns discipline returns .completed machine :=
  nofun

/-- A body in a frame of its own, from the machine `inside` that its start leaves. -/
theorem nested_meets {α : Type} {activity : Activity} {final : α → Machine → Prop}
    {there : Spot} {sources body : List Statement} {inner last : StaticScope} {binders : Binders}
    {start : Eval Unit} {next : Completion → Plan α} {inside : Machine}
    (visits : checked.Visits there (.block sources) inner returns)
    (started : start { machine with scope := machine.scope.push } = (.value (), inside))
    (effects : inside.effects = machine.effects)
    (linked : Linked checked discipline .methods inner there.binders inside)
    (scope_eq : inner.pop = scope) (binders_eq : there.binders.pop = binders)
    (nonempty : scope.inner ≠ []) (known : discipline.known returns)
    (resolved : Statement.resolveAll environment.types returns sources inner = ⟨body, .ok last⟩)
    (rest : ∀ completion after, Kept checked discipline .methods scope binders machine after →
      Returns discipline returns completion after →
      (next completion).Meets (checked.contract discipline)
        ((checked.contract discipline).fault activity) final after) :
    (Plan.enter .here start (.block there body) bound next).Meets (checked.contract discipline)
      ((checked.contract discipline).fault activity) final machine := by
  refine ⟨fun inside' started' => ?_, fun error after failed => ?_⟩
  · cases started.symm.trans started'
    refine ⟨_, .block visits linked known resolved, fun completion after _ ran => ?_⟩
    obtain ⟨scope', binders', kept, scope_eq', binders_eq', -, returned⟩ := ran
    refine rest completion _ ⟨?_, ?_⟩ returned
    · exact kept.linked.pop (scope_eq'.trans scope_eq) (binders_eq'.trans binders_eq) nonempty
    · rw [← effects]
      exact kept.grows
  · cases started.symm.trans failed

theorem conditional_meets {condition condition' : Expression} {type : Ty}
    {thenBody thenBody' elseBody elseBody' : List Statement} {thenScope elseScope : StaticScope}
    (activity : Activity)
    (visits : checked.Visits spot (.statement (.conditional condition thenBody elseBody)) scope
      returns)
    (linked : Linked checked discipline .methods scope spot.binders machine)
    (known : discipline.known returns)
    (resolved : condition.resolve scope = ⟨condition', .ok type⟩)
    (boolean : Ty.boolean.mustAccept type = .ok ())
    (thenResolved : Statement.resolveAll environment.types returns thenBody scope.push =
      ⟨thenBody', .ok thenScope⟩)
    (elseResolved : Statement.resolveAll environment.types returns elseBody scope.push =
      ⟨elseBody', .ok elseScope⟩) :
    (Task.statementPlan spot bound (.conditional condition' thenBody' elseBody')).Meets
      (checked.contract discipline) ((checked.contract discipline).fault activity)
      (Ran checked discipline scope spot.binders returns
        (fun scope' binders' => scope' = scope ∧ binders' = spot.binders) machine) machine := by
  refine ⟨_, .expression (visits.down rfl rfl) linked resolved, fun value between _ given => ?_⟩
  obtain ⟨kept, fits⟩ := given
  refine truth_meets (Discipline.fits_of_mustAccept boolean Discipline.known_boolean fits)
    fun truth => ?_
  have nonempty := (kept.linked.settled rfl).1
  split
  · exact nested_meets (visits.down rfl rfl) rfl rfl kept.linked.push rfl rfl nonempty known
      thenResolved fun _ _ kept' returned => .unchanged (kept'.onTop kept) returned
  · exact nested_meets (visits.down rfl rfl) rfl rfl kept.linked.push rfl rfl nonempty known
      elseResolved fun _ _ kept' returned => .unchanged (kept'.onTop kept) returned

theorem forEach_meets {name : String} {range range' : Expression} {type : Ty}
    {sources body : List Statement} {inside last : StaticScope} (activity : Activity)
    (visits : checked.Visits spot (.statement (.forEach name range sources)) scope returns)
    (linked : Linked checked discipline .methods scope spot.binders machine)
    (known : discipline.known returns)
    (resolved : range.resolve scope = ⟨range', .ok type⟩)
    (iterable : Ty.integerIterable.mustAccept type = .ok ())
    (added : scope.push.addVariable name ⟨name, name, .integer⟩ = .ok inside)
    (bodyResolved : Statement.resolveAll environment.types returns sources inside =
      ⟨body, .ok last⟩) :
    (Task.statementPlan spot bound (.forEach name range' body)).Meets
      (checked.contract discipline) ((checked.contract discipline).fault activity)
      (Ran checked discipline scope spot.binders returns
        (fun scope' binders' => scope' = scope ∧ binders' = spot.binders) machine) machine := by
  refine ⟨_, .expression (visits.down rfl rfl) linked resolved, fun value between _ given => ?_⟩
  obtain ⟨kept, fits⟩ := given
  have fits := Discipline.fits_of_mustAccept iterable Discipline.known_iterable fits
  cases value
  case range range =>
    refine ⟨_, .rounds visits kept.linked known added bodyResolved, fun _ _ _ ended => ?_⟩
    exact .unchanged (ended.1.onTop kept) ended.2
  all_goals exact .of_error rfl (.inl (discipline.iteration fits nofun))

theorem rounds_meets {name : String} {range : Expression} {sources body : List Statement}
    {inside last : StaticScope} {count : Nat} {current : Int} (activity : Activity)
    (visits : checked.Visits spot (.statement (.forEach name range sources)) scope returns)
    (linked : Linked checked discipline .methods scope spot.binders machine)
    (known : discipline.known returns)
    (added : scope.push.addVariable name ⟨name, name, .integer⟩ = .ok inside)
    (resolved : Statement.resolveAll environment.types returns sources inside =
      ⟨body, .ok last⟩) :
    ((Task.rounds spot name body count current).plan bound).Meets (checked.contract discipline)
      ((checked.contract discipline).fault activity)
      (fun completion after => Kept checked discipline .methods scope spot.binders machine after ∧
        Returns discipline returns completion after) machine := by
  cases count with
  | zero => exact ⟨.refl linked, .completed _⟩
  | succ count =>
    obtain ⟨scope', added', linked'⟩ :=
      linked.push.addVariable added (discipline.fits_integer current) spot.place
    have visitsBody : checked.Visits (spot.intoRound name) (.block sources) inside returns :=
      visits.down (by simp only [Visit.enter?, added]) rfl
    have started : Eval.changeScope (·.addVariable name (.integer current))
        { machine with scope := machine.scope.push } =
          (.value (), { machine with scope := scope' }) := by
      rw [Eval.changeScope, added']
    refine nested_meets visitsBody started rfl linked'
      (Scope.pop_of_addVariable (List.cons_ne_nil _ _) added).1
      (Binders.pop_declare (List.cons_ne_nil _ _) _ _).1 (linked.settled rfl).1 known resolved
      fun completion after kept returned => ?_
    cases completion with
    | completed =>
      refine ⟨_, .rounds visits kept.linked known added resolved, fun _ _ _ ended => ?_⟩
      exact ⟨ended.1.onTop kept, ended.2⟩
    | returned value => exact ⟨kept, returned⟩

theorem repetition_meets {source condition : Expression} {type : Ty}
    {sources body : List Statement} {last : StaticScope} {left : Nat} (activity : Activity)
    (visits : checked.Visits spot (.statement (.loop source sources)) scope returns)
    (linked : Linked checked discipline .methods scope spot.binders machine)
    (known : discipline.known returns)
    (resolved : source.resolve scope = ⟨condition, .ok type⟩)
    (boolean : Ty.boolean.mustAccept type = .ok ())
    (bodyResolved : Statement.resolveAll environment.types returns sources scope.push =
      ⟨body, .ok last⟩) :
    ((Task.repetition spot condition body left).plan bound).Meets (checked.contract discipline)
      ((checked.contract discipline).fault activity)
      (fun completion after => Kept checked discipline .methods scope spot.binders machine after ∧
        Returns discipline returns completion after) machine := by
  cases left with
  | zero => exact .of_exhausted rfl
  | succ left =>
    refine ⟨_, .expression (visits.down rfl rfl) linked resolved, fun value between _ given => ?_⟩
    obtain ⟨kept, fits⟩ := given
    refine truth_meets (Discipline.fits_of_mustAccept boolean Discipline.known_boolean fits)
      fun truth => ?_
    split
    · refine nested_meets (visits.down rfl rfl) rfl rfl kept.linked.push rfl rfl
        (kept.linked.settled rfl).1 known bodyResolved fun completion after kept' returned => ?_
      cases completion with
      | completed =>
        refine ⟨_, .repetition visits kept'.linked known resolved boolean bodyResolved,
          fun _ _ _ ended => ?_⟩
        exact ⟨ended.1.onTop (kept'.onTop kept), ended.2⟩
      | returned value => exact ⟨kept'.onTop kept, returned⟩
    · exact ⟨kept, .completed _⟩

/-! ## All statements -/

theorem statement_meets {source s : Statement} {next : StaticScope} (activity : Activity)
    (visits : checked.Visits spot (.statement source) scope returns)
    (linked : Linked checked discipline .methods scope spot.binders machine)
    (known : discipline.known returns)
    (resolved : source.resolve environment.types returns scope = ⟨s, .ok next⟩) :
    (Task.statementPlan spot bound s).Meets (checked.contract discipline)
      ((checked.contract discipline).fault activity)
      (Ran checked discipline scope spot.binders returns
        (fun scope' binders' => scope' = next ∧ binders' = spot.behind source) machine)
      machine := by
  cases source with
  | expression value =>
    obtain ⟨-, rfl, value', type, valueResolved, rfl⟩ :=
      Statement.resolve_expression_eq_ok.mp resolved
    refine ⟨_, .expression (visits.down rfl rfl) linked valueResolved, fun _ _ _ given => ?_⟩
    exact .unchanged given.1 (.completed _)
  | declaration decl =>
    obtain ⟨decl', declResolved, rfl⟩ := Statement.resolve_declaration_eq_ok.mp resolved
    obtain ⟨-, _, _, _, _, -, -, -, added, -⟩ := Declaration.resolve_eq_ok.mp declResolved
    refine ⟨_, .declaration visits linked declResolved, fun _ _ _ kept => ?_⟩
    rw [Declaration.name_of_resolve declResolved] at kept
    have nonempty := (linked.settled rfl).1
    exact ⟨next, _, kept, (Scope.pop_of_addVariable nonempty added).1,
      (Binders.pop_declare (linked.binders_inner nonempty) _ _).1, fun _ => ⟨rfl, rfl⟩, nofun⟩
  | assignment target value =>
    obtain ⟨access, rfl, target', targetType, value', valueType, targetResolved, valueResolved,
      accepted, rfl⟩ := Statement.resolve_assignment_eq_ok.mp resolved
    refine ⟨_, .assignment visits linked access targetResolved valueResolved accepted,
      fun _ _ _ kept => ?_⟩
    exact .unchanged kept (.completed _)
  | conditional condition thenBody elseBody =>
    obtain ⟨-, rfl, condition', type, thenBody', thenScope, elseBody', elseScope,
      conditionResolved, boolean, thenResolved, elseResolved, rfl⟩ :=
      Statement.resolve_conditional_eq_ok.mp resolved
    exact conditional_meets activity visits linked known conditionResolved boolean thenResolved
      elseResolved
  | forEach name range body =>
    obtain ⟨-, rfl, range', type, inside, body', last, rangeResolved, iterable, added, bodyResolved,
      rfl⟩ := Statement.resolve_forEach_eq_ok.mp resolved
    exact forEach_meets activity visits linked known rangeResolved iterable added bodyResolved
  | loop condition body =>
    obtain ⟨rfl, condition', type, body', last, conditionResolved, boolean, bodyResolved, rfl⟩ :=
      Statement.resolve_loop_eq_ok.mp resolved
    refine ⟨_, .repetition visits linked known conditionResolved boolean bodyResolved,
      fun _ _ _ ended => ?_⟩
    exact .unchanged ended.1 ended.2
  | result value =>
    obtain ⟨rfl, value', type, valueResolved, accepted, rfl⟩ :=
      Statement.resolve_result_eq_ok.mp resolved
    refine ⟨_, .expression (visits.down rfl rfl) linked valueResolved, fun found _ _ given => ?_⟩
    refine .unchanged given.1 fun value returned => ?_
    cases returned
    exact Discipline.fits_of_mustAccept accepted known given.2

/-- What comes to pass in a block: its statements in order, each from the scope that the one before
left. -/
theorem block_meets {sources ss : List Statement} {last : StaticScope} (activity : Activity)
    (visits : checked.Visits spot (.block sources) scope returns)
    (linked : Linked checked discipline .methods scope spot.binders machine)
    (known : discipline.known returns)
    (resolved : Statement.resolveAll environment.types returns sources scope = ⟨ss, .ok last⟩) :
    ((Task.block spot ss).plan bound).Meets (checked.contract discipline)
      ((checked.contract discipline).fault activity)
      (Ran checked discipline scope spot.binders returns (fun _ _ => True) machine) machine := by
  cases sources with
  | nil =>
    obtain ⟨rfl, rfl⟩ := Statement.resolveAll_nil_eq_ok.mp resolved
    exact ⟨_, _, .refl linked, rfl, rfl, fun _ => trivial, .completed _⟩
  | cons source sources =>
    obtain ⟨s, middle, ss, first, rest, rfl⟩ := Statement.resolveAll_cons_eq_ok.mp resolved
    refine ⟨_, .statement (visits.down rfl rfl) linked known first,
      fun completion between _ ran => ?_⟩
    obtain ⟨scope', binders', kept, scope_eq, binders_eq, normal, returned⟩ := ran
    cases completion with
    | returned value => exact ⟨scope', binders', kept, scope_eq, binders_eq, nofun, returned⟩
    | completed =>
      obtain ⟨rfl, rfl⟩ := normal rfl
      have visitsRest : checked.Visits (spot.past source) (.block sources) scope' returns :=
        visits.down (by simp only [Visit.enter?, first]) rfl
      rw [Task.unlessReturned, show spot.past s = spot.past source by
        rw [Spot.past, Spot.past, Spot.behind_of_resolve _ first]]
      refine ⟨_, .block visitsRest kept.linked known rest, fun completion after _ ran => ?_⟩
      obtain ⟨scope'', binders'', kept', scope_eq', binders_eq', -, returned'⟩ := ran
      exact ⟨scope'', binders'', kept'.onTop kept, scope_eq'.trans scope_eq,
        binders_eq'.trans binders_eq, fun _ => trivial, returned'⟩

end

end Primer
