import Primer.Proofs.Evaluation.Activity
import Primer.Proofs.Scope.Agreement
import Primer.Proofs.Soundness.Discipline
import Primer.Proofs.Typing.Inversion
import Primer.Proofs.Typing.Visit

/-!
# A run beside the check of its program

The checker visits every node once, a run comes to a node as often as control does.  `Linked` says
what the two have in common whenever they are at the same spot: the same frames with the same
variables, each bound to a value that its type allows, and every function that the checker knows
callable in the run.

Functions are looked up in two stages.  While the fields are evaluated only the natives are there;
after that all methods are, also those that the checker has not yet seen.
-/

namespace Primer

/-! ## Checked programs -/

/-- A program, the same program with its slots filled, and the scopes of the walk between: with the
natives, behind the fields and behind the methods. -/
structure Checked (environment : Environment) where
  source : Program
  program : Program
  natives : StaticScope
  globals : StaticScope
  complete : StaticScope
  natives_eq : environment.staticScope = .ok natives
  fields_eq : Attempt.each (Declaration.resolve environment.types) source.fields natives =
    ⟨program.fields, .ok globals⟩
  methods_eq : Attempt.each (Method.resolve environment.types) source.methods globals =
    ⟨program.methods, .ok complete⟩
  main_eq : StaticScope.requireMain complete = .ok ()

/-- What is defined before control comes to a part of the program. -/
inductive Stage where
  | fields
  | methods
deriving DecidableEq

/-- The native functions as a run binds them, the last one first. -/
def Environment.bodies (environment : Environment) : List (FunctionKey × FunctionBody) :=
  (environment.functions.map fun f => (f.signature.key, .native f.body)).reverse

/-- The methods as a run binds them, the last one first. -/
def Program.bodies (program : Program) : List (FunctionKey × FunctionBody) :=
  (program.methods.map fun m => (m.key, .defined m)).reverse

namespace Checked

variable {environment : Environment} (checked : Checked environment)

/-- The signatures of all functions that a run has at a stage. -/
def signatures : Stage → List (FunctionKey × Signature)
  | .fields => checked.natives.root.functionBindings
  | .methods => checked.complete.root.functionBindings

/-- The functions that a run has at a stage. -/
def bodies : Stage → List (FunctionKey × FunctionBody)
  | .fields => environment.bodies
  | .methods => checked.program.bodies ++ environment.bodies

/-- The places of the fields. -/
def binders : Binders :=
  Binders.ofFields {} checked.source.fields

/-- The checker comes to the node at the spot. -/
def Visits (spot : Spot) (node : Node) (scope : StaticScope) (returns : Ty) : Prop :=
  checked.source.visit? environment spot.place = some ⟨node, spot, scope, returns⟩

variable {checked} in
/-- The checker goes on to a part of the node. -/
theorem Visits.down {spot : Spot} {node part : Node} {scope inside : StaticScope} {returns : Ty}
    {turn : Turn} {there : Spot} (visits : checked.Visits spot node scope returns)
    (entered : Visit.enter? environment.types ⟨node, spot, scope, returns⟩ turn =
      some ⟨part, there, inside, returns⟩) (place : there.place = turn :: spot.place) :
    checked.Visits there part inside returns := by
  rw [Visits, place, Program.visit?_down visits, entered]

/-- A method of the program and what its check found: the body was walked with the parameters on top
of the fields, and with the functions that were defined until then. -/
def Defines (signature : Signature) (method : Method) : Prop :=
  ∃ (source : Method) (functions : List (FunctionKey × Signature)) (inside last : StaticScope),
    checked.Visits (source.bodySpot checked.binders) (.block source.body) inside
      signature.returns ∧
    Statement.resolveAll environment.types signature.returns source.body inside =
      ⟨method.body, .ok last⟩ ∧
    source.signature environment.types = .ok signature ∧
    source.defineParameters signature
      ⟨⟨checked.globals.root.variableBindings, functions⟩, [{}]⟩ = .ok inside ∧
    (∀ key found, functions.lookup key = some found →
      (checked.signatures .methods).lookup key = some found) ∧
    method.name = source.name ∧ method.parameters = source.parameters

/-- What a function name stands for in a run, beside its signature. -/
def Callable (stage : Stage) (signature : Signature) : FunctionBody → Prop
  | .native body => ∃ function ∈ environment.functions,
      function.signature = signature ∧ function.body = body
  | .defined method => stage = .methods ∧ checked.Defines signature method

end Checked

/-! ## The two scopes -/

section Linked

variable {environment : Environment} (checked : Checked environment)
  (discipline : Discipline environment)

/-- The checker and a run at the same spot. -/
structure Linked (stage : Stage) (scope : StaticScope) (binders : Binders) (machine : Machine) :
    Prop where
  values : scope.Agree (discipline.binds machine.effects.store) machine.scope
  places : scope.Agree (fun _ _ => True) binders
  signatures : ∃ functions, scope.OnlyRootFunctions functions ∧
    ∀ key found, functions.lookup key = some found →
      (checked.signatures stage).lookup key = some found
  bodies : machine.scope.OnlyRootFunctions (checked.bodies stage)
  sound : discipline.sound machine.effects.store
  settled : stage = .methods → scope.inner ≠ [] ∧
    scope.root.variableBindings = checked.globals.root.variableBindings ∧
    binders.root = checked.binders.root

/-- The root frame of a run when all fields and methods are defined. -/
structure Rooted (machine : Machine) : Prop where
  values : checked.globals.rootOnly.Agree (discipline.binds machine.effects.store)
    machine.scope.rootOnly
  bodies : machine.scope.OnlyRootFunctions (checked.bodies .methods)
  sound : discipline.sound machine.effects.store

variable {checked discipline} {stage : Stage} {scope : StaticScope} {binders : Binders}
  {machine after : Machine}

/-! ### Binders go along -/

theorem Scope.Agree.declare (places : scope.Agree (fun _ _ => True) binders) {name : String}
    {found : Variable} {extended : StaticScope}
    (added : scope.addVariable name found = .ok extended)
    (place : Place) : extended.Agree (fun _ _ => True) (binders.declare name place) := by
  obtain ⟨binders', added', agree⟩ := places.addVariable (b := place) trivial added
  rw [Binders.declare, added']
  exact agree

theorem Binders.pop_declare (inside : binders.inner ≠ []) (name : String) (place : Place) :
    (binders.declare name place).pop = binders.pop ∧ (binders.declare name place).inner ≠ [] := by
  unfold Binders.declare
  split
  · rename_i added
    exact Scope.pop_of_addVariable inside added
  · exact ⟨rfl, inside⟩

/-! ### The link is kept -/

namespace Linked

/-- The store may grow. -/
theorem effects (linked : Linked checked discipline stage scope binders machine)
    (same : after.scope = machine.scope) (sound : discipline.sound after.effects.store)
    (grows : machine.effects.store.Grows after.effects.store) :
    Linked checked discipline stage scope binders after where
  values := by
    rw [same]
    exact linked.values.mono fun _ _ => discipline.fits_of_grows grows
  places := linked.places
  signatures := linked.signatures
  bodies := by
    rw [same]
    exact linked.bodies
  sound := sound
  settled := linked.settled

theorem binders_inner (linked : Linked checked discipline stage scope binders machine)
    (inside : scope.inner ≠ []) : binders.inner ≠ [] := by
  intro empty
  have agree := linked.places.inner
  rw [empty, List.forall₂_nil_right_iff] at agree
  exact inside agree

/-- A new frame on both sides. -/
theorem push (linked : Linked checked discipline stage scope binders machine) :
    Linked checked discipline stage scope.push binders.push
      { machine with scope := machine.scope.push } where
  values := linked.values.push
  places := linked.places.push
  signatures := by
    obtain ⟨functions, only, known⟩ := linked.signatures
    exact ⟨functions, only.push, known⟩
  bodies := linked.bodies.push
  sound := linked.sound
  settled := fun methods => ⟨List.cons_ne_nil _ _, (linked.settled methods).2⟩

/-- The innermost frame closed on both sides. -/
theorem pop {inner : StaticScope} {innerBinders : Binders}
    (linked : Linked checked discipline stage inner innerBinders machine)
    (scope_eq : inner.pop = scope) (binders_eq : innerBinders.pop = binders)
    (inside : scope.inner ≠ []) :
    Linked checked discipline stage scope binders
      { machine with scope := machine.scope.pop } where
  values := scope_eq ▸ linked.values.pop
  places := scope_eq ▸ binders_eq ▸ linked.places.pop
  signatures := by
    obtain ⟨functions, only, known⟩ := linked.signatures
    exact ⟨functions, scope_eq ▸ only.pop, known⟩
  bodies := linked.bodies.pop
  sound := linked.sound
  settled := by
    intro methods
    obtain ⟨-, sameFields, places⟩ := linked.settled methods
    subst scope_eq binders_eq
    exact ⟨inside, sameFields, places⟩

/-- The same variable on both sides. -/
theorem addVariable (linked : Linked checked discipline stage scope binders machine)
    {name : String} {found : Variable} {value : Value} {extended : StaticScope}
    (added : scope.addVariable name found = .ok extended)
    (binds : discipline.binds machine.effects.store found value) (place : Place) :
    ∃ scope', machine.scope.addVariable name value = .ok scope' ∧
      Linked checked discipline stage extended (binders.declare name place)
        { machine with scope := scope' } := by
  obtain ⟨scope', added', values⟩ := linked.values.addVariable binds added
  refine ⟨scope', added', values, linked.places.declare added place, ?_, ?_, linked.sound, ?_⟩
  · obtain ⟨functions, only, known⟩ := linked.signatures
    exact ⟨functions, only.addVariable added, known⟩
  · exact linked.bodies.addVariable added'
  · intro methods
    obtain ⟨inside, sameFields, places⟩ := linked.settled methods
    obtain ⟨pop_eq, nonempty⟩ := Scope.pop_of_addVariable inside added
    have declared := (Binders.pop_declare (linked.binders_inner inside) name place).1
    exact ⟨nonempty, (congrArg (·.root.variableBindings) pop_eq).trans sameFields,
      (congrArg (·.root) declared).trans places⟩

/-- A variable gets a new value. -/
theorem assign (linked : Linked checked discipline stage scope binders machine)
    {name : String} {found : Variable} {value : Value}
    (bound : scope.getVariable name = .ok found)
    (binds : discipline.binds machine.effects.store found value) :
    ∃ scope', machine.scope.assign name value = .ok scope' ∧
      Linked checked discipline stage scope binders { machine with scope := scope' } := by
  obtain ⟨scope', assigned, values⟩ := linked.values.assign bound binds
  exact ⟨scope', assigned, values, linked.places, linked.signatures, linked.bodies.assign assigned,
    linked.sound, linked.settled⟩

/-! ### Calls leave the frames of the caller alone -/

theorem rooted (linked : Linked checked discipline .methods scope binders machine) :
    Rooted checked discipline machine where
  values := by
    refine ⟨?_, .nil⟩
    change Bindings.Agree _ checked.globals.root.variableBindings _
    rw [← (linked.settled rfl).2.1]
    exact linked.values.root
  bodies := linked.bodies
  sound := linked.sound

theorem of_rooted (linked : Linked checked discipline .methods scope binders machine)
    (rooted : Rooted checked discipline after) (same : after.scope.inner = machine.scope.inner)
    (grows : machine.effects.store.Grows after.effects.store) :
    Linked checked discipline .methods scope binders after where
  values := by
    refine ⟨?_, ?_⟩
    · change Bindings.Agree _ scope.root.variableBindings _
      rw [(linked.settled rfl).2.1]
      exact rooted.values.root
    · rw [same]
      exact (linked.values.mono fun _ _ => discipline.fits_of_grows grows).inner
  places := linked.places
  signatures := linked.signatures
  bodies := rooted.bodies
  sound := rooted.sound
  settled := linked.settled

end Linked

end Linked

end Primer
