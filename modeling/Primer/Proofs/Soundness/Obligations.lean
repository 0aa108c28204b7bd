import Primer.Proofs.Evaluation.Contract
import Primer.Proofs.Soundness.Functions

/-!
# What a run of a checked program keeps to

The contract of this module allows an activity when the checker has visited its node and the run is
linked to that visit, and lets it end in a machine that is linked again.  The only faults are the
harmless errors of the discipline, and operators that refuse operands which the discipline lets
through.
-/

namespace Primer

/-! ## The contract -/

/-- A binary operator that refuses the operands it got, at a node whose left operand was given the
type `leftType`. -/
inductive Activity.Refuses (mixes : Operator → Ty → Value → Value → Prop) :
    Activity → RunError → Prop
  | intro {spot : Spot} {note : Note} {operator : Operator} {left right : Expression}
      {leftType : Ty} {bound : Nat} {machine between after : Machine} {first second : Value}
      {error : RunError} :
    left.note.type = some leftType →
    left.evaluate (Method.call bound) machine = (.value first, between) →
    right.evaluate (Method.call bound) between = (.value second, after) →
    operator.apply first second = .error error →
    mixes operator leftType first second →
    Refuses mixes ⟨.expression spot (.binary note operator left right), bound, machine⟩ error

section

variable {environment : Environment} (checked : Checked environment)
  (discipline : Discipline environment)

/-- The link holds after some work, and the store has grown. -/
structure Kept (stage : Stage) (scope : StaticScope) (binders : Binders) (before after : Machine) :
    Prop where
  linked : Linked checked discipline stage scope binders after
  grows : before.effects.store.Grows after.effects.store

/-- An expression gives a value of its type. -/
def Gives (stage : Stage) (scope : StaticScope) (binders : Binders) (type : Ty) (before : Machine)
    (value : Value) (after : Machine) : Prop :=
  Kept checked discipline stage scope binders before after ∧
    discipline.fits after.effects.store type value

/-- A returned value fits what the method returns. -/
def Returns (returns : Ty) (completion : Completion) (after : Machine) : Prop :=
  ∀ value, completion = .returned value → discipline.fits after.effects.store returns value

/-- The run behind a statement or a block.  Only the innermost frame may differ from that of
`scope`; what it is after normal completion is up to `normal`. -/
def Ran (scope : StaticScope) (binders : Binders) (returns : Ty)
    (normal : StaticScope → Binders → Prop) (before : Machine) (completion : Completion)
    (after : Machine) : Prop :=
  ∃ scope' binders', Kept checked discipline .methods scope' binders' before after ∧
    scope'.pop = scope.pop ∧ binders'.pop = binders.pop ∧
    (completion = .completed → normal scope' binders') ∧ Returns discipline returns completion after

/-- The activities of a run beside the visits of the checker, and how they end. -/
inductive Allowed : (activity : Activity) → (activity.result → Machine → Prop) → Prop
  | expression {stage : Stage} {spot : Spot} {source e : Expression} {scope : StaticScope}
      {returns type : Ty} {bound : Nat} {machine : Machine} :
    checked.Visits spot (.expression source) scope returns →
    Linked checked discipline stage scope spot.binders machine →
    source.resolve scope = ⟨e, .ok type⟩ →
    Allowed ⟨.expression spot e, bound, machine⟩
      (Gives checked discipline stage scope spot.binders type machine)
  | arguments {stage : Stage} {spot : Spot} {sources es : List Expression} {scope : StaticScope}
      {returns : Ty} {parameters : List Ty} {bound : Nat} {machine : Machine} :
    checked.Visits spot (.arguments sources) scope returns →
    Linked checked discipline stage scope spot.binders machine →
    Expression.resolveArguments scope sources parameters = ⟨es, .ok ()⟩ →
    sources.length = parameters.length →
    (∀ parameter ∈ parameters, discipline.known parameter) →
    Allowed ⟨.arguments spot es, bound, machine⟩ fun values after =>
      Kept checked discipline stage scope spot.binders machine after ∧
        List.Forall₂ (discipline.fits after.effects.store) parameters values
  | declaration {stage : Stage} {spot : Spot} {source decl : Declaration}
      {scope next : StaticScope} {returns : Ty} {bound : Nat} {machine : Machine} :
    checked.Visits spot (.statement (.declaration source)) scope returns →
    Linked checked discipline stage scope spot.binders machine →
    source.resolve environment.types scope = ⟨decl, .ok next⟩ →
    Allowed ⟨.declaration spot decl, bound, machine⟩ fun _ after =>
      Kept checked discipline stage next (Binders.declare spot.binders decl.name spot.place)
        machine after
  | assignment {stage : Stage} {spot : Spot} {target target' value value' : Expression}
      {scope : StaticScope} {returns targetType valueType : Ty} {bound : Nat} {machine : Machine} :
    checked.Visits spot (.statement (.assignment target value)) scope returns →
    Linked checked discipline stage scope spot.binders machine →
    target.isAccess = true →
    target.resolve scope = ⟨target', .ok targetType⟩ →
    value.resolve scope = ⟨value', .ok valueType⟩ →
    targetType.mustAccept valueType = .ok () →
    Allowed ⟨.assignment spot target' value', bound, machine⟩ fun _ after =>
      Kept checked discipline stage scope spot.binders machine after
  | update {stage : Stage} {spot : Spot} {target : Expression} {note : Note} {name : String}
      {found : Variable} {value : Value} {scope : StaticScope} {returns : Ty} {bound : Nat}
      {machine : Machine} :
    checked.Visits spot (.expression target) scope returns →
    Linked checked discipline stage scope spot.binders machine →
    target.resolve scope = ⟨.access note name (some found), .ok found.type⟩ →
    scope.getVariable name = .ok found →
    discipline.binds machine.effects.store found value →
    Allowed ⟨.update spot name value, bound, machine⟩ fun _ after =>
      Kept checked discipline stage scope spot.binders machine after
  | statement {spot : Spot} {source s : Statement} {scope next : StaticScope} {returns : Ty}
      {bound : Nat} {machine : Machine} :
    checked.Visits spot (.statement source) scope returns →
    Linked checked discipline .methods scope spot.binders machine →
    discipline.known returns →
    source.resolve environment.types returns scope = ⟨s, .ok next⟩ →
    Allowed ⟨.statement spot s, bound, machine⟩
      (Ran checked discipline scope spot.binders returns
        (fun scope' binders' => scope' = next ∧ binders' = spot.behind source) machine)
  | block {spot : Spot} {sources ss : List Statement} {scope next : StaticScope} {returns : Ty}
      {bound : Nat} {machine : Machine} :
    checked.Visits spot (.block sources) scope returns →
    Linked checked discipline .methods scope spot.binders machine →
    discipline.known returns →
    Statement.resolveAll environment.types returns sources scope = ⟨ss, .ok next⟩ →
    Allowed ⟨.block spot ss, bound, machine⟩
      (Ran checked discipline scope spot.binders returns (fun _ _ => True) machine)
  | rounds {spot : Spot} {name : String} {range : Expression} {sources body : List Statement}
      {scope inside last : StaticScope} {returns : Ty} {count : Nat} {current : Int} {bound : Nat}
      {machine : Machine} :
    checked.Visits spot (.statement (.forEach name range sources)) scope returns →
    Linked checked discipline .methods scope spot.binders machine →
    discipline.known returns →
    scope.push.addVariable name ⟨name, name, .integer⟩ = .ok inside →
    Statement.resolveAll environment.types returns sources inside = ⟨body, .ok last⟩ →
    Allowed ⟨.rounds spot name body count current, bound, machine⟩ fun completion after =>
      Kept checked discipline .methods scope spot.binders machine after ∧
        Returns discipline returns completion after
  | repetition {spot : Spot} {source condition : Expression} {sources body : List Statement}
      {scope last : StaticScope} {returns type : Ty} {left : Nat} {bound : Nat}
      {machine : Machine} :
    checked.Visits spot (.statement (.loop source sources)) scope returns →
    Linked checked discipline .methods scope spot.binders machine →
    discipline.known returns →
    source.resolve scope = ⟨condition, .ok type⟩ →
    Ty.boolean.mustAccept type = .ok () →
    Statement.resolveAll environment.types returns sources scope.push = ⟨body, .ok last⟩ →
    Allowed ⟨.repetition spot condition body left, bound, machine⟩ fun completion after =>
      Kept checked discipline .methods scope spot.binders machine after ∧
        Returns discipline returns completion after
  | invocation {binders : Binders} {method : Method} {values : List Value} {signature : Signature}
      {bound : Nat} {machine : Machine} :
    checked.Defines signature method →
    binders.root = checked.binders.root →
    Rooted checked discipline machine →
    List.Forall₂ (discipline.fits machine.effects.store) signature.parameters values →
    Allowed ⟨.invocation binders method values, bound, machine⟩ fun value after =>
      Rooted checked discipline after ∧ after.scope.inner = machine.scope.inner ∧
        machine.effects.store.Grows after.effects.store ∧
        discipline.fits after.effects.store signature.returns value
  | fields {binders : Binders} {sources decls : List Declaration} {scope : StaticScope}
      {bound : Nat} {machine : Machine} :
    Attempt.each (Declaration.resolve environment.types) sources scope =
      ⟨decls, .ok checked.globals⟩ →
    Linked checked discipline .fields scope binders machine →
    scope.inner = [] →
    (∀ name, scope.root.findVariable? name = none →
      checked.source.visit? environment [.field name] =
        Declaration.visit? environment.types name sources scope binders) →
    Allowed ⟨.fields binders decls, bound, machine⟩ fun _ after =>
      ∃ binders', Kept checked discipline .fields checked.globals binders' machine after
  | program {bound : Nat} :
    Allowed ⟨.program environment checked.program, bound, {}⟩ fun _ _ => True

/-- What a run of a checked program keeps to. -/
def Checked.contract : Contract where
  allows := Allowed checked discipline
  fault activity error := discipline.harmless error ∨ activity.Refuses discipline.mixes error

/-- What the contract says about expressions and updates of variables. -/
def Allowed.Shape : (activity : Activity) → (activity.result → Machine → Prop) → Prop
  | ⟨.expression spot e, _, machine⟩, post =>
    ∃ stage source scope returns type, checked.Visits spot (.expression source) scope returns ∧
      Linked checked discipline stage scope spot.binders machine ∧
      source.resolve scope = Attempt.mk e (.ok type) ∧
      post = Gives checked discipline stage scope spot.binders type machine
  | ⟨.update spot name _, _, machine⟩, _ =>
    ∃ stage target note found scope returns,
      checked.Visits spot (.expression target) scope returns ∧
      Linked checked discipline stage scope spot.binders machine ∧
      target.resolve scope = Attempt.mk (.access note name (some found)) (.ok found.type)
  | _, _ => True

variable {checked discipline} {stage : Stage} {scope : StaticScope} {binders : Binders}
  {before between after : Machine}

theorem Allowed.shape {activity : Activity} {post : activity.result → Machine → Prop}
    (allowed : Allowed checked discipline activity post) :
    Allowed.Shape checked discipline activity post := by
  cases allowed with
  | expression visits linked resolved => exact ⟨_, _, _, _, _, visits, linked, resolved, rfl⟩
  | update visits linked resolved => exact ⟨_, _, _, _, _, _, visits, linked, resolved⟩
  | _ => trivial

theorem Kept.refl (linked : Linked checked discipline stage scope binders before) :
    Kept checked discipline stage scope binders before before :=
  ⟨linked, .refl _⟩

theorem Kept.onTop {scope' : StaticScope} {binders' : Binders}
    (second : Kept checked discipline stage scope' binders' between after)
    (first : Kept checked discipline stage scope binders before between) :
    Kept checked discipline stage scope' binders' before after :=
  ⟨second.linked, first.grows.trans second.grows⟩

end

end Primer
