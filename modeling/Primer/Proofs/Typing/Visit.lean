import Primer.Proofs.Syntax.Place
import Primer.Typing.Resolve

/-!
# Where the checker is when it comes to a node

Checking walks a program once, in source order, and looks every name up in the scope that it has at
that moment.  `Program.visit?` recomputes that moment for a given place: the node there, still with
empty slots, and the scope that the checker hands to it.  The binders go along with the scope and
say which place bound each name.

A visit follows the walk of `Program.resolve`: blocks are walked statement by statement, each in the
scope that the one before left, and bodies begin with the frames that the walk opens for them.
-/

namespace Primer

/-- A part of a program that can be walked on its own. -/
inductive Node where
  | expression (e : Expression)
  | arguments (es : List Expression)
  | statement (s : Statement)
  | block (ss : List Statement)

/-- The checker at a node: the node, its place with the binders there, the scope, and what the
method around it returns. -/
structure Visit where
  node : Node
  spot : Spot
  scope : StaticScope
  returns : Ty

namespace Visit

/-- A part that is walked in the scope of the whole. -/
def part (visit : Visit) (turn : Turn) (node : Node) : Visit :=
  { visit with node, spot := visit.spot.down turn }

/-- A block with a frame of its own. -/
def inside (visit : Visit) (turn : Turn) (body : List Statement) : Visit :=
  { visit with node := .block body, spot := visit.spot.into turn, scope := visit.scope.push }

/-- The visit of the part that a turn leads to. -/
def enter? (types : Registry) (visit : Visit) (turn : Turn) : Option Visit :=
  match visit.node, turn with
  | .expression (.group _ e), .inner => some (visit.part turn (.expression e))
  | .expression (.binary _ _ e _), .left => some (visit.part turn (.expression e))
  | .expression (.binary _ _ _ e), .right => some (visit.part turn (.expression e))
  | .expression (.memberAccess _ e _ _), .receiver => some (visit.part turn (.expression e))
  | .expression (.call _ _ es _), .arguments => some (visit.part turn (.arguments es))
  | .expression (.memberCall _ e _ _ _), .receiver => some (visit.part turn (.expression e))
  | .expression (.memberCall _ _ _ es _), .arguments => some (visit.part turn (.arguments es))
  | .arguments (e :: _), .first => some (visit.part turn (.expression e))
  | .arguments (_ :: es), .others => some (visit.part turn (.arguments es))
  | .statement (.expression e), .value => some (visit.part turn (.expression e))
  | .statement (.declaration decl), .value =>
    decl.value.map fun e => visit.part turn (.expression e)
  | .statement (.assignment e _), .target => some (visit.part turn (.expression e))
  | .statement (.assignment _ e), .value => some (visit.part turn (.expression e))
  | .statement (.conditional e _ _), .condition => some (visit.part turn (.expression e))
  | .statement (.conditional _ ss _), .thenBody => some (visit.inside turn ss)
  | .statement (.conditional _ _ ss), .elseBody => some (visit.inside turn ss)
  | .statement (.forEach _ e _), .range => some (visit.part turn (.expression e))
  | .statement (.forEach name _ ss), .body =>
    match visit.scope.push.addVariable name ⟨name, name, .integer⟩ with
    | .ok scope => some ⟨.block ss, visit.spot.intoRound name, scope, visit.returns⟩
    | .error _ => none
  | .statement (.loop e _), .condition => some (visit.part turn (.expression e))
  | .statement (.loop _ ss), .body => some (visit.inside turn ss)
  | .statement (.result e), .value => some (visit.part turn (.expression e))
  | .block (s :: _), .first => some (visit.part turn (.statement s))
  | .block (s :: ss), .others =>
    match (s.resolve types visit.returns visit.scope).result with
    | .ok scope => some ⟨.block ss, visit.spot.past s, scope, visit.returns⟩
    | .error _ => none
  | _, _ => none

end Visit

/-! ## Fields and methods -/

/-- The visit of the field of a given name.  A field is walked like a declaration in a body. -/
def Declaration.visit? (types : Registry) (name : String) :
    List Declaration → StaticScope → Binders → Option Visit
  | [], _, _ => none
  | decl :: decls, scope, binders =>
    if decl.name = name then
      some ⟨.statement (.declaration decl), ⟨decl.fieldPlace, binders⟩, scope, .nil⟩
    else
      match (decl.resolve types scope).result with
      | .ok scope => Declaration.visit? types name decls scope
          (binders.declare decl.name decl.fieldPlace)
      | .error _ => none

/-- The visit of a method's body, coming from `scope`. -/
def Method.enter? (types : Registry) (binders : Binders) (method : Method) (scope : StaticScope) :
    Option Visit := do
  let signature ← (method.signature types).toOption
  let scope ← (scope.addFunction signature.key signature).toOption
  let inside ← (method.defineParameters signature scope.push).toOption
  return ⟨.block method.body, method.bodySpot binders, inside, signature.returns⟩

theorem Method.enter?_of_ok {types : Registry} {binders : Binders} {method : Method}
    {signature : Signature} {scope extended inside : StaticScope}
    (found : method.signature types = .ok signature)
    (bound : scope.addFunction signature.key signature = .ok extended)
    (defined : method.defineParameters signature extended.push = .ok inside) :
    method.enter? types binders scope =
      some ⟨.block method.body, method.bodySpot binders, inside, signature.returns⟩ := by
  simp only [enter?, found, bound, defined, Except.toOption, Option.bind_eq_bind, Option.bind_some]
  rfl

/-- The visit of the body of the method with a given key. -/
def Method.visit? (types : Registry) (binders : Binders) (key : FunctionKey) :
    List Method → StaticScope → Option Visit
  | [], _ => none
  | method :: methods, scope =>
    if method.key = key then
      method.enter? types binders scope
    else
      match (method.resolve types scope).result with
      | .ok scope => Method.visit? types binders key methods scope
      | .error _ => none

namespace Program

/-- The visit of a field or of the body of a method. -/
def begin? (environment : Environment) (program : Program) (turn : Turn) : Option Visit := do
  let natives ← environment.staticScope.toOption
  match turn with
  | .field name => Declaration.visit? environment.types name program.fields natives {}
  | .method key => do
    let globals ←
      (Attempt.each (Declaration.resolve environment.types) program.fields natives).result.toOption
    Method.visit? environment.types (Binders.ofFields {} program.fields) key program.methods globals
  | _ => none

/-- The checker at a place of the program, if the walk comes there. -/
def visit? (environment : Environment) (program : Program) : Place → Option Visit
  | [] => none
  | [turn] => program.begin? environment turn
  | turn :: next :: place =>
    (program.visit? environment (next :: place)).bind (·.enter? environment.types turn)

/-- The walk goes on from a place as it goes on from the node there. -/
theorem visit?_down {environment : Environment} {program : Program} {place : Place} {visit : Visit}
    (visited : program.visit? environment place = some visit) (turn : Turn) :
    program.visit? environment (turn :: place) = visit.enter? environment.types turn := by
  cases place with
  | nil => cases visited
  | cons next place => rw [visit?, visited, Option.bind_some]

end Program

end Primer
