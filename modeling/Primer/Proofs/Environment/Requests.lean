import Primer.Environment.Counter
import Primer.Proofs.Typing.Meaning

/-!
# What a host can make of an environment

A host asks for types and functions to be added, in any order.  A request for a name that is taken
is refused, and leaves the environment as it was.  Whatever is asked for, an environment that began
as the standard one stays coherent (`Environment.Coherent`): a name means one type and goes on
meaning it, a key means one function.

Two things rest on this.  Types are compared by their names, and among the types of one registry
that is as good as comparing their definitions.  And the natives can always be defined one after the
other, for a check and for a run, both of which then begin with the same keys
(`Environment.coherent_afterAll`).
-/

namespace Primer

/-! ## One type for a name -/

namespace Registry

variable {registry extended : Registry} {name : String} {type : Ty}

theorem name_of_find? (found : registry.find? name = some type) : type.name = name := by
  unfold find? at found
  split at found
  · rename_i primitive known
    cases found
    have named := List.find?_some known
    exact beq_iff_eq.mp named
  · obtain ⟨definition, known, rfl⟩ := Option.map_eq_some_iff.mp found
    have named := List.find?_some known
    exact beq_iff_eq.mp named

theorem find?_primitive (member : type ∈ Ty.primitives) : registry.find? type.name = some type := by
  have first : Ty.primitives.find? (·.name == type.name) = some type := by
    simp only [Ty.primitives, List.mem_cons, List.not_mem_nil, or_false] at member
    obtain rfl | rfl | rfl | rfl | rfl | rfl | rfl | rfl | rfl := member <;> rfl
  rw [find?, first]

theorem definitions_of_add {definition : TypeDefinition}
    (added : registry.add definition = .ok extended) :
    extended.definitions = registry.definitions ++ [definition] := by
  unfold add at added
  split at added <;> cases added
  rfl

/-- A type that is added is found under its name. -/
theorem find?_added {definition : TypeDefinition}
    (added : registry.add definition = .ok extended) :
    extended.find? definition.name = some (.nominal definition) := by
  unfold add at added
  split at added
  · cases added
  · rename_i free
    cases added
    unfold find? at free ⊢
    split at free
    · cases free
    · have unnamed := Option.map_eq_none_iff.mp free
      rw [List.find?_append, unnamed, List.find?_cons_of_pos (by simp)]
      rfl

end Registry

/-! ## One function for a key -/

/-- Natives with different keys are all found, each under its own. -/
theorem Scope.getFunction_natives {ν φ : Type} {natives : List NativeFunction}
    (distinct : (natives.map (·.signature.key)).Nodup) (meaning : NativeFunction → φ) :
    let bindings := (natives.map fun native => (native.signature.key, meaning native)).reverse
    let scope : Scope ν φ := ⟨⟨[], bindings⟩, []⟩
    (∀ native ∈ natives, scope.getFunction native.signature.key = .ok (meaning native)) ∧
      ∀ key ∉ natives.map (·.signature.key),
        scope.getFunction key = .error (.undefinedFunction key) := by
  intro bindings scope
  have keys : bindings.map Prod.fst = (natives.map (·.signature.key)).reverse := by
    rw [List.map_reverse, List.map_map]
    rfl
  have looked : ∀ key, scope.frames.findSome? (·.findFunction? key) = bindings.lookup key := by
    intro key
    exact List.findSome?_singleton
  constructor
  · intro native member
    have bound : (native.signature.key, meaning native) ∈ bindings :=
      List.mem_reverse.mpr (List.mem_map.mpr ⟨native, member, rfl⟩)
    have found := Bindings.lookup_of_mem (keys ▸ List.nodup_reverse.mpr distinct) bound
    rw [Scope.getFunction, looked, found]
  · intro key unknown
    have absent : bindings.lookup key = none := by
      rw [Bindings.lookup_eq_none_iff_notMem, keys, List.mem_reverse]
      exact unknown
    rw [Scope.getFunction, looked, absent]

namespace Environment

/-- What a check and a run begin with: both find every native under its key, one its signature and
the other its body, and under other keys neither finds anything. -/
structure Begins (environment : Environment) (scope : StaticScope) (machine : Machine) : Prop where
  native : ∀ native ∈ environment.functions,
    scope.getFunction native.signature.key = .ok native.signature ∧
      machine.scope.getFunction native.signature.key = .ok (.native native.body)
  nothing : ∀ key ∉ environment.functions.map (·.signature.key),
    scope.getFunction key = .error (.undefinedFunction key) ∧
      machine.scope.getFunction key = .error (.undefinedFunction key)

namespace Built

variable {environment : Environment} (built : environment.Built)

include built

theorem staticScope_eq : environment.staticScope = .ok ⟨⟨[], environment.signatures⟩, []⟩ := by
  obtain ⟨natives, defined, -⟩ := built.exists_staticScope
  obtain ⟨shape, -⟩ := natives_of_foldlM [] environment.functions [] List.nodup_nil defined
  rw [defined, shape, List.append_nil]
  rfl

theorem define_eq :
    environment.define {} = (.value (), ⟨⟨⟨[], environment.bodies⟩, []⟩, {}⟩) := by
  apply Environment.define_eq
  rw [bodies, List.map_reverse, List.map_map]
  exact List.nodup_reverse.mpr built.keys_nodup

theorem begins : environment.Begins ⟨⟨[], environment.signatures⟩, []⟩
    ⟨⟨⟨[], environment.bodies⟩, []⟩, {}⟩ := by
  obtain ⟨checks, unchecked⟩ :=
    Scope.getFunction_natives (ν := Variable) built.keys_nodup (·.signature)
  obtain ⟨runs, unbound⟩ :=
    Scope.getFunction_natives (ν := Value) built.keys_nodup (FunctionBody.native ·.body)
  exact ⟨fun native member => ⟨checks native member, runs native member⟩,
    fun key unknown => ⟨unchecked key unknown, unbound key unknown⟩⟩

/-- Every type that was added is what its name means. -/
theorem get_definition :
    ∀ definition ∈ environment.types.definitions,
      environment.types.get definition.name = .ok (.nominal definition) := by
  simp only [Registry.get_eq_ok]
  induction built with
  | standard =>
    intro definition member
    cases member
  | @addType environment extended new _ added ih =>
    have registered := (addType_eq_ok added).1
    intro definition member
    obtain old | rfl : definition ∈ environment.types.definitions ∨ definition = new := by
      rw [Registry.definitions_of_add registered] at member
      simpa using member
    · exact Registry.find?_of_add registered (ih definition old)
    · exact Registry.find?_added registered
  | addFunction _ added ih =>
    obtain ⟨-, rfl⟩ := addFunction_eq_ok added
    exact ih

end Built

/-! ## Requests -/

/-- What a host can ask of an environment. -/
inductive Request where
  | addType (definition : TypeDefinition)
  | addFunction (function : NativeFunction)

/-- What comes of a request. -/
def answer (environment : Environment) : Request → Except NamingError Environment
  | .addType definition => environment.addType definition
  | .addFunction function => environment.addFunction function

/-- The environment behind a request.  If it is refused, nothing changes. -/
def after (environment : Environment) (request : Request) : Environment :=
  match environment.answer request with
  | .ok extended => extended
  | .error _ => environment

/-- The environment behind any number of requests. -/
def afterAll (environment : Environment) (requests : List Request) : Environment :=
  requests.foldl after environment

variable {environment : Environment}

theorem after_of_refused {request : Request} {error : NamingError}
    (refused : environment.answer request = .error error) :
    environment.after request = environment := by
  rw [after, refused]

theorem extends_after {start : Environment} {added : List NativeFunction}
    (further : start.Extends environment added) (request : Request) :
    ∃ added', start.Extends (environment.after request) added' := by
  cases answered : environment.answer request with
  | error error =>
    rw [after_of_refused answered]
    exact ⟨added, further⟩
  | ok extended =>
    rw [after, answered]
    cases request with
    | addType definition => exact ⟨added, .addType further answered⟩
    | addFunction function => exact ⟨added ++ [function], .addFunction further answered⟩

theorem extends_afterAll {start : Environment} {added : List NativeFunction}
    (further : start.Extends environment added) (requests : List Request) :
    ∃ added', start.Extends (environment.afterAll requests) added' := by
  induction requests generalizing environment added with
  | nil => exact ⟨added, further⟩
  | cons request requests ih =>
    obtain ⟨added', further'⟩ := extends_after further request
    exact ih further'

/-- What every environment keeps to that a host can make. -/
structure Coherent (environment : Environment) : Prop where
  /-- A type is found under its own name only. -/
  named : ∀ name type, environment.types.get name = .ok type → type.name = name
  primitives : ∀ type ∈ Ty.primitives, environment.types.get type.name = .ok type
  definitions : ∀ definition ∈ environment.types.definitions,
    environment.types.get definition.name = .ok (.nominal definition)
  keys : (environment.functions.map (·.signature.key)).Nodup
  /-- A method is found under its own name and the number of its parameters only. -/
  methods : ∀ name type key method, environment.types.get name = .ok type →
    type.method key = .ok method →
    method.signature.name = key.name ∧ method.signature.parameters.length = key.arity

theorem Built.coherent (built : environment.Built) : environment.Coherent where
  named name type found := Registry.name_of_find? (Registry.get_eq_ok.mp found)
  primitives type member := Registry.get_eq_ok.mpr (Registry.find?_primitive member)
  definitions := built.get_definition
  keys := built.keys_nodup
  methods name type key method _ found := by
    have same := (Ty.hasMethod_of_method found).key_eq
    subst same
    exact ⟨rfl, rfl⟩

/-- Types of one registry are told apart by their names. -/
theorem Coherent.beq_iff_eq (coherent : environment.Coherent) {name name' : String}
    {type type' : Ty} (found : environment.types.get name = .ok type)
    (found' : environment.types.get name' = .ok type') : (type == type') = true ↔ type = type' := by
  rw [Ty.beq_iff, coherent.named name type found, coherent.named name' type' found']
  constructor
  · rintro rfl
    exact Except.ok.inj (found.symm.trans found')
  · rintro rfl
    rw [← coherent.named name type found, coherent.named name' type found']

/-- After any requests, granted or refused, the standard environment is coherent.  A refused request
changes nothing, and no later one changes what the name of a type means; types that are equal by
name are the same; and a check and a run can begin, with the same natives. -/
theorem coherent_afterAll (requests : List Request) :
    let environment := standard.afterAll requests
    environment.Coherent ∧
      (∀ request error, environment.answer request = .error error →
        standard.afterAll (requests ++ [request]) = environment) ∧
      (∀ more name type, environment.types.get name = .ok type →
        (standard.afterAll (requests ++ more)).types.get name = .ok type) ∧
      (∀ name name' type type', environment.types.get name = .ok type →
        environment.types.get name' = .ok type' → ((type == type') = true ↔ type = type')) ∧
      ∃ scope machine, environment.staticScope = .ok scope ∧
        environment.define {} = (.value (), machine) ∧ environment.Begins scope machine := by
  intro environment
  have start : standard.Extends standard [] := .refl
  obtain ⟨added, further⟩ := extends_afterAll start requests
  have built : environment.Built := further.built .standard
  have later : ∀ more, standard.afterAll (requests ++ more) = environment.afterAll more :=
    fun more => List.foldl_append
  refine ⟨built.coherent, ?_, ?_, ?_, ?_⟩
  · intro request error refused
    rw [later]
    exact after_of_refused refused
  · intro more name type found
    have start : environment.Extends environment [] := .refl
    obtain ⟨added', further'⟩ := extends_afterAll start more
    rw [later, Registry.get_eq_ok]
    exact further'.find?_types (Registry.get_eq_ok.mp found)
  · intro name name' type type'
    exact built.coherent.beq_iff_eq
  · exact ⟨_, _, built.staticScope_eq, built.define_eq, built.begins⟩

/-- A `print` without parameters, which the standard environment leaves room for. -/
def printNothing : NativeFunction where
  signature := ⟨"print", "print", [], .nil⟩
  body _ := .done .nil

/-- Two requests that are granted and three that are refused: for the name of a primitive type, for
a name that an earlier request took, and for a key that a native has. -/
def mixedRequests : List Request :=
  [.addType Counter.definition, .addType { name := "Integer", javaName := "Whole" },
    .addType { name := "Counter", javaName := "Tally" }, .addFunction printNothing,
    .addFunction NativeFunction.print]

theorem coherent_afterAll_mixedRequests :
    standard.afterAll mixedRequests =
        ⟨⟨[Counter.definition]⟩, [NativeFunction.print, NativeFunction.range, printNothing]⟩ ∧
      (standard.afterAll mixedRequests).Coherent ∧
      (standard.afterAll (mixedRequests ++ mixedRequests)).types.get "Counter" =
        .ok (.nominal Counter.definition) ∧
      (Ty.nominal Counter.definition == .integer) = false ∧
      ∃ scope machine, (standard.afterAll mixedRequests).staticScope = .ok scope ∧
        (standard.afterAll mixedRequests).define {} = (.value (), machine) ∧
        scope.getFunction ⟨"print", 0⟩ = .ok printNothing.signature ∧
        machine.scope.getFunction ⟨"print", 0⟩ = .ok (.native printNothing.body) := by
  have made : standard.afterAll mixedRequests =
      ⟨⟨[Counter.definition]⟩, [NativeFunction.print, NativeFunction.range, printNothing]⟩ := rfl
  have known : (standard.afterAll mixedRequests).types.get "Counter" =
      .ok (.nominal Counter.definition) := rfl
  obtain ⟨coherent, -, kept, same, scope, machine, checks, runs, begins⟩ :=
    coherent_afterAll mixedRequests
  refine ⟨made, coherent, kept mixedRequests _ _ known, ?_, scope, machine, checks, runs, ?_⟩
  · rw [Bool.eq_false_iff, Ne, same "Counter" "Integer" _ _ known rfl]
    exact nofun
  · apply begins.native printNothing
    rw [made]
    exact .tail _ (.tail _ (.head _))

end Environment

end Primer
