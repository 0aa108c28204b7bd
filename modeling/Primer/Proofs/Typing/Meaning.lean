import Primer.Proofs.Environment.Built
import Primer.Proofs.Soundness.Functions
import Primer.Proofs.Typing.Derivation

/-!
# What the parts of a check mean

A typing derivation has rules and contexts where a check has functions and chains of frames.  This
module compares the two piece by piece: a function that the check calls succeeds exactly when the
rule applies, `StaticScope.context` is what a chain of frames means, and every operation on chains
has a counterpart on contexts.
-/

namespace Primer

/-! ## Rules that need no context -/

theorem Ty.isOrdered_iff {source : Ty} :
    source.isOrdered = true ↔ source ∈ [.comparable, .integer, .decimal, .character, .string] := by
  cases source <;> simp [isOrdered]

theorem Ty.beq_iff {target source : Ty} : (target == source) = true ↔ target.name = source.name :=
  beq_iff_eq (a := target.name)

theorem Ty.accepts_iff {target source : Ty} :
    target.accepts source = true ↔ target.Assignable source := by
  constructor
  · intro accepted
    cases target with
    | any => exact .any source
    | comparable => exact .ordered (isOrdered_iff.mp accepted)
    | _ => exact .same nofun (beq_iff.mp accepted)
  · intro assignable
    cases assignable with
    | any => rfl
    | ordered member => exact isOrdered_iff.mpr member
    | same other name_eq =>
      cases target with
      | any => rfl
      | comparable => exact absurd rfl other
      | _ => exact beq_iff.mpr name_eq

theorem Ty.mustAccept_eq_ok {target source : Ty} :
    target.mustAccept source = .ok () ↔ target.Assignable source := by
  rw [← accepts_iff, mustAccept]
  split <;> simp_all

theorem Literal.type_eq_ok {value : Literal} {type : Ty} :
    value.type = .ok type ↔ value.HasType type := by
  constructor
  · intro typed
    cases value with
    | integer value =>
      rw [Literal.type] at typed
      split at typed
      · rename_i fits
        cases typed
        rw [fitsInteger, Bool.and_eq_true, decide_eq_true_eq, decide_eq_true_eq] at fits
        exact .integer fits.1 fits.2
      · cases typed
    | decimal value =>
      rw [Literal.type] at typed
      split at typed
      · rename_i fits
        cases typed
        exact .decimal fits
      · cases typed
    | _ => cases typed; constructor
  · intro typed
    cases typed with
    | integer low high =>
      rw [Literal.type, if_pos]
      rw [fitsInteger, Bool.and_eq_true, decide_eq_true_eq, decide_eq_true_eq]
      exact ⟨low, high⟩
    | decimal fits => rw [Literal.type, if_pos fits]
    | _ => rfl

theorem Operator.type_eq_ok {operator : Operator} {left right type : Ty} :
    operator.type left right = .ok type ↔ operator.Yields left right type := by
  unfold Operator.type
  constructor
  · intro typed
    split at typed
    · rename_i level
      rcases exists_of_bind_eq_ok typed with ⟨_, onLeft, rest⟩
      rcases exists_of_bind_eq_ok rest with ⟨_, onRight, done⟩
      cases done
      exact .logical level (Ty.mustAccept_eq_ok.mp onLeft) (Ty.mustAccept_eq_ok.mp onRight)
    · rename_i level
      rcases exists_of_bind_eq_ok typed with ⟨_, onLeft, rest⟩
      rcases exists_of_bind_eq_ok rest with ⟨_, onRight, rest⟩
      rcases exists_of_bind_eq_ok rest with ⟨_, together, done⟩
      cases done
      exact .comparison level (Ty.mustAccept_eq_ok.mp onLeft) (Ty.mustAccept_eq_ok.mp onRight)
        (Ty.mustAccept_eq_ok.mp together)
    all_goals
      rename_i level
      split at typed <;> cases typed
      rename_i found
      unfold arithmeticType? at found
      split at found
      · cases found; exact .arithmetic (by simp [level]) (by simp)
      · cases found; exact .arithmetic (by simp [level]) (by simp)
      · split at found <;> cases found
        exact .concatenation ‹_›
      · cases found
  · intro yields
    cases yields with
    | logical level onLeft onRight =>
      simp only [level, Ty.mustAccept_eq_ok.mpr onLeft, Ty.mustAccept_eq_ok.mpr onRight]
      rfl
    | comparison level onLeft onRight together =>
      simp only [level, Ty.mustAccept_eq_ok.mpr onLeft, Ty.mustAccept_eq_ok.mpr onRight,
        Ty.mustAccept_eq_ok.mpr together]
      rfl
    | arithmetic level number =>
      simp only [List.mem_cons, List.not_mem_nil, or_false] at level number
      rcases level with level | level <;> rcases number with rfl | rfl <;>
        simp only [level, arithmeticType?]
    | concatenation sum =>
      subst sum
      rfl

theorem Ty.field_eq_ok {owner type : Ty} {name : String} :
    owner.field name = .ok type ↔ owner.HasField name type := by
  unfold Ty.field
  constructor
  · intro found
    cases owner with
    | nominal definition =>
      dsimp only at found
      split at found <;> cases found
      exact .nominal ‹_›
    | _ => cases found
  · intro has
    cases has with
    | nominal found => simp only [found]

theorem Ty.hasMethod_of_method {owner : Ty} {key : FunctionKey} {method : NativeMethod}
    (found : owner.method key = .ok method) : owner.HasMethod key method.signature := by
  unfold Ty.method at found
  cases owner with
  | nominal definition =>
    dsimp only at found
    split at found <;> cases found
    exact .nominal ‹_›
  | _ => cases found

theorem Ty.HasMethod.exists_method {owner : Ty} {key : FunctionKey} {signature : Signature}
    (has : owner.HasMethod key signature) :
    ∃ method, owner.method key = .ok method ∧ method.signature = signature := by
  cases has with
  | @nominal definition _ method found =>
    refine ⟨method, ?_, rfl⟩
    simp only [Ty.method, found]

theorem Ty.HasMethod.key_eq {owner : Ty} {key : FunctionKey} {signature : Signature}
    (has : owner.HasMethod key signature) : signature.key = key := by
  cases has with
  | nominal found =>
    have matched := List.find?_some found
    exact beq_iff_eq.mp matched

theorem Registry.get_eq_ok {types : Registry} {name : String} {type : Ty} :
    types.get name = .ok type ↔ types.find? name = some type := by
  unfold Registry.get
  cases types.find? name <;> simp

/-! ## What a chain of frames means -/

/-- The context that a chain of frames stands for. -/
def StaticScope.context (scope : StaticScope) : Context where
  functions key := scope.frames.findSome? (·.findFunction? key)
  current := (scope.inner.headD scope.root).findVariable?
  outer := scope.frames.tail.map Frame.findVariable?

namespace StaticScope

variable {scope after : StaticScope}

theorem blocks_context (scope : StaticScope) :
    scope.context.blocks = scope.frames.map Frame.findVariable? := by
  rcases scope with ⟨root, _ | ⟨frame, rest⟩⟩ <;> rfl

theorem getFunction_eq_ok {key : FunctionKey} {signature : Signature} :
    scope.getFunction key = .ok signature ↔ scope.context.functions key = some signature := by
  unfold Scope.getFunction context
  dsimp only
  cases scope.frames.findSome? (·.findFunction? key) <;> simp

theorem means_iff {name : String} {found : Variable} :
    Block.Means name scope.context.blocks found ↔ scope.getVariable name = .ok found := by
  rw [blocks_context, Scope.getVariable_eq_ok]
  generalize scope.frames = frames
  induction frames with
  | nil => exact ⟨nofun, nofun⟩
  | cons frame frames ih =>
    rw [List.map_cons, List.findSome?_cons]
    cases bound : frame.findVariable? name with
    | some here =>
      constructor
      · intro means
        cases means with
        | here same => exact bound.symm.trans same
        | outside free => cases bound.symm.trans free
      · intro same
        exact .here (bound.trans same)
    | none =>
      dsimp only
      rw [← ih]
      constructor
      · intro means
        cases means with
        | here same => cases bound.symm.trans same
        | outside _ means => exact means
      · exact .outside bound

theorem context_push (scope : StaticScope) : context scope.push = scope.context.inner := by
  have functions : (context scope.push).functions = scope.context.functions := by
    funext key
    rfl
  have outer : (context scope.push).outer = scope.context.blocks := (blocks_context scope).symm
  rw [Context.inner, ← outer, ← functions]
  rfl

/-- The names of a frame with one more variable. -/
theorem findVariable?_cons {frame : Frame Variable Signature} {name : String} {found : Variable} :
    Frame.findVariable?
        { frame with variableBindings := (name, found) :: frame.variableBindings } =
      Function.update frame.findVariable? name (some found) := by
  funext other
  by_cases same : other = name
  · subst same
    rw [Function.update_self]
    exact List.lookup_cons_self
  · rw [Function.update_of_ne same]
    exact Bindings.lookup_cons_of_ne same _ _

theorem context_of_addVariable {name : String} {type : Ty}
    (added : scope.addVariable name ⟨name, name, type⟩ = .ok after) :
    scope.context.current name = none ∧ after.context = scope.context.declare name type ∧
      (scope.inner = [] → after.inner = []) := by
  rcases scope with ⟨root, _ | ⟨frame, rest⟩⟩
  · rcases Scope.updateCurrent_root added with ⟨changed, change, rfl⟩
    rcases Frame.addVariable_eq_ok.mp change with ⟨free, rfl⟩
    refine ⟨free, ?_, fun _ => rfl⟩
    simp only [context, Context.declare, ← findVariable?_cons]
    rfl
  · rcases Scope.updateCurrent_inner added with ⟨changed, change, rfl⟩
    rcases Frame.addVariable_eq_ok.mp change with ⟨free, rfl⟩
    refine ⟨free, ?_, fun atRoot => nomatch atRoot⟩
    simp only [context, Context.declare, ← findVariable?_cons]
    rfl

theorem exists_addVariable {name : String} (free : scope.context.current name = none)
    (type : Ty) : ∃ after, scope.addVariable name ⟨name, name, type⟩ = .ok after := by
  rcases scope with ⟨root, _ | ⟨frame, rest⟩⟩
  · have added : root.addVariable name ⟨name, name, type⟩ = .ok _ :=
      Frame.addVariable_eq_ok.mpr ⟨free, rfl⟩
    simp only [Scope.addVariable, Scope.updateCurrent, added]
    exact ⟨_, rfl⟩
  · have added : frame.addVariable name ⟨name, name, type⟩ = .ok _ :=
      Frame.addVariable_eq_ok.mpr ⟨free, rfl⟩
    simp only [Scope.addVariable, Scope.updateCurrent, added]
    exact ⟨_, rfl⟩

/-- Functions are defined where no block is open. -/
theorem addFunction_eq_ok (atRoot : scope.inner = []) {signature : Signature} :
    (∃ after, scope.addFunction signature.key signature = .ok after) ↔
      scope.context.functions signature.key = none := by
  rcases scope with ⟨⟨bound, functions⟩, inner⟩
  cases atRoot
  simp only [Scope.addFunction_eq_ok, context, Scope.frames, List.nil_append,
    List.findSome?_singleton, exists_and_left, exists_eq, and_true]
  rfl

theorem context_of_addFunction (atRoot : scope.inner = []) {signature : Signature}
    (added : scope.addFunction signature.key signature = .ok after) :
    after.context = scope.context.define signature ∧ after.inner = [] := by
  rcases scope with ⟨⟨bound, functions⟩, inner⟩
  cases atRoot
  rcases Scope.addFunction_eq_ok.mp added with ⟨free, rfl⟩
  refine ⟨?_, rfl⟩
  have found : ∀ key, ((signature.key, signature) :: functions).lookup key =
      Function.update (fun key => functions.lookup key) signature.key (some signature) key := by
    intro key
    by_cases same : key = signature.key
    · subst same
      rw [List.lookup_cons_self, Function.update_self]
    · rw [Bindings.lookup_cons_of_ne same, Function.update_of_ne same]
  simp only [context, Context.define, Scope.frames, List.nil_append, List.findSome?_singleton,
    Frame.findFunction?, found]
  rfl

end StaticScope

/-! ## Functions of a context -/

namespace Context

variable {context : Context}

/-- Every function is bound under its own key. -/
def Keyed (context : Context) : Prop :=
  ∀ key signature, context.functions key = some signature → signature.key = key

theorem functions_define_self {signature : Signature} :
    (context.define signature).functions signature.key = some signature :=
  Function.update_self ..

theorem functions_define_of_ne {signature : Signature} {key : FunctionKey}
    (different : key ≠ signature.key) :
    (context.define signature).functions key = context.functions key :=
  Function.update_of_ne different ..

theorem Keyed.define (keyed : context.Keyed) (signature : Signature) :
    (context.define signature).Keyed := by
  intro key found bound
  by_cases same : key = signature.key
  · subst same
    rw [functions_define_self] at bound
    cases bound
    rfl
  · rw [functions_define_of_ne same] at bound
    exact keyed key found bound

theorem current_declare_eq_none {name other : String} {type : Ty} :
    (context.declare name type).current other = none ↔
      other ≠ name ∧ context.current other = none := by
  change Function.update context.current name _ other = none ↔ _
  by_cases same : other = name
  · subst same
    simp
  · rw [Function.update_of_ne same]
    exact ⟨fun free => ⟨same, free⟩, And.right⟩

theorem functions_declareAll (pairs : List (Parameter × Ty)) :
    (context.declareAll pairs).functions = context.functions := by
  unfold declareAll
  induction pairs generalizing context with
  | nil => rfl
  | cons pair pairs ih => exact ih

end Context

theorem StaticScope.requireMain_eq_ok {scope : StaticScope} :
    StaticScope.requireMain scope = .ok () ↔
      ∃ main, scope.context.functions ⟨"main", 0⟩ = some main ∧
        Ty.integer.Assignable main.returns := by
  simp only [← StaticScope.getFunction_eq_ok, ← Ty.mustAccept_eq_ok]
  unfold requireMain
  cases scope.getFunction ⟨"main", 0⟩ <;> simp

/-! ## The context that a program begins with -/

namespace Environment

/-- Natives with different keys can be defined one after the other. -/
theorem exists_defineAll {functions : List NativeFunction} {scope : StaticScope}
    (atRoot : scope.inner = []) (distinct : (functions.map (·.signature.key)).Nodup)
    (free : ∀ f ∈ functions, scope.context.functions f.signature.key = none) :
    ∃ after, functions.foldlM
        (fun (scope : StaticScope) f => scope.addFunction f.signature.key f.signature) scope =
          .ok after ∧
      after.context = functions.foldl (fun context f => context.define f.signature) scope.context ∧
      after.inner = [] := by
  induction functions generalizing scope with
  | nil => exact ⟨scope, rfl, rfl, atRoot⟩
  | cons f functions ih =>
    rcases List.forall_mem_cons.mp free with ⟨here, others⟩
    rcases List.nodup_cons.mp distinct with ⟨apart, distinct⟩
    rcases (StaticScope.addFunction_eq_ok atRoot).mpr here with ⟨middle, added⟩
    rcases StaticScope.context_of_addFunction atRoot added with ⟨context_eq, stillAtRoot⟩
    have unbound : ∀ other ∈ functions,
        (StaticScope.context middle).functions other.signature.key = none := by
      intro other member
      have different : other.signature.key ≠ f.signature.key := fun same =>
        apart (List.mem_map.mpr ⟨other, member, same⟩)
      rw [context_eq, Context.functions_define_of_ne different]
      exact others other member
    rcases ih stillAtRoot distinct unbound with ⟨after, defined, after_eq, atRootAfter⟩
    refine ⟨after, ?_, ?_, atRootAfter⟩
    · rw [List.foldlM_cons, added]
      exact defined
    · rw [after_eq, context_eq]
      rfl

/-- Of functions with different keys, a key finds the same one wherever the search begins. -/
theorem functions_defineAll {functions : List NativeFunction} {context : Context}
    (distinct : (functions.map (·.signature.key)).Nodup) (key : FunctionKey) :
    (functions.foldl (fun context f => context.define f.signature) context).functions key =
      ((functions.find? (·.signature.key == key)).map (·.signature)).or
        (context.functions key) := by
  induction functions generalizing context with
  | nil => rfl
  | cons f functions ih =>
    rcases List.nodup_cons.mp distinct with ⟨apart, distinct⟩
    rw [List.foldl_cons, ih distinct]
    by_cases same : f.signature.key = key
    · subst same
      have absent : functions.find? (·.signature.key == f.signature.key) = none := by
        rw [List.find?_eq_none]
        intro other member same
        exact apart (List.mem_map.mpr ⟨other, member, beq_iff_eq.mp same⟩)
      rw [absent, List.find?_cons_of_pos (by simp), Context.functions_define_self]
      rfl
    · rw [List.find?_cons_of_neg (by simpa using same),
        Context.functions_define_of_ne (Ne.symm same)]

theorem context_foldl_define {functions : List NativeFunction} {context : Context} :
    functions.foldl (fun context f => context.define f.signature) context =
      { context with functions :=
        (functions.foldl (fun context f => context.define f.signature) context).functions } := by
  induction functions generalizing context with
  | nil => rfl
  | cons f functions ih =>
    rw [List.foldl_cons, ih]
    rfl

/-- A program begins with the natives of its environment. -/
theorem Built.exists_staticScope {environment : Environment} (built : environment.Built) :
    ∃ natives, environment.staticScope = .ok natives ∧ natives.context = environment.context ∧
      natives.inner = [] := by
  have distinct := built.keys_nodup
  have begins : ({} : StaticScope).inner = [] := rfl
  rcases exists_defineAll begins distinct (fun _ _ => rfl) with
    ⟨natives, defined, context_eq, atRoot⟩
  refine ⟨natives, defined, ?_, atRoot⟩
  rw [context_eq, context_foldl_define, context]
  congr 1
  funext key
  rw [functions_defineAll distinct]
  exact Option.or_none

/-- Whatever an environment has, each of its natives is found under its own key. -/
theorem keyed_of_staticScope {environment : Environment} {natives : StaticScope}
    (defined : environment.staticScope = .ok natives) :
    natives.context.Keyed ∧ natives.inner = [] := by
  rcases natives_of_foldlM [] environment.functions [] List.nodup_nil defined with ⟨rfl, -⟩
  refine ⟨fun key signature found => ?_, rfl⟩
  simp only [StaticScope.context, Scope.frames, List.nil_append, List.findSome?_singleton,
    Frame.findFunction?, List.append_nil] at found
  have member := List.mem_reverse.mp (Bindings.mem_of_lookup_eq_some found)
  rcases List.mem_map.mp member with ⟨f, -, same⟩
  cases same
  rfl

theorem keyed_context (environment : Environment) : environment.context.Keyed := by
  intro key signature found
  rcases Option.map_eq_some_iff.mp found with ⟨f, first, rfl⟩
  have matched := List.find?_some first
  exact beq_iff_eq.mp matched

end Environment

end Primer
