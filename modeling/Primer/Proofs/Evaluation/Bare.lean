import Mathlib.Data.List.Forall2
import Primer.Proofs.Evaluation.Activity
import Primer.Proofs.Evaluation.Objects
import Primer.Proofs.Syntax.Bare
import Primer.Proofs.Syntax.Everywhere

/-!
# Running bare programs

A run looks at nothing that a bare program lacks, and at no function that the program does not call.
Two machines correspond when they differ in their functions only: those with a known key are bare in
the second, and about the others nothing is said.  `Eval.Mirrors` says of two steps that they do the
same in corresponding machines, down to the machines they leave and whether they end with a value,
with an error or not at all.  Each step of a program that calls known functions is mirrored by that
step of the bare program (`Program.run_bare_of_begun`).  In one environment all functions may be
known, so a bare program runs as the program does (`Program.run_bare`).
-/

namespace Primer

/-! ## Results in pairs -/

section

variable {ε α β γ δ : Type}

/-- Both give results that are related, or both fail with the same error. -/
inductive Paired (related : α → β → Prop) : Except ε α → Except ε β → Prop
  | ok {a : α} {b : β} : related a b → Paired related (.ok a) (.ok b)
  | error {error : ε} : Paired related (.error error) (.error error)

theorem Paired.bind {related : α → β → Prop} {related' : γ → δ → Prop} {first : Except ε α}
    {first' : Except ε β} {next : α → Except ε γ} {next' : β → Except ε δ}
    (paired : Paired related first first')
    (continues : ∀ a b, related a b → Paired related' (next a) (next' b)) :
    Paired related' (first >>= next) (first' >>= next') := by
  cases paired with
  | ok holds => exact continues _ _ holds
  | error => exact .error

end

/-! ## Functions -/

def FunctionBody.bare : FunctionBody → FunctionBody
  | .native body => .native body
  | .defined method => .defined method.bare

/-- The method calls known functions. -/
def Method.Calls (known : FunctionKey → Prop) (method : Method) : Prop :=
  ∀ e ∈ Statement.allExpressions method.body, e.Calls known

/-- The mirror is the bare function, and the function calls known functions. -/
structure FunctionBody.Corresponds (known : FunctionKey → Prop) (function mirror : FunctionBody) :
    Prop where
  bare : mirror = function.bare
  calls : ∀ method, function = .defined method → method.Calls known

variable {known : FunctionKey → Prop}

theorem FunctionBody.Corresponds.native (body : List Value → Native Ty Value) :
    Corresponds known (.native body) (.native body) :=
  ⟨rfl, nofun⟩

theorem FunctionBody.Corresponds.defined {method : Method} (calls : method.Calls known) :
    Corresponds known (.defined method) (.defined method.bare) :=
  ⟨rfl, fun _ same => by cases same; exact calls⟩

/-! ## Frames -/

/-- The frames bind the same variables, and functions of known keys correspond. -/
structure Frame.Corresponds (known : FunctionKey → Prop) (frame mirror : Frame Value FunctionBody) :
    Prop where
  bindings : mirror.variableBindings = frame.variableBindings
  functions : ∀ key, known key → Option.Rel (FunctionBody.Corresponds known)
    (frame.findFunction? key) (mirror.findFunction? key)

namespace Frame.Corresponds

variable {frame mirror : Frame Value FunctionBody} (corresponds : frame.Corresponds known mirror)

theorem empty : Frame.Corresponds known {} {} :=
  ⟨rfl, fun _ _ => .none⟩

include corresponds

theorem findVariable? (name : String) : mirror.findVariable? name = frame.findVariable? name :=
  congrArg (List.lookup name) corresponds.bindings

theorem addVariable (name : String) (value : Value) :
    Paired (Frame.Corresponds known) (frame.addVariable name value)
      (mirror.addVariable name value) := by
  rw [Frame.addVariable, Frame.addVariable, corresponds.findVariable? name]
  cases frame.findVariable? name with
  | some bound => exact .error
  | none => exact .ok ⟨congrArg (List.cons _) corresponds.bindings, corresponds.functions⟩

theorem assign? (name : String) (value : Value) :
    Option.Rel (Frame.Corresponds known) (frame.assign? name value)
      (mirror.assign? name value) := by
  rw [Frame.assign?, Frame.assign?, corresponds.findVariable? name]
  cases frame.findVariable? name with
  | none => exact .none
  | some bound =>
    exact .some ⟨congrArg (Bindings.replace name value) corresponds.bindings,
      corresponds.functions⟩

theorem addFunction {key : FunctionKey} (isKnown : known key) {function function' : FunctionBody}
    (same : function.Corresponds known function') :
    Paired (Frame.Corresponds known) (frame.addFunction key function)
      (mirror.addFunction key function') := by
  have found := corresponds.functions key isKnown
  unfold Frame.addFunction
  generalize frame.findFunction? key = bound at found
  generalize mirror.findFunction? key = bound' at found
  cases found with
  | some _ => exact .error
  | none =>
    refine .ok ⟨corresponds.bindings, fun other otherKnown => ?_⟩
    rw [findFunction?, findFunction?, List.lookup_cons, List.lookup_cons]
    split
    · exact .some same
    · exact corresponds.functions other otherKnown

/-- A function of a key that is not known may be bound in the mirror alone. -/
theorem addFunction_mirror {key : FunctionKey} (unknown : ¬known key) (function : FunctionBody) :
    frame.Corresponds known
      { mirror with functionBindings := (key, function) :: mirror.functionBindings } := by
  refine ⟨corresponds.bindings, fun other otherKnown => ?_⟩
  have different : (other == key) = false := by
    rw [beq_eq_false_iff_ne]
    rintro rfl
    exact unknown otherKnown
  rw [findFunction?, findFunction?, List.lookup_cons, different]
  exact corresponds.functions other otherKnown

end Frame.Corresponds

/-! ## Scopes -/

/-- The scopes correspond frame by frame. -/
structure Scope.Corresponds (known : FunctionKey → Prop) (scope mirror : Scope Value FunctionBody) :
    Prop where
  root : scope.root.Corresponds known mirror.root
  inner : List.Forall₂ (Frame.Corresponds known) scope.inner mirror.inner

namespace Scope.Corresponds

variable {scope mirror : Scope Value FunctionBody} (corresponds : scope.Corresponds known mirror)

theorem empty : Scope.Corresponds known {} {} :=
  ⟨.empty, .nil⟩

include corresponds

theorem frames : List.Forall₂ (Frame.Corresponds known) scope.frames mirror.frames :=
  List.rel_append corresponds.inner (.cons corresponds.root .nil)

theorem push : scope.push.Corresponds known mirror.push :=
  ⟨corresponds.root, .cons .empty corresponds.inner⟩

theorem pop : scope.pop.Corresponds known mirror.pop := by
  rcases scope with ⟨root, inner⟩
  rcases mirror with ⟨root', inner'⟩
  rcases corresponds with ⟨onRoot, onInner⟩
  cases onInner with
  | nil => exact ⟨onRoot, .nil⟩
  | cons _ others => exact ⟨onRoot, others⟩

theorem rootOnly : scope.rootOnly.Corresponds known mirror.rootOnly :=
  ⟨corresponds.root, .nil⟩

theorem withInner {other other' : Scope Value FunctionBody}
    (inside : other.Corresponds known other') :
    (scope.withInner other.inner).Corresponds known (mirror.withInner other'.inner) :=
  ⟨corresponds.root, inside.inner⟩

theorem getVariable (name : String) : mirror.getVariable name = scope.getVariable name := by
  have found : mirror.frames.findSome? (·.findVariable? name) =
      scope.frames.findSome? (·.findVariable? name) := by
    have pairs := corresponds.frames
    generalize scope.frames = frames at pairs
    generalize mirror.frames = frames' at pairs
    induction pairs with
    | nil => rfl
    | cons first _ ih =>
      rw [List.findSome?_cons, List.findSome?_cons, first.findVariable? name, ih]
  rw [Scope.getVariable, Scope.getVariable, found]

theorem getFunction {key : FunctionKey} (isKnown : known key) :
    Paired (FunctionBody.Corresponds known) (scope.getFunction key) (mirror.getFunction key) := by
  have found : Option.Rel (FunctionBody.Corresponds known)
      (scope.frames.findSome? (·.findFunction? key))
      (mirror.frames.findSome? (·.findFunction? key)) := by
    have pairs := corresponds.frames
    generalize scope.frames = frames at pairs
    generalize mirror.frames = frames' at pairs
    induction pairs with
    | nil => exact .none
    | @cons frame frame' _ _ first _ ih =>
      have here := first.functions key isKnown
      rw [List.findSome?_cons, List.findSome?_cons]
      generalize frame.findFunction? key = bound at here
      generalize frame'.findFunction? key = bound' at here
      cases here with
      | none => exact ih
      | some same => exact .some same
  unfold Scope.getFunction
  generalize scope.frames.findSome? (·.findFunction? key) = bound at found
  generalize mirror.frames.findSome? (·.findFunction? key) = bound' at found
  cases found with
  | none => exact .error
  | some same => exact .ok same

theorem updateCurrent
    {update update' : Frame Value FunctionBody → Except NamingError (Frame Value FunctionBody)}
    (updates : ∀ frame frame', frame.Corresponds known frame' →
      Paired (Frame.Corresponds known) (update frame) (update' frame')) :
    Paired (Scope.Corresponds known) (scope.updateCurrent update)
      (mirror.updateCurrent update') := by
  rcases scope with ⟨root, inner⟩
  rcases mirror with ⟨root', inner'⟩
  rcases corresponds with ⟨onRoot, onInner⟩
  cases onInner with
  | nil => exact (updates _ _ onRoot).bind fun _ _ changed => .ok ⟨changed, .nil⟩
  | cons first others =>
    exact (updates _ _ first).bind fun _ _ changed => .ok ⟨onRoot, .cons changed others⟩

theorem addVariable (name : String) (value : Value) :
    Paired (Scope.Corresponds known) (scope.addVariable name value)
      (mirror.addVariable name value) :=
  corresponds.updateCurrent fun _ _ frames => frames.addVariable name value

theorem addFunction {key : FunctionKey} (isKnown : known key) {function function' : FunctionBody}
    (same : function.Corresponds known function') :
    Paired (Scope.Corresponds known) (scope.addFunction key function)
      (mirror.addFunction key function') :=
  corresponds.updateCurrent fun _ _ frames => frames.addFunction isKnown same

theorem assign (name : String) (value : Value) :
    Paired (Scope.Corresponds known) (scope.assign name value) (mirror.assign name value) := by
  have inside : Option.Rel (List.Forall₂ (Frame.Corresponds known))
      (assignFirst? name value scope.inner) (assignFirst? name value mirror.inner) := by
    have pairs := corresponds.inner
    generalize scope.inner = frames at pairs
    generalize mirror.inner = frames' at pairs
    induction pairs with
    | nil => exact .none
    | @cons frame frame' rest rest' first others ih =>
      have here := first.assign? name value
      rw [assignFirst?, assignFirst?]
      generalize frame.assign? name value = changed at here
      generalize frame'.assign? name value = changed' at here
      generalize assignFirst? name value rest = changes at ih
      generalize assignFirst? name value rest' = changes' at ih
      cases here with
      | some same => exact .some (.cons same others)
      | none =>
        cases ih with
        | none => exact .none
        | some same => exact .some (.cons first same)
  have outside := corresponds.root.assign? name value
  unfold Scope.assign
  generalize assignFirst? name value scope.inner = changes at inside
  generalize assignFirst? name value mirror.inner = changes' at inside
  generalize scope.root.assign? name value = changed at outside
  generalize mirror.root.assign? name value = changed' at outside
  cases inside with
  | some same => exact .ok ⟨corresponds.root, same⟩
  | none =>
    cases outside with
    | none => exact .error
    | some same => exact .ok ⟨same, corresponds.inner⟩

end Scope.Corresponds

/-! ## Steps -/

/-- The machines differ in their functions only, and functions of known keys correspond. -/
structure Machine.Corresponds (known : FunctionKey → Prop) (machine mirror : Machine) : Prop where
  scope : machine.scope.Corresponds known mirror.scope
  effects : mirror.effects = machine.effects

theorem Machine.Corresponds.empty : Machine.Corresponds known {} {} :=
  ⟨.empty, rfl⟩

namespace Eval

variable {α β : Type}

/-- The two steps end alike, and leave corresponding machines. -/
structure EndsLike (known : FunctionKey → Prop) (ended mirrored : Outcome RunError α × Machine) :
    Prop where
  outcome : mirrored.1 = ended.1
  machine : ended.2.Corresponds known mirrored.2

/-- In corresponding machines, `mirror` does what `step` does. -/
def Mirrors (known : FunctionKey → Prop) (step mirror : Eval α) : Prop :=
  ∀ machine machine', machine.Corresponds known machine' →
    EndsLike known (step machine) (mirror machine')

/-- The rest of the work may rely on the value that the first step gives. -/
theorem EndsLike.bind {first first' : Eval α} {next next' : α → Eval β} {machine machine' : Machine}
    (head : EndsLike known (first machine) (first' machine'))
    (tail : ∀ value after, first machine = (.value value, after) →
      Mirrors known (next value) (next' value)) :
    EndsLike known ((first >>= next) machine) ((first' >>= next') machine') := by
  rcases ended : first machine with ⟨outcome, between⟩
  rcases mirrored : first' machine' with ⟨outcome', between'⟩
  rw [ended, mirrored] at head
  rcases head with ⟨same, corresponds⟩
  cases same
  rcases outcome with value | error | -
  · rw [bind_of_value ended, bind_of_value mirrored]
    exact tail value between ended between between' corresponds
  · rw [bind_of_error ended, bind_of_error mirrored]
    exact ⟨rfl, corresponds⟩
  · rw [bind_of_exhausted ended, bind_of_exhausted mirrored]
    exact ⟨rfl, corresponds⟩

namespace Mirrors

theorem pure (value : α) : Mirrors known (pure value) (pure value) :=
  fun _ _ corresponds => ⟨rfl, corresponds⟩

theorem fail (error : RunError) : Mirrors known (fail error : Eval α) (fail error) :=
  fun _ _ corresponds => ⟨rfl, corresponds⟩

theorem exhausted : Mirrors known (exhausted : Eval α) exhausted :=
  fun _ _ corresponds => ⟨rfl, corresponds⟩

theorem ofExcept (result : Except RunError α) :
    Mirrors known (ofExcept result) (ofExcept result) := by
  cases result with
  | ok value => exact pure value
  | error error => exact fail error

theorem bind {first first' : Eval α} {next next' : α → Eval β} (head : Mirrors known first first')
    (tail : ∀ value, Mirrors known (next value) (next' value)) :
    Mirrors known (first >>= next) (first' >>= next') :=
  fun _ _ corresponds => (head _ _ corresponds).bind fun value _ _ => tail value

theorem truth {step step' : Eval Value} (mirrors : Mirrors known step step') :
    Mirrors known (truth step) (truth step') :=
  mirrors.bind fun _ => ofExcept _

theorem getVariable (name : String) :
    Mirrors known (inspectScope (·.getVariable name)) (inspectScope (·.getVariable name)) := by
  intro machine machine' corresponds
  rw [inspectScope, inspectScope, corresponds.scope.getVariable name]
  cases machine.scope.getVariable name with
  | ok value => exact ⟨rfl, corresponds⟩
  | error error => exact ⟨rfl, corresponds⟩

/-- Looking up a known function, whatever is said when there is none, and doing something with
it. -/
theorem lookUp {key : FunctionKey} (isKnown : known key) (report : NamingError → RunError)
    {find : Eval FunctionBody} {next next' : FunctionBody → Eval β}
    (hit : ∀ machine function, machine.scope.getFunction key = .ok function →
      find machine = (.value function, machine))
    (miss : ∀ machine error, machine.scope.getFunction key = .error error →
      find machine = (.error (report error), machine))
    (tail : ∀ function function', function.Corresponds known function' →
      Mirrors known (next function) (next' function')) :
    Mirrors known (find >>= next) (find >>= next') := by
  intro machine machine' corresponds
  have found := corresponds.scope.getFunction isKnown
  generalize looked : machine.scope.getFunction key = result at found
  generalize looked' : machine'.scope.getFunction key = result' at found
  cases found with
  | ok same =>
    rw [bind_of_value (hit _ _ looked), bind_of_value (hit _ _ looked')]
    exact tail _ _ same machine machine' corresponds
  | error =>
    rw [bind_of_error (miss _ _ looked), bind_of_error (miss _ _ looked')]
    exact ⟨rfl, corresponds⟩

theorem changeScope
    {change change' : Scope Value FunctionBody → Except NamingError (Scope Value FunctionBody)}
    (changes : ∀ scope scope', scope.Corresponds known scope' →
      Paired (Scope.Corresponds known) (change scope) (change' scope')) :
    Mirrors known (changeScope change) (changeScope change') := by
  intro machine machine' corresponds
  have results := changes _ _ corresponds.scope
  unfold Eval.changeScope
  generalize change machine.scope = result at results
  generalize change' machine'.scope = result' at results
  cases results with
  | ok changed => exact ⟨rfl, changed, corresponds.effects⟩
  | error => exact ⟨rfl, corresponds⟩

theorem declare (name : String) (value : Value) :
    Mirrors known (Eval.changeScope (·.addVariable name value))
      (Eval.changeScope (·.addVariable name value)) :=
  changeScope fun _ _ scopes => scopes.addVariable name value

theorem define {key : FunctionKey} (isKnown : known key) {function function' : FunctionBody}
    (same : function.Corresponds known function') :
    Mirrors known (Eval.changeScope (·.addFunction key function))
      (Eval.changeScope (·.addFunction key function')) :=
  changeScope fun _ _ scopes => scopes.addFunction isKnown same

theorem nested {body body' : Eval α} (mirrors : Mirrors known body body') :
    Mirrors known (nested body) (nested body') := by
  intro machine machine' corresponds
  have inside := mirrors ⟨machine.scope.push, machine.effects⟩
    ⟨machine'.scope.push, machine'.effects⟩ ⟨corresponds.scope.push, corresponds.effects⟩
  exact ⟨inside.outcome, inside.machine.scope.pop, inside.machine.effects⟩

theorem atRoot {body body' : Eval α} (mirrors : Mirrors known body body') :
    Mirrors known (atRoot body) (atRoot body') := by
  intro machine machine' corresponds
  have inside := mirrors ⟨machine.scope.rootOnly, machine.effects⟩
    ⟨machine'.scope.rootOnly, machine'.effects⟩ ⟨corresponds.scope.rootOnly, corresponds.effects⟩
  exact ⟨inside.outcome, inside.machine.scope.withInner corresponds.scope, inside.machine.effects⟩

theorem ofNative (code : Native Ty α) : Mirrors known (ofNative code) (ofNative code) := by
  rintro ⟨scope, effects⟩ ⟨scope', effects'⟩ ⟨corresponds, same⟩
  cases same
  exact ofExcept (code.run effects).1 ⟨scope, (code.run effects).2⟩ ⟨scope', (code.run effects).2⟩
    ⟨corresponds, rfl⟩

theorem readField (owner : Value) (name : String) :
    Mirrors known (readField owner name) (readField owner name) := by
  cases owner
  case object ref => exact ofNative (Native.readField ref name)
  all_goals exact fail _

theorem writeField (owner : Value) (name : String) (value : Value) :
    Mirrors known (writeField owner name value) (writeField owner name value) := by
  cases owner
  case object ref => exact ofNative (Native.writeField ref name value)
  all_goals exact fail _

theorem callMember (owner : Value) (name : String) (values : List Value) :
    Mirrors known (callMember owner name values) (callMember owner name values) := by
  cases owner
  case object ref =>
    intro machine machine' corresponds
    have stores : machine'.effects.store = machine.effects.store :=
      congrArg Effects.store corresponds.effects
    cases found : machine.effects.store.method ref ⟨name, values.length⟩ with
    | ok method =>
      rw [callMember_of_ok found, callMember_of_ok (stores ▸ found)]
      exact ofNative (method.body ref values) machine machine' corresponds
    | error error =>
      rw [callMember_of_error found, callMember_of_error (stores ▸ found)]
      exact ⟨rfl, corresponds⟩
  all_goals exact fail _

/-! ### Loops -/

theorem forEach {body body' : Eval Completion} (mirrors : Mirrors known body body') (name : String)
    (count : Nat) (current : Int) :
    Mirrors known (forEach name body count current) (forEach name body' count current) := by
  induction count generalizing current with
  | zero => exact pure _
  | succ count ih =>
    rw [forEach_succ, forEach_succ]
    have round := nested ((declare name (.integer current)).bind fun _ => mirrors)
    refine round.bind fun completion => ?_
    cases completion with
    | completed => exact ih (current + 1)
    | returned value => exact pure _

theorem whileTrue {condition condition' : Eval Bool} {body body' : Eval Completion}
    (asks : Mirrors known condition condition') (mirrors : Mirrors known body body')
    (bound : Nat) :
    Mirrors known (whileTrue condition body bound) (whileTrue condition' body' bound) := by
  induction bound with
  | zero => exact exhausted
  | succ bound ih =>
    rw [whileTrue_succ, whileTrue_succ]
    refine asks.bind fun truth => ?_
    cases truth with
    | false => exact pure _
    | true =>
      refine (nested mirrors).bind fun completion => ?_
      cases completion with
      | completed => exact ih
      | returned value => exact pure _

theorem each {ι κ : Type} {step : ι → Eval Unit} {step' : κ → Eval Unit} (shape : ι → κ)
    {items : List ι} (mirrors : ∀ item ∈ items, Mirrors known (step item) (step' (shape item))) :
    Mirrors known (each step items) (each step' (items.map shape)) := by
  induction items with
  | nil => exact pure ()
  | cons item items ih =>
    rcases List.forall_mem_cons.mp mirrors with ⟨first, others⟩
    exact first.bind fun _ => ih others

end Mirrors

end Eval

open Eval

/-! ## Expressions and statements -/

/-- Calls of bare methods mirror calls of the methods. -/
def MethodCall.Mirrored (known : FunctionKey → Prop) (call : MethodCall) : Prop :=
  ∀ method values, method.Calls known → Mirrors known (call method values) (call method.bare values)

variable {call : MethodCall}

theorem FunctionBody.Corresponds.apply (calls : call.Mirrored known)
    {function mirror : FunctionBody} (same : function.Corresponds known mirror)
    (values : List Value) :
    Mirrors known (function.apply call values) (mirror.apply call values) := by
  rw [same.bare]
  cases function with
  | native body => exact .ofNative _
  | defined method => exact calls method values (same.calls method rfl)

mutual

theorem Expression.mirrors_evaluate (calls : call.Mirrored known) :
    (e : Expression) → (∀ part ∈ e.parts, part.Calls known) →
    Mirrors known (e.evaluate call) (e.bare.evaluate call)
  | .literal _ value, _ => by
    rw [Expression.bare, Expression.evaluate, Expression.evaluate]
    exact .pure _
  | .group _ inner, onParts => by
    rw [Expression.bare, Expression.evaluate, Expression.evaluate]
    exact Expression.mirrors_evaluate calls inner (List.forall_mem_cons.mp onParts).2
  | .binary _ operator left right, onParts => by
    rcases List.forall_mem_append.mp (List.forall_mem_cons.mp onParts).2 with ⟨onLeft, onRight⟩
    have first := Expression.mirrors_evaluate calls left onLeft
    have second := Expression.mirrors_evaluate calls right onRight
    rw [Expression.bare]
    cases operator
    case and | or =>
      rw [Expression.evaluate, Expression.evaluate]
      refine first.truth.bind fun truth => ?_
      cases truth
      all_goals first
        | exact .pure _
        | exact second.truth.bind fun _ => .pure _
    all_goals
      simp only [Expression.evaluate]
      exact first.bind fun _ => second.bind fun _ => .ofExcept _
  | .access _ name _, _ => by
    rw [Expression.bare, Expression.evaluate, Expression.evaluate]
    exact .getVariable name
  | .memberAccess _ receiver name _, onParts => by
    rw [Expression.bare, Expression.evaluate, Expression.evaluate]
    refine (Expression.mirrors_evaluate calls receiver ?_).bind fun _ => .readField _ _
    exact (List.forall_mem_cons.mp onParts).2
  | .call _ name arguments _, onParts => by
    rcases List.forall_mem_cons.mp onParts with ⟨isKnown, onArguments⟩
    rw [Expression.bare, Expression.evaluate, Expression.evaluate]
    intro machine machine' corresponds
    have evaluated := Expression.mirrors_evaluateAll calls arguments onArguments
    refine (evaluated machine machine' corresponds).bind fun values _ ended => ?_
    -- The function is looked up by the number of values, and known by the number of arguments.
    have isKnown : known ⟨name, values.length⟩ :=
      Expression.length_of_evaluateAll ended ▸ isKnown
    refine .lookUp isKnown .naming (fun machine function found => ?_)
      (fun machine error missed => ?_) fun function function' same => same.apply calls values
    · rw [inspectScope, found]
      rfl
    · rw [inspectScope, missed]
      rfl
  | .memberCall _ receiver name arguments _, onParts => by
    rcases List.forall_mem_append.mp (List.forall_mem_cons.mp onParts).2 with
      ⟨onReceiver, onArguments⟩
    rw [Expression.bare, Expression.evaluate, Expression.evaluate]
    refine (Expression.mirrors_evaluate calls receiver onReceiver).bind fun owner => ?_
    refine (Expression.mirrors_evaluateAll calls arguments onArguments).bind fun _ => ?_
    exact .callMember _ _ _

theorem Expression.mirrors_evaluateAll (calls : call.Mirrored known) : (es : List Expression) →
    (∀ part ∈ Expression.allParts es, part.Calls known) →
    Mirrors known (Expression.evaluateAll call es)
      (Expression.evaluateAll call (Expression.bareAll es))
  | [], _ => by
    rw [Expression.bareAll, Expression.evaluateAll]
    exact .pure _
  | e :: es, onParts => by
    rcases List.forall_mem_append.mp onParts with ⟨first, others⟩
    rw [Expression.bareAll, Expression.evaluateAll, Expression.evaluateAll]
    refine (Expression.mirrors_evaluate calls e first).bind fun value => ?_
    exact (Expression.mirrors_evaluateAll calls es others).bind fun _ => .pure _

end

theorem Declaration.mirrors_execute (calls : call.Mirrored known) (decl : Declaration)
    (onParts : ∀ e ∈ decl.expressions, e.Calls known) :
    Mirrors known (decl.execute call) (decl.bare.execute call) := by
  rcases decl with ⟨name, typeName, value, span, binding⟩
  cases value with
  | none => exact (Mirrors.pure _).bind (.declare name)
  | some value =>
    refine (value.mirrors_evaluate calls fun part member => onParts part ?_).bind (.declare name)
    exact List.mem_flatMap.mpr ⟨value, List.mem_singleton_self value, member⟩

theorem Expression.mirrors_assign (calls : call.Mirrored known) (target value : Expression)
    (onTarget : ∀ part ∈ target.parts, part.Calls known)
    (onValue : ∀ part ∈ value.parts, part.Calls known) :
    Mirrors known (target.assign call value) (target.bare.assign call value.bare) := by
  have valued := value.mirrors_evaluate calls onValue
  cases target
  case access note name binding =>
    exact valued.bind fun result => .changeScope fun _ _ scopes => scopes.assign name result
  case memberAccess note receiver name binding =>
    have received := receiver.mirrors_evaluate calls (List.forall_mem_cons.mp onTarget).2
    exact received.bind fun owner => valued.bind fun _ => .writeField _ _ _
  all_goals exact .fail _

mutual

theorem Statement.mirrors_execute (calls : call.Mirrored known) (rounds : Nat) :
    (s : Statement) → (∀ e ∈ s.expressions, e.Calls known) →
    Mirrors known (s.execute call rounds) (s.bare.execute call rounds)
  | .expression value, onParts => by
    rw [Statement.bare, Statement.execute, Statement.execute]
    exact (value.mirrors_evaluate calls onParts).bind fun _ => .pure _
  | .declaration decl, onParts => by
    rw [Statement.bare, Statement.execute, Statement.execute]
    exact (decl.mirrors_execute calls onParts).bind fun _ => .pure _
  | .assignment target value, onParts => by
    rcases List.forall_mem_append.mp onParts with ⟨onTarget, onValue⟩
    rw [Statement.bare, Statement.execute, Statement.execute]
    exact (target.mirrors_assign calls value onTarget onValue).bind fun _ => .pure _
  | .conditional condition thenBody elseBody, onParts => by
    rcases List.forall_mem_append.mp onParts with ⟨onCondition, onBodies⟩
    rcases List.forall_mem_append.mp onBodies with ⟨onThen, onElse⟩
    have thenMirrors := Statement.mirrors_executeAll calls rounds thenBody onThen
    have elseMirrors := Statement.mirrors_executeAll calls rounds elseBody onElse
    rw [Statement.bare, Statement.execute, Statement.execute]
    refine (condition.mirrors_evaluate calls onCondition).truth.bind fun truth => ?_
    cases truth with
    | true => exact .nested thenMirrors
    | false => exact .nested elseMirrors
  | .forEach name range body, onParts => by
    rcases List.forall_mem_append.mp onParts with ⟨onRange, onBody⟩
    have mirrors := Statement.mirrors_executeAll calls rounds body onBody
    rw [Statement.bare, Statement.execute, Statement.execute]
    refine (range.mirrors_evaluate calls onRange).bind fun value => ?_
    cases value
    case range => exact .forEach mirrors _ _ _
    all_goals exact .fail _
  | .loop condition body, onParts => by
    rcases List.forall_mem_append.mp onParts with ⟨onCondition, onBody⟩
    rw [Statement.bare, Statement.execute, Statement.execute]
    exact .whileTrue (condition.mirrors_evaluate calls onCondition).truth
      (Statement.mirrors_executeAll calls rounds body onBody) rounds
  | .result value, onParts => by
    rw [Statement.bare, Statement.execute, Statement.execute]
    exact (value.mirrors_evaluate calls onParts).bind fun _ => .pure _

theorem Statement.mirrors_executeAll (calls : call.Mirrored known) (rounds : Nat) :
    (ss : List Statement) → (∀ e ∈ Statement.allExpressions ss, e.Calls known) →
    Mirrors known (Statement.executeAll call rounds ss)
      (Statement.executeAll call rounds (Statement.bareAll ss))
  | [], _ => by
    rw [Statement.bareAll, Statement.executeAll]
    exact .pure _
  | s :: ss, onParts => by
    rcases List.forall_mem_append.mp onParts with ⟨first, others⟩
    have rest := Statement.mirrors_executeAll calls rounds ss others
    rw [Statement.bareAll, Statement.executeAll_cons, Statement.executeAll_cons]
    refine (Statement.mirrors_execute calls rounds s first).bind fun completion => ?_
    cases completion with
    | completed => exact rest
    | returned value => exact .pure _

end

/-! ## Calls and runs -/

theorem Method.key_bare (method : Method) : method.bare.key = method.key :=
  congrArg (FunctionKey.mk method.name) (List.length_map _)

theorem Method.mirrors_bindParameters (method : Method) (values : List Value) :
    Mirrors known (method.bindParameters values) (method.bare.bindParameters values) := by
  refine .changeScope fun scope scope' corresponds => ?_
  rw [Method.bare]
  dsimp only
  generalize method.parameters = parameters
  induction parameters generalizing values scope scope' with
  | nil => exact .ok corresponds
  | cons parameter parameters ih =>
    cases values with
    | nil => exact .ok corresponds
    | cons value values =>
      rw [List.map_cons, List.zip_cons_cons, List.zip_cons_cons, List.foldlM_cons, List.foldlM_cons]
      exact (corresponds.addVariable parameter.name value).bind fun _ _ => ih values _ _

theorem Method.mirrors_call (bound : Nat) : MethodCall.Mirrored known (Method.call bound) := by
  induction bound with
  | zero => exact fun _ _ _ => .exhausted
  | succ bound ih =>
    intro method values onBody
    have arity : method.bare.parameters.length = method.parameters.length := List.length_map _
    rw [Method.call, Method.call, arity]
    split
    · have body := (method.mirrors_bindParameters values).bind fun _ =>
        Statement.mirrors_executeAll ih bound method.body onBody
      exact body.nested.atRoot.bind fun _ => .pure _
    · exact .fail _

/-- The end of a run: `main` is called, and has to give an integer. -/
def Eval.callMain (bound : Nat) : Eval Int := do
  let main ← Task.findMain
  match ← main.apply (Method.call bound) [] with
  | .integer value => return value
  | other => Eval.fail (.mainNotInteger other.typeName)

theorem Eval.mirrors_callMain (bound : Nat) (isKnown : known ⟨"main", 0⟩) :
    Mirrors known (callMain bound) (callMain bound) := by
  refine .lookUp isKnown (fun _ => .missingMain) (fun machine function found => ?_)
    (fun machine error missed => ?_) fun main main' same => ?_
  · rw [Task.findMain, found]
  · rw [Task.findMain, missed]
  · refine (same.apply (Method.mirrors_call bound) []).bind fun value => ?_
    cases value
    case integer => exact .pure _
    all_goals exact .fail _

theorem Program.execute_eq (environment : Environment) (bound : Nat) (program : Program) :
    program.execute environment bound = (do
      environment.define
      Eval.each (Declaration.execute (Method.call bound)) program.fields
      Task.defineMethods program.methods
      Eval.callMain bound) :=
  rfl

/-- The program refers to functions with known keys only. -/
structure Program.Knows (known : FunctionKey → Prop) (program : Program) : Prop where
  fields : ∀ field ∈ program.fields, ∀ e ∈ field.expressions, e.Calls known
  methods : ∀ method ∈ program.methods, known method.key ∧ method.Calls known
  main : known ⟨"main", 0⟩

/-- Once the natives are defined, a bare program goes on as the program does. -/
theorem Program.endsLike_execute {environment environment' : Environment} (bound : Nat)
    {program : Program} (knows : program.Knows known)
    (begun : EndsLike known (environment.define {}) (environment'.define {})) :
    EndsLike known (program.execute environment bound {})
      (program.bare.execute environment' bound {}) := by
  have calls : MethodCall.Mirrored known (Method.call bound) := Method.mirrors_call bound
  have methods : ∀ method ∈ program.methods,
      Mirrors known (changeScope (·.addFunction method.key (.defined method)))
        (changeScope (·.addFunction method.bare.key (.defined method.bare))) := by
    intro method member
    rcases knows.methods method member with ⟨isKnown, onBody⟩
    rw [method.key_bare]
    exact .define isKnown (.defined onBody)
  rw [execute_eq, execute_eq]
  refine begun.bind fun _ _ _ => ?_
  refine (Mirrors.each Declaration.bare fun decl member =>
    decl.mirrors_execute calls (knows.fields decl member)).bind fun _ => ?_
  exact (Mirrors.each Method.bare methods).bind fun _ => mirrors_callMain bound knows.main

/-- A run shows how it ended, and of the machine it leaves no more than the effects. -/
theorem Program.run_eq_of_execute {environment environment' : Environment} {bound : Nat}
    {program other : Program}
    (outcome : (other.execute environment' bound {}).1 = (program.execute environment bound {}).1)
    (effects : (other.execute environment' bound {}).2.effects =
      (program.execute environment bound {}).2.effects) :
    other.run environment' bound = program.run environment bound := by
  unfold Program.run
  generalize program.execute environment bound {} = ended at outcome effects
  generalize other.execute environment' bound {} = ended' at outcome effects
  rcases ended with ⟨value | error | -, after⟩ <;> rcases ended' with ⟨_, after'⟩ <;> cases outcome
  · have same : after'.effects = after.effects := effects
    simp only [same]
  · rfl
  · rfl

/-- A bare program runs as the program does, also in another environment that has the functions
which the program knows. -/
theorem Program.run_bare_of_begun {environment environment' : Environment} (bound : Nat)
    {program : Program} (knows : program.Knows known)
    (begun : EndsLike known (environment.define {}) (environment'.define {})) :
    program.bare.run environment' bound = program.run environment bound := by
  have ends := program.endsLike_execute bound knows begun
  exact run_eq_of_execute ends.outcome ends.machine.effects

theorem Expression.calls_anything (e : Expression) : e.Calls fun _ => True := by
  cases e <;> trivial

theorem Environment.mirrors_define (environment : Environment)
    (isKnown : ∀ function ∈ environment.functions, known function.signature.key) :
    Mirrors known environment.define environment.define := by
  unfold Environment.define
  nth_rewrite 2 [← List.map_id environment.functions]
  exact .each id fun function member =>
    .define (isKnown function member) (.native function.body)

/-- A bare program runs as the program does. -/
theorem Program.run_bare (environment : Environment) (bound : Nat) (program : Program) :
    program.bare.run environment bound = program.run environment bound := by
  have knows : program.Knows fun _ => True :=
    ⟨fun _ _ e _ => e.calls_anything, fun _ _ => ⟨trivial, fun e _ => e.calls_anything⟩, trivial⟩
  exact program.run_bare_of_begun bound knows
    (environment.mirrors_define (fun _ _ => trivial) _ _ .empty)

end Primer
