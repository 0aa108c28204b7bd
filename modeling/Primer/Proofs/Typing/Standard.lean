import Primer.Proofs.Grammar.Origin
import Primer.Proofs.Scope.Agreement
import Primer.Proofs.Typing.Inversion

/-!
# Programs checked in the standard environment

The standard environment has no types but the primitive ones.  So in a program that is checked there
no member can be selected from anything, and nothing has a Java name of its own but `print`.
`Rules.settled` says what each node of such a program is like (`Environment.settled_of_load`).

One thing is due to types alone: a comparison is never an operand of a comparison, although the
grammar would have it, because a boolean is not ordered.
-/

namespace Primer

/-! ## What a scope binds -/

section

variable {ν φ : Type} {variableRule : String → ν → Prop} {functionRule : FunctionKey → φ → Prop}

/-- Each variable and each function of the frame is bound to something that may go by its name. -/
structure Frame.Binds (variableRule : String → ν → Prop) (functionRule : FunctionKey → φ → Prop)
    (frame : Frame ν φ) : Prop where
  ofVariables : ∀ pair ∈ frame.variableBindings, variableRule pair.1 pair.2
  ofFunctions : ∀ pair ∈ frame.functionBindings, functionRule pair.1 pair.2

def Scope.Binds (variableRule : String → ν → Prop) (functionRule : FunctionKey → φ → Prop)
    (scope : Scope ν φ) : Prop :=
  ∀ frame ∈ scope.frames, frame.Binds variableRule functionRule

namespace Scope.Binds

variable {scope extended : Scope ν φ}

theorem getVariable (binds : scope.Binds variableRule functionRule) {name : String} {found : ν}
    (bound : scope.getVariable name = .ok found) : variableRule name found := by
  obtain ⟨frame, member, bound⟩ :=
    List.exists_of_findSome?_eq_some (Scope.getVariable_eq_ok.mp bound)
  obtain ⟨before, after, same, -⟩ := List.lookup_eq_some_iff.mp bound
  have pair : (name, found) ∈ frame.variableBindings := by simp [same]
  exact (binds frame member).ofVariables _ pair

theorem getFunction (binds : scope.Binds variableRule functionRule) {key : FunctionKey} {found : φ}
    (bound : scope.getFunction key = .ok found) : functionRule key found := by
  unfold Scope.getFunction at bound
  split at bound <;> cases bound
  rename_i bound
  obtain ⟨frame, member, bound⟩ := List.exists_of_findSome?_eq_some bound
  obtain ⟨before, after, same, -⟩ := List.lookup_eq_some_iff.mp bound
  have pair : (key, found) ∈ frame.functionBindings := by simp [same]
  exact (binds frame member).ofFunctions _ pair

theorem push (binds : scope.Binds variableRule functionRule) :
    scope.push.Binds variableRule functionRule := by
  intro frame member
  obtain rfl | member := List.mem_cons.mp member
  · exact ⟨fun _ member => absurd member List.not_mem_nil,
      fun _ member => absurd member List.not_mem_nil⟩
  · exact binds frame member

/-- A change of the innermost frame that keeps to the rules. -/
theorem updateCurrent (binds : scope.Binds variableRule functionRule)
    {update : Frame ν φ → Except NamingError (Frame ν φ)}
    (keeps : ∀ frame changed, frame.Binds variableRule functionRule → update frame = .ok changed →
      changed.Binds variableRule functionRule)
    (updated : scope.updateCurrent update = .ok extended) :
    extended.Binds variableRule functionRule := by
  obtain ⟨root, inner⟩ := scope
  cases inner with
  | nil =>
    obtain ⟨changed, change, rfl⟩ := Scope.updateCurrent_root updated
    intro frame member
    obtain rfl := List.mem_singleton.mp member
    exact keeps root frame (binds root (by simp [Scope.frames])) change
  | cons first rest =>
    obtain ⟨changed, change, rfl⟩ := Scope.updateCurrent_inner updated
    intro frame member
    obtain rfl | member := List.mem_cons.mp member
    · exact keeps first frame (binds first (by simp [Scope.frames])) change
    · exact binds frame (.tail _ member)

theorem addVariable (binds : scope.Binds variableRule functionRule) {name : String} {value : ν}
    (fits : variableRule name value) (added : scope.addVariable name value = .ok extended) :
    extended.Binds variableRule functionRule := by
  refine binds.updateCurrent ?_ added
  intro frame changed old change
  obtain ⟨-, rfl⟩ := Frame.addVariable_eq_ok.mp change
  exact ⟨List.forall_mem_cons.mpr ⟨fits, old.ofVariables⟩, old.ofFunctions⟩

theorem addFunction (binds : scope.Binds variableRule functionRule) {key : FunctionKey}
    {function : φ} (fits : functionRule key function)
    (added : scope.addFunction key function = .ok extended) :
    extended.Binds variableRule functionRule := by
  refine binds.updateCurrent ?_ added
  intro frame changed old change
  unfold Frame.addFunction at change
  split at change <;> cases change
  exact ⟨old.ofVariables, List.forall_mem_cons.mpr ⟨fits, old.ofFunctions⟩⟩

end Scope.Binds

end

/-! ## The standard environment -/

/-- A type that every program has. -/
def Ty.IsPrimitive : Ty → Prop
  | .nominal _ => False
  | _ => True

/-- What a function is called in Java. -/
def FunctionKey.javaName (key : FunctionKey) : String :=
  if key = ⟨"print", 1⟩ then "System.out.println" else key.name

namespace StaticScope

/-- A variable goes by its own name in Java. -/
def NamesVariable (name : String) (found : Variable) : Prop :=
  found.javaName = name ∧ found.type.IsPrimitive

def NamesFunction (key : FunctionKey) (found : Signature) : Prop :=
  found.key = key ∧ found.javaName = key.javaName ∧ found.returns.IsPrimitive

/-- A scope of a program in the standard environment. -/
structure IsStandard (scope : StaticScope) : Prop where
  binds : scope.Binds NamesVariable NamesFunction
  print : scope.root.findFunction? ⟨"print", 1⟩ ≠ none

namespace IsStandard

variable {scope extended : StaticScope}

theorem push (standard : scope.IsStandard) : IsStandard scope.push :=
  ⟨standard.binds.push, standard.print⟩

theorem addVariable (standard : scope.IsStandard) {name : String} {type : Ty}
    (primitive : type.IsPrimitive)
    (added : scope.addVariable name ⟨name, name, type⟩ = .ok extended) :
    IsStandard extended := by
  have fits : NamesVariable name ⟨name, name, type⟩ := ⟨rfl, primitive⟩
  refine ⟨standard.binds.addVariable fits added, ?_⟩
  obtain ⟨root, inner⟩ := scope
  cases inner with
  | nil =>
    obtain ⟨changed, change, rfl⟩ := Scope.updateCurrent_root added
    have same := Frame.functions_of_addVariable change
    rw [Frame.findFunction?, same]
    exact standard.print
  | cons first rest =>
    obtain ⟨changed, change, rfl⟩ := Scope.updateCurrent_inner added
    exact standard.print

/-- The name of `print` is taken, so no other function is written with its Java name. -/
theorem addFunction (standard : scope.IsStandard) (atRoot : scope.inner = [])
    {signature : Signature} (sameName : signature.javaName = signature.name)
    (primitive : signature.returns.IsPrimitive)
    (added : scope.addFunction signature.key signature = .ok extended) :
    IsStandard extended ∧ extended.inner = [] := by
  obtain ⟨root, inner⟩ := scope
  obtain rfl : inner = [] := atRoot
  obtain ⟨changed, change, rfl⟩ := Scope.updateCurrent_root added
  unfold Frame.addFunction at change
  split at change <;> cases change
  rename_i free
  have other : signature.key ≠ ⟨"print", 1⟩ := by
    intro same
    rw [same] at free
    exact standard.print free
  have fits : NamesFunction signature.key signature := by
    refine ⟨rfl, ?_, primitive⟩
    rw [sameName, FunctionKey.javaName, if_neg other]
    rfl
  refine ⟨⟨standard.binds.addFunction fits added, ?_⟩, rfl⟩
  have later : (⟨"print", 1⟩ == signature.key) = false := by simpa using Ne.symm other
  have kept := standard.print
  simp only [Frame.findFunction?, List.lookup_cons, later] at kept ⊢
  exact kept

end IsStandard

theorem isStandard_staticScope {scope : StaticScope}
    (found : Environment.standard.staticScope = .ok scope) :
    scope.IsStandard ∧ scope.inner = [] := by
  obtain rfl := Except.ok.inj found
  refine ⟨⟨?_, by decide⟩, rfl⟩
  intro frame member
  obtain rfl := List.mem_singleton.mp member
  refine ⟨fun _ member => absurd member List.not_mem_nil, ?_⟩
  intro pair member
  obtain rfl | member := List.mem_cons.mp member
  · exact ⟨rfl, rfl, trivial⟩
  · obtain rfl := List.mem_singleton.mp member
    exact ⟨rfl, rfl, trivial⟩

end StaticScope

theorem Ty.isPrimitive_of_get {name : String} {type : Ty}
    (found : Environment.standard.types.get name = .ok type) : type.IsPrimitive := by
  have primitive : ∀ type ∈ Ty.primitives, type.IsPrimitive := by
    intro type member
    simp only [Ty.primitives, List.mem_cons, List.not_mem_nil, or_false] at member
    rcases member with rfl | rfl | rfl | rfl | rfl | rfl | rfl | rfl | rfl <;> trivial
  unfold Registry.get Registry.find? at found
  split at found
  · rename_i other found'
    split at found'
    · rename_i found''
      cases found'
      cases found
      exact primitive _ (List.mem_of_find?_eq_some found'')
    · cases found'
  · cases found

/-! ## Expressions -/

/-- What each node of a program is like that was read from a text and checked in the standard
environment. -/
def Rules.settled : Rules where
  expression
    | .literal _ value => value.IsWritten
    | .group .. => True
    | .binary _ operator left right =>
      left.looseness ≤ operator.looseness ∧ right.looseness < operator.looseness ∧
        (operator.precedence = .comparison → left.looseness ≠ operator.looseness)
    | .access _ name binding =>
      IsIdentifier name ∧ ∃ found, binding = some found ∧ found.javaName = name
    | .call _ name args binding =>
      IsIdentifier name ∧ ∃ found, binding = some found ∧
        found.javaName = FunctionKey.javaName ⟨name, args.length⟩
    | .memberAccess .. | .memberCall .. => False
  declaration decl :=
    IsIdentifier decl.name ∧
      ∃ type, type.IsPrimitive ∧ decl.binding = some ⟨decl.name, decl.name, type⟩
  statement
    | .expression value => value.isCall = true
    | .assignment target _ => target.isAccess = true
    | .forEach name _ _ => IsIdentifier name
    | _ => True
  method method :=
    IsIdentifier method.name ∧ (∀ parameter ∈ method.parameters, IsIdentifier parameter.name) ∧
      ∃ signature, method.binding = some signature ∧ signature.javaName = method.name ∧
        signature.parameters.length = method.parameters.length ∧
        (∀ type ∈ signature.parameters, type.IsPrimitive) ∧ signature.returns.IsPrimitive

/-- The result of a comparison is a boolean, which cannot be compared. -/
theorem Operator.type_of_comparison {operator : Operator} {left right type : Ty}
    (comparison : operator.precedence = .comparison)
    (typed : operator.type left right = .ok type) :
    type = .boolean ∧ left ≠ .boolean := by
  rw [Operator.type, comparison] at typed
  dsimp only at typed
  obtain ⟨_, ordered, typed⟩ := exists_of_bind_eq_ok typed
  obtain ⟨_, _, typed⟩ := exists_of_bind_eq_ok typed
  obtain ⟨_, _, typed⟩ := exists_of_bind_eq_ok typed
  cases typed
  refine ⟨rfl, ?_⟩
  rintro rfl
  cases ordered

theorem Operator.isPrimitive_type {operator : Operator} {left right type : Ty}
    (typed : operator.type left right = .ok type) : type.IsPrimitive := by
  unfold Operator.type at typed
  split at typed
  · obtain ⟨_, _, typed⟩ := exists_of_bind_eq_ok typed
    obtain ⟨_, _, typed⟩ := exists_of_bind_eq_ok typed
    cases typed
    trivial
  · obtain ⟨_, _, typed⟩ := exists_of_bind_eq_ok typed
    obtain ⟨_, _, typed⟩ := exists_of_bind_eq_ok typed
    obtain ⟨_, _, typed⟩ := exists_of_bind_eq_ok typed
    cases typed
    trivial
  all_goals
    split at typed <;> cases typed
    rename_i found
    unfold Operator.arithmeticType? at found
    split at found
    · cases found
      trivial
    · cases found
      trivial
    · split at found <;> cases found
      trivial
    · cases found

theorem Operator.precedence_of_looseness {first second : Operator}
    (same : first.looseness = second.looseness) : first.precedence = second.precedence := by
  cases first <;> cases second <;> first | rfl | cases same

theorem Literal.isPrimitive_type {value : Literal} {type : Ty} (typed : value.type = .ok type) :
    type.IsPrimitive := by
  unfold Literal.type at typed
  repeat' split at typed
  all_goals
    cases typed
    try trivial

namespace Expression

/-- Checking fills slots and leaves everything else as it is. -/
theorem head_of_resolve {scope : StaticScope} {e tree : Expression} {type : Ty}
    (resolved : e.resolve scope = ⟨tree, .ok type⟩) :
    tree.looseness = e.looseness ∧ tree.isCall = e.isCall ∧ tree.isAccess = e.isAccess := by
  cases e with
  | literal =>
    obtain ⟨-, -, rfl⟩ := resolve_literal_eq_ok.mp resolved
    exact ⟨rfl, rfl, rfl⟩
  | group =>
    obtain ⟨-, _, -, rfl⟩ := resolve_group_eq_ok.mp resolved
    exact ⟨rfl, rfl, rfl⟩
  | binary =>
    obtain ⟨-, _, _, _, _, -, -, -, rfl⟩ := resolve_binary_eq_ok.mp resolved
    exact ⟨rfl, rfl, rfl⟩
  | access =>
    obtain ⟨-, -, _, -, -, rfl⟩ := resolve_access_eq_ok.mp resolved
    exact ⟨rfl, rfl, rfl⟩
  | memberAccess =>
    obtain ⟨-, -, _, _, -, -, rfl⟩ := resolve_memberAccess_eq_ok.mp resolved
    exact ⟨rfl, rfl, rfl⟩
  | call =>
    obtain ⟨-, -, _, _, -, -, -, rfl⟩ := resolve_call_eq_ok.mp resolved
    exact ⟨rfl, rfl, rfl⟩
  | memberCall =>
    obtain ⟨-, -, _, _, _, _, -, -, -, -, rfl⟩ := resolve_memberCall_eq_ok.mp resolved
    exact ⟨rfl, rfl, rfl⟩

/-- An expression that binds as loosely as a comparison is one, so it is a boolean. -/
theorem boolean_of_looseness {scope : StaticScope} {e tree : Expression} {type : Ty}
    {operator : Operator} (comparison : operator.precedence = .comparison)
    (same : e.looseness = operator.looseness) (resolved : e.resolve scope = ⟨tree, .ok type⟩) :
    type = .boolean := by
  have four : operator.looseness = 4 := by rw [Operator.looseness, comparison]; rfl
  cases e with
  | binary note inner left right =>
    obtain ⟨-, _, _, _, _, -, -, typed, -⟩ := resolve_binary_eq_ok.mp resolved
    have inside : inner.precedence = .comparison :=
      (Operator.precedence_of_looseness same).trans comparison
    exact (Operator.type_of_comparison inside typed).1
  | _ =>
    rw [four] at same
    cases same

mutual

theorem settled_of_resolve {scope : StaticScope} (standard : scope.IsStandard) :
    (e : Expression) → e.Everywhere Rules.parsed.expression → {tree : Expression} → {type : Ty} →
      e.resolve scope = ⟨tree, .ok type⟩ →
      tree.Everywhere Rules.settled.expression ∧ type.IsPrimitive
  | .literal _ _, parsed, _, _, resolved => by
    obtain ⟨-, typed, rfl⟩ := resolve_literal_eq_ok.mp resolved
    exact ⟨parsed, Literal.isPrimitive_type typed⟩
  | .group _ inner, parsed, _, _, resolved => by
    obtain ⟨-, filled, inside, rfl⟩ := resolve_group_eq_ok.mp resolved
    obtain ⟨settled, primitive⟩ := settled_of_resolve standard inner parsed.2 inside
    exact ⟨⟨trivial, settled⟩, primitive⟩
  | .binary _ operator left right, parsed, _, _, resolved => by
    obtain ⟨-, left', leftType, right', rightType, onLeft, onRight, typed, rfl⟩ :=
      resolve_binary_eq_ok.mp resolved
    obtain ⟨⟨leftLoose, rightLoose⟩, leftParsed, rightParsed⟩ := parsed
    obtain ⟨leftSettled, -⟩ := settled_of_resolve standard left leftParsed onLeft
    obtain ⟨rightSettled, -⟩ := settled_of_resolve standard right rightParsed onRight
    rw [← (head_of_resolve onLeft).1] at leftLoose
    rw [← (head_of_resolve onRight).1] at rightLoose
    have masked : operator.precedence = .comparison → left'.looseness ≠ operator.looseness := by
      intro comparison same
      rw [(head_of_resolve onLeft).1] at same
      exact (Operator.type_of_comparison comparison typed).2
        (boolean_of_looseness comparison same onLeft)
    exact ⟨⟨⟨leftLoose, rightLoose, masked⟩, leftSettled, rightSettled⟩,
      Operator.isPrimitive_type typed⟩
  | .access _ name _, parsed, _, _, resolved => by
    obtain ⟨-, -, found, bound, rfl, rfl⟩ := resolve_access_eq_ok.mp resolved
    obtain ⟨sameName, primitive⟩ := standard.binds.getVariable bound
    exact ⟨⟨parsed, found, rfl, sameName⟩, primitive⟩
  | .memberAccess _ receiver name _, parsed, _, _, resolved => by
    obtain ⟨-, -, _, owner, onReceiver, field, -⟩ := resolve_memberAccess_eq_ok.mp resolved
    obtain ⟨-, primitive⟩ := settled_of_resolve standard receiver parsed.2 onReceiver
    cases owner with
    | nominal => exact absurd primitive id
    | _ => cases field
  | .call _ name args _, parsed, _, _, resolved => by
    obtain ⟨-, -, found, args', bound, onArgs, rfl, rfl⟩ := resolve_call_eq_ok.mp resolved
    obtain ⟨sameKey, sameName, primitive⟩ := standard.binds.getFunction bound
    have arity : args.length = found.parameters.length :=
      (congrArg FunctionKey.arity sameKey).symm
    obtain ⟨settled, length⟩ := settledAll_of_resolve standard args parsed.2 arity onArgs
    rw [← length] at sameName
    exact ⟨⟨⟨parsed.1, found, rfl, sameName⟩, settled⟩, primitive⟩
  | .memberCall _ receiver name args _, parsed, _, _, resolved => by
    obtain ⟨-, -, _, owner, _, _, onReceiver, method, -⟩ := resolve_memberCall_eq_ok.mp resolved
    obtain ⟨-, primitive⟩ := settled_of_resolve standard receiver parsed.2.1 onReceiver
    cases owner with
    | nominal => exact absurd primitive id
    | _ => cases method

theorem settledAll_of_resolve {scope : StaticScope} (standard : scope.IsStandard) :
    (args : List Expression) → EverywhereAll Rules.parsed.expression args →
      {parameters : List Ty} → args.length = parameters.length → {trees : List Expression} →
      resolveArguments scope args parameters = ⟨trees, .ok ()⟩ →
      EverywhereAll Rules.settled.expression trees ∧ trees.length = args.length
  | [], _, _, _, _, resolved => by
    obtain rfl := resolveArguments_nil_eq_ok.mp resolved
    exact ⟨trivial, rfl⟩
  | arg :: args, parsed, parameter :: parameters, arity, _, resolved => by
    obtain ⟨arg', type, args', onArg, -, onArgs, rfl⟩ := resolveArguments_cons_eq_ok.mp resolved
    obtain ⟨settled, -⟩ := settled_of_resolve standard arg parsed.1 onArg
    obtain ⟨others, length⟩ := settledAll_of_resolve standard args parsed.2 (Nat.succ.inj arity)
      onArgs
    exact ⟨⟨settled, others⟩, congrArg Nat.succ length⟩

end

end Expression

/-! ## Statements -/

theorem Declaration.isPrimitive_type {name : String} {declared initial : Option Ty} {type : Ty}
    (declaredPrimitive : ∀ t ∈ declared, t.IsPrimitive)
    (initialPrimitive : ∀ t ∈ initial, t.IsPrimitive)
    (typed : Declaration.type name declared initial = .ok type) : type.IsPrimitive := by
  unfold Declaration.type at typed
  split at typed
  · obtain ⟨_, _, same⟩ := exists_of_bind_eq_ok typed
    cases same
    exact declaredPrimitive _ rfl
  · cases typed
    exact declaredPrimitive _ rfl
  · cases typed
    exact initialPrimitive _ rfl
  · cases typed

theorem Declaration.settled_of_resolve {decl tree : Declaration} {scope after : StaticScope}
    (standard : scope.IsStandard) (parsed : decl.Everywhere .parsed)
    (resolved : decl.resolve Environment.standard.types scope = ⟨tree, .ok after⟩) :
    tree.Everywhere .settled ∧ after.IsStandard := by
  obtain ⟨-, declared, value, initial, type, named, onValue, typed, added, rfl⟩ :=
    Declaration.resolve_eq_ok.mp resolved
  have declaredPrimitive : ∀ t ∈ declared, t.IsPrimitive := by
    cases written : decl.typeName with
    | none =>
      rw [written] at named
      cases named
      exact fun _ found => nomatch found
    | some typeName =>
      rw [written] at named
      obtain ⟨found, get, same⟩ := exists_of_bind_eq_ok named
      cases same
      rintro _ ⟨⟩
      exact Ty.isPrimitive_of_get get
  have settled : (∀ e ∈ value, e.Everywhere Rules.settled.expression) ∧
      ∀ t ∈ initial, t.IsPrimitive := by
    obtain ⟨missing, same, rfl⟩ | ⟨e, e', found, present, onE, same, rfl⟩ :=
      Declaration.resolveValue_eq_ok.mp onValue
    · have none : value = none := (congrArg Declaration.value same).trans missing
      rw [none]
      exact ⟨nofun, nofun⟩
    · obtain ⟨settled, primitive⟩ :=
        Expression.settled_of_resolve standard e (parsed.2 e present) onE
      have some : value = some e' := congrArg Declaration.value same
      rw [some]
      refine ⟨?_, ?_⟩
      · rintro _ ⟨⟩
        exact settled
      · rintro _ ⟨⟩
        exact primitive
  have primitive := Declaration.isPrimitive_type declaredPrimitive settled.2 typed
  exact ⟨⟨⟨parsed.1, type, primitive, rfl⟩, settled.1⟩, standard.addVariable primitive added⟩

namespace Statement

mutual

theorem settled_of_resolve {returns : Ty} :
    (s : Statement) → s.Everywhere .parsed → {scope after : StaticScope} → {tree : Statement} →
      scope.IsStandard → s.resolve Environment.standard.types returns scope = ⟨tree, .ok after⟩ →
      tree.Everywhere .settled ∧ after.IsStandard
  | .expression value, parsed, _, _, _, standard, resolved => by
    obtain ⟨isCall, rfl, value', type, onValue, rfl⟩ := resolve_expression_eq_ok.mp resolved
    obtain ⟨settled, -⟩ := Expression.settled_of_resolve standard value parsed.2 onValue
    exact ⟨⟨(Expression.head_of_resolve onValue).2.1.trans isCall, settled⟩, standard⟩
  | .declaration decl, parsed, _, _, _, standard, resolved => by
    obtain ⟨decl', onDecl, rfl⟩ := resolve_declaration_eq_ok.mp resolved
    obtain ⟨settled, after⟩ := Declaration.settled_of_resolve standard parsed.2 onDecl
    exact ⟨⟨trivial, settled⟩, after⟩
  | .assignment target value, parsed, _, _, _, standard, resolved => by
    obtain ⟨isAccess, rfl, target', _, value', _, onTarget, onValue, -, rfl⟩ :=
      resolve_assignment_eq_ok.mp resolved
    obtain ⟨targetSettled, -⟩ := Expression.settled_of_resolve standard target parsed.2.1 onTarget
    obtain ⟨valueSettled, -⟩ := Expression.settled_of_resolve standard value parsed.2.2 onValue
    have kept := (Expression.head_of_resolve onTarget).2.2
    exact ⟨⟨kept.trans isAccess, targetSettled, valueSettled⟩, standard⟩
  | .conditional condition thenBody elseBody, parsed, _, _, _, standard, resolved => by
    obtain ⟨-, rfl, condition', _, thenBody', _, elseBody', _, onCondition, -, onThen, onElse,
      rfl⟩ := resolve_conditional_eq_ok.mp resolved
    obtain ⟨-, conditionParsed, thenParsed, elseParsed⟩ := parsed
    obtain ⟨conditionSettled, -⟩ :=
      Expression.settled_of_resolve standard condition conditionParsed onCondition
    have thenSettled := settledAll_of_resolve thenBody thenParsed standard.push onThen
    have elseSettled := settledAll_of_resolve elseBody elseParsed standard.push onElse
    exact ⟨⟨trivial, conditionSettled, thenSettled, elseSettled⟩, standard⟩
  | .forEach name range body, parsed, _, _, _, standard, resolved => by
    obtain ⟨-, rfl, range', _, inside, body', _, onRange, -, added, onBody, rfl⟩ :=
      resolve_forEach_eq_ok.mp resolved
    obtain ⟨rangeSettled, -⟩ := Expression.settled_of_resolve standard range parsed.2.1 onRange
    have primitive : Ty.integer.IsPrimitive := trivial
    have within := standard.push.addVariable primitive added
    have bodySettled := settledAll_of_resolve body parsed.2.2 within onBody
    exact ⟨⟨parsed.1, rangeSettled, bodySettled⟩, standard⟩
  | .loop condition body, parsed, _, _, _, standard, resolved => by
    obtain ⟨rfl, condition', _, body', _, onCondition, -, onBody, rfl⟩ :=
      resolve_loop_eq_ok.mp resolved
    obtain ⟨conditionSettled, -⟩ :=
      Expression.settled_of_resolve standard condition parsed.2.1 onCondition
    have bodySettled := settledAll_of_resolve body parsed.2.2 standard.push onBody
    exact ⟨⟨trivial, conditionSettled, bodySettled⟩, standard⟩
  | .result value, parsed, _, _, _, standard, resolved => by
    obtain ⟨rfl, value', _, onValue, -, rfl⟩ := resolve_result_eq_ok.mp resolved
    obtain ⟨settled, -⟩ := Expression.settled_of_resolve standard value parsed.2 onValue
    exact ⟨⟨trivial, settled⟩, standard⟩

theorem settledAll_of_resolve {returns : Ty} :
    (ss : List Statement) → EverywhereAll .parsed ss → {scope after : StaticScope} →
      {trees : List Statement} → scope.IsStandard →
      resolveAll Environment.standard.types returns ss scope = ⟨trees, .ok after⟩ →
      EverywhereAll .settled trees
  | [], _, _, _, _, _, resolved => by
    obtain ⟨rfl, -⟩ := resolveAll_nil_eq_ok.mp resolved
    trivial
  | s :: ss, parsed, _, _, _, standard, resolved => by
    obtain ⟨s', middle, ss', onFirst, onOthers, rfl⟩ := resolveAll_cons_eq_ok.mp resolved
    obtain ⟨settled, after⟩ := settled_of_resolve s parsed.1 standard onFirst
    exact ⟨settled, settledAll_of_resolve ss parsed.2 after onOthers⟩

end

end Statement

/-! ## Programs -/

theorem Method.javaName_of_signature {types : Registry} {method : Method} {signature : Signature}
    (found : method.signature types = .ok signature) : signature.javaName = method.name := by
  obtain ⟨parameters, -, rest⟩ := exists_of_bind_eq_ok found
  dsimp only at rest
  split at rest
  · obtain ⟨returns, -, same⟩ := exists_of_bind_eq_ok rest
    cases same
    rfl
  · cases rest
    rfl

theorem exists_mem_of_forall₂ {α β : Type} {R : α → β → Prop} {as : List α} {bs : List β} {b : β}
    (related : List.Forall₂ R as bs) (member : b ∈ bs) : ∃ a ∈ as, R a b := by
  induction related with
  | nil => cases member
  | @cons a b' as bs first _ ih =>
    obtain rfl | member := List.mem_cons.mp member
    · exact ⟨a, List.mem_cons_self, first⟩
    · obtain ⟨a', found, holds⟩ := ih member
      exact ⟨a', .tail _ found, holds⟩

/-- The scope of a method's body binds its parameters. -/
theorem Method.isStandard_defineParameters {method : Method} {signature : Signature}
    {scope inside : StaticScope} (standard : scope.IsStandard)
    (primitive : ∀ type ∈ signature.parameters, type.IsPrimitive)
    (defined : method.defineParameters signature scope = .ok inside) : inside.IsStandard := by
  unfold Method.defineParameters at defined
  have each : ∀ pair ∈ method.parameters.zip signature.parameters, pair.2.IsPrimitive :=
    fun pair member => primitive pair.2 (List.of_mem_zip member).2
  generalize method.parameters.zip signature.parameters = pairs at defined each
  induction pairs generalizing scope with
  | nil =>
    cases defined
    exact standard
  | cons pair pairs ih =>
    obtain ⟨parameter, type⟩ := pair
    rw [List.foldlM_cons] at defined
    obtain ⟨middle, added, defined⟩ := exists_of_bind_eq_ok defined
    exact ih (standard.addVariable (each _ List.mem_cons_self) added) defined
      fun pair member => each pair (.tail _ member)

theorem Method.settled_of_resolve {method tree : Method} {scope after : StaticScope}
    (standard : scope.IsStandard) (atRoot : scope.inner = []) (parsed : method.Everywhere .parsed)
    (resolved : method.resolve Environment.standard.types scope = ⟨tree, .ok after⟩) :
    tree.Everywhere .settled ∧ after.IsStandard ∧ after.inner = [] := by
  obtain ⟨-, signature, inside, body, _, found, added, defined, onBody, rfl⟩ :=
    Method.resolve_eq_ok.mp resolved
  obtain ⟨name_eq, parameters, returns⟩ := Method.signature_eq_ok found
  have javaName := Method.javaName_of_signature found
  have returnsPrimitive : signature.returns.IsPrimitive := by
    obtain nil | ⟨name, get⟩ := returns
    · rw [nil]
      trivial
    · exact Ty.isPrimitive_of_get get
  have parametersPrimitive : ∀ type ∈ signature.parameters, type.IsPrimitive := by
    intro type member
    obtain ⟨parameter, -, get⟩ := exists_mem_of_forall₂ parameters member
    exact Ty.isPrimitive_of_get get
  obtain ⟨extended, root⟩ := standard.addFunction atRoot (javaName.trans name_eq.symm)
    returnsPrimitive added
  have within := Method.isStandard_defineParameters extended.push parametersPrimitive defined
  have settled := Statement.settledAll_of_resolve method.body parsed.2 within onBody
  exact ⟨⟨⟨parsed.1.1, parsed.1.2, signature, rfl, javaName, parameters.length_eq.symm,
    parametersPrimitive, returnsPrimitive⟩, settled⟩, extended, root⟩

/-- What each walk of a list keeps, and what it makes of the trees. -/
theorem Attempt.forall_of_each {τ α : Type} {walk : τ → α → Attempt τ α} {state : α → Prop}
    {before after : τ → Prop}
    (step : ∀ {tree tree' : τ} {start stop : α}, state start → before tree →
      walk tree start = ⟨tree', .ok stop⟩ → after tree' ∧ state stop)
    {trees trees' : List τ} {start stop : α} (first : state start) (each : ∀ t ∈ trees, before t)
    (walked : Attempt.each walk trees start = ⟨trees', .ok stop⟩) :
    (∀ t ∈ trees', after t) ∧ state stop := by
  induction trees generalizing trees' start with
  | nil =>
    obtain ⟨rfl, rfl⟩ := Attempt.each_nil_eq_ok.mp walked
    exact ⟨fun _ member => absurd member List.not_mem_nil, first⟩
  | cons tree trees ih =>
    obtain ⟨tree', middle, rest, onFirst, onRest, rfl⟩ := Attempt.each_cons_eq_ok.mp walked
    obtain ⟨head, next⟩ := step first (each tree List.mem_cons_self) onFirst
    obtain ⟨others, last⟩ := ih next (fun t member => each t (.tail _ member)) onRest
    exact ⟨List.forall_mem_cons.mpr ⟨head, others⟩, last⟩

/-- A field is bound at the root. -/
theorem Declaration.inner_of_resolve {types : Registry} {decl tree : Declaration}
    {scope after : StaticScope} (atRoot : scope.inner = [])
    (resolved : decl.resolve types scope = ⟨tree, .ok after⟩) : after.inner = [] := by
  obtain ⟨-, _, _, _, _, -, -, -, added, -⟩ := Declaration.resolve_eq_ok.mp resolved
  obtain ⟨root, inner⟩ := scope
  obtain rfl : inner = [] := atRoot
  obtain ⟨_, -, rfl⟩ := Scope.updateCurrent_root added
  rfl

theorem Program.settled_of_resolve {program tree : Program}
    (parsed : program.Everywhere .parsed)
    (resolved : program.resolve .standard = ⟨tree, .ok ()⟩) : tree.Everywhere .settled := by
  obtain ⟨natives, fieldScope, methodScope, start, onFields, onMethods, -⟩ :=
    Program.resolve_eq_ok.mp resolved
  have rooted := StaticScope.isStandard_staticScope start
  have onField : ∀ {field field' : Declaration} {scope after : StaticScope},
      scope.IsStandard ∧ scope.inner = [] → field.Everywhere .parsed →
      field.resolve Environment.standard.types scope = ⟨field', .ok after⟩ →
      field'.Everywhere .settled ∧ after.IsStandard ∧ after.inner = [] := by
    rintro field field' scope after ⟨standard, atRoot⟩ parsed resolved
    obtain ⟨settled, standard⟩ := Declaration.settled_of_resolve standard parsed resolved
    exact ⟨settled, standard, Declaration.inner_of_resolve atRoot resolved⟩
  have onMethod : ∀ {method method' : Method} {scope after : StaticScope},
      scope.IsStandard ∧ scope.inner = [] → method.Everywhere .parsed →
      method.resolve Environment.standard.types scope = ⟨method', .ok after⟩ →
      method'.Everywhere .settled ∧ after.IsStandard ∧ after.inner = [] := by
    rintro method method' scope after ⟨standard, atRoot⟩ parsed resolved
    exact Method.settled_of_resolve standard atRoot parsed resolved
  obtain ⟨fields, rooted⟩ := Attempt.forall_of_each onField rooted parsed.1 onFields
  obtain ⟨methods, -⟩ := Attempt.forall_of_each onMethod rooted parsed.2 onMethods
  exact ⟨fields, methods⟩

/-- What each node of a program is like that was loaded in the standard environment. -/
theorem Environment.settled_of_load {source : String} {program : Program}
    (loaded : Environment.standard.load source = .ok program) : program.Everywhere .settled := by
  obtain ⟨read, parsed, checked⟩ := Environment.load_eq_ok.mp loaded
  exact Program.settled_of_resolve (Program.parsed_of_parse parsed) (Program.check_eq_ok.mp checked)

end Primer
