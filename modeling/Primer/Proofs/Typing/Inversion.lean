import Mathlib.Data.List.Forall2
import Primer.Typing.Resolve

/-!
# What a successful check has found

Checking is written as one walk that may stop anywhere.  The lemmas of this module read a walk that
did not stop backwards: for every kind of node, it says which walks of the parts succeeded, which
rules were applied, that the slots of the node were empty, and what they hold now.
-/

namespace Primer

/-! ## Attempts -/

theorem exists_of_bind_eq_ok {ε α β : Type} {first : Except ε α} {next : α → Except ε β} {b : β}
    (h : first >>= next = .ok b) : ∃ a, first = .ok a ∧ next a = .ok b := by
  cases first with
  | error => cases h
  | ok a => exact ⟨a, rfl, h⟩

theorem forall₂_of_mapM_eq_ok {ε α β : Type} {f : α → Except ε β} {as : List α} {bs : List β}
    (h : as.mapM f = .ok bs) : List.Forall₂ (fun a b => f a = .ok b) as bs := by
  induction as generalizing bs with
  | nil =>
    cases h
    exact .nil
  | cons a as ih =>
    rw [List.mapM_cons] at h
    obtain ⟨b, found, rest⟩ := exists_of_bind_eq_ok h
    obtain ⟨bs, others, same⟩ := exists_of_bind_eq_ok rest
    cases same
    exact .cons found (ih others)

namespace Attempt

variable {τ σ α β : Type} {tree : τ} {value : β}

theorem succeed_eq_ok {found : τ} {result : β} :
    Attempt.succeed found result = ⟨tree, .ok value⟩ ↔ tree = found ∧ value = result := by
  simp [succeed, eq_comm]

theorem fail_eq_ok {found : τ} {error : TypingError} :
    (Attempt.fail found error : Attempt τ β) = ⟨tree, .ok value⟩ ↔ False := by
  simp [fail]

theorem andThen_eq_ok {part : Attempt σ α} {rebuild : σ → τ} {next : σ → α → Attempt τ β} :
    part.andThen rebuild next = ⟨tree, .ok value⟩ ↔
      ∃ s a, part = ⟨s, .ok a⟩ ∧ next s a = ⟨tree, .ok value⟩ := by
  obtain ⟨s, error | a⟩ := part
  · simp [andThen]
  · constructor
    · exact fun next_eq => ⟨s, a, rfl, next_eq⟩
    · rintro ⟨_, _, same, next_eq⟩
      cases same
      exact next_eq

theorem naming_eq_ok {start : τ} {found : Except NamingError α} {next : α → Attempt τ β} :
    Attempt.naming start found next = ⟨tree, .ok value⟩ ↔
      ∃ a, found = .ok a ∧ next a = ⟨tree, .ok value⟩ := by
  cases found <;> simp [naming]

theorem typing_eq_ok {start : τ} {outcome : Except TypingError α} {next : α → Attempt τ β} :
    Attempt.typing start outcome next = ⟨tree, .ok value⟩ ↔
      ∃ a, outcome = .ok a ∧ next a = ⟨tree, .ok value⟩ := by
  cases outcome <;> simp [typing, fail]

theorem fill_eq_ok {slot : Option α} {content : α} {rebuild : Option α → τ}
    {next : τ → Attempt τ β} :
    Attempt.fill slot content rebuild next = ⟨tree, .ok value⟩ ↔
      slot = none ∧ next (rebuild (some content)) = ⟨tree, .ok value⟩ := by
  cases slot <;> simp [fill, fail]

theorem each_cons_eq_ok {walk : τ → α → Attempt τ α} {first : τ} {others trees : List τ}
    {start stop : α} :
    Attempt.each walk (first :: others) start = ⟨trees, .ok stop⟩ ↔
      ∃ tree middle rest, walk first start = ⟨tree, .ok middle⟩ ∧
        Attempt.each walk others middle = ⟨rest, .ok stop⟩ ∧ trees = tree :: rest := by
  simp only [each, andThen_eq_ok, succeed_eq_ok]
  constructor
  · rintro ⟨tree, middle, walked, rest, _, others, rfl, rfl⟩
    exact ⟨tree, middle, rest, walked, others, rfl⟩
  · rintro ⟨tree, middle, rest, walked, walkedRest, rfl⟩
    exact ⟨tree, middle, walked, rest, stop, walkedRest, rfl, rfl⟩

theorem each_nil_eq_ok {walk : τ → α → Attempt τ α} {trees : List τ} {start stop : α} :
    Attempt.each walk [] start = ⟨trees, .ok stop⟩ ↔ trees = [] ∧ stop = start := by
  simp only [each, succeed_eq_ok]

end Attempt

/-! ## Expressions -/

theorem Note.settle_eq_ok {note : Note} {type found : Ty} {rebuild : Note → Expression}
    {tree : Expression} :
    note.settle type rebuild = ⟨tree, .ok found⟩ ↔
      note.type = none ∧ tree = rebuild { note with type := some type } ∧ found = type := by
  simp only [settle, Attempt.fill_eq_ok, Attempt.succeed_eq_ok]

namespace Expression

variable {scope : StaticScope} {note : Note} {tree : Expression} {type : Ty}

open Attempt

-- Has the equations of the walk made once, here, and not in every lemma that asks for them.
attribute [local simp] resolve resolveArguments

theorem resolve_literal_eq_ok {value : Literal} :
    (literal note value).resolve scope = ⟨tree, .ok type⟩ ↔
      note.type = none ∧ value.type = .ok type ∧
        tree = .literal { note with type := some type } value := by
  simp only [resolve, typing_eq_ok, Note.settle_eq_ok]
  constructor
  · rintro ⟨_, typed, empty, rfl, rfl⟩
    exact ⟨empty, typed, rfl⟩
  · rintro ⟨empty, typed, rfl⟩
    exact ⟨type, typed, empty, rfl, rfl⟩

theorem resolve_group_eq_ok {inner : Expression} :
    (group note inner).resolve scope = ⟨tree, .ok type⟩ ↔
      note.type = none ∧ ∃ filled, inner.resolve scope = ⟨filled, .ok type⟩ ∧
        tree = .group { note with type := some type } filled := by
  simp only [resolve, andThen_eq_ok, Note.settle_eq_ok]
  constructor
  · rintro ⟨filled, _, resolved, empty, rfl, rfl⟩
    exact ⟨empty, filled, resolved, rfl⟩
  · rintro ⟨empty, filled, resolved, rfl⟩
    exact ⟨filled, type, resolved, empty, rfl, rfl⟩

theorem resolve_binary_eq_ok {operator : Operator} {left right : Expression} :
    (binary note operator left right).resolve scope = ⟨tree, .ok type⟩ ↔
      note.type = none ∧ ∃ left' leftType right' rightType,
        left.resolve scope = ⟨left', .ok leftType⟩ ∧
        right.resolve scope = ⟨right', .ok rightType⟩ ∧
        operator.type leftType rightType = .ok type ∧
        tree = .binary { note with type := some type } operator left' right' := by
  simp only [resolve, andThen_eq_ok, typing_eq_ok, Note.settle_eq_ok]
  constructor
  · rintro ⟨left', leftType, first, right', rightType, second, _, typed, empty, rfl, rfl⟩
    exact ⟨empty, left', leftType, right', rightType, first, second, typed, rfl⟩
  · rintro ⟨empty, left', leftType, right', rightType, first, second, typed, rfl⟩
    exact ⟨left', leftType, first, right', rightType, second, type, typed, empty, rfl, rfl⟩

theorem resolve_access_eq_ok {name : String} {binding : Option Variable} :
    (access note name binding).resolve scope = ⟨tree, .ok type⟩ ↔
      note.type = none ∧ binding = none ∧ ∃ found, scope.getVariable name = .ok found ∧
        type = found.type ∧
        tree = .access { note with type := some type } name (some found) := by
  simp only [resolve, naming_eq_ok, fill_eq_ok, Note.settle_eq_ok]
  constructor
  · rintro ⟨found, bound, unbound, empty, rfl, rfl⟩
    exact ⟨empty, unbound, found, bound, rfl, rfl⟩
  · rintro ⟨empty, unbound, found, bound, rfl, rfl⟩
    exact ⟨found, bound, unbound, empty, rfl, rfl⟩

theorem resolve_memberAccess_eq_ok {receiver : Expression} {name : String}
    {binding : Option Variable} :
    (memberAccess note receiver name binding).resolve scope = ⟨tree, .ok type⟩ ↔
      note.type = none ∧ binding = none ∧ ∃ receiver' owner,
        receiver.resolve scope = ⟨receiver', .ok owner⟩ ∧ owner.field name = .ok type ∧
        tree = .memberAccess { note with type := some type } receiver' name
          (some ⟨name, name, type⟩) := by
  simp only [resolve, andThen_eq_ok, naming_eq_ok, fill_eq_ok, Note.settle_eq_ok]
  constructor
  · rintro ⟨receiver', owner, resolved, _, found, unbound, empty, rfl, rfl⟩
    exact ⟨empty, unbound, receiver', owner, resolved, found, rfl⟩
  · rintro ⟨empty, unbound, receiver', owner, resolved, found, rfl⟩
    exact ⟨receiver', owner, resolved, type, found, unbound, empty, rfl, rfl⟩

theorem resolve_call_eq_ok {name : String} {args : List Expression} {binding : Option Signature} :
    (call note name args binding).resolve scope = ⟨tree, .ok type⟩ ↔
      note.type = none ∧ binding = none ∧ ∃ signature args',
        scope.getFunction ⟨name, args.length⟩ = .ok signature ∧
        resolveArguments scope args signature.parameters = ⟨args', .ok ()⟩ ∧
        type = signature.returns ∧
        tree = .call { note with type := some type } name args' (some signature) := by
  simp only [resolve, andThen_eq_ok, naming_eq_ok, fill_eq_ok, Note.settle_eq_ok]
  constructor
  · rintro ⟨signature, bound, args', _, walked, unbound, empty, rfl, rfl⟩
    exact ⟨empty, unbound, signature, args', bound, walked, rfl, rfl⟩
  · rintro ⟨empty, unbound, signature, args', bound, walked, rfl, rfl⟩
    exact ⟨signature, bound, args', (), walked, unbound, empty, rfl, rfl⟩

theorem resolve_memberCall_eq_ok {receiver : Expression} {name : String} {args : List Expression}
    {binding : Option Signature} :
    (memberCall note receiver name args binding).resolve scope = ⟨tree, .ok type⟩ ↔
      note.type = none ∧ binding = none ∧ ∃ receiver' owner method args',
        receiver.resolve scope = ⟨receiver', .ok owner⟩ ∧
        owner.method ⟨name, args.length⟩ = .ok method ∧
        resolveArguments scope args method.signature.parameters = ⟨args', .ok ()⟩ ∧
        type = method.signature.returns ∧
        tree = .memberCall { note with type := some type } receiver' name args'
          (some method.signature) := by
  simp only [resolve, andThen_eq_ok, naming_eq_ok, fill_eq_ok, Note.settle_eq_ok]
  constructor
  · rintro ⟨receiver', owner, resolved, method, found, args', _, walked, unbound, empty, rfl, rfl⟩
    exact ⟨empty, unbound, receiver', owner, method, args', resolved, found, walked, rfl, rfl⟩
  · rintro ⟨empty, unbound, receiver', owner, method, args', resolved, found, walked, rfl, rfl⟩
    exact ⟨receiver', owner, resolved, method, found, args', (), walked, unbound, empty, rfl, rfl⟩

/-- A checked expression carries its type. -/
theorem type_of_resolve {e : Expression} (resolved : e.resolve scope = ⟨tree, .ok type⟩) :
    tree.note.type = some type := by
  cases e with
  | literal => obtain ⟨-, -, rfl⟩ := resolve_literal_eq_ok.mp resolved; rfl
  | group => obtain ⟨-, _, -, rfl⟩ := resolve_group_eq_ok.mp resolved; rfl
  | binary => obtain ⟨-, _, _, _, _, -, -, -, rfl⟩ := resolve_binary_eq_ok.mp resolved; rfl
  | access => obtain ⟨-, -, _, -, -, rfl⟩ := resolve_access_eq_ok.mp resolved; rfl
  | memberAccess => obtain ⟨-, -, _, _, -, -, rfl⟩ := resolve_memberAccess_eq_ok.mp resolved; rfl
  | call => obtain ⟨-, -, _, _, -, -, -, rfl⟩ := resolve_call_eq_ok.mp resolved; rfl
  | memberCall =>
    obtain ⟨-, -, _, _, _, _, -, -, -, -, rfl⟩ := resolve_memberCall_eq_ok.mp resolved
    rfl

/-- A checked variable carries what the checker found. -/
theorem access_of_resolve {e : Expression} {name : String} {slot : Option Variable}
    (resolved : e.resolve scope = ⟨.access note name slot, .ok type⟩) :
    ∃ found, slot = some found ∧ scope.getVariable name = .ok found := by
  cases e with
  | literal => obtain ⟨-, -, ⟨⟩⟩ := resolve_literal_eq_ok.mp resolved
  | group => obtain ⟨-, _, -, ⟨⟩⟩ := resolve_group_eq_ok.mp resolved
  | binary => obtain ⟨-, _, _, _, _, -, -, -, ⟨⟩⟩ := resolve_binary_eq_ok.mp resolved
  | access =>
    obtain ⟨-, -, found, bound, -, ⟨⟩⟩ := resolve_access_eq_ok.mp resolved
    exact ⟨found, rfl, bound⟩
  | memberAccess => obtain ⟨-, -, _, _, -, -, ⟨⟩⟩ := resolve_memberAccess_eq_ok.mp resolved
  | call => obtain ⟨-, -, _, _, -, -, -, ⟨⟩⟩ := resolve_call_eq_ok.mp resolved
  | memberCall =>
    obtain ⟨-, -, _, _, _, _, -, -, -, -, ⟨⟩⟩ := resolve_memberCall_eq_ok.mp resolved

theorem resolveArguments_cons_eq_ok {argument : Expression} {arguments trees : List Expression}
    {parameter : Ty} {parameters : List Ty} :
    resolveArguments scope (argument :: arguments) (parameter :: parameters) =
        ⟨trees, .ok ()⟩ ↔
      ∃ argument' type arguments',
        argument.resolve scope = ⟨argument', .ok type⟩ ∧ parameter.mustAccept type = .ok () ∧
        resolveArguments scope arguments parameters = ⟨arguments', .ok ()⟩ ∧
        trees = argument' :: arguments' := by
  simp only [resolveArguments, andThen_eq_ok, typing_eq_ok, succeed_eq_ok]
  constructor
  · rintro ⟨argument', type, resolved, _, accepts, arguments', _, walked, rfl, -⟩
    exact ⟨argument', type, arguments', resolved, accepts, walked, rfl⟩
  · rintro ⟨argument', type, arguments', resolved, accepts, walked, rfl⟩
    exact ⟨argument', type, resolved, (), accepts, arguments', (), walked, rfl, trivial⟩

theorem resolveArguments_nil_eq_ok {trees : List Expression} {parameters : List Ty} :
    resolveArguments scope [] parameters = ⟨trees, .ok ()⟩ ↔ trees = [] := by
  simp only [resolveArguments, succeed_eq_ok, and_true]

/-- Checking leaves out no arguments, also if there are too few parameters. -/
theorem length_of_resolveArguments {arguments trees : List Expression} {parameters : List Ty}
    (resolved : resolveArguments scope arguments parameters = ⟨trees, .ok ()⟩) :
    trees.length = arguments.length := by
  induction arguments generalizing parameters trees with
  | nil => rw [resolveArguments_nil_eq_ok.mp resolved]
  | cons argument arguments ih =>
    cases parameters with
    | nil =>
      rw [resolveArguments] at resolved
      · cases resolved
        rfl
      · exact nofun
    | cons parameter parameters =>
      obtain ⟨_, _, others, -, -, walked, rfl⟩ := resolveArguments_cons_eq_ok.mp resolved
      exact congrArg (· + 1) (ih walked)

/-- A checked call carries what the checker found. -/
theorem call_of_resolve {e : Expression} {name : String} {args : List Expression}
    {slot : Option Signature} (resolved : e.resolve scope = ⟨.call note name args slot, .ok type⟩) :
    ∃ signature, slot = some signature ∧
      scope.getFunction ⟨name, args.length⟩ = .ok signature := by
  cases e with
  | literal => obtain ⟨-, -, ⟨⟩⟩ := resolve_literal_eq_ok.mp resolved
  | group => obtain ⟨-, _, -, ⟨⟩⟩ := resolve_group_eq_ok.mp resolved
  | binary => obtain ⟨-, _, _, _, _, -, -, -, ⟨⟩⟩ := resolve_binary_eq_ok.mp resolved
  | access => obtain ⟨-, -, _, -, -, ⟨⟩⟩ := resolve_access_eq_ok.mp resolved
  | memberAccess => obtain ⟨-, -, _, _, -, -, ⟨⟩⟩ := resolve_memberAccess_eq_ok.mp resolved
  | call =>
    obtain ⟨-, -, signature, _, bound, walked, -, ⟨⟩⟩ := resolve_call_eq_ok.mp resolved
    exact ⟨signature, rfl, by rw [length_of_resolveArguments walked]; exact bound⟩
  | memberCall =>
    obtain ⟨-, -, _, _, _, _, -, -, -, -, ⟨⟩⟩ := resolve_memberCall_eq_ok.mp resolved

end Expression

/-! ## Declarations and statements -/

open Attempt in
theorem Declaration.resolveValue_eq_ok {declaration tree : Declaration} {scope : StaticScope}
    {initial : Option Ty} :
    declaration.resolveValue scope = ⟨tree, .ok initial⟩ ↔
      (declaration.value = none ∧ tree = declaration ∧ initial = none) ∨
        ∃ value value' type, declaration.value = some value ∧
          value.resolve scope = ⟨value', .ok type⟩ ∧
          tree = { declaration with value := some value' } ∧ initial = some type := by
  unfold resolveValue
  split
  · rename_i missing
    simp [succeed_eq_ok, missing]
  · rename_i value present
    simp only [andThen_eq_ok, succeed_eq_ok, present]
    constructor
    · rintro ⟨value', type, resolved, rfl, rfl⟩
      exact .inr ⟨value, value', type, rfl, resolved, rfl, rfl⟩
    · rintro (⟨⟨⟩, -⟩ | ⟨_, value', type, ⟨⟩, resolved, rfl, rfl⟩)
      exact ⟨value', type, resolved, rfl, rfl⟩

open Attempt in
theorem Declaration.resolve_eq_ok {types : Registry} {declaration tree : Declaration}
    {scope after : StaticScope} :
    declaration.resolve types scope = ⟨tree, .ok after⟩ ↔
      declaration.binding = none ∧ ∃ declared value initial type,
        declaration.typeName.mapM types.get = .ok declared ∧
        declaration.resolveValue scope = ⟨{ declaration with value }, .ok initial⟩ ∧
        Declaration.type declaration.name declared initial = .ok type ∧
        scope.addVariable declaration.name ⟨declaration.name, declaration.name, type⟩ = .ok after ∧
        tree = { declaration with
          value, binding := some ⟨declaration.name, declaration.name, type⟩ } := by
  simp only [resolve, andThen_eq_ok, naming_eq_ok, typing_eq_ok, fill_eq_ok, succeed_eq_ok]
  constructor
  · rintro ⟨declared, declared_eq, filled, initial, valueResolved, type, typed, extended, added,
      empty, rfl, rfl⟩
    obtain ⟨missing, rfl, rfl⟩ | ⟨e, e', found, present, resolved, rfl, rfl⟩ :=
      resolveValue_eq_ok.mp valueResolved
    · exact ⟨empty, declared, filled.value, none, type, declared_eq, valueResolved, typed, added,
        rfl⟩
    · exact ⟨empty, declared, some e', some found, type, declared_eq, valueResolved, typed, added,
        rfl⟩
  · rintro ⟨empty, declared, value, initial, type, declared_eq, valueResolved, typed, added, rfl⟩
    exact ⟨declared, declared_eq, _, initial, valueResolved, type, typed, after, added, empty, rfl,
      rfl⟩

/-- A checked declaration keeps its name. -/
theorem Declaration.name_of_resolve {types : Registry} {declaration tree : Declaration}
    {scope after : StaticScope} (resolved : declaration.resolve types scope = ⟨tree, .ok after⟩) :
    tree.name = declaration.name := by
  obtain ⟨-, _, _, _, _, -, -, -, -, rfl⟩ := resolve_eq_ok.mp resolved
  rfl

namespace Statement

variable {types : Registry} {returns : Ty} {scope after : StaticScope} {tree : Statement}

open Attempt

attribute [local simp] resolve resolveAll

theorem resolve_expression_eq_ok {value : Expression} :
    (expression value).resolve types returns scope = ⟨tree, .ok after⟩ ↔
      value.isCall = true ∧ after = scope ∧ ∃ value' type,
        value.resolve scope = ⟨value', .ok type⟩ ∧ tree = .expression value' := by
  rw [resolve]
  split
  · rename_i isCall
    simp only [andThen_eq_ok, succeed_eq_ok]
    constructor
    · rintro ⟨value', type, resolved, rfl, rfl⟩
      exact ⟨isCall, rfl, value', type, resolved, rfl⟩
    · rintro ⟨-, rfl, value', type, resolved, rfl⟩
      exact ⟨value', type, resolved, rfl, rfl⟩
  · rename_i notCall
    rw [fail_eq_ok]
    exact iff_of_false id fun holds => notCall holds.1

theorem resolve_declaration_eq_ok {decl : Declaration} :
    (declaration decl).resolve types returns scope = ⟨tree, .ok after⟩ ↔
      ∃ decl', decl.resolve types scope = ⟨decl', .ok after⟩ ∧ tree = .declaration decl' := by
  simp only [resolve, andThen_eq_ok, succeed_eq_ok]
  constructor
  · rintro ⟨decl', _, resolved, rfl, rfl⟩
    exact ⟨decl', resolved, rfl⟩
  · rintro ⟨decl', resolved, rfl⟩
    exact ⟨decl', after, resolved, rfl, rfl⟩

theorem resolve_assignment_eq_ok {target value : Expression} :
    (assignment target value).resolve types returns scope = ⟨tree, .ok after⟩ ↔
      target.isAccess = true ∧ after = scope ∧ ∃ target' targetType value' valueType,
        target.resolve scope = ⟨target', .ok targetType⟩ ∧
        value.resolve scope = ⟨value', .ok valueType⟩ ∧
        targetType.mustAccept valueType = .ok () ∧ tree = .assignment target' value' := by
  rw [resolve]
  split
  · rename_i isAccess
    simp only [andThen_eq_ok, typing_eq_ok, succeed_eq_ok]
    constructor
    · rintro ⟨target', targetType, first, value', valueType, second, _, accepts, rfl, rfl⟩
      exact ⟨isAccess, rfl, target', targetType, value', valueType, first, second, accepts, rfl⟩
    · rintro ⟨-, rfl, target', targetType, value', valueType, first, second, accepts, rfl⟩
      exact ⟨target', targetType, first, value', valueType, second, (), accepts, rfl, rfl⟩
  · rename_i notAccess
    rw [fail_eq_ok]
    exact iff_of_false id fun holds => notAccess holds.1

theorem resolve_conditional_eq_ok {condition : Expression} {thenBody elseBody : List Statement} :
    (conditional condition thenBody elseBody).resolve types returns scope = ⟨tree, .ok after⟩ ↔
      thenBody.isEmpty = false ∧ after = scope ∧
        ∃ condition' type thenBody' thenScope elseBody' elseScope,
          condition.resolve scope = ⟨condition', .ok type⟩ ∧
          Ty.boolean.mustAccept type = .ok () ∧
          resolveAll types returns thenBody scope.push = ⟨thenBody', .ok thenScope⟩ ∧
          resolveAll types returns elseBody scope.push = ⟨elseBody', .ok elseScope⟩ ∧
          tree = .conditional condition' thenBody' elseBody' := by
  simp only [resolve, andThen_eq_ok, typing_eq_ok]
  split
  · rename_i nothing
    simp [fail_eq_ok, nothing]
  · rename_i something
    simp only [andThen_eq_ok, succeed_eq_ok]
    constructor
    · rintro ⟨condition', type, resolved, _, accepts, thenBody', thenScope, first, elseBody',
        elseScope, second, rfl, rfl⟩
      exact ⟨Bool.not_eq_true _ ▸ something, rfl, condition', type, thenBody', thenScope, elseBody',
        elseScope, resolved, accepts, first, second, rfl⟩
    · rintro ⟨-, rfl, condition', type, thenBody', thenScope, elseBody', elseScope, resolved,
        accepts, first, second, rfl⟩
      exact ⟨condition', type, resolved, (), accepts, thenBody', thenScope, first, elseBody',
        elseScope, second, rfl, rfl⟩

theorem resolve_forEach_eq_ok {name : String} {range : Expression} {body : List Statement} :
    (forEach name range body).resolve types returns scope = ⟨tree, .ok after⟩ ↔
      body.isEmpty = false ∧ after = scope ∧ ∃ range' type inside body' bodyScope,
        range.resolve scope = ⟨range', .ok type⟩ ∧
        Ty.integerIterable.mustAccept type = .ok () ∧
        scope.push.addVariable name ⟨name, name, .integer⟩ = .ok inside ∧
        resolveAll types returns body inside = ⟨body', .ok bodyScope⟩ ∧
        tree = .forEach name range' body' := by
  simp only [resolve, andThen_eq_ok, typing_eq_ok]
  split
  · rename_i nothing
    simp [fail_eq_ok, nothing]
  · rename_i something
    simp only [andThen_eq_ok, naming_eq_ok, succeed_eq_ok]
    constructor
    · rintro ⟨range', type, resolved, _, accepts, inside, added, body', bodyScope, walked, rfl, rfl⟩
      exact ⟨Bool.not_eq_true _ ▸ something, rfl, range', type, inside, body', bodyScope, resolved,
        accepts, added, walked, rfl⟩
    · rintro ⟨-, rfl, range', type, inside, body', bodyScope, resolved, accepts, added, walked, rfl⟩
      exact ⟨range', type, resolved, (), accepts, inside, added, body', bodyScope, walked, rfl, rfl⟩

theorem resolve_loop_eq_ok {condition : Expression} {body : List Statement} :
    (loop condition body).resolve types returns scope = ⟨tree, .ok after⟩ ↔
      after = scope ∧ ∃ condition' type body' bodyScope,
        condition.resolve scope = ⟨condition', .ok type⟩ ∧
        Ty.boolean.mustAccept type = .ok () ∧
        resolveAll types returns body scope.push = ⟨body', .ok bodyScope⟩ ∧
        tree = .loop condition' body' := by
  simp only [resolve, andThen_eq_ok, typing_eq_ok, succeed_eq_ok]
  constructor
  · rintro ⟨condition', type, resolved, _, accepts, body', bodyScope, walked, rfl, rfl⟩
    exact ⟨rfl, condition', type, body', bodyScope, resolved, accepts, walked, rfl⟩
  · rintro ⟨rfl, condition', type, body', bodyScope, resolved, accepts, walked, rfl⟩
    exact ⟨condition', type, resolved, (), accepts, body', bodyScope, walked, rfl, rfl⟩

theorem resolve_result_eq_ok {value : Expression} :
    (result value).resolve types returns scope = ⟨tree, .ok after⟩ ↔
      after = scope ∧ ∃ value' type, value.resolve scope = ⟨value', .ok type⟩ ∧
        returns.mustAccept type = .ok () ∧ tree = .result value' := by
  simp only [resolve, andThen_eq_ok, typing_eq_ok, succeed_eq_ok]
  constructor
  · rintro ⟨value', type, resolved, _, accepts, rfl, rfl⟩
    exact ⟨rfl, value', type, resolved, accepts, rfl⟩
  · rintro ⟨rfl, value', type, resolved, accepts, rfl⟩
    exact ⟨value', type, resolved, (), accepts, rfl, rfl⟩

theorem resolveAll_nil_eq_ok {trees : List Statement} :
    resolveAll types returns [] scope = ⟨trees, .ok after⟩ ↔ trees = [] ∧ after = scope := by
  simp only [resolveAll, succeed_eq_ok]

theorem resolveAll_cons_eq_ok {statement : Statement} {statements trees : List Statement} :
    resolveAll types returns (statement :: statements) scope = ⟨trees, .ok after⟩ ↔
      ∃ statement' middle statements',
        statement.resolve types returns scope = ⟨statement', .ok middle⟩ ∧
        resolveAll types returns statements middle = ⟨statements', .ok after⟩ ∧
        trees = statement' :: statements' := by
  simp only [resolveAll, andThen_eq_ok, succeed_eq_ok]
  constructor
  · rintro ⟨statement', middle, first, statements', _, walked, rfl, rfl⟩
    exact ⟨statement', middle, statements', first, walked, rfl⟩
  · rintro ⟨statement', middle, statements', first, walked, rfl⟩
    exact ⟨statement', middle, first, statements', after, walked, rfl, rfl⟩

end Statement

/-! ## Methods and programs -/

theorem Method.signature_eq_ok {types : Registry} {method : Method} {signature : Signature}
    (found : method.signature types = .ok signature) :
    signature.name = method.name ∧
      List.Forall₂ (fun parameter type => types.get parameter.typeName = .ok type)
        method.parameters signature.parameters ∧
      (signature.returns = .nil ∨ ∃ name, types.get name = .ok signature.returns) := by
  obtain ⟨parameters, parameters_eq, rest⟩ := exists_of_bind_eq_ok found
  dsimp only at rest
  split at rest
  · rename_i name _
    obtain ⟨returns, returns_eq, same⟩ := exists_of_bind_eq_ok rest
    cases same
    exact ⟨rfl, forall₂_of_mapM_eq_ok parameters_eq, .inr ⟨name, returns_eq⟩⟩
  · cases rest
    exact ⟨rfl, forall₂_of_mapM_eq_ok parameters_eq, .inl rfl⟩

/-- A method is bound under its own key. -/
theorem Method.key_of_signature {types : Registry} {method : Method} {signature : Signature}
    (found : method.signature types = .ok signature) : signature.key = method.key := by
  obtain ⟨name_eq, parameters, -⟩ := signature_eq_ok found
  rw [SignatureOf.key, SignatureOf.arity, Method.key, name_eq, parameters.length_eq]

open Attempt in
theorem Method.resolve_eq_ok {types : Registry} {method tree : Method}
    {scope after : StaticScope} :
    method.resolve types scope = ⟨tree, .ok after⟩ ↔
      method.binding = none ∧ ∃ signature inside body bodyScope,
        method.signature types = .ok signature ∧
        scope.addFunction signature.key signature = .ok after ∧
        method.defineParameters signature after.push = .ok inside ∧
        Statement.resolveAll types signature.returns method.body inside = ⟨body, .ok bodyScope⟩ ∧
        tree = { method with binding := some signature, body } := by
  simp only [resolve, andThen_eq_ok, naming_eq_ok, fill_eq_ok, succeed_eq_ok, defineParameters]
  constructor
  · rintro ⟨signature, declared, extended, added, empty, inside, bound, body, bodyScope, walked, rfl,
      rfl⟩
    exact ⟨empty, signature, inside, body, bodyScope, declared, added, bound, walked, rfl⟩
  · rintro ⟨empty, signature, inside, body, bodyScope, declared, added, bound, walked, rfl⟩
    exact ⟨signature, declared, after, added, empty, inside, bound, body, bodyScope, walked, rfl, rfl⟩

open Attempt in
theorem Program.resolve_eq_ok {environment : Environment} {program tree : Program} :
    program.resolve environment = ⟨tree, .ok ()⟩ ↔
      ∃ natives fieldScope methodScope,
        environment.staticScope = .ok natives ∧
        Attempt.each (Declaration.resolve environment.types) program.fields natives =
          ⟨tree.fields, .ok fieldScope⟩ ∧
        Attempt.each (Method.resolve environment.types) program.methods fieldScope =
          ⟨tree.methods, .ok methodScope⟩ ∧
        StaticScope.requireMain methodScope = .ok () := by
  obtain ⟨fields, methods⟩ := tree
  simp only [resolve, andThen_eq_ok, naming_eq_ok, typing_eq_ok, succeed_eq_ok]
  constructor
  · rintro ⟨natives, known, fields', fieldScope, first, methods', methodScope, second, _, main, same,
      -⟩
    cases same
    exact ⟨natives, fieldScope, methodScope, known, first, second, main⟩
  · rintro ⟨natives, fieldScope, methodScope, known, first, second, main⟩
    exact ⟨natives, known, fields, fieldScope, first, methods, methodScope, second, (), main, rfl,
      trivial⟩

end Primer
