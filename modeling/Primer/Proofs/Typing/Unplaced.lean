import Primer.Proofs.Syntax.Unplaced
import Primer.Typing.Resolve

/-!
# Checking looks at no place

Checking an unplaced program gives the same result as checking the program, and leaves the same
tree behind without its places, whether it succeeds or fails (`Program.resolve_unplaced`).
-/

namespace Primer

namespace Attempt

variable {τ σ α β : Type} {f : σ → σ} {g : τ → τ}

/-- The attempt with its tree changed by `f`. -/
def mapTree (f : τ → τ) (attempt : Attempt τ α) : Attempt τ α :=
  ⟨f attempt.tree, attempt.result⟩

theorem mapTree_andThen (part : Attempt σ α) {rebuild rebuild' : σ → τ}
    {next next' : σ → α → Attempt τ β} (rebuilt : ∀ t, rebuild' (f t) = g (rebuild t))
    (continues : ∀ t a, next' (f t) a = (next t a).mapTree g) :
    (part.mapTree f).andThen rebuild' next' = (part.andThen rebuild next).mapTree g := by
  rcases part with ⟨tree, error | value⟩
  · exact congrArg (Attempt.mk · (.error error)) (rebuilt tree)
  · exact continues tree value

theorem mapTree_naming {tree tree' : τ} (found : Except NamingError α)
    {next next' : α → Attempt τ β} (same : tree' = g tree)
    (continues : ∀ a, next' a = (next a).mapTree g) :
    naming tree' found next' = (naming tree found next).mapTree g := by
  subst same
  rcases found with error | value
  · rfl
  · exact continues value

theorem mapTree_typing {tree tree' : τ} (outcome : Except TypingError α)
    {next next' : α → Attempt τ β} (same : tree' = g tree)
    (continues : ∀ a, next' a = (next a).mapTree g) :
    typing tree' outcome next' = (typing tree outcome next).mapTree g := by
  subst same
  rcases outcome with error | value
  · rfl
  · exact continues value

theorem mapTree_fill (slot : Option α) (value : α) {rebuild rebuild' : Option α → τ}
    {next next' : τ → Attempt τ β} (rebuilt : ∀ s, rebuild' s = g (rebuild s))
    (continues : ∀ t, next' (g t) = (next t).mapTree g) :
    fill slot value rebuild' next' = (fill slot value rebuild next).mapTree g := by
  cases slot with
  | none => exact (congrArg next' (rebuilt _)).trans (continues _)
  | some content => exact congrArg (Attempt.fail · .alreadyResolved) (rebuilt _)

theorem mapTree_each {walk : τ → α → Attempt τ α}
    (commutes : ∀ t a, walk (g t) a = (walk t a).mapTree g) (trees : List τ) (state : α) :
    each walk (trees.map g) state = (each walk trees state).mapTree (List.map g) := by
  induction trees generalizing state with
  | nil => rfl
  | cons tree trees ih =>
    rw [List.map_cons, each, each, commutes]
    refine mapTree_andThen _ (fun _ => rfl) fun tree state => ?_
    rw [ih]
    exact mapTree_andThen _ (fun _ => rfl) fun trees state => rfl

end Attempt

open Attempt

/-! ## Expressions -/

theorem Note.settle_unplaced (note : Note) (type : Ty) {rebuild rebuild' : Note → Expression}
    (rebuilt : ∀ n : Note, rebuild' n.unplaced = (rebuild n).unplaced) :
    note.unplaced.settle type rebuild' = (note.settle type rebuild).mapTree Expression.unplaced :=
  mapTree_fill _ _ (fun slot => rebuilt { note with type := slot }) fun _ => rfl

mutual

theorem Expression.resolve_unplaced (scope : StaticScope) : ∀ e : Expression,
    e.unplaced.resolve scope = (e.resolve scope).mapTree Expression.unplaced
  | .literal note value => by
    rw [unplaced, resolve, resolve]
    refine mapTree_typing _ rfl fun type => ?_
    exact note.settle_unplaced type fun _ => rfl
  | .group note inner => by
    rw [unplaced, resolve, resolve, inner.resolve_unplaced scope]
    refine mapTree_andThen _ (fun _ => rfl) fun _ type => ?_
    exact note.settle_unplaced type fun _ => rfl
  | .binary note operator left right => by
    rw [unplaced, resolve, resolve, left.resolve_unplaced scope]
    refine mapTree_andThen _ (fun _ => rfl) fun left leftType => ?_
    rw [right.resolve_unplaced scope]
    refine mapTree_andThen _ (fun _ => rfl) fun right rightType => ?_
    refine mapTree_typing _ rfl fun type => ?_
    exact note.settle_unplaced type fun _ => rfl
  | .access note name binding => by
    rw [unplaced, resolve, resolve]
    refine mapTree_naming _ rfl fun found => ?_
    refine mapTree_fill _ _ (fun _ => rfl) fun _ => ?_
    exact note.settle_unplaced _ fun _ => rfl
  | .memberAccess note receiver name binding => by
    rw [unplaced, resolve, resolve, receiver.resolve_unplaced scope]
    refine mapTree_andThen _ (fun _ => rfl) fun receiver owner => ?_
    refine mapTree_naming _ rfl fun type => ?_
    refine mapTree_fill _ _ (fun _ => rfl) fun _ => ?_
    exact note.settle_unplaced _ fun _ => rfl
  | .call note name args binding => by
    rw [unplaced, resolve, resolve, length_unplacedAll]
    refine mapTree_naming _ rfl fun signature => ?_
    rw [Expression.resolveArguments_unplacedAll scope args]
    refine mapTree_andThen _ (fun _ => rfl) fun args _ => ?_
    refine mapTree_fill _ _ (fun _ => rfl) fun _ => ?_
    exact note.settle_unplaced _ fun _ => rfl
  | .memberCall note receiver name args binding => by
    rw [unplaced, resolve, resolve, length_unplacedAll, receiver.resolve_unplaced scope]
    refine mapTree_andThen _ (fun _ => rfl) fun receiver owner => ?_
    refine mapTree_naming _ rfl fun method => ?_
    rw [Expression.resolveArguments_unplacedAll scope args]
    refine mapTree_andThen _ (fun _ => rfl) fun args _ => ?_
    refine mapTree_fill _ _ (fun _ => rfl) fun _ => ?_
    exact note.settle_unplaced _ fun _ => rfl

theorem Expression.resolveArguments_unplacedAll (scope : StaticScope) :
    ∀ (args : List Expression) (parameters : List Ty),
      Expression.resolveArguments scope (Expression.unplacedAll args) parameters =
        (Expression.resolveArguments scope args parameters).mapTree Expression.unplacedAll
  | [], _ => by
    rw [unplacedAll, resolveArguments]
    · rfl
    · exact fun _ _ _ _ absurd => nomatch absurd
  | _ :: _, [] => by
    rw [unplacedAll, resolveArguments, resolveArguments]
    · rfl
    all_goals exact fun _ _ _ _ _ absurd => nomatch absurd
  | arg :: args, parameter :: parameters => by
    rw [unplacedAll, resolveArguments, resolveArguments, arg.resolve_unplaced scope]
    refine mapTree_andThen _ (fun _ => rfl) fun arg type => ?_
    refine mapTree_typing _ rfl fun _ => ?_
    rw [Expression.resolveArguments_unplacedAll scope args parameters]
    exact mapTree_andThen _ (fun _ => rfl) fun args _ => rfl

end

/-! ## Statements -/

theorem Declaration.resolveValue_unplaced (decl : Declaration) (scope : StaticScope) :
    decl.unplaced.resolveValue scope = (decl.resolveValue scope).mapTree Declaration.unplaced := by
  rcases decl with ⟨name, typeName, value, span, binding⟩
  cases value with
  | none => rfl
  | some value =>
    simp only [resolveValue, unplaced, Option.map_some, value.resolve_unplaced scope]
    exact mapTree_andThen _ (fun _ => rfl) fun _ _ => rfl

theorem Declaration.resolve_unplaced (types : Registry) (decl : Declaration) (scope : StaticScope) :
    decl.unplaced.resolve types scope =
      (decl.resolve types scope).mapTree Declaration.unplaced := by
  refine mapTree_naming _ rfl fun declared => ?_
  rw [decl.resolveValue_unplaced scope]
  refine mapTree_andThen _ (fun _ => rfl) fun decl initial => ?_
  refine mapTree_typing _ rfl fun type => ?_
  refine mapTree_naming _ rfl fun scope => ?_
  exact mapTree_fill _ _ (fun _ => rfl) fun _ => rfl

@[simp]
theorem Expression.isCall_unplaced (e : Expression) : e.unplaced.isCall = e.isCall := by
  cases e <;> rfl

@[simp]
theorem Expression.isAccess_unplaced (e : Expression) : e.unplaced.isAccess = e.isAccess := by
  cases e <;> rfl

mutual

theorem Statement.resolve_unplaced (types : Registry) (returns : Ty) :
    ∀ (s : Statement) (scope : StaticScope),
      s.unplaced.resolve types returns scope =
        (s.resolve types returns scope).mapTree Statement.unplaced
  | .expression value, scope => by
    rw [unplaced, resolve, resolve, value.isCall_unplaced]
    split
    · rw [value.resolve_unplaced scope]
      exact mapTree_andThen _ (fun _ => rfl) fun _ _ => rfl
    · rfl
  | .declaration decl, scope => by
    rw [unplaced, resolve, resolve, decl.resolve_unplaced types scope]
    exact mapTree_andThen _ (fun _ => rfl) fun _ _ => rfl
  | .assignment target value, scope => by
    rw [unplaced, resolve, resolve, target.isAccess_unplaced]
    split
    · rw [target.resolve_unplaced scope]
      refine mapTree_andThen _ (fun _ => rfl) fun target targetType => ?_
      rw [value.resolve_unplaced scope]
      refine mapTree_andThen _ (fun _ => rfl) fun value valueType => ?_
      exact mapTree_typing _ rfl fun _ => rfl
    · rfl
  | .conditional condition thenBody elseBody, scope => by
    rw [unplaced, resolve, resolve, condition.resolve_unplaced scope]
    refine mapTree_andThen _ (fun _ => rfl) fun condition type => ?_
    refine mapTree_typing _ rfl fun _ => ?_
    rw [isEmpty_unplacedAll]
    split
    · rfl
    · rw [Statement.resolveAll_unplacedAll types returns thenBody]
      refine mapTree_andThen _ (fun _ => rfl) fun thenBody _ => ?_
      rw [Statement.resolveAll_unplacedAll types returns elseBody]
      exact mapTree_andThen _ (fun _ => rfl) fun elseBody _ => rfl
  | .forEach name range body, scope => by
    rw [unplaced, resolve, resolve, range.resolve_unplaced scope]
    refine mapTree_andThen _ (fun _ => rfl) fun range type => ?_
    refine mapTree_typing _ rfl fun _ => ?_
    rw [isEmpty_unplacedAll]
    split
    · rfl
    · refine mapTree_naming _ rfl fun inside => ?_
      rw [Statement.resolveAll_unplacedAll types returns body]
      exact mapTree_andThen _ (fun _ => rfl) fun body _ => rfl
  | .loop condition body, scope => by
    rw [unplaced, resolve, resolve, condition.resolve_unplaced scope]
    refine mapTree_andThen _ (fun _ => rfl) fun condition type => ?_
    refine mapTree_typing _ rfl fun _ => ?_
    rw [Statement.resolveAll_unplacedAll types returns body]
    exact mapTree_andThen _ (fun _ => rfl) fun body _ => rfl
  | .result value, scope => by
    rw [unplaced, resolve, resolve, value.resolve_unplaced scope]
    refine mapTree_andThen _ (fun _ => rfl) fun value type => ?_
    exact mapTree_typing _ rfl fun _ => rfl

theorem Statement.resolveAll_unplacedAll (types : Registry) (returns : Ty) :
    ∀ (ss : List Statement) (scope : StaticScope),
      Statement.resolveAll types returns (Statement.unplacedAll ss) scope =
        (Statement.resolveAll types returns ss scope).mapTree Statement.unplacedAll
  | [], _ => rfl
  | s :: ss, scope => by
    rw [unplacedAll, resolveAll, resolveAll, s.resolve_unplaced types returns scope]
    refine mapTree_andThen _ (fun _ => rfl) fun s scope => ?_
    rw [Statement.resolveAll_unplacedAll types returns ss scope]
    exact mapTree_andThen _ (fun _ => rfl) fun ss scope => rfl

end

/-! ## Programs -/

theorem Method.resolve_unplaced (types : Registry) (method : Method) (scope : StaticScope) :
    method.unplaced.resolve types scope = (method.resolve types scope).mapTree Method.unplaced := by
  refine mapTree_naming (method.signature types) rfl fun signature => ?_
  refine mapTree_naming _ rfl fun scope => ?_
  refine mapTree_fill _ _ (fun _ => rfl) fun method => ?_
  refine mapTree_naming (method.defineParameters signature scope.push) rfl fun inside => ?_
  show (Statement.resolveAll types signature.returns (Statement.unplacedAll method.body)
    inside).andThen _ _ = _
  rw [Statement.resolveAll_unplacedAll types signature.returns method.body]
  exact mapTree_andThen _ (fun _ => rfl) fun body _ => rfl

theorem Program.resolve_unplaced (environment : Environment) (program : Program) :
    program.unplaced.resolve environment =
      (program.resolve environment).mapTree Program.unplaced := by
  refine mapTree_naming _ rfl fun scope => ?_
  show (Attempt.each (Declaration.resolve environment.types)
    (program.fields.map Declaration.unplaced) scope).andThen _ _ = _
  rw [mapTree_each (Declaration.resolve_unplaced environment.types)]
  refine mapTree_andThen _ (fun _ => rfl) fun fields scope => ?_
  show (Attempt.each (Method.resolve environment.types)
    (program.methods.map Method.unplaced) scope).andThen _ _ = _
  rw [mapTree_each (Method.resolve_unplaced environment.types)]
  refine mapTree_andThen _ (fun _ => rfl) fun methods scope => ?_
  exact mapTree_typing _ rfl fun _ => rfl

end Primer
