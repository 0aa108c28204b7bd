import Primer.Proofs.Typing.Decision

/-!
# How a check fills the slots

A check goes through the slots of a tree in order and fills them, and it stops at a slot that is
filled already.  So it leaves some slots filled at the front and the others as they were, and after
a success all of them are filled (`Program.resolve_fills`).

`Attempt.Fills` says how far a walk has come: the slots before some place are as they are, and from
there on the walk fills what it finds.  There is one rule for each way of building walks, and the
rules are put together as the walks are.
-/

namespace Primer

open Slot

/-! ## How far a walk has come -/

/-- How a tree of some kind is taken apart into its slots and the rest. -/
structure View (τ : Type) where
  slots : τ → List Slot
  cleared : τ → τ

/-- The tree is the one at the start with these slots. -/
def View.At {τ : Type} (view : View τ) (start tree : τ) (slots : List Slot) : Prop :=
  view.cleared tree = view.cleared start ∧ view.slots tree = slots

theorem View.At.append_nil {τ : Type} {view : View τ} {start tree : τ} {slots : List Slot}
    (place : view.At start tree slots) : view.At start tree (slots ++ []) := by
  rwa [List.append_nil]

/-- A list of trees. -/
def View.each {τ : Type} (view : View τ) : View (List τ) where
  slots trees := trees.flatMap view.slots
  cleared trees := trees.map view.cleared

namespace Attempt

variable {τ σ α β : Type}

/-- A walk that has the slots `done` behind it and `rest` before it. -/
structure Fills (view : View τ) (start : τ) (done rest : List Slot) (attempt : Attempt τ α) :
    Prop where
  cleared_eq : view.cleared attempt.tree = view.cleared start
  reaches : ∃ kept, view.slots attempt.tree = done ++ kept ∧
    Reaches attempt.result.toBool rest kept

namespace Fills

variable {view : View τ} {part : View σ} {start : τ} {done rest : List Slot}

/-- What comes first in a walk has nothing behind it. -/
theorem slots_reach {attempt : Attempt τ α} (fills : attempt.Fills view start [] rest) :
    Reaches attempt.result.toBool rest (view.slots attempt.tree) := by
  rcases fills.reaches with ⟨kept, slots_eq, reaches⟩
  rwa [slots_eq]

theorem error {tree : τ} {error : CheckError} (place : view.At start tree (done ++ rest)) :
    Fills view start done rest (⟨tree, .error error⟩ : Attempt τ α) :=
  ⟨place.1, rest, place.2, .stop rest rfl⟩

theorem succeed {tree : τ} {value : α} (place : view.At start tree done) :
    (Attempt.succeed tree value).Fills view start done [] :=
  ⟨place.1, [], by rw [List.append_nil]; exact place.2, .nil⟩

theorem naming {tree : τ} {found : Except NamingError α} {next : α → Attempt τ β}
    (place : view.At start tree (done ++ rest))
    (onNext : ∀ value, found = .ok value → (next value).Fills view start done rest) :
    (Attempt.naming tree found next).Fills view start done rest := by
  cases found with
  | error => exact error place
  | ok value => exact onNext value rfl

theorem typing {tree : τ} {outcome : Except TypingError α} {next : α → Attempt τ β}
    (place : view.At start tree (done ++ rest))
    (onNext : ∀ value, outcome = .ok value → (next value).Fills view start done rest) :
    (Attempt.typing tree outcome next).Fills view start done rest := by
  cases outcome with
  | error => exact error place
  | ok value => exact onNext value rfl

theorem fill {slot : Option α} {value : α} {rebuild : Option α → τ} {next : τ → Attempt τ β}
    (wrap : Option α → Slot) (fills : (wrap none).Fills (wrap (some value)))
    (place : ∀ slot, view.At start (rebuild slot) (done ++ wrap slot :: rest))
    (onNext : (next (rebuild (some value))).Fills view start (done ++ [wrap (some value)]) rest) :
    (Attempt.fill slot value rebuild next).Fills view start done (wrap slot :: rest) := by
  cases slot with
  | some content => exact error (place (some content))
  | none =>
    rcases onNext with ⟨cleared_eq, kept, slots_eq, reaches⟩
    exact ⟨cleared_eq, _, slots_eq.trans (List.append_assoc ..), .fill fills reaches⟩

theorem andThen {walk : Attempt σ α} {rebuild : σ → τ} {next : σ → α → Attempt τ β} {first : σ}
    {slots : List Slot} (onPart : walk.Fills part first [] slots)
    (place : ∀ tree, part.cleared tree = part.cleared first →
      view.At start (rebuild tree) (done ++ (part.slots tree ++ rest)))
    (onNext : ∀ tree value, part.cleared tree = part.cleared first → walk = ⟨tree, .ok value⟩ →
      (next tree value).Fills view start (done ++ part.slots tree) rest) :
    (walk.andThen rebuild next).Fills view start done (slots ++ rest) := by
  have cleared_eq := onPart.cleared_eq
  have reaches := onPart.slots_reach
  rcases walk with ⟨tree, raised | value⟩
  · rcases place tree cleared_eq with ⟨cleared_eq, slots_eq⟩
    exact ⟨cleared_eq, _, slots_eq, reaches.append_stop rest⟩
  · rcases onNext tree value cleared_eq rfl with ⟨cleared_eq, kept, slots_eq, others⟩
    exact ⟨cleared_eq, _, slots_eq.trans (List.append_assoc ..), reaches.append others⟩

/-- The same where the part has the last slots. -/
theorem andThenLast {walk : Attempt σ α} {rebuild : σ → τ} {next : σ → α → Attempt τ β} {first : σ}
    {slots : List Slot} (onPart : walk.Fills part first [] slots)
    (place : ∀ tree, part.cleared tree = part.cleared first →
      view.At start (rebuild tree) (done ++ part.slots tree))
    (onNext : ∀ tree value, view.At start (rebuild tree) (done ++ part.slots tree) →
      walk = ⟨tree, .ok value⟩ →
      (next tree value).Fills view start (done ++ part.slots tree) []) :
    (walk.andThen rebuild next).Fills view start done slots := by
  rw [← List.append_nil slots]
  refine onPart.andThen (fun tree same => ?_) fun tree value same => ?_
  · rw [List.append_nil]
    exact place tree same
  · exact onNext tree value (place tree same)

/-- A walk of a list, if a walk of an item keeps what the next one needs. -/
theorem each {walk : τ → α → Attempt τ α} (good : α → Prop)
    (one : ∀ tree state, good state → (walk tree state).Fills view tree [] (view.slots tree))
    (keeps : ∀ tree state filled after, good state → walk tree state = ⟨filled, .ok after⟩ →
      good after) :
    ∀ trees state, good state →
      (Attempt.each walk trees state).Fills view.each trees [] (view.each.slots trees)
  | [], _, _ => .succeed ⟨rfl, rfl⟩
  | tree :: trees, state, holds => by
    refine (one tree state holds).andThen (fun filled same => ⟨?_, rfl⟩) ?_
    · exact congrArg (· :: _) same
    intro filled middle same walked
    have onOthers := each good one keeps trees middle (keeps _ _ _ _ holds walked)
    refine onOthers.andThenLast (fun others sameOthers => ⟨?_, rfl⟩) ?_
    · exact congrArg₂ (· :: ·) same sameOthers
    · exact fun others _ place _ => .succeed place

end Fills

end Attempt

/-! ## Expressions -/

theorem Note.settle_fills {note : Note} {type : Ty} {rebuild : Note → Expression}
    {view : View Expression} {start : Expression} {done : List Slot}
    (place : ∀ content, view.At start (rebuild { note with type := content })
      (done ++ [.ofType content])) :
    (note.settle type rebuild).Fills view start done [.ofType note.type] :=
  .fill .ofType (.ofType type) place (.succeed (place (some type)))

namespace Expression

variable {scope : StaticScope}

def view : View Expression := ⟨slots, cleared⟩

def argumentView : View (List Expression) := ⟨allSlots, clearedAll⟩

mutual

/-- A check of an expression fills its slots. -/
theorem resolve_fills (keyed : scope.context.Keyed) : (e : Expression) →
    (e.resolve scope).Fills view e [] e.slots
  | .literal note value => by
    rw [resolve, slots]
    refine .typing ⟨rfl, rfl⟩ fun type _ => ?_
    exact Note.settle_fills fun content => ⟨rfl, rfl⟩
  | .group note inner => by
    rw [resolve, slots]
    refine (resolve_fills keyed inner).andThen (fun filled same => ⟨?_, rfl⟩) ?_
    · exact congrArg (group note.cleared) same
    intro filled type same _
    exact Note.settle_fills fun content => ⟨congrArg (group note.cleared) same, rfl⟩
  | .binary note operator left right => by
    rw [resolve, slots]
    refine (resolve_fills keyed left).andThen (fun filled same => ⟨?_, rfl⟩) ?_
    · exact congrArg (binary note.cleared operator · _) same
    intro filledLeft leftType sameLeft _
    refine (resolve_fills keyed right).andThen (fun filled same => ⟨?_, rfl⟩) ?_
    · exact congrArg₂ (binary note.cleared operator) sameLeft same
    intro filledRight rightType sameRight _
    have place : ∀ content, view.At (.binary note operator left right)
        (.binary { note with type := content } operator filledLeft filledRight)
        (filledLeft.slots ++ filledRight.slots ++ [.ofType content]) := fun content =>
      ⟨congrArg₂ (binary note.cleared operator) sameLeft sameRight, by simp [view, slots]⟩
    exact .typing (place note.type) fun type _ => Note.settle_fills place
  | .access note name binding => by
    rw [resolve, slots]
    refine .naming ⟨rfl, rfl⟩ fun found _ => ?_
    refine .fill .ofVariable (.ofVariable found) (fun content => ⟨rfl, rfl⟩) ?_
    exact Note.settle_fills fun content => ⟨rfl, rfl⟩
  | .memberAccess note receiver name binding => by
    rw [resolve, slots]
    refine (resolve_fills keyed receiver).andThen (fun filled same => ⟨?_, rfl⟩) ?_
    · exact congrArg (memberAccess note.cleared · name none) same
    intro filled owner sameReceiver _
    have same := congrArg (memberAccess note.cleared · name none) sameReceiver
    refine .naming ⟨same, rfl⟩ fun type _ => ?_
    refine .fill .ofVariable (.ofVariable _) (fun content => ⟨same, rfl⟩) ?_
    exact Note.settle_fills fun content => ⟨same, by simp [view, slots]⟩
  | .call note name args binding => by
    rw [resolve, slots]
    refine .naming ⟨rfl, rfl⟩ fun signature bound => ?_
    have arity := congrArg FunctionKey.arity
      (keyed _ _ (StaticScope.getFunction_eq_ok.mp bound))
    refine (resolveArguments_fills keyed args _ arity.symm).andThen
      (fun filled same => ⟨?_, rfl⟩) ?_
    · exact congrArg (call note.cleared name · none) same
    intro filled _ sameArgs _
    have same := congrArg (call note.cleared name · none) sameArgs
    refine .fill .ofFunction (.ofFunction signature) (fun content => ⟨same, rfl⟩) ?_
    exact Note.settle_fills fun content => ⟨same, by simp [view, argumentView, slots]⟩
  | .memberCall note receiver name args binding => by
    rw [resolve, slots]
    refine (resolve_fills keyed receiver).andThen (fun filled same => ⟨?_, rfl⟩) ?_
    · exact congrArg (memberCall note.cleared · name _ none) same
    intro filled owner sameReceiver _
    refine .naming ⟨congrArg (memberCall note.cleared · name _ none) sameReceiver, rfl⟩
      fun method offered => ?_
    have arity := congrArg FunctionKey.arity (Ty.hasMethod_of_method offered).key_eq
    refine (resolveArguments_fills keyed args _ arity.symm).andThen
      (fun filled same => ⟨?_, rfl⟩) ?_
    · exact congrArg₂ (memberCall note.cleared · name · none) sameReceiver same
    intro filledArgs _ sameArgs _
    have same := congrArg₂ (memberCall note.cleared · name · none) sameReceiver sameArgs
    refine .fill .ofFunction (.ofFunction _)
      (fun content => ⟨same, by simp [view, argumentView, slots]⟩) ?_
    exact Note.settle_fills fun content => ⟨same, by simp [view, argumentView, slots]⟩

/-- A check of arguments fills their slots, if there is a parameter for each of them. -/
theorem resolveArguments_fills (keyed : scope.context.Keyed) : (args : List Expression) →
    (parameters : List Ty) → args.length = parameters.length →
    (resolveArguments scope args parameters).Fills argumentView args [] (allSlots args)
  | [], [], _ => by
    rw [resolveArguments, allSlots]
    · exact .succeed ⟨rfl, rfl⟩
    · exact nofun
  | e :: es, parameter :: parameters, arity => by
    rw [resolveArguments, allSlots]
    refine (resolve_fills keyed e).andThen (fun filled same => ⟨?_, rfl⟩) ?_
    · exact congrArg (· :: clearedAll es) same
    intro filled type sameFirst _
    refine .typing ⟨congrArg (· :: clearedAll es) sameFirst, rfl⟩ fun _ _ => ?_
    refine (resolveArguments_fills keyed es parameters (Nat.succ.inj arity)).andThenLast
      (fun others same => ⟨?_, rfl⟩) ?_
    · exact congrArg₂ (· :: ·) sameFirst same
    · exact fun others _ place _ => .succeed place

end

end Expression

/-! ## Declarations and statements -/

namespace Declaration

variable {types : Registry} {scope : StaticScope}

def view : View Declaration := ⟨slots, cleared⟩

/-- A declaration of which only the value is looked at. -/
def valueView : View Declaration where
  slots decl := decl.value.elim [] Expression.slots
  cleared decl := { decl with value := decl.value.map Expression.cleared }

theorem resolveValue_fills (keyed : scope.context.Keyed) (decl : Declaration) :
    (decl.resolveValue scope).Fills valueView decl [] (valueView.slots decl) := by
  unfold resolveValue
  rcases decl with ⟨name, typeName, _ | value, span, binding⟩
  · exact .succeed ⟨rfl, rfl⟩
  · dsimp only
    refine (value.resolve_fills keyed).andThenLast (fun filled same => ⟨?_, rfl⟩) ?_
    · exact congrArg (fun value => Declaration.mk name typeName (some value) span binding) same
    · exact fun filled _ place _ => .succeed place

theorem resolve_fills (keyed : scope.context.Keyed) (decl : Declaration) :
    (decl.resolve types scope).Fills view decl [] decl.slots := by
  rw [resolve, slots]
  refine .naming ⟨rfl, rfl⟩ fun declared _ => ?_
  have place : ∀ tree, valueView.cleared tree = valueView.cleared decl →
      view.At decl tree (valueView.slots tree ++ [.ofVariable decl.binding]) := by
    intro tree same
    have binding_eq := congrArg Declaration.binding same
    refine ⟨congrArg (fun decl => { decl with binding := none }) same, ?_⟩
    exact congrArg (valueView.slots tree ++ [.ofVariable ·]) binding_eq
  refine (resolveValue_fills keyed decl).andThen place fun tree initial same _ => ?_
  refine .typing (place tree same) fun type _ => .naming (place tree same) fun after _ => ?_
  have filling : ∀ content, view.At decl { tree with binding := content }
      (valueView.slots tree ++ [.ofVariable content]) :=
    fun content => ⟨(place tree same).1, rfl⟩
  have binding_eq := congrArg Declaration.binding same
  change tree.binding = decl.binding at binding_eq
  rw [← binding_eq]
  exact .fill .ofVariable (.ofVariable _) filling (.succeed (filling _))

end Declaration

namespace Statement

variable {types : Registry} {returns : Ty}

def view : View Statement := ⟨slots, cleared⟩

def blockView : View (List Statement) := ⟨allSlots, clearedAll⟩

mutual

theorem resolve_fills : (s : Statement) → (scope : StaticScope) → scope.context.Keyed →
    (s.resolve types returns scope).Fills view s [] s.slots
  | .expression value, scope, keyed => by
    rw [resolve, slots]
    split
    · refine (value.resolve_fills keyed).andThenLast (fun filled same => ⟨?_, rfl⟩) ?_
      · exact congrArg expression same
      · exact fun filled _ place _ => .succeed place
    · exact .error ⟨rfl, rfl⟩
  | .declaration decl, scope, keyed => by
    rw [resolve, slots]
    refine (decl.resolve_fills keyed).andThenLast (fun filled same => ⟨?_, rfl⟩) ?_
    · exact congrArg declaration same
    · exact fun filled _ place _ => .succeed place
  | .assignment target value, scope, keyed => by
    rw [resolve, slots]
    split
    · refine (target.resolve_fills keyed).andThen (fun filled same => ⟨?_, rfl⟩) ?_
      · exact congrArg (assignment · value.cleared) same
      intro filledTarget _ sameTarget _
      refine (value.resolve_fills keyed).andThenLast (fun filled same => ⟨?_, rfl⟩) ?_
      · exact congrArg₂ assignment sameTarget same
      · exact fun filled _ place _ => .typing place.append_nil fun _ _ => .succeed place
    · exact .error ⟨rfl, rfl⟩
  | .conditional condition thenBody elseBody, scope, keyed => by
    have inside : (StaticScope.context scope.push).Keyed := by rwa [scope.context_push]
    rw [resolve, slots]
    refine (condition.resolve_fills keyed).andThen (fun filled same => ⟨?_, rfl⟩) ?_
    · exact congrArg (conditional · _ _) same
    intro filled _ same _
    refine .typing ⟨congrArg (conditional · _ _) same, rfl⟩ fun _ _ => ?_
    split
    · exact .error ⟨congrArg (conditional · _ _) same, rfl⟩
    refine (resolveAll_fills thenBody scope.push inside).andThen
      (fun filledThen sameThen => ⟨?_, rfl⟩) ?_
    · exact congrArg₂ (conditional · · _) same sameThen
    intro filledThen _ sameThen _
    refine (resolveAll_fills elseBody scope.push inside).andThenLast
      (fun filledElse sameElse => ⟨?_, by simp [view, blockView, Expression.view, slots]⟩) ?_
    · change conditional _ _ _ = conditional _ _ _
      exact congr (congrArg₂ conditional same sameThen) sameElse
    · exact fun filledElse _ place _ => .succeed place
  | .forEach name range body, scope, keyed => by
    rw [resolve, slots]
    refine (range.resolve_fills keyed).andThen (fun filled same => ⟨?_, rfl⟩) ?_
    · exact congrArg (forEach name · _) same
    intro filled _ same _
    refine .typing ⟨congrArg (forEach name · _) same, rfl⟩ fun _ _ => ?_
    split
    · exact .error ⟨congrArg (forEach name · _) same, rfl⟩
    refine .naming ⟨congrArg (forEach name · _) same, rfl⟩ fun inside added => ?_
    have keyedInside : (StaticScope.context inside).Keyed := by
      rwa [(StaticScope.context_of_addVariable added).2.1, scope.context_push]
    refine (resolveAll_fills body inside keyedInside).andThenLast
      (fun filledBody sameBody => ⟨?_, rfl⟩) ?_
    · exact congrArg₂ (forEach name) same sameBody
    · exact fun filledBody _ place _ => .succeed place
  | .loop condition body, scope, keyed => by
    have inside : (StaticScope.context scope.push).Keyed := by rwa [scope.context_push]
    rw [resolve, slots]
    refine (condition.resolve_fills keyed).andThen (fun filled same => ⟨?_, rfl⟩) ?_
    · exact congrArg (loop · _) same
    intro filled _ same _
    refine .typing ⟨congrArg (loop · _) same, rfl⟩ fun _ _ => ?_
    refine (resolveAll_fills body scope.push inside).andThenLast
      (fun filledBody sameBody => ⟨?_, rfl⟩) ?_
    · exact congrArg₂ loop same sameBody
    · exact fun filledBody _ place _ => .succeed place
  | .result value, scope, keyed => by
    rw [resolve, slots]
    refine (value.resolve_fills keyed).andThenLast (fun filled same => ⟨?_, rfl⟩) ?_
    · exact congrArg result same
    · exact fun filled _ place _ => .typing place.append_nil fun _ _ => .succeed place

theorem resolveAll_fills : (ss : List Statement) → (scope : StaticScope) → scope.context.Keyed →
    (resolveAll types returns ss scope).Fills blockView ss [] (allSlots ss)
  | [], scope, keyed => by
    rw [resolveAll, allSlots]
    exact .succeed ⟨rfl, rfl⟩
  | s :: ss, scope, keyed => by
    rw [resolveAll, allSlots]
    refine (resolve_fills s scope keyed).andThen (fun filled same => ⟨?_, rfl⟩) ?_
    · exact congrArg (· :: clearedAll ss) same
    intro filled middle same resolved
    have keyedMiddle : middle.context.Keyed := by
      rcases typing_of_resolve s scope keyed _ _ resolved with ⟨first⟩
      rwa [Context.Keyed, first.functions_eq]
    refine (resolveAll_fills ss middle keyedMiddle).andThenLast
      (fun others sameOthers => ⟨?_, rfl⟩) ?_
    · exact congrArg₂ (· :: ·) same sameOthers
    · exact fun others _ place _ => .succeed place

end

end Statement

/-! ## Methods and programs -/

namespace Method

variable {types : Registry} {scope : StaticScope}

def view : View Method := ⟨slots, cleared⟩

theorem resolve_fills (keyed : scope.context.Keyed) (atRoot : scope.inner = []) (method : Method) :
    (method.resolve types scope).Fills view method [] method.slots := by
  rw [resolve, slots]
  refine .naming ⟨rfl, rfl⟩ fun signature declared => .naming ⟨rfl, rfl⟩ fun after added => ?_
  refine .fill .ofFunction (.ofFunction signature) (fun content => ⟨rfl, rfl⟩) ?_
  refine .naming ⟨rfl, rfl⟩ fun inside declaredAll => ?_
  have keyedInside : inside.context.Keyed := by
    rw [Context.Keyed, (context_of_declareAll declaredAll).1, Context.functions_declareAll,
      StaticScope.context_push, (StaticScope.context_of_addFunction atRoot added).1]
    exact keyed.define signature
  refine (Statement.resolveAll_fills method.body inside keyedInside).andThenLast
    (fun filled same => ⟨?_, rfl⟩) ?_
  · exact congrArg (fun body => { method with body, binding := none }) same
  · exact fun filled _ place _ => .succeed place

end Method

namespace Program

variable {environment : Environment} {program : Program}

def view : View Program := ⟨slots, cleared⟩

/-- A check of a program fills its slots from the front, and all of them if it succeeds. -/
theorem resolve_fills (environment : Environment) (program : Program) :
    (program.resolve environment).Fills view program [] program.slots := by
  rw [resolve, slots]
  refine .naming ⟨rfl, rfl⟩ fun natives defined => ?_
  -- Fields and methods are walked where no block is open and natives are under their own keys.
  let good (scope : StaticScope) : Prop := scope.context.Keyed ∧ scope.inner = []
  have begins : good natives := Environment.keyed_of_staticScope defined
  have keepsField : ∀ decl scope tree after, good scope →
      Declaration.resolve environment.types decl scope = ⟨tree, .ok after⟩ → good after :=
    fun _ _ _ _ holds resolved => (Declaration.typing_of_field holds.1 holds.2 resolved).2
  have keepsMethod : ∀ method scope tree after, good scope →
      Method.resolve environment.types method scope = ⟨tree, .ok after⟩ → good after :=
    fun _ _ _ _ holds resolved => (Method.typing_of_resolve holds.1 holds.2 resolved).2
  have onFields := Attempt.Fills.each good
    (fun decl _ holds => Declaration.resolve_fills holds.1 decl) keepsField program.fields natives
    begins
  refine onFields.andThen (fun fields same => ⟨?_, rfl⟩) ?_
  · exact congrArg (fun fields => Program.mk fields (program.methods.map Method.cleared)) same
  intro fields globals sameFields walked
  have reached : good globals :=
    (Context.steps_of_each (fun _ _ _ _ => Declaration.typing_of_field) begins.1 begins.2 walked).2
  have onMethods := Attempt.Fills.each good
    (fun method _ holds => Method.resolve_fills holds.1 holds.2 method) keepsMethod program.methods
    globals reached
  refine onMethods.andThenLast (fun methods same => ⟨?_, rfl⟩) ?_
  · exact congrArg₂ Program.mk sameFields same
  · exact fun methods _ place _ => .typing place.append_nil fun _ _ => .succeed place

end Program

end Primer
