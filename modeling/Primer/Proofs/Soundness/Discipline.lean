import Mathlib.Data.List.Forall2
import Primer.Environment.Basic
import Primer.Evaluation.Statement
import Primer.Proofs.Evaluation.Objects
import Primer.Typing.Rules

/-!
# Disciplines

What checking promises about a run depends on what the natives keep to.  A `Discipline` is such a
promise: which values fit a type, which stores are sound and which errors are harmless, together
with the laws that the primitive steps of a run have to keep.  Everything that follows from the walk
through the program alone is then proved once for every discipline.

Errors of an operator are apart: `mixes` describes operands for which the operator may fail although
both of them fit their types.
-/

namespace Primer

/-- A step that leaves the scopes alone and keeps the store sound.  It ends with a good value or
with a harmless error. -/
structure Eval.Keeps {α : Type} (sound : Store → Prop) (harmless : RunError → Prop)
    (machine : Machine) (step : Eval α) (good : Store → α → Prop) : Prop where
  of_value : ∀ value after, step machine = (.value value, after) →
    after.scope = machine.scope ∧ sound after.effects.store ∧
      machine.effects.store.Grows after.effects.store ∧ good after.effects.store value
  of_error : ∀ error after, step machine = (.error error, after) → harmless error

namespace Eval.Keeps

variable {α : Type} {sound : Store → Prop} {harmless : RunError → Prop} {machine after : Machine}
  {step : Eval α} {good : Store → α → Prop} {value : α} {error : RunError}

theorem of_eq_value (ended : step machine = (.value value, after))
    (same : after.scope = machine.scope) (kept : sound after.effects.store)
    (grows : machine.effects.store.Grows after.effects.store)
    (fine : good after.effects.store value) : Keeps sound harmless machine step good where
  of_value := by
    intro value' after' ended'
    cases ended.symm.trans ended'
    exact ⟨same, kept, grows, fine⟩
  of_error := by
    intro error after' ended'
    cases ended.symm.trans ended'

theorem of_eq_error (ended : step machine = (.error error, after)) (fine : harmless error) :
    Keeps sound harmless machine step good where
  of_value := by
    intro value after' ended'
    cases ended.symm.trans ended'
  of_error := by
    intro error' after' ended'
    cases ended.symm.trans ended'
    exact fine

end Eval.Keeps

/-- What is promised about the values and errors of the programs of an environment. -/
structure Discipline (environment : Environment) where
  known : Ty → Prop
  fits : Store → Ty → Value → Prop
  sound : Store → Prop
  harmless : RunError → Prop
  mixes : Operator → Ty → Value → Value → Prop
  -- types
  known_of_fits : ∀ {store type value}, fits store type value → known type
  known_of_get : ∀ {name type}, environment.types.get name = .ok type → known type
  known_field : ∀ {type name fieldType}, known type → type.field name = .ok fieldType →
    known fieldType
  known_method : ∀ {type key method}, known type → type.method key = .ok method →
    ∀ parameter ∈ method.signature.parameters, known parameter
  known_function : ∀ function ∈ environment.functions,
    ∀ parameter ∈ function.signature.parameters, known parameter
  -- values
  fits_nil : ∀ {store type}, known type → fits store type .nil
  fits_boolean : ∀ {store} (b : Bool), fits store .boolean (.boolean b)
  fits_integer : ∀ {store} (i : Int), fits store .integer (.integer i)
  fits_literal : ∀ {store literal type}, Literal.type literal = .ok type →
    fits store type literal.toValue
  fits_of_grows : ∀ {before after : Store} {type value}, before.Grows after →
    fits before type value → fits after type value
  fits_of_accepts : ∀ {store} {target source : Ty} {value}, target.accepts source = true →
    known target → fits store source value → fits store target value
  -- steps
  sound_empty : sound {}
  truth : ∀ {store value error}, fits store .boolean value → value.toBool = .error error →
    harmless error
  iteration : ∀ {store} {value : Value}, fits store .integerIterable value →
    (∀ range, value ≠ .range range) → harmless (.notIterable value.typeName)
  outcome : ∀ {store} {value : Value}, fits store .integer value → (∀ i, value ≠ .integer i) →
    harmless (.mainNotInteger value.typeName)
  operation : ∀ {store} {operator : Operator} {leftType rightType type left right},
    operator.precedence ≠ .logical → operator.type leftType rightType = .ok type →
    fits store leftType left → fits store rightType right →
    (∀ value, operator.apply left right = .ok value → fits store type value) ∧
      ∀ error, operator.apply left right = .error error →
        harmless error ∨ mixes operator leftType left right
  reading : ∀ {machine : Machine} {type name fieldType owner},
    sound machine.effects.store → fits machine.effects.store type owner →
    type.field name = .ok fieldType →
    Eval.Keeps sound harmless machine (Eval.readField owner name) (fits · fieldType)
  writing : ∀ {machine : Machine} {type name fieldType owner value},
    sound machine.effects.store → fits machine.effects.store type owner →
    type.field name = .ok fieldType → fits machine.effects.store fieldType value →
    Eval.Keeps sound harmless machine (Eval.writeField owner name value) fun _ _ => True
  calling : ∀ {machine : Machine} {type name owner values} {method : NativeMethod},
    sound machine.effects.store → fits machine.effects.store type owner →
    type.method ⟨name, List.length values⟩ = .ok method →
    List.Forall₂ (fits machine.effects.store) method.signature.parameters values →
    Eval.Keeps sound harmless machine (Eval.callMember owner name values)
      (fits · method.signature.returns)
  native : ∀ {machine : Machine} {values}, ∀ function ∈ environment.functions,
    sound machine.effects.store →
    List.Forall₂ (fits machine.effects.store) function.signature.parameters values →
    Eval.Keeps sound harmless machine (Eval.ofNative (function.body values))
      (fits · function.signature.returns)

namespace Discipline

variable {environment : Environment} (discipline : Discipline environment)

/-- What a variable may be bound to. -/
def binds (store : Store) (found : Variable) (value : Value) : Prop :=
  discipline.fits store found.type value

variable {discipline}

theorem fits_of_mustAccept {store : Store} {target source : Ty} {value : Value}
    (accepted : target.mustAccept source = .ok ()) (known : discipline.known target)
    (fits : discipline.fits store source value) : discipline.fits store target value := by
  unfold Ty.mustAccept at accepted
  split at accepted
  · rename_i accepts
    exact discipline.fits_of_accepts accepts known fits
  · cases accepted

theorem known_boolean : discipline.known .boolean :=
  discipline.known_of_get (rfl : environment.types.get "Boolean" = _)

theorem known_integer : discipline.known .integer :=
  discipline.known_of_get (rfl : environment.types.get "Integer" = _)

theorem known_iterable : discipline.known .integerIterable :=
  discipline.known_of_get (rfl : environment.types.get "IntegerIterable" = _)

theorem known_nil : discipline.known .nil :=
  discipline.known_of_get (rfl : environment.types.get "Nil" = _)

end Discipline

end Primer
