import Primer.Evaluation.Machine

/-!
# What native code does to the objects

Objects come and stay: `Store.Grows` says that every object of one store is in another and has the
type that it had.  Native code makes the store grow, whatever it does (`Native.grows_run`).
-/

namespace Primer

namespace Store

/-- Every object of `before` is still there in `after`, and of the same type. -/
def Grows (before after : Store) : Prop :=
  ∀ ref object, before.find? ref = some object →
    ∃ object', after.find? ref = some object' ∧ object'.type = object.type

variable {before after later : Store}

theorem Grows.refl (store : Store) : store.Grows store :=
  fun _ object found => ⟨object, found, rfl⟩

theorem Grows.trans (first : before.Grows after) (second : after.Grows later) :
    before.Grows later := by
  intro ref object found
  obtain ⟨object', found', same⟩ := first ref object found
  obtain ⟨object'', found'', same'⟩ := second ref object' found'
  exact ⟨object'', found'', same'.trans same⟩

theorem find?_create (store : Store) (type : Ty) (fields : List (String × Value)) (ref : Ref) :
    (store.create type fields).2.find? ref =
      if ref.index = store.objects.size then some ⟨type, fields.reverse⟩ else store.find? ref := by
  simp only [create, find?, Array.getElem?_push]

/-- The object behind `ref` after a field of the object behind `target` was written. -/
theorem find?_write (store : Store) (target : Ref) (field : String) (value : Value) (ref : Ref) :
    (store.write target field value).2.find? ref =
      if target.index = ref.index ∧ (store.read? target field).isSome then
        (store.find? ref).map fun object =>
          { object with fields := Bindings.replace field value object.fields }
      else
        store.find? ref := by
  unfold write
  cases store.read? target field with
  | none => simp
  | some old => simp only [find?, Array.getElem?_modify, Option.isSome_some, and_true]

theorem grows_create (store : Store) (type : Ty) (fields : List (String × Value)) :
    store.Grows (store.create type fields).2 := by
  intro ref object found
  have old : ref.index < store.objects.size := (Array.getElem?_eq_some_iff.mp found).1
  rw [find?_create, if_neg (by omega)]
  exact ⟨object, found, rfl⟩

theorem grows_write (store : Store) (target : Ref) (field : String) (value : Value) :
    store.Grows (store.write target field value).2 := by
  intro ref object found
  rw [find?_write, found]
  split
  · exact ⟨_, rfl, rfl⟩
  · exact ⟨object, rfl, rfl⟩

theorem method_of_find? {store : Store} {ref : Ref} {object : Object} {key : FunctionKey}
    {method : NativeMethod} (found : store.find? ref = some object)
    (offered : object.type.method key = .ok method) : store.method ref key = .ok method := by
  rw [Store.method, found]
  exact offered

theorem method_eq_ok {store : Store} {ref : Ref} {key : FunctionKey} {method : NativeMethod}
    (found : store.method ref key = .ok method) :
    ∃ object, store.find? ref = some object ∧ object.type.method key = .ok method := by
  unfold Store.method at found
  split at found
  · rename_i object there
    exact ⟨object, there, found⟩
  · cases found

theorem method_eq_error {store : Store} {ref : Ref} {key : FunctionKey} {error : NamingError}
    (missing : store.method ref key = .error error) :
    ∃ typeName, error = .unknownMethod key typeName := by
  unfold Store.method at missing
  split at missing
  · rename_i object _
    refine ⟨object.type.name, ?_⟩
    cases type : object.type
    case nominal definition =>
      rw [type, Ty.method] at missing
      cases offered : definition.methods.find? (·.signature.key == key) <;>
        simp only [offered] at missing <;> cases missing
      rfl
    all_goals
      rw [type] at missing
      cases missing
      rfl
  · cases missing
    exact ⟨ref.typeName, rfl⟩

end Store

theorem Native.grows_run {α : Type} (code : Native Ty α) (effects : Effects) :
    effects.store.Grows (code.run effects).2.store := by
  induction code generalizing effects with
  | done value => exact .refl _
  | fail error => exact .refl _
  | print line next ih => exact ih ⟨effects.store, effects.output.push line⟩
  | create type fields next ih =>
    exact (effects.store.grows_create type fields).trans
      (ih _ ⟨(effects.store.create type fields).2, effects.output⟩)
  | read object field next ih => exact ih _ effects
  | write object field value next ih =>
    exact (effects.store.grows_write object field value).trans
      (ih _ ⟨(effects.store.write object field value).2, effects.output⟩)

/-! ## What native code gives -/

namespace Native

variable {α β : Type}

theorem run_bind (first : Native Ty α) (next : α → Native Ty β) (effects : Effects) :
    (first >>= next).run effects =
      match first.run effects with
      | (.ok value, after) => (next value).run after
      | (.error error, after) => (.error error, after) := by
  change (first.bind next).run effects = _
  induction first generalizing effects with
  | done value => rfl
  | fail error => rfl
  | print line rest ih => exact ih _
  | create type fields rest ih => exact ih _ _
  | read object field rest ih => exact ih _ _
  | write object field value rest ih => exact ih _ _

theorem run_pure (value : α) (effects : Effects) :
    (pure value : Native Ty α).run effects = (.ok value, effects) :=
  rfl

theorem run_ofExcept (result : Except RunError α) (effects : Effects) :
    (ofExcept result : Native Ty α).run effects = (result, effects) := by
  cases result <;> rfl

theorem run_readField (object : Ref) (name : String) (effects : Effects) :
    (readField object name : Native Ty Value).run effects =
      (match effects.store.read? object name with
        | some value => .ok value
        | none => .error (.unknownField name object.typeName), effects) := by
  simp only [readField, run]
  cases effects.store.read? object name <;> rfl

theorem run_writeField (object : Ref) (name : String) (value : Value) (effects : Effects) :
    (writeField object name value : Native Ty Unit).run effects =
      ((effects.store.write object name value).1,
        { effects with store := (effects.store.write object name value).2 }) := by
  simp only [writeField, run, run_ofExcept]

end Native

namespace Eval

theorem ofNative_eq {α : Type} (code : Native Ty α) (machine : Machine) :
    ofNative code machine =
      ofExcept (code.run machine.effects).1 ⟨machine.scope, (code.run machine.effects).2⟩ :=
  rfl

theorem ofNative_of_ok {α : Type} {code : Native Ty α} {machine : Machine} {value : α}
    {effects : Effects} (ended : code.run machine.effects = (.ok value, effects)) :
    ofNative code machine = (.value value, ⟨machine.scope, effects⟩) := by
  rw [ofNative_eq, ended]
  rfl

theorem ofNative_of_error {α : Type} {code : Native Ty α} {machine : Machine} {error : RunError}
    {effects : Effects} (ended : code.run machine.effects = (.error error, effects)) :
    ofNative code machine = (.error error, ⟨machine.scope, effects⟩) := by
  rw [ofNative_eq, ended]
  rfl

theorem callMember_of_ok {machine : Machine} {ref : Ref} {name : String} {values : List Value}
    {method : NativeMethod}
    (found : machine.effects.store.method ref ⟨name, values.length⟩ = .ok method) :
    callMember (.object ref) name values machine =
      ofNative (method.body ref values) machine := by
  dsimp only [callMember]
  rw [found]

theorem callMember_of_error {machine : Machine} {ref : Ref} {name : String} {values : List Value}
    {error : NamingError}
    (missing : machine.effects.store.method ref ⟨name, values.length⟩ = .error error) :
    callMember (.object ref) name values machine = (.error (.naming error), machine) := by
  dsimp only [callMember]
  rw [missing]

theorem readField_eq (machine : Machine) (ref : Ref) (name : String) :
    readField (.object ref) name machine =
      (match machine.effects.store.read? ref name with
        | some value => .value value
        | none => .error (.unknownField name ref.typeName), machine) := by
  simp only [readField, ofNative_eq, Native.run_readField]
  cases machine.effects.store.read? ref name <;> rfl

theorem writeField_eq (machine : Machine) (ref : Ref) (name : String) (value : Value) :
    writeField (.object ref) name value machine =
      (match (machine.effects.store.write ref name value).1 with
        | .ok _ => .value ()
        | .error error => .error error,
      { machine with effects :=
        { machine.effects with store := (machine.effects.store.write ref name value).2 } }) := by
  simp only [writeField, ofNative_eq, Native.run_writeField]
  cases (machine.effects.store.write ref name value).1 <;> rfl

end Eval

end Primer
