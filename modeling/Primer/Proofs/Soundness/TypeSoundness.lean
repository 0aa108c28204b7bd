import Mathlib
import Primer.Proofs.Pipeline.Computation
import Primer.Proofs.Soundness.Counters
import Primer.Proofs.Soundness.Runs

/-!
# Type soundness up to nil

In the built-in environments, every expression of a checked program gives a value of its type or
nil, and a run fails for few reasons only: a divisor of zero, nil where a value is needed, or a
comparison of two different kinds behind the type `Comparable`.
-/

namespace Primer

/-- The environments that need no host. -/
def Environment.IsBuiltIn (environment : Environment) : Prop :=
  environment = .standard ∨ environment = .counter

namespace Ty

theorem isOffered_of_get {environment : Environment} (builtIn : environment.IsBuiltIn)
    {name : String} {type : Ty} (found : environment.types.get name = .ok type) :
    type.IsOffered := by
  have definitions : ∀ definition ∈ environment.types.definitions,
      definition = Counter.definition := by
    obtain rfl | rfl := builtIn
    · exact nofun
    · exact fun _ member => List.mem_singleton.mp member
  have primitives : ∀ type ∈ Ty.primitives, type.IsOffered := by
    simp [Ty.primitives, IsOffered]
  unfold Registry.get Registry.find? at found
  cases primitive : Ty.primitives.find? (·.name == name) with
  | some type' =>
    simp only [primitive, Except.ok.injEq] at found
    subst found
    exact primitives _ (List.mem_of_find?_eq_some primitive)
  | none =>
    cases nominal : environment.types.definitions.find? (·.name == name) with
    | none => simp [primitive, nominal] at found
    | some definition =>
      simp only [primitive, nominal, Option.map_some, Except.ok.injEq] at found
      subst found
      exact definitions _ (List.mem_of_find?_eq_some nominal)

theorem field_of_offered {type fieldType : Ty} {name : String} (offered : type.IsOffered)
    (found : type.field name = .ok fieldType) :
    type = .nominal Counter.definition ∧ name = "count" ∧ fieldType = .integer := by
  cases type
  case nominal definition =>
    obtain rfl : definition = Counter.definition := offered
    by_cases same : name = "count"
    · subst same
      cases found
      exact ⟨rfl, rfl, rfl⟩
    · simp [field, Counter.definition, List.lookup_cons, beq_eq_false_iff_ne.mpr same] at found
  all_goals cases found

theorem method_of_offered {type : Ty} {key : FunctionKey} {method : NativeMethod}
    (offered : type.IsOffered) (found : type.method key = .ok method) :
    type = .nominal Counter.definition ∧ (method = Counter.increment ∨ method = Counter.reset) := by
  cases type
  case nominal definition =>
    obtain rfl : definition = Counter.definition := offered
    cases here : Counter.definition.methods.find? (·.signature.key == key) with
    | none => simp [Ty.method, here] at found
    | some first =>
      simp only [Ty.method, here, Except.ok.injEq] at found
      subst found
      have member := List.mem_of_find?_eq_some here
      simp only [Counter.definition, List.mem_cons, List.not_mem_nil, or_false] at member
      exact ⟨rfl, member⟩
  all_goals cases found

end Ty

theorem NativeFunction.cases_of_builtIn {environment : Environment}
    (builtIn : environment.IsBuiltIn) {function : NativeFunction}
    (member : function ∈ environment.functions) :
    function = NativeFunction.print ∨ function = NativeFunction.range ∨
      function = Counter.create := by
  obtain rfl | rfl := builtIn <;>
    simp only [Environment.standard, Environment.counter, List.cons_append, List.nil_append,
      List.mem_cons, List.not_mem_nil, or_false] at member
  · exact member.imp_right .inl
  · exact member

/-! ## The discipline -/

section

variable {machine : Machine} (counters : machine.effects.store.CountersOnly)

include counters

theorem reading_keeps {type fieldType : Ty} {name : String} {owner : Value}
    (fits : owner.FitsOffered machine.effects.store type)
    (found : type.field name = .ok fieldType) :
    Eval.Keeps Store.CountersOnly RunError.UpToNil machine (Eval.readField owner name)
      (Value.FitsOffered · fieldType) := by
  obtain ⟨offered, rfl | inhabits⟩ := fits
  · exact .of_eq_error rfl rfl
  obtain ⟨rfl, rfl, rfl⟩ := Ty.field_of_offered offered found
  obtain ⟨ref, object, rfl, there, -⟩ := Value.inhabits_nominal.mp inhabits
  obtain ⟨count, bound, fits⟩ := counters.read there
  exact .of_eq_value (by rw [Eval.readField_eq, bound]) rfl counters (.refl _)
    ⟨trivial, fits.integer_of⟩

theorem writing_keeps {type fieldType : Ty} {name : String} {owner value : Value}
    (fits : owner.FitsOffered machine.effects.store type)
    (found : type.field name = .ok fieldType)
    (fits' : value.FitsOffered machine.effects.store fieldType) :
    Eval.Keeps Store.CountersOnly RunError.UpToNil machine (Eval.writeField owner name value)
      fun _ _ => True := by
  obtain ⟨offered, rfl | inhabits⟩ := fits
  · exact .of_eq_error rfl rfl
  obtain ⟨rfl, rfl, rfl⟩ := Ty.field_of_offered offered found
  obtain ⟨ref, object, rfl, there, -⟩ := Value.inhabits_nominal.mp inhabits
  obtain ⟨old, bound, -⟩ := counters.read there
  have ended : Eval.writeField (.object ref) "count" value machine = (.value (), { machine with
      effects := { machine.effects with
        store := (machine.effects.store.write ref "count" value).2 } }) := by
    rw [Eval.writeField_eq, Store.write_of_read bound]
  exact .of_eq_value ended rfl (counters.write fits'.2.integer_of) (Store.grows_write _ _ _ _)
    trivial

theorem calling_keeps {type : Ty} {name : String} {owner : Value} {values : List Value}
    {method : NativeMethod} (fits : owner.FitsOffered machine.effects.store type)
    (found : type.method ⟨name, values.length⟩ = .ok method)
    (fits' : List.Forall₂ (Value.FitsOffered machine.effects.store) method.signature.parameters
      values) :
    Eval.Keeps Store.CountersOnly RunError.UpToNil machine (Eval.callMember owner name values)
      (Value.FitsOffered · method.signature.returns) := by
  obtain ⟨offered, rfl | inhabits⟩ := fits
  · exact .of_eq_error rfl rfl
  obtain ⟨rfl, methods⟩ := Ty.method_of_offered offered found
  obtain ⟨ref, object, rfl, there, type_eq⟩ := Value.inhabits_nominal.mp inhabits
  have called : Eval.callMember (.object ref) name values machine =
      Eval.ofNative (method.body ref values) machine :=
    Eval.callMember_of_ok (Store.method_of_find? there (type_eq ▸ found))
  have keeps : Eval.Keeps Store.CountersOnly RunError.UpToNil machine
      (Eval.ofNative (method.body ref values)) (Value.FitsOffered · method.signature.returns) := by
    obtain rfl | rfl := methods
    · obtain ⟨step, _, stepFits, none, rfl⟩ := List.forall₂_cons_left_iff.mp fits'
      obtain rfl := List.forall₂_nil_left_iff.mp none
      exact Counter.increment_keeps counters there stepFits.2
    · obtain rfl := List.forall₂_nil_left_iff.mp fits'
      exact Counter.reset_keeps counters there
  exact ⟨fun value after ended => keeps.of_value value after (called.symm.trans ended),
    fun error after ended => keeps.of_error error after (called.symm.trans ended)⟩

theorem native_keeps {environment : Environment} (builtIn : environment.IsBuiltIn)
    {function : NativeFunction} (member : function ∈ environment.functions) {values : List Value}
    (fits : List.Forall₂ (Value.FitsOffered machine.effects.store) function.signature.parameters
      values) :
    Eval.Keeps Store.CountersOnly RunError.UpToNil machine (Eval.ofNative (function.body values))
      (Value.FitsOffered · function.signature.returns) := by
  obtain rfl | rfl | rfl := NativeFunction.cases_of_builtIn builtIn member
  · obtain ⟨value, _, -, none, rfl⟩ := List.forall₂_cons_left_iff.mp fits
    obtain rfl := List.forall₂_nil_left_iff.mp none
    exact NativeFunction.print_keeps counters value
  · obtain ⟨start, _, startFits, rest, rfl⟩ := List.forall₂_cons_left_iff.mp fits
    obtain ⟨stop, _, stopFits, none, rfl⟩ := List.forall₂_cons_left_iff.mp rest
    obtain rfl := List.forall₂_nil_left_iff.mp none
    exact NativeFunction.range_keeps counters startFits.2 stopFits.2
  · obtain rfl := List.forall₂_nil_left_iff.mp fits
    exact Counter.create_keeps counters

end

/-- The built-in natives keep to their types. -/
def Discipline.builtIn {environment : Environment} (builtIn : environment.IsBuiltIn) :
    Discipline environment where
  known := Ty.IsOffered
  fits := Value.FitsOffered
  sound := Store.CountersOnly
  harmless := RunError.UpToNil
  mixes := Operator.Mixes
  known_of_fits := And.left
  known_of_get := Ty.isOffered_of_get builtIn
  known_field offered found := by
    obtain ⟨-, -, rfl⟩ := Ty.field_of_offered offered found
    exact trivial
  known_method offered found := by
    obtain ⟨-, rfl | rfl⟩ := Ty.method_of_offered offered found <;>
      simp [Counter.increment, Counter.reset, Ty.IsOffered]
  known_function function member := by
    obtain rfl | rfl | rfl := NativeFunction.cases_of_builtIn builtIn member <;>
      simp [NativeFunction.print, NativeFunction.range, Counter.create, Ty.IsOffered]
  fits_nil offered := ⟨offered, .inl rfl⟩
  fits_boolean _ := ⟨trivial, .inr trivial⟩
  fits_integer _ := ⟨trivial, .inr trivial⟩
  fits_literal {_ literal _} typed := by
    refine ⟨?_, .literal typed⟩
    cases literal <;> simp only [Literal.type] at typed <;> (try split at typed) <;> cases typed <;>
      exact trivial
  fits_of_grows grows fits := ⟨fits.1, fits.2.imp_right (.of_grows grows)⟩
  fits_of_accepts accepts offered fits := ⟨offered, .of_accepts accepts offered fits.1 fits.2⟩
  sound_empty := by simp [Store.CountersOnly, Store.find?]
  truth {_ value _} fits failed := by
    obtain ⟨-, rfl | inhabits⟩ := fits
    · cases failed
      rfl
    · obtain ⟨b, rfl⟩ := Value.inhabits_boolean.mp inhabits
      cases failed
  iteration {_ value} fits other := by
    obtain ⟨-, rfl | inhabits⟩ := fits
    · rfl
    · obtain ⟨r, rfl⟩ := Value.inhabits_iterable.mp inhabits
      exact absurd rfl (other r)
  outcome {_ value} fits other := by
    obtain ⟨-, rfl | inhabits⟩ := fits
    · rfl
    · obtain ⟨i, rfl⟩ := Value.inhabits_integer.mp inhabits
      exact absurd rfl (other i)
  operation strict typed fits fits' := by
    have offered := Operator.isOffered_of_type strict typed
    obtain ⟨value, given, result⟩ | ⟨error, failed, reason⟩ :=
      Operator.apply_fits fits.1 fits'.1 strict typed fits.2 fits'.2
    · refine ⟨fun value' given' => ?_, fun error failed => ?_⟩
      · cases given.symm.trans given'
        exact ⟨offered, result⟩
      · cases given.symm.trans failed
    · refine ⟨fun value given => ?_, fun error' failed' => ?_⟩
      · cases given.symm.trans failed
      · cases failed.symm.trans failed'
        exact reason
  reading counters fits found := reading_keeps counters fits found
  writing counters fits found fits' := writing_keeps counters fits found fits'
  calling counters fits found fits' := calling_keeps counters fits found fits'
  native function member counters fits := native_keeps counters builtIn member fits

/-! ## Soundness -/

/-- Two ordered values of different kinds met an ordering operator, at a node whose left operand was
given the type `Comparable`; the error says so. -/
inductive Activity.ComparesMixed : Activity → RunError → Prop
  | intro {spot : Spot} {note : Note} {operator : Operator} {left right : Expression} {bound : Nat}
      {machine between after : Machine} {first second : Value} :
    left.note.type = some .comparable →
    left.evaluate (Method.call bound) machine = (.value first, between) →
    right.evaluate (Method.call bound) between = (.value second, after) →
    operator.isOrdering = true →
    first.IsOrdered → second.IsOrdered → first.typeName ≠ second.typeName →
    ComparesMixed ⟨.expression spot (.binary note operator left right), bound, machine⟩
      (.invalidOperands operator.symbol first.typeName second.typeName)

theorem Activity.ComparesMixed.of_refuses {activity : Activity} {error : RunError}
    (refuses : activity.Refuses Operator.Mixes error) : activity.ComparesMixed error := by
  obtain ⟨typed, evaluated, evaluated', failed, mixes⟩ := refuses
  obtain ⟨truth, holds⟩ | ⟨-, undefined⟩ := Operator.apply_ordering mixes.ordering _ _
  · cases holds.symm.trans failed
  · cases undefined.symm.trans failed
    exact .intro (mixes.comparable ▸ typed) evaluated evaluated' mixes.ordering
      mixes.first_ordered mixes.second_ordered mixes.different

/-- In a built-in environment, every value that an expression of a checked program gives is nil or a
value of the type in its slot.  If a run fails, then for a reason that checking leaves open: a
divisor of zero, nil where a value is needed, or a comparison of different kinds at a node whose
left operand has the type `Comparable`. -/
theorem Environment.sound_up_to_nil {environment : Environment}
    (builtIn : environment.IsBuiltIn) {source : String} {program : Program}
    (loaded : environment.load source = .ok program) (bound : Nat) :
    (∀ spot e depth machine value after,
      program.Performs environment bound ⟨.expression spot e, depth, machine⟩ →
      e.evaluate (Method.call depth) machine = (.value value, after) →
      ∃ type, e.note.type = some type ∧
        (value = .nil ∨ value.Inhabits after.effects.store type)) ∧
    ∀ error, program.run environment bound = .error error →
      error.UpToNil ∨
        ∃ activity, program.Performs environment bound activity ∧ activity.ComparesMixed error := by
  obtain ⟨checked, -, rfl⟩ := Checked.of_load loaded
  refine ⟨fun spot e depth machine value after performs ended => ?_, fun error failed => ?_⟩
  · obtain ⟨post, allowed⟩ := checked.allowed_of_performs (.builtIn builtIn) performs
    obtain ⟨stage, node, scope, returns, type, -, -, resolved, rfl⟩ := allowed.shape
    obtain ⟨-, -, fits⟩ := checked.post_of_allowed _ allowed ended
    exact ⟨type, Expression.type_of_resolve resolved, fits⟩
  · obtain harmless | ⟨activity, performs, refuses⟩ :=
      checked.fault_of_run (.builtIn builtIn) failed
    · exact .inl harmless
    · exact .inr ⟨activity, performs, .of_refuses refuses⟩

/-- A program that compares an integer with a string behind `Comparable`. -/
def mixedComparison : String :=
  "DEF less(a: Comparable, b: Comparable): Boolean DO RETURN a < b; END
   DEF main(): Integer DO print(less(1, \"a\")); RETURN 0; END"

theorem Environment.sound_up_to_nil_mixedComparison :
    ∃ program, Environment.counter.load mixedComparison = .ok program ∧
      program.run .counter 5 = .error (.invalidOperands "<" "Integer" "String") ∧
      ∃ activity, program.Performs .counter 5 activity ∧
        activity.ComparesMixed (.invalidOperands "<" "Integer" "String") := by
  have failed : ∃ program, Environment.counter.load mixedComparison = .ok program ∧
      program.run .counter 5 = .error (.invalidOperands "<" "Integer" "String") := by
    rw [mixedComparison, Environment.load_ofList]
    decide +kernel
  obtain ⟨program, loaded, ran⟩ := failed
  obtain upToNil | mixed := (Environment.sound_up_to_nil (.inr rfl) loaded 5).2 _ ran
  · simp [RunError.UpToNil] at upToNil
  · exact ⟨program, loaded, ran, mixed⟩

end Primer
