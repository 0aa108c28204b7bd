import Mathlib
import Primer.Proofs.Pipeline.Computation
import Primer.Proofs.Soundness.Runs

/-!
# Checking and running agree about names

Whatever the natives of an environment do with types, the names of a checked program keep their
meaning: a run finds every variable in the frame in which the checker found it, bound by the same
declaration, parameter or loop header, and it never fails for a variable, a function, an arity or a
missing `main` that the checker let pass.

All that is asked of natives is that they raise no such error themselves.  A call on an object goes
to the type that the object was made with, which need not be the type that the checker saw;
`Environment.Hosts` covers all types that objects of a run can have.
-/

namespace Primer

/-! ## Natives that leave names to the program -/

/-- The errors about names that checking excludes. -/
def RunError.IsResolution : RunError → Prop
  | .naming (.undefinedVariable _) | .naming (.undefinedFunction _) | .naming (.alreadyDefined _)
  | .arityMismatch .. | .missingMain => True
  | _ => False

/-- Native code makes an object of the type, starting from some state. -/
def Native.Makes {α : Type} (code : Native Ty α) (type : Ty) : Prop :=
  ∃ effects ref object, effects.store.find? ref = none ∧
    (code.run effects).2.store.find? ref = some object ∧ object.type = type

/-- The types that the host gives methods to: those that it registers, and those of the objects that
its functions make and the methods of such types. -/
inductive Environment.Hosts (environment : Environment) : Ty → Prop
  | registered {definition : TypeDefinition} :
    definition ∈ environment.types.definitions → Hosts environment (.nominal definition)
  | function {function : NativeFunction} {values : List Value} {type : Ty} :
    function ∈ environment.functions → values.length = function.signature.arity →
    (function.body values).Makes type → Hosts environment type
  | method {owner type : Ty} {key : FunctionKey} {method : NativeMethod} {self : Ref}
      {values : List Value} :
    Hosts environment owner → owner.method key = .ok method →
    values.length = method.signature.arity → (method.body self values).Makes type →
    Hosts environment type

/-- Native code that does not fail for a name, an arity or a missing `main`. -/
def Native.LeavesNames {α : Type} (code : Native Ty α) : Prop :=
  ∀ effects error, (code.run effects).1 = .error error → ¬ error.IsResolution

/-- Natives that do not fail for a name, an arity or a missing `main` when they get as many values
as they declare. -/
structure Environment.LeavesNames (environment : Environment) : Prop where
  functions : ∀ function ∈ environment.functions, ∀ values : List Value,
    values.length = function.signature.arity → (function.body values).LeavesNames
  methods : ∀ type, environment.Hosts type → ∀ key method, type.method key = .ok method →
    ∀ self (values : List Value), values.length = method.signature.arity →
      (method.body self values).LeavesNames

/-! ## Objects of hosted types -/

/-- Every object has a type of the host. -/
def Store.Hosted (environment : Environment) (store : Store) : Prop :=
  ∀ ref object, store.find? ref = some object → environment.Hosts object.type

section

variable {environment : Environment} {machine : Machine}
  (hosted : machine.effects.store.Hosted environment)

include hosted

/-- Native code that makes objects of hosted types only. -/
theorem Eval.ofNative_keeps_hosted {α : Type} {code : Native Ty α} (leaves : code.LeavesNames)
    (makes : ∀ type, code.Makes type → environment.Hosts type) :
    Eval.Keeps (Store.Hosted environment) (¬ RunError.IsResolution ·) machine (Eval.ofNative code)
      fun _ _ => True := by
  have hosted' : (code.run machine.effects).2.store.Hosted environment := by
    intro ref object found
    cases old : machine.effects.store.find? ref with
    | none => exact makes _ ⟨machine.effects, ref, object, old, found, rfl⟩
    | some object' =>
      obtain ⟨object'', found', same⟩ := code.grows_run machine.effects ref object' old
      cases found.symm.trans found'
      exact same ▸ hosted ref object' old
  have grows := code.grows_run machine.effects
  have harmless := leaves machine.effects
  cases ended : code.run machine.effects with
  | mk result effects =>
    rw [ended] at hosted' grows harmless
    cases result with
    | ok value => exact .of_eq_value (Eval.ofNative_of_ok ended) rfl hosted' grows trivial
    | error error => exact .of_eq_error (Eval.ofNative_of_error ended) (harmless error rfl)

theorem Eval.readField_keeps_hosted (owner : Value) (name : String) :
    Eval.Keeps (Store.Hosted environment) (¬ RunError.IsResolution ·) machine
      (Eval.readField owner name) fun _ _ => True := by
  cases owner
  case object ref =>
    cases found : machine.effects.store.read? ref name with
    | none => exact .of_eq_error (by rw [Eval.readField_eq, found]) id
    | some value =>
      exact .of_eq_value (by rw [Eval.readField_eq, found]) rfl hosted (.refl _) trivial
  all_goals exact .of_eq_error rfl id

theorem Eval.writeField_keeps_hosted (owner : Value) (name : String) (value : Value) :
    Eval.Keeps (Store.Hosted environment) (¬ RunError.IsResolution ·) machine
      (Eval.writeField owner name value) fun _ _ => True := by
  cases owner
  case object ref =>
    have hosted' : (machine.effects.store.write ref name value).2.Hosted environment := by
      intro ref' object found
      rw [Store.find?_write] at found
      split at found
      · obtain ⟨object', found', rfl⟩ := Option.map_eq_some_iff.mp found
        exact hosted ref' object' found'
      · exact hosted ref' object found
    cases written : (machine.effects.store.write ref name value).1 with
    | error error =>
      refine .of_eq_error (by rw [Eval.writeField_eq, written]) ?_
      unfold Store.write at written
      split at written <;> cases written
      exact id
    | ok done =>
      have ended := Eval.writeField_eq machine ref name value
      rw [written] at ended
      exact .of_eq_value ended rfl hosted' (Store.grows_write _ _ _ _) trivial
  all_goals exact .of_eq_error rfl id

/-- A call on an object goes to a method of its type that takes as many values. -/
theorem Eval.callMember_keeps_hosted (natives : environment.LeavesNames) (owner : Value)
    (name : String) (values : List Value) :
    Eval.Keeps (Store.Hosted environment) (¬ RunError.IsResolution ·) machine
      (Eval.callMember owner name values) fun _ _ => True := by
  cases owner
  case object ref =>
    cases found : machine.effects.store.method ref ⟨name, values.length⟩ with
    | error error =>
      obtain ⟨typeName, rfl⟩ := Store.method_eq_error found
      exact .of_eq_error (Eval.callMember_of_error found) id
    | ok method =>
      obtain ⟨object, there, offered⟩ := Store.method_eq_ok found
      have owner := hosted ref object there
      have arity : values.length = method.signature.arity :=
        (congrArg FunctionKey.arity (Ty.key_of_method offered)).symm
      have keeps := Eval.ofNative_keeps_hosted hosted
        (natives.methods _ owner _ _ offered ref values arity)
        fun type made => .method owner offered arity made
      have called := Eval.callMember_of_ok found
      exact ⟨fun value after ended => keeps.of_value value after (called.symm.trans ended),
        fun error after ended => keeps.of_error error after (called.symm.trans ended)⟩
  all_goals exact .of_eq_error rfl id

end

theorem Operator.arithmetic?_eq_error {operator : Operator} {left right : Value} {error : RunError}
    (failed : operator.arithmetic? left right = some (.error error)) : error = .divisionByZero := by
  unfold arithmetic? at failed
  split at failed
  case h_1 | h_2 =>
    cases operator
    case divide =>
      simp only [onIntegers?, onDecimals?, Option.map_some] at failed
      split at failed <;> cases failed
      rfl
    all_goals cases failed
  case h_3 => split at failed <;> cases failed
  case h_4 => cases failed

/-- How an operator can fail, whatever its operands are. -/
theorem Operator.apply_eq_error {operator : Operator} {left right : Value} {error : RunError}
    (failed : operator.apply left right = .error error) :
    error = operator.undefinedFor left right ∨ error = .divisionByZero := by
  unfold apply at failed
  split at failed
  case h_1 | h_2 => cases failed
  case h_7 =>
    split at failed
    · rename_i result computed
      exact .inr (arithmetic?_eq_error (failed ▸ computed))
    · exact .inl (Except.error.inj failed).symm
  all_goals
    split at failed
    · cases failed
    · exact .inl (Except.error.inj failed).symm

theorem Operator.apply_leaves_names {operator : Operator} {left right : Value} {error : RunError}
    (failed : operator.apply left right = .error error) : ¬ error.IsResolution := by
  obtain rfl | rfl := apply_eq_error failed <;> exact id

/-- The natives leave names to the program; nothing is known about values. -/
def Discipline.names {environment : Environment} (natives : environment.LeavesNames) :
    Discipline environment where
  known _ := True
  fits _ _ _ := True
  sound := Store.Hosted environment
  harmless error := ¬ error.IsResolution
  mixes _ _ _ _ := False
  known_of_fits _ := trivial
  known_of_get _ := trivial
  known_field _ _ := trivial
  known_method _ _ _ _ := trivial
  known_function _ _ _ _ := trivial
  fits_nil _ := trivial
  fits_boolean _ := trivial
  fits_integer _ := trivial
  fits_literal _ := trivial
  fits_of_grows _ _ := trivial
  fits_of_accepts _ _ _ := trivial
  sound_empty := by simp [Store.Hosted, Store.find?]
  truth {_ value _} _ failed := by
    cases value <;> cases failed <;> exact id
  iteration _ _ := id
  outcome _ _ := id
  operation _ _ _ _ :=
    ⟨fun _ _ => trivial, fun _ failed => .inl (Operator.apply_leaves_names failed)⟩
  reading hosted _ _ := Eval.readField_keeps_hosted hosted _ _
  writing hosted _ _ _ := Eval.writeField_keeps_hosted hosted _ _ _
  calling hosted _ _ _ := Eval.callMember_keeps_hosted hosted natives _ _ _
  native function member hosted fits :=
    Eval.ofNative_keeps_hosted hosted (natives.functions function member _ fits.length_eq.symm)
      fun _ made => .function member fits.length_eq.symm made

/-! ## Agreement -/

/-- The checker came to the spot with the names of `scope`, and left `filled` there. -/
def Program.Fills (tree : Program) (environment : Environment) (spot : Spot) (scope : StaticScope)
    (filled : Expression) : Prop :=
  ∃ node returns type,
    tree.visit? environment spot.place = some ⟨.expression node, spot, scope, returns⟩ ∧
      node.resolve scope = ⟨filled, .ok type⟩

/-- The checker with the names of `scope` and a run with those of `running` mean one binding by
`name`.  Both have the frames of `binders`, name by name, and so find the name as many frames out;
the node at `binder` bound it. -/
structure SameBinding (scope : StaticScope) (running : Scope Value FunctionBody)
    (binders : Binders) (name : String) (depth : Nat) (binder : Place) : Prop where
  checker : scope.Agree (fun _ _ => True) binders
  run : scope.Agree (fun _ _ => True) running
  checker_distance : scope.distance? name = some depth
  run_distance : running.distance? name = some depth
  binder_distance : binders.distance? name = some depth
  bound : binders.getVariable name = .ok binder

theorem Linked.sameBinding {environment : Environment} {checked : Checked environment}
    {discipline : Discipline environment} {stage : Stage} {scope : StaticScope} {binders : Binders}
    {machine : Machine} (linked : Linked checked discipline stage scope binders machine)
    {name : String} {found : Variable} (bound : scope.getVariable name = .ok found) :
    ∃ depth binder, SameBinding scope machine.scope binders name depth binder := by
  obtain ⟨binder, bound', -⟩ := linked.places.getVariable bound
  obtain ⟨depth, distance⟩ := Scope.distance_of_getVariable bound
  exact ⟨depth, binder, linked.places, linked.values.mono fun _ _ _ => trivial, distance,
    (linked.values.distance_eq name).symm.trans distance,
    (linked.places.distance_eq name).symm.trans distance, bound'⟩

/-- A run of a checked program fails for no name that the checker let pass.  Whenever it evaluates a
variable or assigns to one, it finds the name as many frames out as the checker did when it filled
the slot of that node, and both mean the binding that the same node made. -/
theorem Environment.resolution_agrees {environment : Environment}
    (natives : environment.LeavesNames) {source : String} {program : Program}
    (loaded : environment.load source = .ok program) (bound : Nat) :
    (∀ error, program.run environment bound = .error error → ¬ error.IsResolution) ∧
    ∃ tree, Program.parse source = .ok tree ∧
      (∀ spot note name slot limit machine,
        program.Performs environment bound
          ⟨.expression spot (.access note name slot), limit, machine⟩ →
        ∃ scope found depth binder, slot = some found ∧
          tree.Fills environment spot scope (.access note name slot) ∧
          scope.getVariable name = .ok found ∧
          SameBinding scope machine.scope spot.binders name depth binder) ∧
      ∀ spot name value limit machine,
        program.Performs environment bound ⟨.update spot name value, limit, machine⟩ →
        ∃ note scope found depth binder,
          tree.Fills environment spot scope (.access note name (some found)) ∧
          scope.getVariable name = .ok found ∧
          SameBinding scope machine.scope spot.binders name depth binder := by
  obtain ⟨checked, parsed, rfl⟩ := Checked.of_load loaded
  refine ⟨fun error failed => ?_, checked.source, parsed, ?_, ?_⟩
  · obtain harmless | ⟨activity, -, refuses⟩ := checked.fault_of_run (.names natives) failed
    · exact harmless
    · obtain ⟨-, -, -, -, mixes⟩ := refuses
      exact mixes.elim
  · intro spot note name slot limit machine performs
    obtain ⟨post, allowed⟩ := checked.allowed_of_performs (.names natives) performs
    obtain ⟨stage, node, scope, returns, type, visits, linked, resolved, -⟩ := allowed.shape
    obtain ⟨found, rfl, bound_eq⟩ := Expression.access_of_resolve resolved
    obtain ⟨depth, binder, same⟩ := linked.sameBinding bound_eq
    exact ⟨scope, found, depth, binder, rfl, ⟨node, returns, type, visits, resolved⟩, bound_eq,
      same⟩
  · intro spot name value limit machine performs
    obtain ⟨post, allowed⟩ := checked.allowed_of_performs (.names natives) performs
    obtain ⟨stage, node, note, found, scope, returns, visits, linked, resolved⟩ := allowed.shape
    obtain ⟨found', same, bound_eq⟩ := Expression.access_of_resolve resolved
    cases same
    obtain ⟨depth, binder, same⟩ := linked.sameBinding bound_eq
    exact ⟨note, scope, found, depth, binder, ⟨node, returns, _, visits, resolved⟩, bound_eq, same⟩

/-- A native function with a result of another type than it declares. -/
def NativeFunction.liar : NativeFunction where
  signature := ⟨"liar", "liar", [], .integer⟩
  body _ := .done (.string "a")

/-- The standard environment with a native that is not honest. -/
def Environment.lying : Environment where
  functions := Environment.standard.functions ++ [NativeFunction.liar]

theorem Environment.lying_leavesNames : Environment.lying.LeavesNames := by
  have quiet : ∀ function ∈ Environment.lying.functions, ∀ values : List Value,
      values.length = function.signature.arity → (function.body values).LeavesNames ∧
        ∀ effects, ((function.body values).run effects).2.store = effects.store := by
    intro function member values arity
    obtain rfl | rfl | rfl : function = .print ∨ function = .range ∨ function = .liar := by
      simpa [lying, standard] using member
    · obtain ⟨value, rfl⟩ := List.length_eq_one_iff.mp arity
      exact ⟨nofun, fun _ => rfl⟩
    · obtain ⟨start, stop, rfl⟩ := List.length_eq_two.mp arity
      cases start <;> cases stop <;> refine ⟨?_, fun _ => rfl⟩ <;> rintro _ _ ⟨⟩ <;> exact id
    · exact ⟨nofun, fun _ => rfl⟩
  have none_hosted : ∀ type, ¬ Environment.lying.Hosts type := by
    intro type hosts
    induction hosts with
    | registered member => cases member
    | function member arity made =>
      obtain ⟨effects, ref, object, free, found, -⟩ := made
      rw [(quiet _ member _ arity).2, free] at found
      cases found
    | method _ _ _ _ absurd => exact absurd
  exact ⟨fun function member values arity => (quiet function member values arity).1,
    fun type hosts => (none_hosted type hosts).elim⟩

/-- A program that hides a field in a loop and assigns to it behind the loop. -/
def hiddenField : String :=
  "LET x: Integer = liar();
   DEF main(): Integer DO FOR x IN range(0, 2) DO print(x); END x = liar(); RETURN x + 1; END"

theorem Environment.resolution_agrees_hiddenField :
    ∃ program, Environment.lying.load hiddenField = .ok program ∧
      program.run .lying 5 = .error (.invalidOperands "+" "String" "Integer") ∧
      ¬ (RunError.invalidOperands "+" "String" "Integer").IsResolution ∧
      ∃ tree, Program.parse hiddenField = .ok tree ∧
        ∀ spot name value limit machine,
          program.Performs .lying 5 ⟨.update spot name value, limit, machine⟩ →
          ∃ note scope found depth binder,
            tree.Fills .lying spot scope (.access note name (some found)) ∧
            scope.getVariable name = .ok found ∧
            SameBinding scope machine.scope spot.binders name depth binder := by
  have failed : ∃ program, Environment.lying.load hiddenField = .ok program ∧
      program.run .lying 5 = .error (.invalidOperands "+" "String" "Integer") := by
    rw [hiddenField, Environment.load_ofList]
    decide +kernel
  obtain ⟨program, loaded, ran⟩ := failed
  obtain ⟨harmless, tree, parsed, -, assigned⟩ :=
    Environment.resolution_agrees Environment.lying_leavesNames loaded 5
  exact ⟨program, loaded, ran, harmless _ ran, tree, parsed, assigned⟩

end Primer
