import Primer.Proofs.Evaluation.Frames
import Primer.Proofs.Evaluation.Termination
import Primer.Proofs.Soundness.TypeSoundness
import Primer.Proofs.Typing.Calls

/-!
# Calls of a checked program lead back

A run binds all methods before `main` is called, also those that the checker had not seen yet when
it came to a call.  It makes no difference: a call leads to the function that the checker found,
since no key is bound twice.  So the calls of a field lead to natives, and those of a method to
natives, to itself and to methods before it.  A program without `WHILE` loops whose methods do not
call themselves therefore comes to an end (`Environment.calls_lead_back`).
-/

namespace Primer

open Eval

/-- The function is the native of that key. -/
def FunctionBody.IsNative (environment : Environment) (key : FunctionKey)
    (function : FunctionBody) : Prop :=
  ∃ native ∈ environment.functions, native.signature.key = key ∧ function = .native native.body

namespace Checked

variable {environment : Environment} (checked : Checked environment)

/-! ## What a key stands for -/

theorem method_of_lookup {key : FunctionKey} {method : Method}
    (found : (checked.bodies .methods).lookup key = some (.defined method)) :
    method ∈ checked.program.methods := by
  rcases List.mem_append.mp (Bindings.mem_of_lookup_eq_some found) with bound | bound
  · rcases List.mem_map.mp (List.mem_reverse.mp bound) with ⟨_, member, same⟩
    cases same
    exact member
  · rcases List.mem_map.mp (List.mem_reverse.mp bound) with ⟨_, -, same⟩
    cases same

theorem isNative_of_has {key : FunctionKey} {function : FunctionBody}
    (has : environment.context.Has key)
    (found : (checked.bodies .methods).lookup key = some function) :
    function.IsNative environment key := by
  rcases Environment.has_iff.mp has with ⟨native, member, same⟩
  have bound : (key, .native native.body) ∈ checked.bodies .methods :=
    List.mem_append_right _ (List.mem_reverse.mpr (List.mem_map.mpr ⟨native, member, by rw [same]⟩))
  have looked := Bindings.lookup_of_mem (checked.bodies_distinct .methods) bound
  exact ⟨native, member, same, Option.some.inj (found.symm.trans looked)⟩

/-- What a method calls is what was meant: a native, or a method that does not come behind. -/
theorem function_of_calls {number : Nat} {key : FunctionKey} {function : FunctionBody}
    (calls : environment.context.Has key ∨ ∃ (earlier : Nat) (callee : Method), earlier ≤ number ∧
      checked.program.methods[earlier]? = some callee ∧ callee.key = key)
    (found : (checked.bodies .methods).lookup key = some function) :
    function.IsNative environment key ∨
      ∃ (earlier : Nat) (callee : Method), earlier ≤ number ∧
        checked.program.methods[earlier]? = some callee ∧ callee.key = key ∧
        function = .defined callee := by
  rcases calls with has | ⟨earlier, callee, le, there, same⟩
  · exact .inl (checked.isNative_of_has has found)
  · have bound : (key, .defined callee) ∈ checked.bodies .methods :=
      List.mem_append_left _ (List.mem_reverse.mpr
        (List.mem_map.mpr ⟨callee, List.mem_of_getElem? there, by rw [same]⟩))
    have looked := Bindings.lookup_of_mem (checked.bodies_distinct .methods) bound
    exact .inr ⟨earlier, callee, le, there, same, Option.some.inj (found.symm.trans looked)⟩

/-- A native keeps its name when the methods are bound. -/
theorem lookup_of_stage {stage : Stage} {key : FunctionKey} {function : FunctionBody}
    (found : (checked.bodies stage).lookup key = some function) :
    (checked.bodies .methods).lookup key = some function := by
  cases stage with
  | fields => exact Bindings.lookup_append_of_nodup (checked.bodies_distinct .methods) found
  | methods => exact found

/-- A call that a run comes to finds its function, with the arguments there. -/
theorem exists_function (discipline : Discipline environment) {bound limit : Nat} {spot : Spot}
    {note : Note} {name : String} {args : List Expression} {slot : Option Signature}
    {machine after : Machine} {values : List Value}
    (performs : checked.program.Performs environment bound
      ⟨.expression spot (.call note name args slot), limit, machine⟩)
    (evaluated : Expression.evaluateAll (Method.call limit) args machine =
      (.value values, after)) :
    ∃ function, after.scope.getFunction ⟨name, values.length⟩ = .ok function ∧
      (checked.bodies .methods).lookup ⟨name, args.length⟩ = some function := by
  rcases checked.allowed_of_performs discipline performs with ⟨post, allowed⟩
  rcases allowed.shape with ⟨stage, source, scope, returns, type, -, linked, resolved, -⟩
  rcases Expression.call_of_resolve resolved with ⟨signature, -, bound_eq⟩
  rcases linked.signatures with ⟨functions, only, known⟩
  have found := known _ _ (only.getFunction.mp bound_eq)
  rcases checked.exists_callable found with ⟨function, looked, -, -⟩
  refine ⟨function, ?_, checked.lookup_of_stage looked⟩
  have spared := Regime.frames.evaluateAllUsing (Regime.frames.invoke limit) args machine
  rw [evaluated] at spared
  have onlyAfter : after.scope.OnlyRootFunctions (checked.bodies stage) := by
    refine ⟨spared.root.functions.trans linked.bodies.root, ?_⟩
    rw [spared.inner]
    exact linked.bodies.inner
  rw [Expression.length_of_evaluateAll evaluated]
  exact onlyAfter.getFunction.mpr looked

/-! ## Runs -/

/-- Before the methods are bound there are natives only. -/
theorem not_defined_of_fields {key : FunctionKey} {method : Method} :
    (checked.bodies .fields).lookup key ≠ some (.defined method) := by
  intro found
  have member := Bindings.mem_of_lookup_eq_some found
  rcases List.mem_map.mp (List.mem_reverse.mp member) with ⟨_, -, same⟩
  cases same

/-- If no method calls itself, a method calls natives and methods before it. -/
theorem callsBelow (back : Method.CallBack environment.context.Has checked.program.methods)
    (apart : ∀ method ∈ checked.program.methods, ∀ e ∈ Statement.allExpressions method.body,
      e.Calls (· ≠ method.key)) (number : Nat) (method : Method)
    (found : checked.program.methods[number]? = some method) :
    ∀ e ∈ Statement.allExpressions method.body,
      e.CallsBelow (checked.bodies .methods) checked.program.methods number := by
  intro e member
  have calls := back number method found e member
  have different := apart method (List.mem_of_getElem? found) e member
  cases e
  case call =>
    intro callee looked
    rcases checked.function_of_calls calls looked with
      ⟨_, -, -, ⟨⟩⟩ | ⟨earlier, _, le, there, same, ⟨⟩⟩
    refine ⟨earlier, lt_of_le_of_ne le ?_, there⟩
    rintro rfl
    cases there.symm.trans found
    exact different same.symm
  all_goals trivial

section

variable (back : Method.CallBack environment.context.Has checked.program.methods)
  (free : ∀ method ∈ checked.program.methods, Statement.allLoopFree method.body = true)
  (apart : ∀ method ∈ checked.program.methods, ∀ e ∈ Statement.allExpressions method.body,
    e.Calls (· ≠ method.key)) {bound bound' : Nat}
  (above : checked.program.methods.length < bound)
  (above' : checked.program.methods.length < bound')

theorem fields_endAlike (bound bound' : Nat) : EndAlike (checked.bodies .fields)
    (Eval.each (Declaration.execute (Method.call bound)) checked.program.fields)
    (Eval.each (Declaration.execute (Method.call bound')) checked.program.fields) := by
  refine .each fun field _ => Declaration.execute_endAlike fun e _ => ?_
  cases e
  case call => exact fun method found => absurd found checked.not_defined_of_fields
  all_goals trivial

include back free apart above above' in
/-- A function of the program ends within a bound above the number of methods. -/
theorem apply_endAlike {function : FunctionBody} {key : FunctionKey}
    (found : (checked.bodies .methods).lookup key = some function) (values : List Value) :
    EndAlike (checked.bodies .methods) (function.apply (Method.call bound) values)
      (function.apply (Method.call bound') values) := by
  refine Expression.apply_endAlike fun method same => ?_
  rw [same] at found
  rcases List.mem_iff_getElem?.mp (checked.method_of_lookup found) with ⟨number, there⟩
  have less : number < checked.program.methods.length :=
    (List.getElem?_eq_some_iff.mp there).choose
  exact Method.call_endAlike free (checked.callsBelow back apart) number method bound bound' values
    there (by omega) (by omega)

include back free apart above above' in
/-- What comes behind the fields and the definition of the methods. -/
theorem main_endAlike : EndAlike (checked.bodies .methods)
    (Task.findMain >>= fun main => main.apply (Method.call bound) [] >>= fun
      | .integer value => pure value
      | other => Eval.fail (.mainNotInteger other.typeName))
    (Task.findMain >>= fun main => main.apply (Method.call bound') [] >>= fun
      | .integer value => pure value
      | other => Eval.fail (.mainNotInteger other.typeName)) := by
  have finds : EndAlike (checked.bodies .methods) Task.findMain Task.findMain := by
    refine endAlike_of_scope_eq fun machine => ?_
    unfold Task.findMain
    cases machine.scope.getFunction ⟨"main", 0⟩ <;> exact ⟨nofun, rfl⟩
  refine finds.bind fun machine main after only ended => ?_
  have found : machine.scope.getFunction ⟨"main", 0⟩ = .ok main := by
    unfold Task.findMain at ended
    cases looked : machine.scope.getFunction ⟨"main", 0⟩ with
    | ok function =>
      rw [looked] at ended
      cases ended
      rfl
    | error =>
      rw [looked] at ended
      cases ended
  have applied := checked.apply_endAlike back free apart above above' (only.getFunction.mp found) []
  refine applied.bind fun _ value _ _ _ => ?_
  cases value
  case integer => exact endAlike_pure _
  all_goals exact endAlike_fail _

include back free apart above above' in
/-- If no method has a loop or calls itself, a bound above the number of methods plays no part in a
run, and the run ends. -/
theorem execute_alike :
    checked.program.execute environment bound {} = checked.program.execute environment bound' {} ∧
      (checked.program.execute environment bound {}).1 ≠ .exhausted := by
  have fields := checked.fields_endAlike bound bound'
    ⟨⟨⟨[], checked.bodies .fields⟩, []⟩, {}⟩ (.of_root rfl)
  have main := checked.main_endAlike back free apart above above'
  rcases fields with ⟨same, ends, -⟩
  unfold Program.execute
  rw [bind_of_value checked.define_eq, bind_of_value checked.define_eq]
  rcases ended : Eval.each (Declaration.execute (Method.call bound)) checked.program.fields
    ⟨⟨⟨[], checked.bodies .fields⟩, []⟩, {}⟩ with ⟨⟨⟩ | error | -, between⟩
  · rcases Eval.scope_of_fields ended with ⟨known, shape⟩
    have defined := checked.defineMethods_eq known between.effects
    unfold Task.defineMethods at defined
    rw [ended] at same
    rw [bind_of_value ended, bind_of_value same.symm, shape]
    rw [bind_of_value defined, bind_of_value defined]
    exact ⟨(main _ (.of_root rfl)).1, (main _ (.of_root rfl)).2.1⟩
  · rw [ended] at same
    rw [bind_of_error ended, bind_of_error same.symm]
    exact ⟨rfl, nofun⟩
  · rw [ended] at ends
    exact absurd rfl ends

end

end Checked

/-! ## Programs -/

/-- A program that loads was typed, and is what the derivation says. -/
theorem Program.exists_typing_of_load {environment : Environment} (built : environment.Built)
    {source : String} {program : Program} (loaded : environment.load source = .ok program) :
    ∃ (tree : Program) (typing : tree.Typing environment), program = typing.annotate := by
  rcases (Program.load_iff_typing built).mp loaded with ⟨tree, -, typing, rfl⟩
  exact ⟨tree, typing, rfl⟩

/-- In a program that the standard environment has checked, calls lead back.  A call that stands in
a field finds a native when a run comes to it, and a call that stands in a method finds a native or
a method that does not come behind.  So if there is no `WHILE` loop and no method calls itself, all
runs with a bound above the number of methods end, and end alike. -/
theorem Environment.calls_lead_back {source : String} {program : Program}
    (loaded : Environment.standard.load source = .ok program) :
    (∀ bound spot note name args slot limit machine values after,
      program.Performs .standard bound
        ⟨.expression spot (.call note name args slot), limit, machine⟩ →
      Expression.evaluateAll (Method.call limit) args machine = (.value values, after) →
      ∃ function, after.scope.getFunction ⟨name, values.length⟩ = .ok function ∧
        ((∃ field ∈ program.fields, .call note name args slot ∈ field.expressions) →
          function.IsNative .standard ⟨name, args.length⟩) ∧
        ∀ (number : Nat) (method : Method), program.methods[number]? = some method →
          .call note name args slot ∈ Statement.allExpressions method.body →
          function.IsNative .standard ⟨name, args.length⟩ ∨
            ∃ (earlier : Nat) (callee : Method), earlier ≤ number ∧
              program.methods[earlier]? = some callee ∧ callee.key = ⟨name, args.length⟩ ∧
              function = .defined callee) ∧
    ((∀ method ∈ program.methods, Statement.allLoopFree method.body = true ∧
        ∀ e ∈ Statement.allExpressions method.body, e.Calls (· ≠ method.key)) →
      ∃ outcome, outcome ≠ .exhausted ∧
        ∀ bound, program.methods.length < bound → program.run .standard bound = outcome) := by
  rcases Program.exists_typing_of_load .standard loaded with ⟨tree, typing, annotated⟩
  have onFields := typing.calls_of_field
  have back := typing.callBack
  rw [← annotated] at onFields back
  rcases Checked.of_load loaded with ⟨checked, -, rfl⟩
  refine ⟨?_, ?_⟩
  · intro bound spot note name args slot limit machine values after performs evaluated
    rcases checked.exists_function (.builtIn (.inl rfl)) performs evaluated with
      ⟨function, found, looked⟩
    refine ⟨function, found, ?_, ?_⟩
    · rintro ⟨field, member, inside⟩
      exact checked.isNative_of_has (onFields field member _ inside) looked
    · intro number method there inside
      exact checked.function_of_calls (back number method there _ inside) looked
  · intro quiet
    have alike : ∀ bound, checked.program.methods.length < bound → _ := fun bound above =>
      checked.execute_alike back (fun method member => (quiet method member).1)
        (fun method member => (quiet method member).2) above (Nat.lt_succ_self _)
    refine ⟨checked.program.run .standard (checked.program.methods.length + 1), ?_, ?_⟩
    · have ends := (alike _ (Nat.lt_succ_self _)).2
      unfold Program.run
      split
      · exact nofun
      · exact nofun
      · rename_i ended
        rw [ended] at ends
        exact absurd rfl ends
    · intro bound above
      rw [Program.run, (alike bound above).1]
      rfl

/-- A program whose last method calls the one before it, with a loop over a range that is known when
it begins. -/
def knownRange : String :=
  "DEF twice(n: Integer): Integer DO RETURN n + n; END
   DEF main(): Integer DO FOR i IN range(1, twice(2)) DO print(twice(i)); END RETURN 0; END"

theorem Environment.calls_lead_back_knownRange :
    ∃ program, Environment.standard.load knownRange = .ok program ∧
      ∀ bound, 2 < bound → program.run .standard bound = .value ⟨0, ["2", "4", "6"]⟩ := by
  have evaluated : ∃ program, Environment.standard.load knownRange = .ok program ∧
      program.methods.length = 2 ∧ program.run .standard 3 = .value ⟨0, ["2", "4", "6"]⟩ ∧
      ∀ method ∈ program.methods, Statement.allLoopFree method.body = true ∧
        ∀ e ∈ Statement.allExpressions method.body, e.Calls (· ≠ method.key) := by
    rw [knownRange, Environment.load_ofList]
    decide +kernel
  rcases evaluated with ⟨program, loaded, two, ran, quiet⟩
  rcases (Environment.calls_lead_back loaded).2 quiet with ⟨outcome, -, alike⟩
  rw [two] at alike
  refine ⟨program, loaded, fun bound above => ?_⟩
  rw [alike bound above, ← alike 3 (by decide), ran]

end Primer
