import Mathlib.Data.List.Perm.Basic
import Primer.Proofs.Evaluation.Bare
import Primer.Proofs.Evaluation.Bounds
import Primer.Proofs.Evaluation.Frames
import Primer.Proofs.Soundness.Functions
import Primer.Proofs.Typing.Filling

/-!
# The order of methods

A method sees the methods before it when it is checked, and all methods when it is called.  So the
order of methods can make a program unacceptable, but not change what it does: once all keys are
different, a run binds the same functions in any order, and functions are found by their keys.  If
a program was accepted, it runs like every program with the same fields and the same methods in
another order, also one that would not have been accepted
(`Program.run_of_methods_perm`).
-/

namespace Primer

open Eval

/-- Where no key is bound twice, bindings are found whatever their order. -/
theorem Bindings.lookup_eq_of_perm {κ α : Type} [DecidableEq κ] {as bs : List (κ × α)}
    (distinct : (as.map Prod.fst).Nodup) (perm : bs.Perm as) (key : κ) :
    bs.lookup key = as.lookup key := by
  cases found : as.lookup key with
  | some a =>
    have distinct' := (perm.map Prod.fst).nodup_iff.mpr distinct
    exact lookup_of_mem distinct' (perm.mem_iff.mpr (mem_of_lookup_eq_some found))
  | none =>
    rw [lookup_eq_none_iff_notMem] at found ⊢
    rwa [(perm.map Prod.fst).mem_iff]

/-! ## Machines with the same functions -/

/-- The machines differ in how their root frames list the functions, and find the same ones. -/
structure Machine.FindsAlike (machine other : Machine) : Prop where
  bindings : other.scope.root.variableBindings = machine.scope.root.variableBindings
  functions : ∀ key, other.scope.root.findFunction? key = machine.scope.root.findFunction? key
  inner : machine.scope.inner = [] ∧ other.scope.inner = []
  effects : other.effects = machine.effects

/-- The machine whose functions are bare. -/
def Machine.bare (machine : Machine) : Machine where
  scope := ⟨⟨machine.scope.root.variableBindings,
    machine.scope.root.functionBindings.map fun binding => (binding.1, binding.2.bare)⟩, []⟩
  effects := machine.effects

theorem Machine.FindsAlike.corresponds_bare {machine other : Machine}
    (alike : machine.FindsAlike other) : other.Corresponds (fun _ => True) machine.bare := by
  refine ⟨⟨⟨alike.bindings.symm, fun key _ => ?_⟩, ?_⟩, alike.effects.symm⟩
  · have agree : Bindings.Agree (FunctionBody.Corresponds fun _ => True)
        machine.scope.root.functionBindings machine.bare.scope.root.functionBindings := by
      refine List.forall₂_map_right_iff.mpr (List.forall₂_same.mpr fun binding _ => ⟨rfl, rfl, ?_⟩)
      exact fun _ _ e _ => e.calls_anything
    rw [alike.functions key]
    rcases agree.lookup key with ⟨missed, missed'⟩ | ⟨function, bare, found, found', corresponds⟩
    · rw [Frame.findFunction?, Frame.findFunction?, missed, missed']
      exact .none
    · rw [Frame.findFunction?, Frame.findFunction?, found, found']
      exact .some corresponds
  · rw [alike.inner.2]
    exact .nil

/-- What mirrors itself ends alike in machines that find alike. -/
theorem Machine.FindsAlike.ends {α : Type} {machine other : Machine} {step : Eval α}
    (alike : machine.FindsAlike other) (mirrors : Mirrors (fun _ => True) step step) :
    (step other).1 = (step machine).1 ∧ (step other).2.effects = (step machine).2.effects := by
  have own : machine.FindsAlike machine := ⟨rfl, fun _ => rfl, ⟨alike.inner.1, alike.inner.1⟩, rfl⟩
  have here := mirrors _ _ own.corresponds_bare
  have there := mirrors _ _ alike.corresponds_bare
  exact ⟨there.outcome.symm.trans here.outcome,
    there.machine.effects.symm.trans here.machine.effects⟩

/-! ## Runs -/

namespace Program

variable {environment : Environment} {program rearranged : Program}

theorem bodies_perm (environment : Environment)
    (methods : rearranged.methods.Perm program.methods) :
    (rearranged.bodies ++ environment.bodies).Perm (program.bodies ++ environment.bodies) := by
  refine List.Perm.append_right _ ?_
  have listed := methods.map fun method => (method.key, FunctionBody.defined method)
  exact (List.reverse_perm _).trans (listed.trans (List.reverse_perm _).symm)

section

variable (distinct : ((program.bodies ++ environment.bodies).map Prod.fst).Nodup)
  (fields : rearranged.fields = program.fields)
  (methods : rearranged.methods.Perm program.methods) (bound : Nat)

include distinct fields methods

/-- If all keys are different, the fields are evaluated with the same natives, and `main` is called
where the same functions are found. -/
theorem execute_alike_of_perm :
    (rearranged.execute environment bound {}).1 = (program.execute environment bound {}).1 ∧
      (rearranged.execute environment bound {}).2.effects =
        (program.execute environment bound {}).2.effects := by
  have perm := bodies_perm environment methods
  have distinct' := (perm.map Prod.fst).nodup_iff.mpr distinct
  have natives : (environment.bodies.map Prod.fst).Nodup := by
    rw [List.map_append] at distinct
    exact (List.nodup_append.mp distinct).2.1
  rw [execute_eq, execute_eq, fields, bind_of_value (Environment.define_eq natives),
    bind_of_value (Environment.define_eq natives)]
  rcases ended : each (Declaration.execute (Method.call bound)) program.fields
    ⟨⟨⟨[], environment.bodies⟩, []⟩, {}⟩ with ⟨⟨⟩ | error | -, between⟩
  · rcases Eval.scope_of_fields ended with ⟨known, shape⟩
    have defined := Eval.each_addFunction Method.key FunctionBody.defined known between.effects
      program.methods environment.bodies distinct
    have defined' := Eval.each_addFunction Method.key FunctionBody.defined known between.effects
      rearranged.methods environment.bodies distinct'
    rw [bind_of_value ended, bind_of_value ended, shape, Task.defineMethods, Task.defineMethods,
      bind_of_value defined, bind_of_value defined']
    refine Machine.FindsAlike.ends ⟨rfl, ?_, ⟨rfl, rfl⟩, rfl⟩ (mirrors_callMain bound trivial)
    exact Bindings.lookup_eq_of_perm distinct perm
  · rw [bind_of_error ended, bind_of_error ended]
    exact ⟨rfl, rfl⟩
  · rw [bind_of_exhausted ended, bind_of_exhausted ended]
    exact ⟨rfl, rfl⟩

theorem run_eq_of_perm : rearranged.run environment bound = program.run environment bound := by
  rcases execute_alike_of_perm distinct fields methods bound with ⟨outcome, effects⟩
  exact run_eq_of_execute outcome effects

end

theorem keys_of_bodies_bare (program : Program) :
    program.bare.bodies.map Prod.fst = program.bodies.map Prod.fst := by
  simp [bodies, bare, Function.comp_def, Method.key_bare]

/-- A program that is accepted has no key twice, neither among its methods nor with a native. -/
theorem bodies_distinct_of_resolve {source : Program}
    (accepted : source.resolve environment = ⟨program, .ok ()⟩) :
    ((program.bodies ++ environment.bodies).map Prod.fst).Nodup := by
  rcases resolve_eq_ok.mp accepted with
    ⟨natives, globals, complete, natives_eq, fields_eq, methods_eq, main_eq⟩
  let checked : Checked environment :=
    ⟨source, program, natives, globals, complete, natives_eq, fields_eq, methods_eq, main_eq⟩
  exact checked.bodies_distinct .methods

/-- Let a program be accepted, and take it before or after its slots were filled.  Any program with
the same fields and the same methods in another order runs as it does, whatever a check would say of
it: one ends within a bound if and only if the other does, with the same value and output or with
the same error.  So one comes to an end if and only if the other does, and then, whatever the bounds,
in the same way. -/
theorem run_of_methods_perm {source tree : Program}
    (accepted : source.resolve environment = ⟨program, .ok ()⟩)
    (either : tree = source ∨ tree = program) (fields : rearranged.fields = tree.fields)
    (methods : rearranged.methods.Perm tree.methods) :
    (∀ bound, rearranged.run environment bound = tree.run environment bound) ∧
      ((∃ bound, tree.run environment bound ≠ .exhausted) ↔
        ∃ bound, rearranged.run environment bound ≠ .exhausted) ∧
      ∀ bound bound', tree.run environment bound ≠ .exhausted →
        rearranged.run environment bound' ≠ .exhausted →
        rearranged.run environment bound' = tree.run environment bound := by
  have bare : tree.bare = program.bare := by
    rcases either with rfl | rfl
    · have cleared := (tree.resolve_fills environment).cleared_eq
      rw [accepted] at cleared
      rw [← tree.bare_cleared, ← program.bare_cleared]
      exact congrArg Program.bare cleared.symm
    · rfl
  have distinct : ((program.bare.bodies ++ environment.bodies).map Prod.fst).Nodup := by
    rw [List.map_append, program.keys_of_bodies_bare, ← List.map_append]
    exact bodies_distinct_of_resolve accepted
  have fieldsBare : rearranged.bare.fields = program.bare.fields := by
    rw [← bare]
    exact congrArg (List.map Declaration.bare) fields
  have methodsBare : rearranged.bare.methods.Perm program.bare.methods := by
    rw [← bare]
    exact methods.map Method.bare
  have runs : ∀ bound, rearranged.run environment bound = tree.run environment bound := by
    intro bound
    calc rearranged.run environment bound
      _ = rearranged.bare.run environment bound := (rearranged.run_bare environment bound).symm
      _ = program.bare.run environment bound := run_eq_of_perm distinct fieldsBare methodsBare bound
      _ = tree.run environment bound := by rw [← bare, tree.run_bare]
  refine ⟨runs, ?_, fun bound bound' ends ends' => ?_⟩
  · simp only [runs]
  · rw [runs] at ends' ⊢
    exact run_eq_of_ends ends' ends

/-- A program whose `main` calls the method before it. -/
def stepped : Program where
  fields := [⟨"n", none, some (.literal ⟨⟨8, 10⟩, none⟩ (.integer 20)), ⟨0, 11⟩, none⟩]
  methods := [
    ⟨"next", [⟨"k", "Integer"⟩], some "Integer",
      [.result (.binary ⟨⟨52, 57⟩, none⟩ .add (.access ⟨⟨52, 53⟩, none⟩ "k" none)
        (.literal ⟨⟨56, 57⟩, none⟩ (.integer 1)))], ⟨12, 62⟩, none⟩,
    ⟨"main", [], some "Integer",
      [.result (.call ⟨⟨93, 100⟩, none⟩ "next" [.access ⟨⟨98, 99⟩, none⟩ "n" none] none)],
      ⟨63, 105⟩, none⟩]

/-- With `main` in front the program is refused, and runs all the same. -/
theorem run_of_methods_perm_stepped :
    let rearranged : Program := ⟨stepped.fields, stepped.methods.reverse⟩
    (stepped.resolve .standard).result = .ok () ∧
      (rearranged.resolve .standard).result ≠ .ok () ∧
      stepped.run .standard 3 = .value ⟨21, []⟩ ∧
      rearranged.run .standard 4 = .value ⟨21, []⟩ := by
  intro rearranged
  have passed : (stepped.resolve .standard).result = .ok () := rfl
  have ended : stepped.run .standard 3 = .value ⟨21, []⟩ := rfl
  have accepted : stepped.resolve .standard = ⟨(stepped.resolve .standard).tree, .ok ()⟩ := by
    rw [← passed]
  have fields : rearranged.fields = stepped.fields := rfl
  have methods : rearranged.methods.Perm stepped.methods := List.reverse_perm _
  rcases run_of_methods_perm accepted (.inl rfl) fields methods with ⟨runs, -, same⟩
  have ends : stepped.run .standard 3 ≠ .exhausted := by
    rw [ended]
    exact nofun
  have ends' : rearranged.run .standard 4 ≠ .exhausted := by
    rw [runs, run_of_le (by decide) ends]
    exact ends
  exact ⟨passed, nofun, ended, (same 3 4 ends ends').trans ended⟩

end Program

end Primer
