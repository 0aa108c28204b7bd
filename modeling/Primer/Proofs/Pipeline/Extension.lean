import Primer.Proofs.Evaluation.Bare
import Primer.Proofs.Java.Totality
import Primer.Proofs.Soundness.Functions
import Primer.Proofs.Typing.Calls
import Primer.Proofs.Typing.Widening

/-!
# Adding to an environment

A host may add types and functions to an environment without changing the sources that it already
takes.  Checking fills the same slots, since a derivation can be widened; the Java text depends on
the checked program alone; and a run binds further natives that nothing calls.  The one thing that
can clash is a method with the key of a function that was added
(`Environment.Extends.conservative`).
-/

namespace Primer

open Eval

/-! ## Runs -/

/-- Functions of keys that are not known may be bound in the mirror alone. -/
theorem Frame.Corresponds.addFunctions_mirror {known : FunctionKey → Prop}
    {frame mirror : Frame Value FunctionBody} (corresponds : frame.Corresponds known mirror)
    (more : List (FunctionKey × FunctionBody)) (unknown : ∀ binding ∈ more, ¬known binding.1) :
    frame.Corresponds known
      { mirror with functionBindings := more ++ mirror.functionBindings } := by
  induction more with
  | nil => exact corresponds
  | cons binding more ih =>
    rcases List.forall_mem_cons.mp unknown with ⟨here, behind⟩
    exact (ih behind).addFunction_mirror here binding.2

theorem Environment.Built.bodies_distinct {environment : Environment} (built : environment.Built) :
    (environment.bodies.map Prod.fst).Nodup := by
  rw [Environment.bodies, List.map_reverse, List.map_map, List.nodup_reverse]
  exact built.keys_nodup

namespace Environment.Extends

variable {environment extended : Environment} {added : List NativeFunction}
  (built : environment.Built) (further : environment.Extends extended added)

include further in
theorem bodies_eq : extended.bodies =
    (added.map fun f => (f.signature.key, .native f.body)).reverse ++ environment.bodies := by
  rw [bodies, further.functions_eq, List.map_append, List.reverse_append, bodies]

include built further in
/-- A run begins alike in both, apart from functions that were added. -/
theorem begun {known : FunctionKey → Prop}
    (old : ∀ function ∈ environment.functions, known function.signature.key)
    (new : ∀ function ∈ added, ¬known function.signature.key) :
    EndsLike known (environment.define {}) (extended.define {}) := by
  have own := environment.mirrors_define old {} {} .empty
  rw [define_eq built.bodies_distinct] at own ⊢
  rw [define_eq (further.built built).bodies_distinct, further.bodies_eq]
  have root := own.machine.scope.root.addFunctions_mirror
    (added.map fun f => (f.signature.key, .native f.body)).reverse fun binding member => by
      rcases List.mem_map.mp (List.mem_reverse.mp member) with ⟨function, inside, rfl⟩
      exact new function inside
  exact ⟨rfl, ⟨root, .nil⟩, rfl⟩

end Environment.Extends

/-- A program that was typed knows the natives and its own methods. -/
theorem Program.Typing.knows {environment : Environment} {program : Program}
    (typing : program.Typing environment) :
    typing.annotate.Knows fun key =>
      environment.context.Has key ∨ key ∈ program.methods.map Method.key := by
  refine ⟨fun field member e inside => ?_, fun method member => ⟨.inr ?_, ?_⟩, ?_⟩
  · exact (typing.calls_of_field field member e inside).mono fun _ => .inl
  · rw [← typing.keys_annotate]
    exact List.mem_map_of_mem member
  · intro e inside
    rcases List.mem_iff_getElem?.mp member with ⟨number, found⟩
    refine (typing.callBack number method found e inside).mono fun key => Or.imp_right ?_
    rintro ⟨_, callee, -, there, rfl⟩
    rw [← typing.keys_annotate]
    exact List.mem_map_of_mem (List.mem_of_getElem? there)
  · have has := Context.Steps.has_of_methods _ _ _ typing.methods ⟨_, typing.main_found⟩
    rwa [Context.has_congr (Context.Steps.calls_of_fields _ _ _ typing.fields).1] at has

/-! ## Sources -/

namespace Environment

/-- The checked program runs alike in both. -/
theorem Extends.run_annotate {environment extended : Environment} {added : List NativeFunction}
    (further : environment.Extends extended added) (built : environment.Built) {program : Program}
    (typing : program.Typing environment)
    (apart : ∀ method ∈ program.methods, ∀ function ∈ added, function.signature.key ≠ method.key)
    (bound : Nat) :
    typing.annotate.run extended bound = typing.annotate.run environment bound := by
  rw [← Program.run_bare]
  refine Program.run_bare_of_begun bound typing.knows (further.begun built ?_ ?_)
  · intro function member
    exact .inl (has_iff.mpr ⟨function, member, rfl⟩)
  -- A key that was added is not known: it is neither that of a native nor that of a method.
  rintro function member (has | mine)
  · rcases has_iff.mp has with ⟨native, there, same⟩
    exact further.key_ne built native there function member same.symm
  · rcases List.mem_map.mp mine with ⟨method, there, same⟩
    exact apart method there function member same.symm

/-- Let types and functions be added to an environment that was built from the standard one.  A
source that was taken before is still taken, unless one of its methods has the key of a function
that was added: it gives the same checked program, the same Java text, and the same run at every
bound. -/
theorem Extends.conservative {environment extended : Environment} {added : List NativeFunction}
    (built : environment.Built) (further : environment.Extends extended added) {source : String}
    {program : Program} (loaded : environment.load source = .ok program)
    (apart : ∀ method ∈ program.methods, ∀ function ∈ added,
      function.signature.key ≠ method.key) :
    extended.load source = .ok program ∧
      (∃ text, environment.compile source = .ok text ∧ extended.compile source = .ok text) ∧
      ∀ bound, extended.run bound source = environment.run bound source := by
  rcases (Program.load_iff_typing built).mp loaded with ⟨tree, parsed, typing, rfl⟩
  -- Methods keep their keys when slots are filled, so those of the tree are apart as well.
  have apart : ∀ key ∈ typing.annotate.methods.map Method.key, ∀ function ∈ added,
      function.signature.key ≠ key := List.forall_mem_map.mpr apart
  rw [typing.keys_annotate, List.forall_mem_map] at apart
  rcases further.exists_typing typing apart with ⟨wider, annotated⟩
  have loaded' : extended.load source = .ok typing.annotate :=
    (Program.load_iff_typing (further.built built)).mpr ⟨tree, parsed, wider, annotated⟩
  have runs := further.run_annotate built typing apart
  refine ⟨loaded', ?_, fun bound => ?_⟩
  · rcases writes_of_load loaded with ⟨text, written⟩
    exact ⟨text, compile_eq_ok.mpr ⟨_, loaded, written⟩, compile_eq_ok.mpr ⟨_, loaded', written⟩⟩
  · rw [run, run, loaded, loaded']
    simp only [runs bound]

/-- A program with a method of the name of a function that is added, and of another arity. -/
def namesake : String :=
  "LET start = 2;
   DEF counter(n: Integer): Integer DO print(n); RETURN n + start; END
   DEF main(): Integer DO RETURN counter(3); END"

theorem Extends.conservative_namesake :
    standard.Extends counter [Counter.create] ∧
    ∃ program, standard.load namesake = .ok program ∧ counter.load namesake = .ok program ∧
      (∃ text, standard.compile namesake = .ok text ∧ counter.compile namesake = .ok text) ∧
      counter.run 3 namesake = .value ⟨5, ["3"]⟩ := by
  have further : standard.Extends counter [Counter.create] := by
    rcases exists_of_bind_eq_ok counter_eq with ⟨middle, typed, created⟩
    exact .addFunction (.addType .refl typed) created
  have evaluated : ∃ program, standard.load namesake = .ok program ∧
      program.run .standard 3 = .value ⟨5, ["3"]⟩ ∧
      ∀ method ∈ program.methods, ∀ function ∈ [Counter.create],
        function.signature.key ≠ method.key := by
    rw [namesake, load_ofList]
    decide +kernel
  rcases evaluated with ⟨program, loaded, ran, apart⟩
  have ended : standard.run 3 namesake = .value ⟨5, ["3"]⟩ :=
    run_eq_value.mpr ⟨program, loaded, ran⟩
  rcases Extends.conservative .standard further loaded apart with ⟨loaded', compiled, runs⟩
  exact ⟨further, program, loaded, loaded', compiled, (runs 3).trans ended⟩

/-- With the arity of the function that is added, the method is in its way. -/
example :
    let source := "DEF counter(): Integer DO RETURN 1; END
      DEF main(): Integer DO RETURN counter(); END"
    (standard.load source).isOk = true ∧ (counter.load source).isOk = false := by
  intro source
  rw [load_ofList, load_ofList]
  decide +kernel

end Environment

end Primer
