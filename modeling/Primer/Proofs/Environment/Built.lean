import Mathlib.Data.List.Nodup
import Primer.Environment.Basic

/-!
# Environments that a host can build

A host starts from the standard environment and adds types and functions to it.  An environment that
is built in this way has no two functions of one key.

`Environment.Extends` says that more was added to an environment.  What a name meant before, it
still means.
-/

namespace Primer

/-- The environment comes from the standard one by adding types and functions. -/
inductive Environment.Built : Environment → Prop
  | standard : Built .standard
  | addType {environment extended : Environment} {definition : TypeDefinition} :
    Built environment → environment.addType definition = .ok extended → Built extended
  | addFunction {environment extended : Environment} {function : NativeFunction} :
    Built environment → environment.addFunction function = .ok extended → Built extended

/-- The second environment comes from the first by adding types and functions.  The functions are
`added`, in this order. -/
inductive Environment.Extends (environment : Environment) :
    Environment → (added : List NativeFunction) → Prop
  | refl : Extends environment environment []
  | addType {middle extended : Environment} {added : List NativeFunction}
      {definition : TypeDefinition} :
    Extends environment middle added → middle.addType definition = .ok extended →
    Extends environment extended added
  | addFunction {middle extended : Environment} {added : List NativeFunction}
      {function : NativeFunction} :
    Extends environment middle added → middle.addFunction function = .ok extended →
    Extends environment extended (added ++ [function])

/-- A type keeps its name when another one is added. -/
theorem Registry.find?_of_add {registry extended : Registry} {definition : TypeDefinition}
    (added : registry.add definition = .ok extended) {name : String} {type : Ty}
    (found : registry.find? name = some type) : extended.find? name = some type := by
  unfold add at added
  split at added
  · cases added
  · cases added
    unfold find? at found ⊢
    split
    · rename_i primitive
      rwa [primitive] at found
    · rename_i primitive
      rw [primitive] at found
      obtain ⟨old, first, rfl⟩ := Option.map_eq_some_iff.mp found
      rw [List.find?_append, first]
      rfl

namespace Environment

variable {environment extended : Environment}

theorem addType_eq_ok {definition : TypeDefinition}
    (added : environment.addType definition = .ok extended) :
    environment.types.add definition = .ok extended.types ∧
      extended.functions = environment.functions := by
  unfold addType at added
  cases registered : environment.types.add definition with
  | error => rw [registered] at added; cases added
  | ok types => rw [registered] at added; cases added; exact ⟨rfl, rfl⟩

theorem addFunction_eq_ok {function : NativeFunction}
    (added : environment.addFunction function = .ok extended) :
    (∀ old ∈ environment.functions, old.signature.key ≠ function.signature.key) ∧
      extended = { environment with functions := environment.functions ++ [function] } := by
  unfold addFunction at added
  split at added
  · cases added
  · rename_i free
    cases added
    refine ⟨fun old member same => free ?_, rfl⟩
    exact List.any_eq_true.mpr ⟨old, member, beq_iff_eq.mpr same⟩

/-- No two natives have one key. -/
theorem Built.keys_nodup (built : environment.Built) :
    (environment.functions.map (·.signature.key)).Nodup := by
  induction built with
  | standard => decide
  | addType _ added ih => rwa [(addType_eq_ok added).2]
  | addFunction _ added ih =>
    rcases addFunction_eq_ok added with ⟨free, rfl⟩
    rw [List.map_append]
    refine List.Nodup.append ih (List.nodup_singleton _) ?_
    intro key old new
    rcases List.mem_map.mp old with ⟨function, member, rfl⟩
    exact free function member (List.mem_singleton.mp new)

namespace Extends

variable {added : List NativeFunction} (further : environment.Extends extended added)

include further

theorem built (built : environment.Built) : extended.Built := by
  induction further with
  | refl => exact built
  | addType _ added ih => exact .addType ih added
  | addFunction _ added ih => exact .addFunction ih added

theorem functions_eq : extended.functions = environment.functions ++ added := by
  induction further with
  | refl => rw [List.append_nil]
  | addType _ added ih => rw [(addType_eq_ok added).2, ih]
  | addFunction _ added ih =>
    rcases addFunction_eq_ok added with ⟨-, rfl⟩
    rw [ih, List.append_assoc]

theorem find?_types {name : String} {type : Ty} (found : environment.types.find? name = some type) :
    extended.types.find? name = some type := by
  induction further with
  | refl => exact found
  | addType _ added ih => exact Registry.find?_of_add (addType_eq_ok added).1 ih
  | addFunction _ added ih =>
    rcases addFunction_eq_ok added with ⟨-, rfl⟩
    exact ih

/-- The functions that were added have keys of their own. -/
theorem key_ne (built : environment.Built) :
    ∀ old ∈ environment.functions, ∀ new ∈ added, new.signature.key ≠ old.signature.key := by
  intro old memberOld new memberNew same
  have distinct := (further.built built).keys_nodup
  rw [further.functions_eq, List.map_append] at distinct
  refine List.disjoint_of_nodup_append distinct (List.mem_map_of_mem memberOld) ?_
  exact List.mem_map.mpr ⟨new, memberNew, same⟩

end Extends

end Environment

end Primer
