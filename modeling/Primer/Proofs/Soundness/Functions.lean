import Mathlib.Data.List.Nodup
import Primer.Proofs.Soundness.Correspondence

/-!
# The functions of a checked program

The checker binds the natives and then one method after the other, each before its body is walked.
A run binds the natives, evaluates the fields, and then binds all methods at once.  Both end with
the same keys in the same order (`Checked.functions_agree`), and no binding of a run can fail.
-/

namespace Primer

/-! ## Bindings with different keys -/

namespace Bindings

variable {κ α β : Type}

theorem Agree.keys {R : α → β → Prop} {as : List (κ × α)} {bs : List (κ × β)}
    (agree : Agree R as bs) : as.map Prod.fst = bs.map Prod.fst := by
  induction agree with
  | nil => rfl
  | cons head _ ih => rw [List.map_cons, List.map_cons, head.1, ih]

variable [DecidableEq κ] {key : κ}

theorem lookup_eq_none_iff_notMem {as : List (κ × α)} :
    as.lookup key = none ↔ key ∉ as.map Prod.fst := by
  rw [List.lookup_eq_none_iff]
  simp only [List.mem_map, not_exists, not_and, bne_iff_ne]
  exact ⟨fun h p member same => h p member same.symm, fun h p member same => h p member same.symm⟩

theorem mem_of_lookup_eq_some {as : List (κ × α)} {a : α} (found : as.lookup key = some a) :
    (key, a) ∈ as := by
  obtain ⟨before, after, rfl, -⟩ := List.lookup_eq_some_iff.mp found
  exact List.mem_append_right _ List.mem_cons_self

/-- Further bindings on top of those that are there do not hide any of them. -/
theorem lookup_append_of_nodup {added as : List (κ × α)} {a : α}
    (distinct : ((added ++ as).map Prod.fst).Nodup) (found : as.lookup key = some a) :
    (added ++ as).lookup key = some a := by
  rw [List.map_append] at distinct
  have bound : key ∈ as.map Prod.fst := List.mem_map_of_mem (mem_of_lookup_eq_some found)
  have free : key ∉ added.map Prod.fst := fun clash =>
    List.disjoint_of_nodup_append distinct clash bound
  rw [List.lookup_append, lookup_eq_none_iff_notMem.mpr free, found, Option.none_or]

theorem lookup_of_mem {as : List (κ × α)} {a : α} (distinct : (as.map Prod.fst).Nodup)
    (member : (key, a) ∈ as) : as.lookup key = some a := by
  rcases List.append_of_mem member with ⟨before, behind, rfl⟩
  apply lookup_append_of_nodup distinct
  exact List.lookup_cons_self

end Bindings

theorem Scope.addFunction_eq_ok {ν φ : Type} {bound : List (String × ν)}
    {functions : List (FunctionKey × φ)} {key : FunctionKey} {function : φ}
    {extended : Scope ν φ} :
    Scope.addFunction ⟨⟨bound, functions⟩, []⟩ key function = .ok extended ↔
      functions.lookup key = none ∧ extended = ⟨⟨bound, (key, function) :: functions⟩, []⟩ := by
  simp only [addFunction, updateCurrent, Frame.addFunction, Frame.findFunction?]
  cases functions.lookup key with
  | none =>
    exact ⟨fun same => ⟨rfl, (Except.ok.inj same).symm⟩, fun same => congrArg Except.ok same.2.symm⟩
  | some => simp

/-- Functions with different keys can be bound one after the other. -/
theorem Eval.each_addFunction {α : Type} (key : α → FunctionKey) (body : α → FunctionBody)
    (bound : List (String × Value)) (effects : Effects) (items : List α)
    (functions : List (FunctionKey × FunctionBody))
    (distinct : (((items.map fun item => (key item, body item)).reverse ++ functions).map
      Prod.fst).Nodup) :
    Eval.each (fun item => Eval.changeScope (·.addFunction (key item) (body item))) items
        ⟨⟨⟨bound, functions⟩, []⟩, effects⟩ =
      (.value (),
        ⟨⟨⟨bound, (items.map fun item => (key item, body item)).reverse ++ functions⟩, []⟩,
          effects⟩) := by
  induction items generalizing functions with
  | nil => rfl
  | cons item items ih =>
    simp only [List.map_cons, List.reverse_cons, List.append_assoc, List.singleton_append]
      at distinct ⊢
    have free : functions.lookup (key item) = none := by
      rw [List.map_append, List.map_cons] at distinct
      exact Bindings.lookup_eq_none_iff_notMem.mpr
        (List.nodup_cons.mp (List.nodup_append.mp distinct).2.1).1
    have added : Scope.addFunction ⟨⟨bound, functions⟩, []⟩ (key item) (body item) = .ok _ :=
      Scope.addFunction_eq_ok.mpr ⟨free, rfl⟩
    have defined : Eval.changeScope (·.addFunction (key item) (body item))
        ⟨⟨⟨bound, functions⟩, []⟩, effects⟩ =
          (.value (), ⟨⟨⟨bound, (key item, body item) :: functions⟩, []⟩, effects⟩) := by
      simp only [Eval.changeScope, added]
    rw [Eval.each, Eval.bind_of_value defined]
    exact ih _ distinct

/-! ## Natives -/

/-- In an empty machine, natives with different keys can be defined. -/
theorem Environment.define_eq {environment : Environment}
    (distinct : (environment.bodies.map Prod.fst).Nodup) :
    environment.define {} = (.value (), ⟨⟨⟨[], environment.bodies⟩, []⟩, {}⟩) := by
  have defined := Eval.each_addFunction (fun f : NativeFunction => f.signature.key)
    (fun f => .native f.body) [] {} environment.functions []
  rw [List.append_nil] at defined
  exact defined distinct

/-- The signatures of the natives, the last one first. -/
def Environment.signatures (environment : Environment) : List (FunctionKey × Signature) :=
  (environment.functions.map fun f => (f.signature.key, f.signature)).reverse

theorem natives_of_foldlM {natives : StaticScope} (bound : List (String × Variable))
    (functions : List NativeFunction) (old : List (FunctionKey × Signature))
    (distinct : (old.map Prod.fst).Nodup)
    (folded : functions.foldlM
      (fun (scope : StaticScope) f => scope.addFunction f.signature.key f.signature)
      ⟨⟨bound, old⟩, []⟩ = .ok natives) :
    natives =
        ⟨⟨bound, (functions.map fun f => (f.signature.key, f.signature)).reverse ++ old⟩, []⟩ ∧
      (((functions.map fun f => (f.signature.key, f.signature)).reverse ++ old).map
        Prod.fst).Nodup := by
  induction functions generalizing old with
  | nil => exact ⟨(Except.ok.inj folded).symm, distinct⟩
  | cons f functions ih =>
    rw [List.foldlM_cons] at folded
    obtain ⟨middle, added, rest⟩ := exists_of_bind_eq_ok folded
    obtain ⟨free, rfl⟩ := Scope.addFunction_eq_ok.mp added
    simp only [List.map_cons, List.reverse_cons, List.append_assoc, List.singleton_append]
    exact ih _ (List.nodup_cons.mpr ⟨Bindings.lookup_eq_none_iff_notMem.mp free, distinct⟩) rest

namespace Checked

variable {environment : Environment} (checked : Checked environment)

theorem natives_shape : checked.natives = ⟨⟨[], environment.signatures⟩, []⟩ ∧
    (environment.signatures.map Prod.fst).Nodup := by
  have folded := natives_of_foldlM [] environment.functions [] List.nodup_nil checked.natives_eq
  rw [List.append_nil] at folded
  exact folded

theorem natives_agree (stage : Stage) :
    Bindings.Agree (checked.Callable stage) environment.signatures environment.bodies := by
  refine List.forall₂_reverse_iff.mpr (List.forall₂_map_left_iff.mpr
    (List.forall₂_map_right_iff.mpr (List.forall₂_same.mpr fun f member => ⟨rfl, ?_⟩)))
  exact ⟨f, member, rfl, rfl⟩

/-! ## Fields add no functions -/

theorem scope_of_fields {types : Registry} {sources fields : List Declaration}
    {scope after : StaticScope} {functions : List (FunctionKey × Signature)}
    (walked : Attempt.each (Declaration.resolve types) sources scope = ⟨fields, .ok after⟩)
    (inner : scope.inner = []) (only : scope.OnlyRootFunctions functions) :
    after.inner = [] ∧ after.OnlyRootFunctions functions := by
  induction sources generalizing scope fields with
  | nil =>
    obtain ⟨-, rfl⟩ := Attempt.each_nil_eq_ok.mp walked
    exact ⟨inner, only⟩
  | cons source sources ih =>
    obtain ⟨field, middle, rest, walkedFirst, walkedRest, -⟩ := Attempt.each_cons_eq_ok.mp walked
    obtain ⟨-, _, _, _, _, -, -, -, added, -⟩ := Declaration.resolve_eq_ok.mp walkedFirst
    refine ih walkedRest ?_ (only.addVariable added)
    obtain ⟨root, _⟩ := scope
    cases inner
    obtain ⟨frame, -, rfl⟩ := Scope.updateCurrent_root added
    rfl

theorem globals_shape :
    checked.globals = ⟨⟨checked.globals.root.variableBindings, environment.signatures⟩, []⟩ := by
  have natives := checked.natives_shape.1
  have start : checked.natives.OnlyRootFunctions environment.signatures := by
    rw [natives]
    exact .of_root rfl
  obtain ⟨inner, only⟩ := scope_of_fields checked.fields_eq (by rw [natives]) start
  have functions := only.root
  generalize checked.globals = globals at inner functions
  obtain ⟨⟨bound, found⟩, frames⟩ := globals
  cases inner
  cases functions
  rfl

/-! ## Methods -/

/-- The walk through the remaining methods: it binds them on top of `old`, and finds each of them as
`Defines` says.  The visits of the remaining methods are those of the whole program, since a key is
bound once. -/
theorem methods_walk {sources methods : List Method} {old : List (FunctionKey × Signature)}
    (walked : Attempt.each (Method.resolve environment.types) sources
      ⟨⟨checked.globals.root.variableBindings, old⟩, []⟩ = ⟨methods, .ok checked.complete⟩)
    (distinct : (old.map Prod.fst).Nodup)
    (visited : ∀ key, old.lookup key = none →
      checked.source.visit? environment [.method key] =
        Method.visit? environment.types checked.binders key sources
          ⟨⟨checked.globals.root.variableBindings, old⟩, []⟩) :
    ∃ added, checked.complete =
        ⟨⟨checked.globals.root.variableBindings, added ++ old⟩, []⟩ ∧
      ((added ++ old).map Prod.fst).Nodup ∧
      (∀ binding ∈ added, binding.1 = binding.2.key) ∧
      Bindings.Agree (checked.Callable .methods) added
        (methods.map fun m => (m.key, .defined m)).reverse := by
  induction sources generalizing methods old with
  | nil =>
    obtain ⟨rfl, complete⟩ := Attempt.each_nil_eq_ok.mp walked
    exact ⟨[], complete, distinct, nofun, .nil⟩
  | cons source sources ih =>
    obtain ⟨method, middle, rest, walkedFirst, walkedRest, rfl⟩ :=
      Attempt.each_cons_eq_ok.mp walked
    obtain ⟨-, signature, inside, body, last, signature_eq, bound, parameters, walkedBody, rfl⟩ :=
      Method.resolve_eq_ok.mp walkedFirst
    obtain ⟨free, rfl⟩ := Scope.addFunction_eq_ok.mp bound
    have key_eq := Method.key_of_signature signature_eq
    obtain ⟨added, complete, distinct', own, agree⟩ := ih walkedRest
      (List.nodup_cons.mpr ⟨Bindings.lookup_eq_none_iff_notMem.mp free, distinct⟩) (by
        intro key unbound
        have different : key ≠ signature.key := by
          rintro rfl
          rw [List.lookup_cons_self] at unbound
          cases unbound
        rw [Bindings.lookup_cons_of_ne different] at unbound
        rw [visited key unbound, Method.visit?, if_neg (key_eq ▸ different.symm), walkedFirst])
    have visit : checked.Visits (source.bodySpot checked.binders) (.block source.body) inside
        signature.returns := by
      rw [Visits, show (source.bodySpot checked.binders).place = [.method source.key] from rfl,
        visited _ (key_eq ▸ free), Method.visit?, if_pos rfl]
      exact Method.enter?_of_ok signature_eq bound parameters
    refine ⟨added ++ [(signature.key, signature)], ?_, ?_, ?_, ?_⟩
    · rw [complete, List.append_assoc, List.singleton_append]
    · rw [List.append_assoc, List.singleton_append]
      exact distinct'
    · intro binding member
      rcases List.mem_append.mp member with member | member
      · exact own binding member
      · rw [List.mem_singleton.mp member]
    · rw [List.map_cons, List.reverse_cons]
      refine List.rel_append agree (.cons ⟨key_eq, rfl, ?_⟩ .nil)
      refine ⟨source, _, inside, last, visit, walkedBody, signature_eq, parameters, ?_, rfl, rfl⟩
      intro key found bound
      rw [signatures, complete]
      exact Bindings.lookup_append_of_nodup distinct' bound

theorem method_visited (key : FunctionKey) :
    checked.source.visit? environment [.method key] =
      Method.visit? environment.types checked.binders key checked.source.methods
        checked.globals := by
  simp only [Program.visit?, Program.begin?, checked.natives_eq, checked.fields_eq,
    Except.toOption, Option.bind_eq_bind, Option.bind_some]
  rfl

theorem field_visited (name : String) :
    checked.source.visit? environment [.field name] =
      Declaration.visit? environment.types name checked.source.fields checked.natives {} := by
  simp only [Program.visit?, Program.begin?, checked.natives_eq, Except.toOption,
    Option.bind_eq_bind, Option.bind_some]

theorem complete_shape :
    ∃ added, checked.complete =
        ⟨⟨checked.globals.root.variableBindings, added ++ environment.signatures⟩, []⟩ ∧
      ((added ++ environment.signatures).map Prod.fst).Nodup ∧
      (∀ binding ∈ added, binding.1 = binding.2.key) ∧
      Bindings.Agree (checked.Callable .methods) added checked.program.bodies := by
  have walked := checked.methods_eq
  rw [globals_shape] at walked
  refine checked.methods_walk walked checked.natives_shape.2 fun key _ => ?_
  rw [← globals_shape]
  exact checked.method_visited key

/-! ## Both sides together -/

theorem signatures_distinct (stage : Stage) : ((checked.signatures stage).map Prod.fst).Nodup := by
  cases stage with
  | fields =>
    rw [signatures, checked.natives_shape.1]
    exact checked.natives_shape.2
  | methods =>
    obtain ⟨added, complete, distinct, -⟩ := checked.complete_shape
    rw [signatures, complete]
    exact distinct

theorem key_of_mem_signatures {stage : Stage} {binding : FunctionKey × Signature}
    (member : binding ∈ checked.signatures stage) : binding.1 = binding.2.key := by
  have natives : ∀ binding ∈ environment.signatures, binding.1 = binding.2.key := by
    intro binding member
    obtain ⟨f, -, rfl⟩ := List.mem_map.mp (List.mem_reverse.mp member)
    rfl
  cases stage with
  | fields =>
    rw [signatures, checked.natives_shape.1] at member
    exact natives binding member
  | methods =>
    obtain ⟨added, complete, -, own, -⟩ := checked.complete_shape
    rw [signatures, complete] at member
    rcases List.mem_append.mp member with member | member
    · exact own binding member
    · exact natives binding member

/-- The checker and a run have the same functions at each stage. -/
theorem functions_agree (stage : Stage) :
    Bindings.Agree (checked.Callable stage) (checked.signatures stage) (checked.bodies stage) := by
  cases stage with
  | fields =>
    rw [signatures, bodies, checked.natives_shape.1]
    exact checked.natives_agree .fields
  | methods =>
    obtain ⟨added, complete, -, -, agree⟩ := checked.complete_shape
    rw [signatures, bodies, complete]
    exact List.rel_append agree (checked.natives_agree .methods)

/-- What the checker can call, a run can call. -/
theorem exists_callable {stage : Stage} {key : FunctionKey} {signature : Signature}
    (found : (checked.signatures stage).lookup key = some signature) :
    ∃ body, (checked.bodies stage).lookup key = some body ∧
      checked.Callable stage signature body ∧ signature.key = key := by
  obtain ⟨missing, -⟩ | ⟨_, body, found', bound, callable⟩ :=
    (checked.functions_agree stage).lookup key
  · rw [found] at missing
    cases missing
  · rw [found] at found'
    cases found'
    exact ⟨body, bound, callable,
      (checked.key_of_mem_signatures (Bindings.mem_of_lookup_eq_some found)).symm⟩

theorem bodies_distinct (stage : Stage) : ((checked.bodies stage).map Prod.fst).Nodup := by
  rw [← (checked.functions_agree stage).keys]
  exact checked.signatures_distinct stage

theorem define_eq :
    environment.define {} = (.value (), ⟨⟨⟨[], checked.bodies .fields⟩, []⟩, {}⟩) :=
  Environment.define_eq (checked.bodies_distinct .fields)

theorem defineMethods_eq (bound : List (String × Value)) (effects : Effects) :
    Task.defineMethods checked.program.methods ⟨⟨⟨bound, checked.bodies .fields⟩, []⟩, effects⟩ =
      (.value (), ⟨⟨⟨bound, checked.bodies .methods⟩, []⟩, effects⟩) :=
  Eval.each_addFunction Method.key FunctionBody.defined bound effects checked.program.methods
    environment.bodies (checked.bodies_distinct .methods)

end Checked

end Primer
