import Primer.Proofs.Evaluation.Conservation
import Primer.Proofs.Evaluation.Objects
import Primer.Proofs.Scope.Agreement

/-!
# What evaluation leaves of the open frames

A call sets the caller's frames aside and a block opens a frame of its own; both are undone however
the work inside ends.  So an expression leaves every frame above the root exactly as it was, and the
root with the variables and the functions that it had: only values of root variables may be new
(`Machine.Spared`).  A statement may besides assign to variables of any open frame and bind new ones
in the innermost frame (`Machine.Widened`).

Both relations are kept by every single step, and by whole runs with the induction of
`Regime`.  The main statement is `Machine.frames_survive`.
-/

namespace Primer

/-! ## Frames -/

namespace Bindings

theorem keys_replace {κ α : Type} [DecidableEq κ] (key : κ) (value : α)
    (bindings : List (κ × α)) :
    (replace key value bindings).map Prod.fst = bindings.map Prod.fst := by
  induction bindings with
  | nil => rfl
  | cons binding bindings ih =>
    obtain ⟨bound, old⟩ := binding
    by_cases same : bound = key
    · rw [replace, if_pos same]
      rfl
    · rw [replace, if_neg same, List.map_cons, List.map_cons, ih]

end Bindings

namespace Frame

variable {ν φ : Type} {frame changed later : Frame ν φ}

/-- The variables that a frame binds, the latest first. -/
def names (frame : Frame ν φ) : List String :=
  frame.variableBindings.map Prod.fst

/-- The same variables and the same functions; the values of the variables may differ. -/
structure SameNames (before after : Frame ν φ) : Prop where
  names : after.names = before.names
  functions : after.functionBindings = before.functionBindings

/-- The variables of before and perhaps new ones, and the same functions. -/
structure Grows (before after : Frame ν φ) : Prop where
  names : before.names <:+ after.names
  functions : after.functionBindings = before.functionBindings

theorem SameNames.refl (frame : Frame ν φ) : frame.SameNames frame :=
  ⟨rfl, rfl⟩

theorem SameNames.trans (first : frame.SameNames changed) (second : changed.SameNames later) :
    frame.SameNames later :=
  ⟨second.names.trans first.names, second.functions.trans first.functions⟩

theorem SameNames.grows (same : frame.SameNames changed) : frame.Grows changed :=
  ⟨same.names ▸ List.suffix_rfl, same.functions⟩

theorem Grows.trans (first : frame.Grows changed) (second : changed.Grows later) :
    frame.Grows later :=
  ⟨first.names.trans second.names, second.functions.trans first.functions⟩

theorem sameNames_of_assign {name : String} {value : ν}
    (assigned : frame.assign? name value = some changed) : frame.SameNames changed := by
  refine ⟨?_, functions_of_assign assigned⟩
  rw [assign?, Option.map_eq_some_iff] at assigned
  obtain ⟨_, -, rfl⟩ := assigned
  exact Bindings.keys_replace name value frame.variableBindings

theorem grows_of_addVariable {name : String} {value : ν}
    (added : frame.addVariable name value = .ok changed) : frame.Grows changed := by
  refine ⟨?_, functions_of_addVariable added⟩
  obtain ⟨-, rfl⟩ := addVariable_eq_ok.mp added
  exact List.suffix_cons name frame.names

theorem forall₂_sameNames_trans {before between after : List (Frame ν φ)}
    (first : List.Forall₂ SameNames before between)
    (second : List.Forall₂ SameNames between after) : List.Forall₂ SameNames before after := by
  induction first generalizing after with
  | nil => exact second
  | cons head _ ih =>
    cases second with
    | cons head' tail' => exact .cons (head.trans head') (ih tail')

theorem forall₂_sameNames_refl (frames : List (Frame ν φ)) :
    List.Forall₂ SameNames frames frames :=
  List.forall₂_same.mpr fun frame _ => .refl frame

end Frame

/-! ## Scopes -/

namespace Scope

variable {ν φ : Type} {scope changed : Scope ν φ}

/-- The same frames with the same variables and functions. -/
structure Reassigned (before after : Scope ν φ) : Prop where
  root : before.root.SameNames after.root
  inner : List.Forall₂ Frame.SameNames before.inner after.inner

/-- The innermost frame, whichever it is, may have grown; the others bind what they bound. -/
inductive Widened : Scope ν φ → Scope ν φ → Prop
  | root {root root' : Frame ν φ} : root.Grows root' → Widened ⟨root, []⟩ ⟨root', []⟩
  | inner {root root' frame frame' : Frame ν φ} {rest rest' : List (Frame ν φ)} :
    frame.Grows frame' → List.Forall₂ Frame.SameNames rest rest' → root.SameNames root' →
    Widened ⟨root, frame :: rest⟩ ⟨root', frame' :: rest'⟩

theorem Reassigned.widened (reassigned : scope.Reassigned changed) : scope.Widened changed := by
  obtain ⟨root, inner⟩ := scope
  obtain ⟨root', inner'⟩ := changed
  obtain ⟨sameRoot, sameInner⟩ := reassigned
  cases sameInner with
  | nil => exact .root sameRoot.grows
  | cons head tail => exact .inner head.grows tail sameRoot

theorem Widened.trans {before between after : Scope ν φ} (first : before.Widened between)
    (second : between.Widened after) : before.Widened after := by
  cases first with
  | root grows =>
    cases second with
    | root grows' => exact .root (grows.trans grows')
  | inner grows same sameRoot =>
    cases second with
    | inner grows' same' sameRoot' =>
      exact .inner (grows.trans grows') (Frame.forall₂_sameNames_trans same same')
        (sameRoot.trans sameRoot')

theorem Widened.depth (widened : scope.Widened changed) : changed.depth = scope.depth := by
  cases widened with
  | root => rfl
  | inner _ same => simp only [Scope.depth, List.length_cons, same.length_eq]

theorem Widened.outer (widened : scope.Widened changed) :
    List.Forall₂ Frame.SameNames scope.frames.tail changed.frames.tail := by
  cases widened with
  | root => exact .nil
  | inner _ same sameRoot => exact List.rel_append same (.cons sameRoot .nil)

theorem Widened.functions (widened : scope.Widened changed) :
    changed.root.functionBindings = scope.root.functionBindings := by
  cases widened with
  | root grows => exact grows.functions
  | inner _ _ sameRoot => exact sameRoot.functions

/-- A new innermost frame is gone again behind the work inside it. -/
theorem Widened.pop (widened : scope.push.Widened changed) : scope.Reassigned changed.pop := by
  obtain ⟨root, inner⟩ := scope
  cases widened with
  | inner _ same sameRoot => exact ⟨sameRoot, same⟩

theorem widened_of_addVariable {name : String} {value : ν}
    (added : scope.addVariable name value = .ok changed) : scope.Widened changed := by
  obtain ⟨root, inner⟩ := scope
  cases inner with
  | nil =>
    obtain ⟨frame, frameAdded, rfl⟩ := updateCurrent_root added
    exact .root (Frame.grows_of_addVariable frameAdded)
  | cons head rest =>
    obtain ⟨frame, frameAdded, rfl⟩ := updateCurrent_inner added
    exact .inner (Frame.grows_of_addVariable frameAdded) (Frame.forall₂_sameNames_refl rest)
      (.refl root)

theorem sameNames_of_assignFirst {name : String} {value : ν} {frames frames' : List (Frame ν φ)}
    (assigned : assignFirst? name value frames = some frames') :
    List.Forall₂ Frame.SameNames frames frames' := by
  induction frames generalizing frames' with
  | nil => cases assigned
  | cons frame rest ih =>
    rw [assignFirst?] at assigned
    cases here : frame.assign? name value with
    | some frame' =>
      rw [here] at assigned
      cases assigned
      exact .cons (Frame.sameNames_of_assign here) (Frame.forall₂_sameNames_refl rest)
    | none =>
      rw [here] at assigned
      obtain ⟨rest', later, rfl⟩ := Option.map_eq_some_iff.mp assigned
      exact .cons (.refl frame) (ih later)

theorem reassigned_of_assign {name : String} {value : ν}
    (assigned : scope.assign name value = .ok changed) : scope.Reassigned changed := by
  rw [Scope.assign] at assigned
  split at assigned
  · rename_i inner done
    cases assigned
    exact ⟨.refl scope.root, sameNames_of_assignFirst done⟩
  · split at assigned
    · rename_i root done
      cases assigned
      exact ⟨Frame.sameNames_of_assign done, Frame.forall₂_sameNames_refl scope.inner⟩
    · cases assigned

end Scope

/-! ## Machines -/

namespace Machine

/-- What an expression leaves: the frames above the root as they were, the root with its variables
and functions, and the lines printed so far. -/
structure Spared (before after : Machine) : Prop where
  inner : after.scope.inner = before.scope.inner
  root : before.scope.root.SameNames after.scope.root
  output : before.effects.output.toList <+: after.effects.output.toList

/-- What a statement leaves: all frames, in which only the innermost may bind more than before, and
the lines printed so far. -/
structure Widened (before after : Machine) : Prop where
  scope : before.scope.Widened after.scope
  output : before.effects.output.toList <+: after.effects.output.toList

variable {before between after : Machine}

theorem Spared.refl (machine : Machine) : machine.Spared machine :=
  ⟨rfl, .refl _, List.prefix_rfl⟩

theorem Spared.trans (first : before.Spared between) (second : between.Spared after) :
    before.Spared after :=
  ⟨second.inner.trans first.inner, first.root.trans second.root, first.output.trans second.output⟩

theorem Spared.widened (spared : before.Spared after) : before.Widened after := by
  have reassigned : before.scope.Reassigned after.scope :=
    ⟨spared.root, spared.inner ▸ Frame.forall₂_sameNames_refl before.scope.inner⟩
  exact ⟨reassigned.widened, spared.output⟩

theorem Widened.trans (first : before.Widened between) (second : between.Widened after) :
    before.Widened after :=
  ⟨first.scope.trans second.scope, first.output.trans second.output⟩

end Machine

theorem Native.output_prefix {α : Type} (code : Native Ty α) (effects : Effects) :
    effects.output.toList <+: (code.run effects).2.output.toList := by
  induction code generalizing effects with
  | done value => exact List.prefix_rfl
  | fail error => exact List.prefix_rfl
  | print line next ih =>
    have longer := ih ⟨effects.store, effects.output.push line⟩
    rw [Array.toList_push] at longer
    exact (List.prefix_append _ _).trans longer
  | create type fields next ih =>
    exact ih _ ⟨(effects.store.create type fields).2, effects.output⟩
  | read object field next ih => exact ih _ effects
  | write object field value next ih =>
    exact ih _ ⟨(effects.store.write object field value).2, effects.output⟩

namespace Eval

open Machine

variable {α : Type} {body : Eval α}

theorem ofNative_spares (code : Native Ty α) : Conserves Spared (ofNative code) := by
  intro machine
  have longer := code.output_prefix machine.effects
  rcases ended : code.run machine.effects with ⟨error | value, effects⟩
  · rw [ended] at longer
    rw [ofNative_of_error ended]
    exact ⟨rfl, .refl _, longer⟩
  · rw [ended] at longer
    rw [ofNative_of_ok ended]
    exact ⟨rfl, .refl _, longer⟩

/-- A change of the scopes widens if it does where it succeeds. -/
theorem changeScope_widens
    {change : Scope Value FunctionBody → Except NamingError (Scope Value FunctionBody)}
    (widens : ∀ scope changed, change scope = .ok changed → scope.Widened changed) :
    Conserves Widened (changeScope change) := by
  intro machine
  rw [changeScope]
  cases ended : change machine.scope with
  | ok changed => exact ⟨widens machine.scope changed ended, List.prefix_rfl⟩
  | error error => exact (Spared.refl machine).widened

theorem nested_widens (conserves : Conserves Widened body) : Conserves Widened (nested body) := by
  intro machine
  have inside := conserves ⟨machine.scope.push, machine.effects⟩
  exact ⟨inside.scope.pop.widened, inside.output⟩

/-- A call changes nothing of the frames above the root: it does not see them. -/
theorem atRoot_nested_spares (conserves : Conserves Widened body) :
    Conserves Spared (atRoot (nested body)) := by
  intro machine
  have inside := conserves ⟨machine.scope.rootOnly.push, machine.effects⟩
  exact ⟨rfl, inside.scope.pop.root, inside.output⟩

end Eval

/-- Expressions spare the frames and statements widen them. -/
theorem Regime.frames : Regime Machine.Spared Machine.Widened where
  refl := .refl
  trans _ _ _ := .trans
  weaken _ _ := Machine.Spared.widened
  join _ _ _ := .trans
  native := Eval.ofNative_spares
  declare _ _ := Eval.changeScope_widens fun _ _ => Scope.widened_of_addVariable
  assign _ _ := Eval.changeScope_widens fun _ _ assigned =>
    (Scope.reassigned_of_assign assigned).widened
  nested := Eval.nested_widens
  called := Eval.atRoot_nested_spares

/-- Fields leave the functions as they are, and open no frame. -/
theorem Eval.scope_of_fields {bound : Nat} {decls : List Declaration}
    {functions : List (FunctionKey × FunctionBody)} {after : Machine}
    (ended : each (Declaration.execute (Method.call bound)) decls ⟨⟨⟨[], functions⟩, []⟩, {}⟩ =
      (.value (), after)) :
    ∃ known, after = ⟨⟨⟨known, functions⟩, []⟩, after.effects⟩ := by
  have widened := Regime.frames.fields bound decls ⟨⟨⟨[], functions⟩, []⟩, {}⟩
  rw [ended] at widened
  rcases after with ⟨⟨⟨known, functions⟩, inner⟩, effects⟩
  cases widened.scope with
  | root grows =>
    cases grows.functions
    exact ⟨known, rfl⟩

/-- What is left of the scopes and of the output behind a statement, in terms of the chain of frames
from the innermost to the root. -/
structure Machine.OuterKept (before after : Machine) : Prop where
  depth : after.scope.depth = before.scope.depth
  outer : List.Forall₂ Frame.SameNames before.scope.frames.tail after.scope.frames.tail
  functions : after.scope.root.functionBindings = before.scope.root.functionBindings
  output : before.effects.output.toList <+: after.effects.output.toList

theorem Machine.Widened.outerKept {before after : Machine} (widened : before.Widened after) :
    before.OuterKept after :=
  ⟨widened.scope.depth, widened.scope.outer, widened.scope.functions, widened.output⟩

/-- From every machine and however they end: an expression leaves the depth and every frame above
the root as they were, and the root with its names and functions; a statement or a block leaves the
depth, the names of every frame below the innermost, and the functions of the root.  All of them
only add to the output. -/
theorem Machine.frames_survive (bound rounds : Nat) (machine : Machine) :
    (∀ e : Expression,
      (e.evaluate (Method.call bound) machine).2.scope.depth = machine.scope.depth ∧
        machine.Spared (e.evaluate (Method.call bound) machine).2) ∧
    (∀ s : Statement, machine.OuterKept (s.execute (Method.call bound) rounds machine).2) ∧
    ∀ ss : List Statement,
      machine.OuterKept (Statement.executeAll (Method.call bound) rounds ss machine).2 := by
  refine ⟨fun e => ?_, fun s => ?_, fun ss => ?_⟩
  · have spared := Regime.frames.evaluate bound e machine
    refine ⟨?_, spared⟩
    rw [Scope.depth, spared.inner, Scope.depth]
  · exact (Regime.frames.execute bound rounds s machine).outerKept
  · exact (Regime.frames.executeAll bound rounds ss machine).outerKept

end Primer
