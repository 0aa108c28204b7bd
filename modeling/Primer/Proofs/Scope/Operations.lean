import Mathlib.Data.List.Infix
import Primer.Proofs.Scope.Agreement

/-!
# Scopes under any operations

The checker and a run use scopes in their own orderly ways.  This module asks what can be relied on
when the operations come in any order: frames closed at the root, frames put back behind others that
were never closed, frames set aside while others are.

A `Session` is a scope with the frames that were set aside, and `Session.afterAll` carries out any
list of operations.  The root frame is never lost and keeps what it binds, an operation that is
refused changes nothing, frames are put back as they were set aside, and an assignment is seen
through one frame only (`Scope.Session.lawful_afterAll`).
-/

namespace Primer

/-! ## Frames -/

namespace Frame

variable {ν φ : Type} {frame changed later : Frame ν φ}

/-- Whatever the one frame binds, the other binds too; functions mean the same in both. -/
structure Keeps (before after : Frame ν φ) : Prop where
  names : ∀ name, (before.findVariable? name).isSome → (after.findVariable? name).isSome
  functions : ∀ key function, before.findFunction? key = some function →
    after.findFunction? key = some function

theorem Keeps.refl (frame : Frame ν φ) : frame.Keeps frame :=
  ⟨fun _ => id, fun _ _ => id⟩

theorem Keeps.trans (first : frame.Keeps changed) (second : changed.Keeps later) :
    frame.Keeps later :=
  ⟨fun name bound => second.names name (first.names name bound),
    fun key function bound => second.functions key function (first.functions key function bound)⟩

theorem addFunction_eq_ok {key : FunctionKey} {function : φ} :
    frame.addFunction key function = .ok changed ↔ frame.findFunction? key = none ∧
      changed = { frame with functionBindings := (key, function) :: frame.functionBindings } := by
  unfold Frame.addFunction
  cases frame.findFunction? key with
  | none => exact ⟨fun same => ⟨rfl, (Except.ok.inj same).symm⟩, fun same => congrArg _ same.2.symm⟩
  | some => simp

theorem keeps_of_addVariable {name : String} {value : ν}
    (added : frame.addVariable name value = .ok changed) : frame.Keeps changed := by
  obtain ⟨-, rfl⟩ := addVariable_eq_ok.mp added
  refine ⟨fun other bound => ?_, fun _ _ => id⟩
  by_cases same : other = name
  · subst same
    rw [findVariable?, List.lookup_cons_self]
    rfl
  · rw [findVariable?, Bindings.lookup_cons_of_ne same]
    exact bound

theorem keeps_of_addFunction {key : FunctionKey} {function : φ}
    (added : frame.addFunction key function = .ok changed) : frame.Keeps changed := by
  obtain ⟨free, rfl⟩ := addFunction_eq_ok.mp added
  refine ⟨fun _ => id, fun other meaning bound => ?_⟩
  have different : other ≠ key := by
    rintro rfl
    rw [free] at bound
    cases bound
  rw [findFunction?, Bindings.lookup_cons_of_ne different]
  exact bound

/-- An assignment is seen under the name of its variable only. -/
theorem findVariable?_of_assign {name : String} {value : ν}
    (assigned : frame.assign? name value = some changed) (other : String) :
    changed.findVariable? other =
      if other = name then some value else frame.findVariable? other := by
  rw [assign?, Option.map_eq_some_iff] at assigned
  obtain ⟨old, bound, rfl⟩ := assigned
  have found : frame.variableBindings.lookup name = some old := bound
  rw [findVariable?, Bindings.lookup_replace_eq, found, Option.map_some]
  rfl

theorem keeps_of_assign {name : String} {value : ν}
    (assigned : frame.assign? name value = some changed) : frame.Keeps changed := by
  refine ⟨fun other bound => ?_, fun key function bound => ?_⟩
  · rw [findVariable?_of_assign assigned]
    split
    · rfl
    · exact bound
  · rw [findFunction?, functions_of_assign assigned]
    exact bound

theorem isSome_of_assign {name : String} {value : ν}
    (assigned : frame.assign? name value = some changed) :
    (frame.findVariable? name).isSome := by
  rw [assign?, Option.map_eq_some_iff] at assigned
  obtain ⟨old, bound, -⟩ := assigned
  exact Option.isSome_of_eq_some bound

end Frame

/-! ## Assignments -/

namespace Scope

variable {ν φ : Type} {scope changed : Scope ν φ} {name : String} {value : ν}

/-- The variable got the value in the innermost frame that binds it, `place` frames out, and nothing
else changed: no other variable of that frame, none of its functions, and no other frame. -/
structure AssignedAt (place : Nat) (name : String) (value : ν) (before after : Scope ν φ) :
    Prop where
  innermost : before.distance? name = some place
  depth : after.depth = before.depth
  elsewhere : ∀ other ≠ place, after.frames[other]? = before.frames[other]?
  here : ∃ frame changed, before.frames[place]? = some frame ∧ after.frames[place]? = some changed ∧
    changed.functionBindings = frame.functionBindings ∧
    ∀ other, changed.findVariable? other =
      if other = name then some value else frame.findVariable? other

theorem exists_of_assignFirst {frames frames' : List (Frame ν φ)}
    (assigned : assignFirst? name value frames = some frames') :
    ∃ inside frame frame' outside, frames = inside ++ frame :: outside ∧
      frames' = inside ++ frame' :: outside ∧ frame.assign? name value = some frame' ∧
      ∀ frame ∈ inside, frame.findVariable? name = none := by
  induction frames generalizing frames' with
  | nil => cases assigned
  | cons frame rest ih =>
    rw [assignFirst?] at assigned
    cases here : frame.assign? name value with
    | some frame' =>
      rw [here] at assigned
      cases assigned
      exact ⟨[], frame, frame', rest, rfl, rfl, here, fun _ member => absurd member (by simp)⟩
    | none =>
      rw [here] at assigned
      obtain ⟨rest', later, rfl⟩ := Option.map_eq_some_iff.mp assigned
      obtain ⟨inside, owner, owner', outside, rfl, rfl, done, passed⟩ := ih later
      refine ⟨frame :: inside, owner, owner', outside, rfl, rfl, done, ?_⟩
      exact List.forall_mem_cons.mpr ⟨Option.map_eq_none_iff.mp here, passed⟩

theorem assignFirst?_eq_none {frames : List (Frame ν φ)}
    (passed : assignFirst? name value frames = none) :
    ∀ frame ∈ frames, frame.findVariable? name = none := by
  induction frames with
  | nil => exact fun _ member => absurd member (by simp)
  | cons frame rest ih =>
    rw [assignFirst?] at passed
    cases here : frame.assign? name value with
    | some frame' =>
      rw [here] at passed
      cases passed
    | none =>
      rw [here] at passed
      exact List.forall_mem_cons.mpr
        ⟨Option.map_eq_none_iff.mp here, ih (Option.map_eq_none_iff.mp passed)⟩

/-- An assignment changes one frame, and the frames inside it do not bind the variable. -/
theorem exists_of_assign (assigned : scope.assign name value = .ok changed) :
    ∃ inside frame frame' outside, scope.frames = inside ++ frame :: outside ∧
      changed.frames = inside ++ frame' :: outside ∧ frame.assign? name value = some frame' ∧
      ∀ frame ∈ inside, frame.findVariable? name = none := by
  rw [assign] at assigned
  split at assigned
  · rename_i inner done
    cases assigned
    obtain ⟨inside, frame, frame', outside, split, split', done, passed⟩ :=
      exists_of_assignFirst done
    refine ⟨inside, frame, frame', outside ++ [scope.root], ?_, ?_, done, passed⟩
    · rw [frames, split, List.append_assoc, List.cons_append]
    · rw [frames, split', List.append_assoc, List.cons_append]
  · rename_i passed
    split at assigned
    · rename_i root done
      cases assigned
      exact ⟨scope.inner, scope.root, root, [], rfl, rfl, done, assignFirst?_eq_none passed⟩
    · cases assigned

/-! ## What an assignment shows -/

section Split

variable {frames frames' inside outside : List (Frame ν φ)} {frame frame' : Frame ν φ}

theorem findIdx?_of_split (bound : (frame.findVariable? name).isSome)
    (passed : ∀ frame ∈ inside, frame.findVariable? name = none) :
    (inside ++ frame :: outside).findIdx? (fun frame => (frame.findVariable? name).isSome) =
      some inside.length := by
  have none : inside.findIdx? (fun frame => (frame.findVariable? name).isSome) = none := by
    rw [List.findIdx?_eq_none_iff]
    intro frame member
    rw [passed frame member, Option.isSome_none]
  rw [List.findIdx?_append, none, List.findIdx?_cons, if_pos bound]
  simp

/-- Frames that differ by an assignment, from any frame on: the variable has the new value where the
assigned frame is still there, and everything else is found as before. -/
theorem findVariable?_drop_of_split (assigned : frame.assign? name value = some frame')
    (passed : ∀ frame ∈ inside, frame.findVariable? name = none) (gone : Nat) (other : String) :
    ((inside ++ frame' :: outside).drop gone).findSome? (·.findVariable? other) =
      if other = name ∧ gone ≤ inside.length then some value
      else ((inside ++ frame :: outside).drop gone).findSome? (·.findVariable? other) := by
  by_cases there : gone ≤ inside.length
  · rw [List.drop_append_of_le_length there, List.drop_append_of_le_length there,
      List.findSome?_append, List.findSome?_append, List.findSome?_cons, List.findSome?_cons,
      Frame.findVariable?_of_assign assigned]
    by_cases same : other = name
    · subst same
      have hidden : (inside.drop gone).findSome? (·.findVariable? other) = none := by
        rw [List.findSome?_eq_none_iff]
        exact fun frame member => passed frame (List.mem_of_mem_drop member)
      rw [hidden, if_pos rfl, if_pos ⟨rfl, there⟩, Option.none_or]
    · rw [if_neg same, if_neg (same ·.1)]
  · obtain ⟨more, rfl⟩ := Nat.exists_eq_add_of_lt (Nat.lt_of_not_le there)
    have left : ∀ frame : Frame ν φ,
        (inside ++ frame :: outside).drop (inside.length + more + 1) = outside.drop more := by
      intro frame
      rw [Nat.add_assoc, ← List.drop_drop, List.drop_left, List.drop_succ_cons]
    rw [if_neg (there ·.2), left, left]

theorem findFunction?_drop_of_split (assigned : frame.assign? name value = some frame')
    (gone : Nat) (key : FunctionKey) :
    ((inside ++ frame' :: outside).drop gone).findSome? (·.findFunction? key) =
      ((inside ++ frame :: outside).drop gone).findSome? (·.findFunction? key) := by
  have bindings : (inside ++ frame' :: outside).map Frame.functionBindings =
      (inside ++ frame :: outside).map Frame.functionBindings := by
    rw [List.map_append, List.map_append, List.map_cons, List.map_cons,
      Frame.functions_of_assign assigned]
  have through : ∀ frames : List (Frame ν φ), (frames.drop gone).findSome? (·.findFunction? key) =
      ((frames.map Frame.functionBindings).drop gone).findSome? (·.lookup key) := by
    intro frames
    rw [← List.map_drop, List.findSome?_map]
    rfl
  rw [through, through, bindings]

end Split

theorem assignedAt_of_split {inside outside : List (Frame ν φ)} {frame frame' : Frame ν φ}
    (split : scope.frames = inside ++ frame :: outside)
    (split' : changed.frames = inside ++ frame' :: outside)
    (assigned : frame.assign? name value = some frame')
    (passed : ∀ frame ∈ inside, frame.findVariable? name = none) :
    AssignedAt inside.length name value scope changed := by
  have depth : ∀ scope : Scope ν φ, scope.depth = scope.frames.length := fun scope => by
    rw [frames, List.length_append]
    rfl
  refine ⟨?_, ?_, ?_, frame, frame', ?_, ?_, Frame.functions_of_assign assigned,
    Frame.findVariable?_of_assign assigned⟩
  · rw [distance?, split]
    exact findIdx?_of_split (Frame.isSome_of_assign assigned) passed
  · rw [depth, depth, split, split', List.length_append, List.length_append, List.length_cons,
      List.length_cons]
  · intro other different
    rw [split, split', List.getElem?_append, List.getElem?_append]
    split
    · rfl
    · obtain ⟨more, equal⟩ : ∃ more, other - inside.length = more + 1 :=
        ⟨other - inside.length - 1, by omega⟩
      rw [equal, List.getElem?_cons_succ, List.getElem?_cons_succ]
  · rw [split, List.getElem?_append_right (Nat.le_refl _), Nat.sub_self, List.getElem?_cons_zero]
  · rw [split', List.getElem?_append_right (Nat.le_refl _), Nat.sub_self, List.getElem?_cons_zero]

/-! ## Sessions -/

/-- What a scope can be asked to do.  Frames that were set aside are known by their number, counted
from the first that ever were. -/
inductive Operation (ν φ : Type) where
  | push
  | pop
  | setAside
  | putBack (number : Nat)
  | addVariable (name : String) (value : ν)
  | addFunction (key : FunctionKey) (function : φ)
  | getVariable (name : String)
  | getFunction (key : FunctionKey)
  | assign (name : String) (value : ν)

/-- What comes of an operation. -/
inductive Answer (ν φ : Type) where
  | done
  | value (value : ν)
  | function (function : φ)
  | refused (error : NamingError)

/-- A scope and the lists of frames that were set aside, the first one first. -/
structure Session (ν φ : Type) where
  scope : Scope ν φ := {}
  aside : List (List (Frame ν φ)) := []

namespace Session

/-- The session behind a change of the scope, which may be refused. -/
def change (session : Session ν φ) : Except NamingError (Scope ν φ) → Answer ν φ × Session ν φ
  | .ok scope => (.done, { session with scope })
  | .error error => (.refused error, session)

/-- Carries out an operation. -/
def step (session : Session ν φ) : Operation ν φ → Answer ν φ × Session ν φ
  | .push => (.done, { session with scope := session.scope.push })
  | .pop => (.done, { session with scope := session.scope.pop })
  | .setAside => (.done, ⟨session.scope.rootOnly, session.aside ++ [session.scope.inner]⟩)
  | .putBack number =>
    (.done, { session with scope := session.scope.withInner (session.aside[number]?.getD []) })
  | .addVariable name value => session.change (session.scope.addVariable name value)
  | .addFunction key function => session.change (session.scope.addFunction key function)
  | .getVariable name =>
    match session.scope.getVariable name with
    | .ok value => (.value value, session)
    | .error error => (.refused error, session)
  | .getFunction key =>
    match session.scope.getFunction key with
    | .ok function => (.function function, session)
    | .error error => (.refused error, session)
  | .assign name value => session.change (session.scope.assign name value)

/-- The session behind an operation. -/
def after (session : Session ν φ) (operation : Operation ν φ) : Session ν φ :=
  (session.step operation).2

/-- The session behind any number of operations. -/
def afterAll (session : Session ν φ) (operations : List (Operation ν φ)) : Session ν φ :=
  operations.foldl after session

variable {session : Session ν φ}

/-- An operation that is refused changes nothing. -/
theorem after_of_refused {operation : Operation ν φ} {error : NamingError}
    (refused : (session.step operation).1 = .refused error) :
    session.after operation = session := by
  have changed : ∀ result, (session.change result).1 = .refused error →
      (session.change result).2 = session := by
    rintro (_ | _) refused
    · rfl
    · cases refused
  cases operation with
  | push | pop | setAside | putBack => cases refused
  | addVariable | addFunction | assign => exact changed _ refused
  | getVariable name =>
    rw [after, step]
    split <;> rfl
  | getFunction key =>
    rw [after, step]
    split <;> rfl

/-! ### What is never lost -/

/-- What the root frame binds and what was set aside is still there. -/
structure Follows (before after : Session ν φ) : Prop where
  root : before.scope.root.Keeps after.scope.root
  aside : before.aside <+: after.aside

theorem Follows.refl (session : Session ν φ) : session.Follows session :=
  ⟨.refl _, List.prefix_rfl⟩

theorem Follows.trans {between after : Session ν φ} (first : session.Follows between)
    (second : between.Follows after) : session.Follows after :=
  ⟨first.root.trans second.root, first.aside.trans second.aside⟩

theorem keeps_of_updateCurrent {update : Frame ν φ → Except NamingError (Frame ν φ)}
    (each : ∀ frame changed, update frame = .ok changed → frame.Keeps changed)
    (updated : scope.updateCurrent update = .ok changed) : scope.root.Keeps changed.root := by
  obtain ⟨root, inner⟩ := scope
  cases inner with
  | nil =>
    obtain ⟨frame, done, rfl⟩ := updateCurrent_root updated
    exact each root frame done
  | cons head rest =>
    obtain ⟨frame, -, rfl⟩ := updateCurrent_inner updated
    exact .refl root

theorem keeps_of_assign (assigned : scope.assign name value = .ok changed) :
    scope.root.Keeps changed.root := by
  rw [Scope.assign] at assigned
  split at assigned
  · cases assigned
    exact .refl scope.root
  · split at assigned
    · rename_i root done
      cases assigned
      exact Frame.keeps_of_assign done
    · cases assigned

theorem follows_change {result : Except NamingError (Scope ν φ)}
    (keeps : ∀ changed, result = .ok changed → session.scope.root.Keeps changed.root) :
    session.Follows (session.change result).2 := by
  cases result with
  | ok changed => exact ⟨keeps changed rfl, List.prefix_rfl⟩
  | error => exact .refl session

/-- One operation loses nothing. -/
theorem follows_after (session : Session ν φ) (operation : Operation ν φ) :
    session.Follows (session.after operation) := by
  cases operation with
  | push | pop | putBack => exact ⟨.refl _, List.prefix_rfl⟩
  | setAside => exact ⟨.refl _, List.prefix_append _ _⟩
  | addVariable name value =>
    exact follows_change fun _ => keeps_of_updateCurrent fun _ _ => Frame.keeps_of_addVariable
  | addFunction key function =>
    exact follows_change fun _ => keeps_of_updateCurrent fun _ _ => Frame.keeps_of_addFunction
  | assign name value => exact follows_change fun _ => keeps_of_assign
  | getVariable name =>
    rw [after, step]
    split <;> exact .refl session
  | getFunction key =>
    rw [after, step]
    split <;> exact .refl session

/-- Nor does any number of them. -/
theorem follows_afterAll (session : Session ν φ) (operations : List (Operation ν φ)) :
    session.Follows (session.afterAll operations) := by
  induction operations generalizing session with
  | nil => exact .refl session
  | cons operation operations ih =>
    exact (session.follows_after operation).trans (ih (session.after operation))

/-- Frames that were set aside are put back as they were, on the root frame as it is now. -/
theorem putBack_afterAll (session : Session ν φ) (operations : List (Operation ν φ)) :
    let later := (session.after .setAside).afterAll operations
    later.after (.putBack session.aside.length) =
      { later with scope := ⟨later.scope.root, session.scope.inner⟩ } := by
  intro later
  obtain ⟨newer, kept⟩ : session.aside ++ [session.scope.inner] <+: later.aside :=
    ((session.after .setAside).follows_afterAll operations).aside
  have found : later.aside[session.aside.length]? = some session.scope.inner := by
    rw [← kept, List.append_assoc, List.getElem?_append_right (Nat.le_refl _), Nat.sub_self]
    rfl
  rw [after, step, found]
  rfl

/-! ### Closing frames -/

/-- Closing frames stops at the root. -/
theorem afterAll_pops (session : Session ν φ) (pops : Nat) :
    session.afterAll (List.replicate pops .pop) =
      { session with scope := ⟨session.scope.root, session.scope.inner.drop pops⟩ } := by
  induction pops generalizing session with
  | zero => rfl
  | succ pops ih =>
    have closed := ih (session.after .pop)
    rw [List.replicate_succ, afterAll, List.foldl_cons, ← afterAll, closed]
    show Session.mk ⟨_, session.scope.inner.tail.drop pops⟩ _ = _
    rw [List.drop_tail]
    rfl

theorem frames_afterAll_pops (session : Session ν φ) (pops : Nat) :
    (session.afterAll (List.replicate pops .pop)).scope.frames =
      session.scope.frames.drop (min pops (session.scope.depth - 1)) := by
  rw [afterAll_pops, frames, frames, depth, Nat.add_sub_cancel,
    List.drop_append_of_le_length (Nat.min_le_right _ _), ← List.drop_eq_drop_min]

/-- What an assignment shows after any number of frames were closed, in `now`, against what there
would be without it, in `otherwise`. -/
theorem shown_of_assign {changed : Session ν φ} {name : String} {value : ν}
    (assigned : session.scope.assign name value = .ok changed.scope) :
    ∃ place, session.scope.AssignedAt place name value changed.scope ∧ ∀ pops,
      let gone := min pops (session.scope.depth - 1)
      let now := (changed.afterAll (List.replicate pops .pop)).scope
      let otherwise := (session.afterAll (List.replicate pops .pop)).scope
      (gone ≤ place → otherwise.distance? name = some (place - gone)) ∧
        (∀ other, now.getVariable other = if other = name ∧ gone ≤ place then .ok value
          else otherwise.getVariable other) ∧
        ∀ key, now.getFunction key = otherwise.getFunction key := by
  obtain ⟨inside, frame, frame', outside, split, split', done, passed⟩ := exists_of_assign assigned
  have placed := assignedAt_of_split split split' done passed
  refine ⟨inside.length, placed, ?_⟩
  intro pops gone now otherwise
  have frames : otherwise.frames = (inside ++ frame :: outside).drop gone := by
    rw [frames_afterAll_pops, split]
  have frames' : now.frames = (inside ++ frame' :: outside).drop gone := by
    rw [frames_afterAll_pops, placed.depth, split']
  refine ⟨fun there => ?_, fun other => ?_, fun key => ?_⟩
  · rw [distance?, frames, List.drop_append_of_le_length there, findIdx?_of_split
      (Frame.isSome_of_assign done) fun frame member => passed frame (List.mem_of_mem_drop member),
      List.length_drop]
  · rw [getVariable, frames', findVariable?_drop_of_split done passed, getVariable, frames]
    by_cases seen : other = name ∧ gone ≤ inside.length
    · rw [if_pos seen, if_pos seen]
    · rw [if_neg seen, if_neg seen]
  · rw [getFunction, frames', findFunction?_drop_of_split done, getFunction, frames]

/-- Whatever was asked before: the root frame is there, and keeps what it binds whatever is asked
later; an operation that is refused changes nothing; frames that are set aside can be put back as
they were, whatever is asked in between; and an assignment changes one variable of one frame.  After
any number of frames were closed, it is seen under that name only, and only while that frame is
open, which is then the one where the name is found. -/
theorem lawful_afterAll (past : List (Operation ν φ)) :
    let session : Session ν φ := ({} : Session ν φ).afterAll past
    (1 ≤ session.scope.depth ∧ session.scope.frames.getLast? = some session.scope.root) ∧
    (∀ more, session.scope.root.Keeps (session.afterAll more).scope.root) ∧
    (∀ operation error, (session.step operation).1 = .refused error →
      session.after operation = session) ∧
    (∀ more, let later := (session.after .setAside).afterAll more
      later.after (.putBack session.aside.length) =
        { later with scope := ⟨later.scope.root, session.scope.inner⟩ }) ∧
    ∀ name value changed, session.step (.assign name value) = (.done, changed) →
      changed.aside = session.aside ∧
      ∃ place, session.scope.AssignedAt place name value changed.scope ∧ ∀ pops,
        let gone := min pops (session.scope.depth - 1)
        let now := (changed.afterAll (List.replicate pops .pop)).scope
        let otherwise := (session.afterAll (List.replicate pops .pop)).scope
        (gone ≤ place → otherwise.distance? name = some (place - gone)) ∧
          (∀ other, now.getVariable other = if other = name ∧ gone ≤ place then .ok value
            else otherwise.getVariable other) ∧
          ∀ key, now.getFunction key = otherwise.getFunction key := by
  intro session
  refine ⟨⟨Nat.succ_pos _, List.getLast?_concat⟩, fun more => (session.follows_afterAll more).root,
    fun _ _ => after_of_refused, session.putBack_afterAll, ?_⟩
  intro name value changed done
  rw [step] at done
  cases assigned : session.scope.assign name value with
  | ok scope =>
    rw [assigned] at done
    cases done
    exact ⟨rfl, shown_of_assign assigned⟩
  | error error =>
    rw [assigned] at done
    cases done

/-- Two frames on the root, of which the inner one hides a variable of the root, and another one
that was set aside. -/
def mixedOperations : List (Operation Nat Nat) :=
  [.addVariable "x" 1, .pop, .push, .addVariable "y" 2, .setAside, .push, .push,
    .addVariable "x" 3]

/-- The hiding variable is assigned to: this is seen before its frame is closed, and not after. -/
theorem lawful_afterAll_mixedOperations :
    let session : Session Nat Nat := ({} : Session Nat Nat).afterAll mixedOperations
    (session.step (.addVariable "x" 4)).1 = .refused (.alreadyDefined "x") ∧
      session.after (.addVariable "x" 4) = session ∧
      ∃ changed, session.step (.assign "x" 9) = (.done, changed) ∧
        changed.scope.getVariable "x" = .ok 9 ∧
        (changed.afterAll [.pop]).scope.getVariable "x" = .ok 1 := by
  intro session
  obtain ⟨-, -, refused, -, assigned⟩ := lawful_afterAll mixedOperations
  obtain ⟨-, place, placed, shown⟩ := assigned "x" 9 _ rfl
  obtain rfl : 0 = place := Option.some.inj placed.innermost
  refine ⟨rfl, refused _ _ rfl, _, rfl, ?_, ?_⟩
  · exact (shown 0).2.1 "x"
  · exact (shown 1).2.1 "x"

end Session

end Scope

end Primer
