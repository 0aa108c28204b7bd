import Mathlib.Data.List.Forall2
import Primer.Scope

/-!
# Scopes that agree

Two scopes agree when they have the same frames with the same variables in the same order, and the
bindings of each variable are related.  What the variables are bound to may be anything: types on
one side and values on the other, or the places that made the bindings.

Agreeing scopes find a name in the same frame (`Scope.Agree.distance_eq`), and they stay in
agreement while both are opened, closed and extended in the same way.  Functions play no part here;
`Scope.OnlyRootFunctions` says that they are all in the root frame.
-/

namespace Primer

/-- How many frames above the innermost one a variable is bound. -/
def Scope.distance? {ν φ : Type} (scope : Scope ν φ) (name : String) : Option Nat :=
  scope.frames.findIdx? fun frame => (frame.findVariable? name).isSome

/-! ## Lists of bindings -/

namespace Bindings

variable {κ α β : Type} {R S : α → β → Prop}

/-- The same keys in the same order, bound to related things. -/
def Agree (R : α → β → Prop) : List (κ × α) → List (κ × β) → Prop :=
  List.Forall₂ fun a b => a.1 = b.1 ∧ R a.2 b.2

theorem Agree.mono (weaken : ∀ a b, R a b → S a b) {as : List (κ × α)} {bs : List (κ × β)}
    (agree : Agree R as bs) : Agree S as bs :=
  List.Forall₂.imp (fun _ _ h => ⟨h.1, weaken _ _ h.2⟩) agree

variable [DecidableEq κ]

theorem lookup_cons_of_ne {key other : κ} (different : key ≠ other) (a : α) (as : List (κ × α)) :
    ((other, a) :: as).lookup key = as.lookup key := by
  rw [List.lookup_cons, beq_eq_false_iff_ne.mpr different]

theorem lookup_replace_eq (key other : κ) (value : α) (bindings : List (κ × α)) :
    (replace key value bindings).lookup other =
      if other = key then (bindings.lookup key).map fun _ => value else bindings.lookup other := by
  induction bindings with
  | nil => split <;> rfl
  | cons binding bindings ih =>
    obtain ⟨bound, old⟩ := binding
    by_cases same : bound = key
    · subst same
      rw [replace, if_pos rfl]
      split
      · rename_i same
        rw [same, List.lookup_cons_self, List.lookup_cons_self, Option.map_some]
      · rename_i different
        rw [lookup_cons_of_ne different, lookup_cons_of_ne different]
    · rw [replace, if_neg same, lookup_cons_of_ne (Ne.symm same)]
      by_cases here : other = bound
      · subst here
        rw [List.lookup_cons_self, if_neg same, List.lookup_cons_self]
      · rw [lookup_cons_of_ne here, ih, lookup_cons_of_ne here]

theorem Agree.lookup {as : List (κ × α)} {bs : List (κ × β)} (agree : Agree R as bs) (key : κ) :
    (as.lookup key = none ∧ bs.lookup key = none) ∨
      ∃ a b, as.lookup key = some a ∧ bs.lookup key = some b ∧ R a b := by
  induction agree with
  | nil => exact .inl ⟨rfl, rfl⟩
  | @cons a b as bs head tail ih =>
    obtain ⟨x, a⟩ := a
    obtain ⟨y, b⟩ := b
    obtain ⟨rfl, related⟩ : x = y ∧ R a b := head
    by_cases same : key = x
    · subst same
      exact .inr ⟨a, b, List.lookup_cons_self, List.lookup_cons_self, related⟩
    · rw [lookup_cons_of_ne same, lookup_cons_of_ne same]
      exact ih

theorem Agree.replace {as : List (κ × α)} {bs : List (κ × β)} (agree : Agree R as bs)
    {key : κ} {a : α} {b : β} (found : as.lookup key = some a) (related : R a b) :
    Agree R as (Bindings.replace key b bs) := by
  induction agree with
  | nil => cases found
  | @cons x y as bs head tail ih =>
    obtain ⟨k, x⟩ := x
    obtain ⟨l, y⟩ := y
    obtain ⟨rfl, old⟩ : k = l ∧ R x y := head
    by_cases same : key = k
    · subst same
      rw [List.lookup_cons_self] at found
      cases found
      rw [Bindings.replace, if_pos rfl]
      exact .cons ⟨rfl, related⟩ tail
    · rw [Bindings.replace, if_neg (Ne.symm same)]
      rw [lookup_cons_of_ne same] at found
      exact .cons ⟨rfl, old⟩ (ih found)

end Bindings

/-! ## Frames -/

namespace Frame

variable {ν μ φ ψ : Type} {R S : ν → μ → Prop} {frame : Frame ν φ} {other : Frame μ ψ}

/-- The same variables in the same order, bound to related things. -/
def Agree (R : ν → μ → Prop) (frame : Frame ν φ) (other : Frame μ ψ) : Prop :=
  Bindings.Agree R frame.variableBindings other.variableBindings

theorem Agree.mono (weaken : ∀ a b, R a b → S a b) (agree : frame.Agree R other) :
    frame.Agree S other :=
  Bindings.Agree.mono weaken agree

theorem Agree.findVariable (agree : frame.Agree R other) (name : String) :
    (frame.findVariable? name = none ∧ other.findVariable? name = none) ∨
      ∃ a b, frame.findVariable? name = some a ∧ other.findVariable? name = some b ∧ R a b :=
  Bindings.Agree.lookup agree name

theorem addVariable_eq_ok {name : String} {a : ν} {extended : Frame ν φ} :
    frame.addVariable name a = .ok extended ↔ frame.findVariable? name = none ∧
      extended = { frame with variableBindings := (name, a) :: frame.variableBindings } := by
  unfold Frame.addVariable
  cases frame.findVariable? name with
  | none => exact ⟨fun same => ⟨rfl, (Except.ok.inj same).symm⟩, fun same => congrArg _ same.2.symm⟩
  | some => simp

theorem Agree.addVariable (agree : frame.Agree R other) {name : String} {a : ν} {b : μ}
    (related : R a b) {extended : Frame ν φ} (added : frame.addVariable name a = .ok extended) :
    ∃ extended' : Frame μ ψ, other.addVariable name b = .ok extended' ∧
      extended.Agree R extended' := by
  obtain ⟨free, rfl⟩ := addVariable_eq_ok.mp added
  obtain ⟨-, free'⟩ | ⟨a, b, found, -⟩ := agree.findVariable name
  · exact ⟨_, addVariable_eq_ok.mpr ⟨free', rfl⟩, .cons ⟨rfl, related⟩ agree⟩
  · rw [free] at found
    cases found

theorem Agree.assign (agree : frame.Agree R other) {name : String} {a : ν} {b : μ}
    (found : frame.findVariable? name = some a) (related : R a b) :
    ∃ changed : Frame μ ψ, other.assign? name b = some changed ∧ frame.Agree R changed := by
  obtain ⟨missing, -⟩ | ⟨a', b', found', bound, -⟩ := agree.findVariable name
  · rw [missing] at found
    cases found
  · rw [Frame.assign?, bound]
    exact ⟨_, rfl, Bindings.Agree.replace agree found related⟩

theorem functions_of_addVariable {name : String} {a : ν} {extended : Frame ν φ}
    (added : frame.addVariable name a = .ok extended) :
    extended.functionBindings = frame.functionBindings := by
  obtain ⟨-, rfl⟩ := addVariable_eq_ok.mp added
  rfl

theorem functions_of_assign {name : String} {a : ν} {changed : Frame ν φ}
    (assigned : frame.assign? name a = some changed) :
    changed.functionBindings = frame.functionBindings := by
  rw [Frame.assign?, Option.map_eq_some_iff] at assigned
  obtain ⟨_, -, rfl⟩ := assigned
  rfl

end Frame

/-! ## Scopes -/

namespace Scope

variable {ν μ φ ψ : Type} {R S : ν → μ → Prop} {scope : Scope ν φ} {other : Scope μ ψ}

theorem getVariable_eq_ok {name : String} {a : ν} :
    scope.getVariable name = .ok a ↔
      scope.frames.findSome? (·.findVariable? name) = some a := by
  unfold getVariable
  split
  · rename_i found
    rw [found, Except.ok.injEq, Option.some.injEq]
  · rename_i missing
    simp [missing]

/-- A name that is bound is some frames out. -/
theorem distance_of_getVariable {name : String} {a : ν} (found : scope.getVariable name = .ok a) :
    ∃ depth, scope.distance? name = some depth := by
  obtain ⟨frame, member, bound⟩ := List.exists_of_findSome?_eq_some (getVariable_eq_ok.mp found)
  rw [← Option.isSome_iff_exists, distance?, List.findIdx?_isSome, List.any_eq_true]
  exact ⟨frame, member, Option.isSome_of_eq_some bound⟩

theorem updateCurrent_root {root : Frame ν φ}
    {update : Frame ν φ → Except NamingError (Frame ν φ)} {changed : Scope ν φ}
    (h : Scope.updateCurrent ⟨root, []⟩ update = .ok changed) :
    ∃ frame, update root = .ok frame ∧ changed = ⟨frame, []⟩ := by
  cases updated : update root with
  | error => simp [updateCurrent, updated, bind, Except.bind] at h
  | ok frame =>
    refine ⟨frame, rfl, ?_⟩
    simp only [updateCurrent, updated] at h
    exact (Except.ok.inj h).symm

theorem updateCurrent_inner {root frame : Frame ν φ} {rest : List (Frame ν φ)}
    {update : Frame ν φ → Except NamingError (Frame ν φ)} {changed : Scope ν φ}
    (h : Scope.updateCurrent ⟨root, frame :: rest⟩ update = .ok changed) :
    ∃ frame', update frame = .ok frame' ∧ changed = ⟨root, frame' :: rest⟩ := by
  cases updated : update frame with
  | error => simp [updateCurrent, updated, bind, Except.bind] at h
  | ok frame' =>
    refine ⟨frame', rfl, ?_⟩
    simp only [updateCurrent, updated] at h
    exact (Except.ok.inj h).symm

/-- A new variable in an inner frame leaves the frames around it alone. -/
theorem pop_of_addVariable {name : String} {a : ν} {extended : Scope ν φ}
    (inside : scope.inner ≠ []) (added : scope.addVariable name a = .ok extended) :
    extended.pop = scope.pop ∧ extended.inner ≠ [] := by
  obtain ⟨root, inner⟩ := scope
  cases inner with
  | nil => exact absurd rfl inside
  | cons head rest =>
    obtain ⟨frame, -, rfl⟩ := updateCurrent_inner added
    exact ⟨rfl, List.cons_ne_nil _ _⟩

/-- The same frames, in agreement one by one. -/
structure Agree (R : ν → μ → Prop) (scope : Scope ν φ) (other : Scope μ ψ) : Prop where
  root : scope.root.Agree R other.root
  inner : List.Forall₂ (Frame.Agree R) scope.inner other.inner

namespace Agree

theorem mono (weaken : ∀ a b, R a b → S a b) (agree : scope.Agree R other) :
    scope.Agree S other :=
  ⟨agree.root.mono weaken, agree.inner.imp fun _ _ => Frame.Agree.mono weaken⟩

theorem frames (agree : scope.Agree R other) :
    List.Forall₂ (Frame.Agree R) scope.frames other.frames :=
  List.rel_append agree.inner (.cons agree.root .nil)

theorem push (agree : scope.Agree R other) : scope.push.Agree R other.push :=
  ⟨agree.root, .cons .nil agree.inner⟩

theorem pop (agree : scope.Agree R other) : scope.pop.Agree R other.pop := by
  refine ⟨agree.root, ?_⟩
  obtain ⟨root, inner⟩ := scope
  obtain ⟨root', inner'⟩ := other
  cases agree.inner with
  | nil => exact .nil
  | cons _ rest => exact rest

/-- Both chains bind a name in the same frame. -/
theorem distance_eq (agree : scope.Agree R other) (name : String) :
    scope.distance? name = other.distance? name := by
  unfold distance?
  have agreeing := agree.frames
  generalize scope.frames = frames, other.frames = frames' at agreeing ⊢
  induction agreeing with
  | nil => rfl
  | @cons frame frame' frames frames' head _ ih =>
    have same : (frame.findVariable? name).isSome = (frame'.findVariable? name).isSome := by
      obtain ⟨missing, missing'⟩ | ⟨a, b, found, found', -⟩ := head.findVariable name
      · rw [missing, missing', Option.isSome_none, Option.isSome_none]
      · rw [found, found', Option.isSome_some, Option.isSome_some]
    rw [List.findIdx?_cons, List.findIdx?_cons, same, ih]

theorem getVariable (agree : scope.Agree R other) {name : String} {a : ν}
    (found : scope.getVariable name = .ok a) :
    ∃ b, other.getVariable name = .ok b ∧ R a b := by
  have found := getVariable_eq_ok.mp found
  simp only [getVariable_eq_ok]
  have agreeing := agree.frames
  generalize scope.frames = frames, other.frames = frames' at agreeing found ⊢
  induction agreeing with
  | nil => cases found
  | cons head _ ih =>
    simp only [List.findSome?_cons] at found ⊢
    obtain ⟨missing, missing'⟩ | ⟨a', b, bound, bound', related⟩ := head.findVariable name
    · rw [missing] at found
      rw [missing']
      exact ih found
    · rw [bound] at found
      cases found
      rw [bound']
      exact ⟨b, rfl, related⟩

theorem addVariable (agree : scope.Agree R other) {name : String} {a : ν} {b : μ}
    (related : R a b) {extended : Scope ν φ} (added : scope.addVariable name a = .ok extended) :
    ∃ extended' : Scope μ ψ, other.addVariable name b = .ok extended' ∧
      extended.Agree R extended' := by
  obtain ⟨root, inner⟩ := scope
  obtain ⟨root', inner'⟩ := other
  obtain ⟨rootAgree, innerAgree⟩ := agree
  cases innerAgree with
  | nil =>
    obtain ⟨frame, frameAdded, rfl⟩ := updateCurrent_root added
    obtain ⟨frame', added', frameAgree⟩ := rootAgree.addVariable related frameAdded
    refine ⟨⟨frame', []⟩, ?_, frameAgree, .nil⟩
    simp only [Scope.addVariable, updateCurrent, added']
    rfl
  | cons head rest =>
    obtain ⟨frame, frameAdded, rfl⟩ := updateCurrent_inner added
    obtain ⟨frame', added', frameAgree⟩ := Frame.Agree.addVariable head related frameAdded
    refine ⟨⟨root', frame' :: _⟩, ?_, rootAgree, .cons frameAgree rest⟩
    simp only [Scope.addVariable, updateCurrent, added']
    rfl

/-- Assigning in a list of frames, on the right only. -/
theorem assignFirst {frames : List (Frame ν φ)} {frames' : List (Frame μ ψ)}
    (agree : List.Forall₂ (Frame.Agree R) frames frames') (name : String) {b : μ} :
    (frames.findSome? (·.findVariable? name) = none ∧ assignFirst? name b frames' = none) ∨
      ∃ a, frames.findSome? (·.findVariable? name) = some a ∧
        (R a b → ∃ changed, assignFirst? name b frames' = some changed ∧
          List.Forall₂ (Frame.Agree R) frames changed) := by
  induction agree with
  | nil => exact .inl ⟨rfl, rfl⟩
  | @cons frame frame' frames frames' head rest ih =>
    simp only [List.findSome?_cons, assignFirst?]
    obtain ⟨missing, missing'⟩ | ⟨a, _, found, -, -⟩ := head.findVariable name
    · have passed : frame'.assign? name b = none := by rw [Frame.assign?, missing', Option.map_none]
      rw [missing, passed]
      obtain ⟨none₁, none₂⟩ | ⟨a, found, assigned⟩ := ih
      · exact .inl ⟨none₁, by rw [none₂, Option.map_none]⟩
      · refine .inr ⟨a, found, fun related => ?_⟩
        obtain ⟨changed, done, agree⟩ := assigned related
        exact ⟨frame' :: changed, by rw [done, Option.map_some], .cons head agree⟩
    · rw [found]
      refine .inr ⟨a, rfl, fun related => ?_⟩
      obtain ⟨changed, done, agree⟩ := head.assign found related
      exact ⟨changed :: frames', by rw [done], .cons agree rest⟩

theorem assign (agree : scope.Agree R other) {name : String} {a : ν} {b : μ}
    (found : scope.getVariable name = .ok a) (related : R a b) :
    ∃ changed : Scope μ ψ, other.assign name b = .ok changed ∧ scope.Agree R changed := by
  rw [getVariable_eq_ok, Scope.frames, List.findSome?_append] at found
  unfold Scope.assign
  obtain ⟨missing, passed⟩ | ⟨a', found', assigned⟩ := assignFirst agree.inner name (b := b)
  · rw [missing, Option.none_or, List.findSome?_singleton] at found
    obtain ⟨changed, done, agreeRoot⟩ := agree.root.assign found related
    rw [passed, done]
    exact ⟨_, rfl, agreeRoot, agree.inner⟩
  · rw [found', Option.some_or] at found
    cases found
    obtain ⟨changed, done, agreeInner⟩ := assigned related
    rw [done]
    exact ⟨_, rfl, agree.root, agreeInner⟩

end Agree

/-! ## Functions in the root frame alone -/

/-- The root frame binds `functions`, and no other frame binds a function. -/
structure OnlyRootFunctions (scope : Scope ν φ) (functions : List (FunctionKey × φ)) : Prop where
  root : scope.root.functionBindings = functions
  inner : ∀ frame ∈ scope.inner, frame.functionBindings = []

namespace OnlyRootFunctions

variable {functions : List (FunctionKey × φ)}

theorem getFunction (only : scope.OnlyRootFunctions functions) {key : FunctionKey} {function : φ} :
    scope.getFunction key = .ok function ↔ functions.lookup key = some function := by
  have hidden : scope.inner.findSome? (·.findFunction? key) = none := by
    rw [List.findSome?_eq_none_iff]
    intro frame member
    rw [Frame.findFunction?, only.inner frame member]
    rfl
  have found : scope.frames.findSome? (·.findFunction? key) = functions.lookup key := by
    rw [frames, List.findSome?_append, hidden, Option.none_or, List.findSome?_singleton,
      Frame.findFunction?, only.root]
  unfold Scope.getFunction
  rw [found]
  cases functions.lookup key <;> simp

theorem push (only : scope.OnlyRootFunctions functions) : scope.push.OnlyRootFunctions functions :=
  ⟨only.root, by
    intro frame member
    rcases List.mem_cons.mp member with rfl | member
    · rfl
    · exact only.inner frame member⟩

theorem pop (only : scope.OnlyRootFunctions functions) : scope.pop.OnlyRootFunctions functions :=
  ⟨only.root, fun frame member => only.inner frame (List.mem_of_mem_tail member)⟩

/-- A chain of a single frame. -/
theorem of_root {root : Frame ν φ} (bound : root.functionBindings = functions) :
    (⟨root, []⟩ : Scope ν φ).OnlyRootFunctions functions :=
  ⟨bound, fun _ member => absurd member List.not_mem_nil⟩

theorem rootOnly (only : scope.OnlyRootFunctions functions) :
    scope.rootOnly.OnlyRootFunctions functions :=
  .of_root only.root

theorem withInner (only : scope.OnlyRootFunctions functions) {before : Scope ν φ}
    (before_only : before.OnlyRootFunctions functions) :
    (scope.withInner before.inner).OnlyRootFunctions functions :=
  ⟨only.root, before_only.inner⟩

theorem addVariable (only : scope.OnlyRootFunctions functions) {name : String} {a : ν}
    {extended : Scope ν φ} (added : scope.addVariable name a = .ok extended) :
    extended.OnlyRootFunctions functions := by
  obtain ⟨root, inner⟩ := scope
  cases inner with
  | nil =>
    obtain ⟨frame, frameAdded, rfl⟩ := updateCurrent_root added
    exact .of_root ((Frame.functions_of_addVariable frameAdded).trans only.root)
  | cons head rest =>
    obtain ⟨frame, frameAdded, rfl⟩ := updateCurrent_inner added
    refine ⟨only.root, fun other member => ?_⟩
    rcases List.mem_cons.mp member with rfl | member
    · rw [Frame.functions_of_addVariable frameAdded]
      exact only.inner head List.mem_cons_self
    · exact only.inner other (List.mem_cons_of_mem _ member)

theorem assignFirst {frames changed : List (Frame ν φ)}
    (only : ∀ frame ∈ frames, frame.functionBindings = []) {name : String} {a : ν}
    (assigned : assignFirst? name a frames = some changed) :
    ∀ frame ∈ changed, frame.functionBindings = [] := by
  induction frames generalizing changed with
  | nil => cases assigned
  | cons head rest ih =>
    rw [assignFirst?] at assigned
    have headOnly := only head List.mem_cons_self
    have restOnly := fun frame member => only frame (List.mem_cons_of_mem head member)
    cases here : head.assign? name a with
    | some frame =>
      rw [here] at assigned
      cases assigned
      intro other member
      rcases List.mem_cons.mp member with rfl | member
      · exact (Frame.functions_of_assign here).trans headOnly
      · exact restOnly other member
    | none =>
      rw [here] at assigned
      obtain ⟨changed, later, rfl⟩ := Option.map_eq_some_iff.mp assigned
      intro other member
      rcases List.mem_cons.mp member with rfl | member
      · exact headOnly
      · exact ih restOnly later other member

theorem assign (only : scope.OnlyRootFunctions functions) {name : String} {a : ν}
    {changed : Scope ν φ} (assigned : scope.assign name a = .ok changed) :
    changed.OnlyRootFunctions functions := by
  rw [Scope.assign] at assigned
  split at assigned
  · rename_i inner done
    cases assigned
    exact ⟨only.root, assignFirst only.inner done⟩
  · split at assigned
    · rename_i root done
      cases assigned
      exact ⟨(Frame.functions_of_assign done).trans only.root, only.inner⟩
    · cases assigned

end OnlyRootFunctions

end Scope

end Primer
