import Primer.Proofs.Typing.Filling

/-!
# A tree is checked once

Whatever checks a tree has seen, a check of it succeeds only where all slots are empty, and then it
leaves none of them empty.  So at most one check of a tree succeeds (`Program.resolve_once`), and
the same check made again stops at the first slot that it comes to.
-/

namespace Primer

open Slot

/-! ## The second check -/

/-- A walk that stops at a slot which is filled, and leaves the tree as it is. -/
def Attempt.StopsAt {τ α : Type} (tree : τ) (attempt : Attempt τ α) : Prop :=
  attempt = ⟨tree, .error (.typing .alreadyResolved)⟩

namespace Attempt

variable {τ σ α β : Type}

theorem StopsAt.andThen {walk : Attempt σ α} {part : σ} {tree : τ} {rebuild : σ → τ}
    {next : σ → α → Attempt τ β} (stops : walk.StopsAt part) (place : rebuild part = tree) :
    (walk.andThen rebuild next).StopsAt tree := by
  rw [StopsAt] at stops
  rw [stops, ← place]
  rfl

theorem StopsAt.each {walk : τ → α → Attempt τ α} {tree : τ} {state : α}
    (stops : (walk tree state).StopsAt tree) (trees : List τ) :
    (Attempt.each walk (tree :: trees) state).StopsAt (tree :: trees) :=
  stops.andThen rfl

end Attempt

namespace Expression

variable {scope : StaticScope} {e tree : Expression} {type : Ty}

mutual

/-- A checked expression cannot be checked again where it was checked. -/
theorem resolve_again : (e : Expression) → ∀ tree type, e.resolve scope = ⟨tree, .ok type⟩ →
    (tree.resolve scope).StopsAt tree
  | .literal _ _, _, _, resolved => by
    rcases resolve_literal_eq_ok.mp resolved with ⟨-, typed, rfl⟩
    rw [resolve, typed]
    rfl
  | .group _ inner, _, _, resolved => by
    rcases resolve_group_eq_ok.mp resolved with ⟨-, _, resolvedInner, rfl⟩
    rw [resolve]
    exact (resolve_again inner _ _ resolvedInner).andThen rfl
  | .binary _ _ left _, _, _, resolved => by
    rcases resolve_binary_eq_ok.mp resolved with ⟨-, _, _, _, _, resolvedLeft, -, -, rfl⟩
    rw [resolve]
    exact (resolve_again left _ _ resolvedLeft).andThen rfl
  | .access _ _ _, _, _, resolved => by
    rcases resolve_access_eq_ok.mp resolved with ⟨-, -, _, bound, -, rfl⟩
    rw [resolve, bound]
    rfl
  | .memberAccess _ receiver _ _, _, _, resolved => by
    rcases resolve_memberAccess_eq_ok.mp resolved with ⟨-, -, _, _, resolvedReceiver, -, rfl⟩
    rw [resolve]
    exact (resolve_again receiver _ _ resolvedReceiver).andThen rfl
  | .call _ _ args _, _, _, resolved => by
    rcases resolve_call_eq_ok.mp resolved with ⟨-, -, signature, _, bound, resolvedArgs, -, rfl⟩
    rw [resolve, length_of_resolveArguments resolvedArgs, bound]
    dsimp only [Attempt.naming]
    rcases resolveArguments_again args _ _ resolvedArgs with stops | passes
    · exact stops.andThen rfl
    · rw [passes]
      rfl
  | .memberCall _ receiver _ _ _, _, _, resolved => by
    rcases resolve_memberCall_eq_ok.mp resolved with
      ⟨-, -, _, _, _, _, resolvedReceiver, -, -, -, rfl⟩
    rw [resolve]
    exact (resolve_again receiver _ _ resolvedReceiver).andThen rfl

/-- Of checked arguments the first one cannot be checked again, if there is one. -/
theorem resolveArguments_again : (args : List Expression) → ∀ (parameters : List Ty) trees,
    resolveArguments scope args parameters = ⟨trees, .ok ()⟩ →
      (resolveArguments scope trees parameters).StopsAt trees ∨
        resolveArguments scope trees parameters = ⟨trees, .ok ()⟩
  | [], parameters, _, resolved => by
    cases resolveArguments_nil_eq_ok.mp resolved
    exact .inr resolved
  | e :: es, [], _, resolved => by
    have passes := resolved
    rw [resolveArguments] at resolved
    · cases resolved
      exact .inr passes
    · exact nofun
  | e :: es, parameter :: parameters, _, resolved => by
    rcases resolveArguments_cons_eq_ok.mp resolved with ⟨_, _, others, first, -, -, rfl⟩
    refine .inl ?_
    rw [resolveArguments]
    exact (resolve_again e _ _ first).andThen rfl

end

end Expression

theorem Declaration.resolve_again {types : Registry} {scope after : StaticScope}
    {decl tree : Declaration} (resolved : decl.resolve types scope = ⟨tree, .ok after⟩) :
    (tree.resolve types scope).StopsAt tree := by
  rcases resolve_eq_ok.mp resolved with
    ⟨-, declared, value, initial, type, named, valued, typed, added, rfl⟩
  rw [resolve, named]
  dsimp only [Attempt.naming]
  rcases resolveValue_eq_ok.mp valued with
    ⟨missing, same, rfl⟩ | ⟨e, e', found, present, resolvedValue, same, rfl⟩
  · cases congrArg Declaration.value same
    rw [resolveValue, missing]
    simp only [Attempt.succeed, Attempt.andThen, Attempt.typing, typed, added]
    rfl
  · cases congrArg Declaration.value same
    have stops := e.resolve_again _ _ resolvedValue
    refine Attempt.StopsAt.andThen ?_ rfl
    rw [resolveValue]
    exact stops.andThen rfl

theorem Method.resolve_again {types : Registry} {scope after : StaticScope}
    {method tree : Method} (resolved : method.resolve types scope = ⟨tree, .ok after⟩) :
    (tree.resolve types scope).StopsAt tree := by
  rcases resolve_eq_ok.mp resolved with ⟨-, signature, _, body, _, declared, added, -, -, rfl⟩
  have again : Method.signature types { method with binding := some signature, body } =
    .ok signature := declared
  rw [resolve, again]
  dsimp only [Attempt.naming]
  rw [added]
  rfl

namespace Program

variable {environment : Environment} {program tree : Program}

theorem slots_ne_nil_iff : program.slots ≠ [] ↔ program.fields ≠ [] ∨ program.methods ≠ [] := by
  rcases program with ⟨_ | ⟨field, fields⟩, _ | ⟨method, methods⟩⟩ <;>
    simp [slots, Declaration.slots, Method.slots]

/-- A checked program cannot be checked again in the same environment: the check stops at its first
field, or at its first method if it has no fields. -/
theorem resolve_again (declares : program.fields ≠ [] ∨ program.methods ≠ [])
    (resolved : program.resolve environment = ⟨tree, .ok ()⟩) :
    (tree.resolve environment).StopsAt tree := by
  rcases resolve_eq_ok.mp resolved with
    ⟨natives, globals, complete, defined, walkedFields, walkedMethods, -⟩
  rcases program with ⟨_ | ⟨field, fields⟩, methods⟩
  · rcases methods with _ | ⟨method, methods⟩
    · exact absurd declares (by simp)
    rcases tree with ⟨fields, trees⟩
    rcases Attempt.each_nil_eq_ok.mp walkedFields with ⟨rfl, rfl⟩
    rcases Attempt.each_cons_eq_ok.mp walkedMethods with ⟨_, _, others, walked, -, rfl⟩
    have stops := (Method.resolve_again walked).each others
    rw [resolve, defined]
    dsimp only [Attempt.naming, Attempt.each, Attempt.succeed]
    rw [Attempt.andThen]
    exact stops.andThen rfl
  · rcases tree with ⟨trees, methods⟩
    rcases Attempt.each_cons_eq_ok.mp walkedFields with ⟨_, _, others, walked, -, rfl⟩
    have stops := (Declaration.resolve_again walked).each others
    rw [resolve, defined]
    dsimp only [Attempt.naming]
    exact stops.andThen rfl

/-! ## Any number of checks -/

/-- The tree that is left after checks in several environments, one after the other. -/
def afterChecks (program : Program) (environments : List Environment) : Program :=
  environments.foldl (fun tree environment => (tree.resolve environment).tree) program

theorem keepAll_of_resolve (environment : Environment) (program : Program) :
    KeepAll program.slots (program.resolve environment).tree.slots :=
  (program.resolve_fills environment).slots_reach.keepAll

theorem keepAll_afterChecks (program : Program) (environments : List Environment) :
    KeepAll program.slots (program.afterChecks environments).slots := by
  unfold afterChecks
  induction environments generalizing program with
  | nil => exact .refl _
  | cons environment _ ih => exact (program.keepAll_of_resolve environment).trans (ih _)

/-- A check that succeeds has found all slots empty and filled them. -/
theorem allFilled_of_resolve (passed : (program.resolve environment).result = .ok ()) :
    AllEmpty program.slots ∧ AllFilled (program.resolve environment).tree.slots := by
  have reaches := (program.resolve_fills environment).slots_reach
  rw [passed] at reaches
  exact reaches.allFilled

/-- No check of a tree succeeds once a slot is filled, whatever checks come between. -/
theorem not_ok_of_isFilled (filled : ∃ slot ∈ program.slots, slot.IsFilled)
    (between : List Environment) (later : Environment) :
    ((program.afterChecks between).resolve later).result ≠ .ok () := by
  intro passed
  rcases (program.keepAll_afterChecks between).exists_isFilled filled with ⟨slot, member, filled⟩
  exact not_isEmpty_iff.mpr filled ((allFilled_of_resolve passed).1 slot member)

/-- Of all checks of one tree, whatever their environments, at most one succeeds.  It has found all
slots empty and leaves them filled.  No check changes a slot that is filled, or the rest of the
tree.  No check succeeds behind one that has succeeded or has filled a slot, and the same check once
more says that the tree is checked and leaves it as it is. -/
theorem resolve_once (declares : program.fields ≠ [] ∨ program.methods ≠ [])
    (earlier : List Environment) (environment : Environment) :
    let before := program.afterChecks earlier
    let attempt := before.resolve environment
    (attempt.result = .ok () → AllEmpty before.slots ∧ AllFilled attempt.tree.slots) ∧
      (KeepAll before.slots attempt.tree.slots ∧ attempt.tree.cleared = before.cleared) ∧
      ((attempt.result = .ok () ∨ ∃ slot ∈ attempt.tree.slots, slot.IsFilled) →
        ∀ between later, ((attempt.tree.afterChecks between).resolve later).result ≠ .ok ()) ∧
      (attempt.result = .ok () → attempt.tree.resolve environment =
        ⟨attempt.tree, .error (.typing .alreadyResolved)⟩) := by
  intro before attempt
  have kept := before.keepAll_of_resolve environment
  have nonempty : before.slots ≠ [] :=
    (program.keepAll_afterChecks earlier).ne_nil (slots_ne_nil_iff.mpr declares)
  refine ⟨allFilled_of_resolve, ⟨kept, (before.resolve_fills environment).cleared_eq⟩, ?_, ?_⟩
  · intro settled
    apply not_ok_of_isFilled
    rcases settled with passed | filled
    · rcases List.exists_mem_of_ne_nil _ (kept.ne_nil nonempty) with ⟨slot, member⟩
      exact ⟨slot, member, (allFilled_of_resolve passed).2 slot member⟩
    · exact filled
  · intro passed
    have resolved : before.resolve environment = ⟨attempt.tree, .ok ()⟩ := by rw [← passed]
    exact resolve_again (slots_ne_nil_iff.mp nonempty) resolved

/-- A program with a field that the standard environment does not know how to make. -/
def counted : Program where
  fields := [⟨"c", none, some (.call ⟨⟨8, 17⟩, none⟩ "counter" [] none), ⟨0, 18⟩, none⟩]
  methods := [⟨"main", [], some "Integer",
    [.result (.memberAccess ⟨⟨49, 56⟩, none⟩ (.access ⟨⟨49, 50⟩, none⟩ "c" none) "count" none)],
    ⟨19, 61⟩, none⟩]

theorem resolve_once_counted :
    let before := counted.afterChecks [.standard]
    let checked := (before.resolve .counter).tree
    (counted.resolve .standard).result ≠ .ok () ∧ AllEmpty before.slots ∧
      AllFilled checked.slots ∧ (∀ later, (checked.resolve later).result ≠ .ok ()) ∧
      checked.resolve .counter = ⟨checked, .error (.typing .alreadyResolved)⟩ := by
  have passed : ((counted.afterChecks [.standard]).resolve .counter).result = .ok () := rfl
  have declares : counted.fields ≠ [] := List.cons_ne_nil _ _
  rcases resolve_once (.inl declares) [.standard] .counter with ⟨found, -, last, again⟩
  exact ⟨nofun, (found passed).1, (found passed).2, last (.inl passed) [], again passed⟩

end Program

end Primer
