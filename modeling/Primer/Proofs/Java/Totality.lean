import Primer.Proofs.Typing.Once

/-!
# What is checked can be written

Writing a program as Java fails only at an empty slot, and a check that succeeds has filled all of
them, however deep they stand.  So a source compiles if and only if it loads, and where it does not
the error is the one of loading it (`Environment.compile_fails_as_load`).

`Java.Writes` says that a text can be written, with a rule for each way of putting texts together.
-/

namespace Primer

open Java Slot

/-! ## Texts that can be written -/

namespace Java

variable {α β : Type}

/-- There is a text: none of the slots that it takes its words from is empty. -/
def Writes (text : Except EmptySlot α) : Prop :=
  ∃ written, text = .ok written

namespace Writes

theorem pure (written : α) : Writes (pure written) :=
  ⟨written, rfl⟩

theorem bind {first : Except EmptySlot α} {next : α → Except EmptySlot β} (head : Writes first)
    (tail : ∀ written, Writes (next written)) : Writes (first >>= next) := by
  rcases head with ⟨written, rfl⟩
  exact tail written

/-- The content of a slot that is filled. -/
theorem resolved {slot : Option α} (filled : slot ≠ none) (name : String) :
    Writes (resolved slot name) := by
  rcases Option.ne_none_iff_exists'.mp filled with ⟨content, rfl⟩
  exact ⟨content, rfl⟩

theorem mapM {write : α → Except EmptySlot β} {items : List α}
    (each : ∀ item ∈ items, Writes (write item)) : Writes (items.mapM write) := by
  induction items with
  | nil => exact pure []
  | cons item items ih =>
    rcases List.forall_mem_cons.mp each with ⟨first, others⟩
    rw [List.mapM_cons]
    exact first.bind fun _ => (ih others).bind fun _ => pure _

end Writes

end Java

/-! ## Expressions -/

namespace Expression

mutual

/-- An expression can be written if its slots are filled. -/
theorem writes_toJava : (e : Expression) → AllFilled e.slots → Writes e.toJava
  | .literal _ value, _ => .pure value.toJava
  | .group _ inner, filled => by
    rcases allFilled_append.mp filled with ⟨inside, -⟩
    rw [toJava]
    exact (writes_toJava inner inside).bind fun _ => .pure _
  | .binary _ _ left right, filled => by
    rcases allFilled_append.mp filled with ⟨onLeft, filled⟩
    rcases allFilled_append.mp filled with ⟨onRight, -⟩
    rw [toJava]
    exact (writes_toJava left onLeft).bind fun _ =>
      (writes_toJava right onRight).bind fun _ => .pure _
  | .access _ name _, filled => by
    rcases allFilled_cons.mp filled with ⟨bound, -⟩
    rw [toJava]
    exact (Writes.resolved bound name).bind fun _ => .pure _
  | .memberAccess _ receiver name _, filled => by
    rcases allFilled_append.mp filled with ⟨onReceiver, own⟩
    rcases allFilled_cons.mp own with ⟨bound, -⟩
    rw [toJava]
    exact (Writes.resolved bound name).bind fun _ =>
      (writes_toJava receiver onReceiver).bind fun _ => .pure _
  | .call _ name args _, filled => by
    rcases allFilled_append.mp filled with ⟨onArgs, own⟩
    rcases allFilled_cons.mp own with ⟨bound, -⟩
    rw [toJava]
    exact (Writes.resolved bound name).bind fun _ =>
      (writes_allToJava args onArgs).bind fun _ => .pure _
  | .memberCall _ receiver name args _, filled => by
    rcases allFilled_append.mp filled with ⟨onReceiver, filled⟩
    rcases allFilled_append.mp filled with ⟨onArgs, own⟩
    rcases allFilled_cons.mp own with ⟨bound, -⟩
    rw [toJava]
    exact (Writes.resolved bound name).bind fun _ => (writes_allToJava args onArgs).bind fun _ =>
      (writes_toJava receiver onReceiver).bind fun _ => .pure _

theorem writes_allToJava : (es : List Expression) → AllFilled (allSlots es) →
    Writes (allToJava es)
  | [], _ => .pure []
  | e :: es, filled => by
    rcases allFilled_append.mp filled with ⟨first, others⟩
    rw [allToJava]
    exact (writes_toJava e first).bind fun _ => (writes_allToJava es others).bind fun _ => .pure _

end

end Expression

/-! ## Statements -/

theorem Declaration.writes_toJava (depth : Nat) {decl : Declaration}
    (filled : AllFilled decl.slots) : Writes (decl.toJava depth) := by
  rcases decl with ⟨name, typeName, value, span, binding⟩
  rcases allFilled_append.mp filled with ⟨onValue, own⟩
  rcases allFilled_cons.mp own with ⟨bound, -⟩
  refine (Writes.resolved bound name).bind fun _ => ?_
  cases value with
  | none => exact (Writes.pure "").bind fun _ => .pure _
  | some value =>
    refine (value.writes_toJava onValue).bind fun text => ?_
    exact (Writes.pure (" = " ++ text)).bind fun _ => .pure _

namespace Statement

mutual

theorem writes_toJava (depth : Nat) : (s : Statement) → AllFilled s.slots →
    Writes (s.toJava depth)
  | .expression value, filled => by
    rw [toJava]
    exact (value.writes_toJava filled).bind fun _ => .pure _
  | .declaration _, filled => by
    rw [toJava]
    exact (Declaration.writes_toJava depth filled).bind fun _ => .pure _
  | .assignment target value, filled => by
    rcases allFilled_append.mp filled with ⟨onTarget, onValue⟩
    rw [toJava]
    exact (target.writes_toJava onTarget).bind fun _ =>
      (value.writes_toJava onValue).bind fun _ => .pure _
  | .conditional condition thenBody elseBody, filled => by
    rcases allFilled_append.mp filled with ⟨onCondition, filled⟩
    rcases allFilled_append.mp filled with ⟨onThen, onElse⟩
    rw [toJava]
    refine (condition.writes_toJava onCondition).bind fun _ => ?_
    refine (writes_allToJava (depth + 1) thenBody onThen).bind fun _ => ?_
    exact (writes_allToJava (depth + 1) elseBody onElse).bind fun _ => .pure _
  | .forEach _ range body, filled => by
    rcases allFilled_append.mp filled with ⟨onRange, onBody⟩
    rw [toJava]
    exact (range.writes_toJava onRange).bind fun _ =>
      (writes_allToJava (depth + 1) body onBody).bind fun _ => .pure _
  | .loop condition body, filled => by
    rcases allFilled_append.mp filled with ⟨onCondition, onBody⟩
    rw [toJava]
    exact (condition.writes_toJava onCondition).bind fun _ =>
      (writes_allToJava (depth + 1) body onBody).bind fun _ => .pure _
  | .result value, filled => by
    rw [toJava]
    exact (value.writes_toJava filled).bind fun _ => .pure _

theorem writes_allToJava (depth : Nat) : (ss : List Statement) → AllFilled (allSlots ss) →
    Writes (allToJava depth ss)
  | [], _ => .pure []
  | s :: ss, filled => by
    rcases allFilled_append.mp filled with ⟨first, others⟩
    rw [allToJava]
    exact (writes_toJava depth s first).bind fun _ =>
      (writes_allToJava depth ss others).bind fun _ => .pure _

end

end Statement

/-! ## Programs -/

theorem Method.writes_toJava {method : Method} (filled : AllFilled method.slots) :
    Writes method.toJava := by
  rcases allFilled_cons.mp filled with ⟨bound, onBody⟩
  refine (Writes.resolved bound method.name).bind fun _ => ?_
  exact (Statement.writes_allToJava 2 method.body onBody).bind fun _ => .pure _

theorem Program.writes_toJava {program : Program} (filled : AllFilled program.slots) :
    Writes program.toJava := by
  rcases allFilled_append.mp filled with ⟨onFields, onMethods⟩
  have fields : Writes (program.fields.mapM (Declaration.toJava 1)) := .mapM fun _ member =>
    Declaration.writes_toJava 1 (allFilled_flatMap.mp onFields _ member)
  have methods : Writes (program.methods.mapM Method.toJava) := .mapM fun _ member =>
    Method.writes_toJava (allFilled_flatMap.mp onMethods _ member)
  have lines : Writes program.javaLines := fields.bind fun _ => methods.bind fun _ => .pure _
  exact lines.bind fun _ => .pure _

namespace Environment

variable {environment : Environment} {source : String} {program : Program}

/-- A program that loads has passed a check, so it can be written. -/
theorem writes_of_load (loaded : environment.load source = .ok program) :
    Writes program.toJava := by
  rcases Program.stages_of_load loaded with ⟨tokens, tree, -, -, resolved⟩
  have passed : (tree.resolve environment).result = .ok () := by rw [resolved]
  have filled := (Program.allFilled_of_resolve passed).2
  rw [resolved] at filled
  exact Program.writes_toJava filled

/-- Loading never blames a slot. -/
theorem load_ne_emitting (slot : EmptySlot) :
    environment.load source ≠ .error (.emitting slot) := by
  intro failed
  rcases load_eq_error.mp failed with parsed | ⟨tree, -, checked⟩
  · rcases Program.parse_eq_error.mp parsed with ⟨cause, -, ⟨⟩⟩ | ⟨tokens, cause, -, -, ⟨⟩⟩
  · rcases Program.check_eq_error.mp checked with ⟨cause, -, ⟨⟩⟩

/-- In every environment, a source compiles if and only if it loads, and otherwise both fail with
the same error, which is never that a slot is empty. -/
theorem compile_fails_as_load (environment : Environment) (source : String) :
    ((∃ text, environment.compile source = .ok text) ↔
        ∃ program, environment.load source = .ok program) ∧
      (∀ error, environment.compile source = .error error ↔
        environment.load source = .error error) ∧
      ∀ slot, environment.compile source ≠ .error (.emitting slot) := by
  cases loaded : environment.load source with
  | error error =>
    have failed : environment.compile source = .error error := by rw [compile, loaded]
    rw [failed]
    refine ⟨⟨nofun, nofun⟩, ?_, ?_⟩
    · intro other
      rw [Except.error.injEq, Except.error.injEq]
    · intro slot same
      cases same
      exact load_ne_emitting slot loaded
  | ok program =>
    rcases writes_of_load loaded with ⟨text, written⟩
    rw [compile_eq_ok.mpr ⟨program, loaded, written⟩]
    exact ⟨⟨fun _ => ⟨program, rfl⟩, fun _ => ⟨text, rfl⟩⟩, fun _ => ⟨nofun, nofun⟩, nofun⟩

end Environment

end Primer
