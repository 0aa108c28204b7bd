import Mathlib.Data.List.Forall2
import Primer.Proofs.Syntax.Bare

/-!
# The slots of a program

`Program.slots` lists all slots of a program with what they hold: the type of every expression, the
variable of every access and declaration, the signature of every call and method.  They are listed
in the order in which a check comes to them.  `Program.cleared` is the rest of the tree.

Two trees of one shape can be compared slot by slot.  `Slot.Keeps` is what a check may do to a slot:
leave it as it is, or fill it when it is empty.  `Slot.Reaches` is what a check does to a list of
them: it fills them from the front, up to where it stops.
-/

namespace Primer

/-- A slot with what it holds. -/
inductive Slot where
  | ofType (content : Option Ty)
  | ofVariable (content : Option Variable)
  | ofFunction (content : Option Signature)

namespace Slot

def IsEmpty : Slot → Prop
  | .ofType content => content = none
  | .ofVariable content => content = none
  | .ofFunction content => content = none

def IsFilled : Slot → Prop
  | .ofType content => content ≠ none
  | .ofVariable content => content ≠ none
  | .ofFunction content => content ≠ none

/-- The first slot is empty, and the second one is the same slot with a content. -/
inductive Fills : Slot → Slot → Prop
  | ofType (type : Ty) : Fills (.ofType none) (.ofType (some type))
  | ofVariable (found : Variable) : Fills (.ofVariable none) (.ofVariable (some found))
  | ofFunction (found : Signature) : Fills (.ofFunction none) (.ofFunction (some found))

/-- The second slot is the first one, left alone or filled. -/
inductive Keeps : Slot → Slot → Prop
  | same (slot : Slot) : Keeps slot slot
  | fill {slot filled : Slot} : slot.Fills filled → Keeps slot filled

theorem not_isEmpty_iff {slot : Slot} : ¬ slot.IsEmpty ↔ slot.IsFilled := by
  cases slot <;> exact Iff.rfl

theorem Fills.isEmpty {slot filled : Slot} (fills : slot.Fills filled) : slot.IsEmpty := by
  cases fills <;> rfl

theorem Fills.isFilled {slot filled : Slot} (fills : slot.Fills filled) : filled.IsFilled := by
  cases fills <;> exact Option.some_ne_none _

namespace Keeps

variable {slot kept later : Slot}

/-- A filled slot stays what it is. -/
theorem eq_of_isFilled (keeps : slot.Keeps kept) (filled : slot.IsFilled) : kept = slot := by
  cases keeps with
  | same => rfl
  | fill fills => exact absurd fills.isEmpty (not_isEmpty_iff.mpr filled)

theorem isFilled (keeps : slot.Keeps kept) (filled : slot.IsFilled) : kept.IsFilled := by
  rwa [keeps.eq_of_isFilled filled]

theorem trans (first : slot.Keeps kept) (second : kept.Keeps later) : slot.Keeps later := by
  cases first with
  | same => exact second
  | fill fills =>
    rw [second.eq_of_isFilled fills.isFilled]
    exact .fill fills

end Keeps

/-- Slot by slot, the second list is the first one with some empty slots filled. -/
abbrev KeepAll : List Slot → List Slot → Prop :=
  List.Forall₂ Keeps

namespace KeepAll

variable {slots kept later : List Slot}

theorem refl (slots : List Slot) : KeepAll slots slots :=
  List.forall₂_same.mpr fun slot _ => .same slot

theorem trans (first : KeepAll slots kept) (second : KeepAll kept later) :
    KeepAll slots later := by
  induction first generalizing later with
  | nil => exact second
  | cons keeps _ ih =>
    cases second with
    | cons keeps' rest => exact .cons (keeps.trans keeps') (ih rest)

theorem ne_nil (keep : KeepAll slots kept) (nonempty : slots ≠ []) : kept ≠ [] := by
  cases keep with
  | nil => exact nonempty
  | cons => exact List.cons_ne_nil _ _

/-- What was filled somewhere is filled somewhere later. -/
theorem exists_isFilled (keep : KeepAll slots kept) (filled : ∃ slot ∈ slots, slot.IsFilled) :
    ∃ slot ∈ kept, slot.IsFilled := by
  rcases filled with ⟨slot, member, filled⟩
  induction keep with
  | nil => cases member
  | cons keeps rest ih =>
    rcases List.mem_cons.mp member with rfl | member
    · exact ⟨_, List.mem_cons_self, keeps.isFilled filled⟩
    · rcases ih member with ⟨found, there, filled⟩
      exact ⟨found, List.mem_cons_of_mem _ there, filled⟩

end KeepAll

/-- The second list is the first one with slots filled, from the front up to some place; a complete
filling ends at the end. -/
inductive Reaches (complete : Bool) : List Slot → List Slot → Prop
  | nil : Reaches complete [] []
  | stop (slots : List Slot) : complete = false → Reaches complete slots slots
  | fill {slot filled : Slot} {slots kept : List Slot} :
    slot.Fills filled → Reaches complete slots kept →
    Reaches complete (slot :: slots) (filled :: kept)

namespace Reaches

variable {complete : Bool} {slots kept others others' : List Slot}

theorem keepAll (reaches : Reaches complete slots kept) : KeepAll slots kept := by
  induction reaches with
  | nil => exact .nil
  | stop slots => exact .refl slots
  | fill fills _ ih => exact .cons (.fill fills) ih

/-- Where a filling stops, what comes behind is left alone. -/
theorem append_stop (reaches : Reaches false slots kept) (others : List Slot) :
    Reaches false (slots ++ others) (kept ++ others) := by
  induction reaches with
  | nil => exact .stop _ rfl
  | stop slots => exact .stop _ rfl
  | fill fills _ ih => exact .fill fills ih

theorem append (first : Reaches true slots kept) (second : Reaches complete others others') :
    Reaches complete (slots ++ others) (kept ++ others') := by
  induction first with
  | nil => exact second
  | stop _ incomplete => cases incomplete
  | fill fills _ ih => exact .fill fills ih

end Reaches

end Slot

/-! ## The slots of a tree -/

namespace Expression

mutual

/-- The slots of an expression and of those inside it. -/
def slots : Expression → List Slot
  | .literal note _ => [.ofType note.type]
  | .group note inner => inner.slots ++ [.ofType note.type]
  | .binary note _ left right => left.slots ++ (right.slots ++ [.ofType note.type])
  | .access note _ binding => [.ofVariable binding, .ofType note.type]
  | .memberAccess note receiver _ binding =>
    receiver.slots ++ [.ofVariable binding, .ofType note.type]
  | .call note _ args binding => allSlots args ++ [.ofFunction binding, .ofType note.type]
  | .memberCall note receiver _ args binding =>
    receiver.slots ++ (allSlots args ++ [.ofFunction binding, .ofType note.type])

def allSlots : List Expression → List Slot
  | [] => []
  | e :: es => e.slots ++ allSlots es

end

end Expression

/-- The slots of a declaration: those of its value, then its own. -/
def Declaration.slots (decl : Declaration) : List Slot :=
  (decl.value.elim [] Expression.slots) ++ [.ofVariable decl.binding]

namespace Statement

mutual

def slots : Statement → List Slot
  | .expression value => value.slots
  | .declaration decl => decl.slots
  | .assignment target value => target.slots ++ value.slots
  | .conditional condition thenBody elseBody =>
    condition.slots ++ (allSlots thenBody ++ allSlots elseBody)
  | .forEach _ range body => range.slots ++ allSlots body
  | .loop condition body => condition.slots ++ allSlots body
  | .result value => value.slots

def allSlots : List Statement → List Slot
  | [] => []
  | s :: ss => s.slots ++ allSlots ss

end

end Statement

/-- The slots of a method: its own, then those of its body. -/
def Method.slots (method : Method) : List Slot :=
  .ofFunction method.binding :: Statement.allSlots method.body

/-- The slots of a program. -/
def Program.slots (program : Program) : List Slot :=
  program.fields.flatMap Declaration.slots ++ program.methods.flatMap Method.slots

/-! ## The rest of a tree -/

/-- The note of a node without the type. -/
def Note.cleared (note : Note) : Note :=
  { note with type := none }

mutual

/-- An expression with its slots emptied. -/
def Expression.cleared : Expression → Expression
  | .literal note value => .literal note.cleared value
  | .group note inner => .group note.cleared inner.cleared
  | .binary note operator left right => .binary note.cleared operator left.cleared right.cleared
  | .access note name _ => .access note.cleared name none
  | .memberAccess note receiver name _ => .memberAccess note.cleared receiver.cleared name none
  | .call note name args _ => .call note.cleared name (Expression.clearedAll args) none
  | .memberCall note receiver name args _ =>
    .memberCall note.cleared receiver.cleared name (Expression.clearedAll args) none

def Expression.clearedAll : List Expression → List Expression
  | [] => []
  | e :: es => e.cleared :: Expression.clearedAll es

end

def Declaration.cleared (decl : Declaration) : Declaration :=
  { decl with value := decl.value.map Expression.cleared, binding := none }

mutual

def Statement.cleared : Statement → Statement
  | .expression value => .expression value.cleared
  | .declaration decl => .declaration decl.cleared
  | .assignment target value => .assignment target.cleared value.cleared
  | .conditional condition thenBody elseBody =>
    .conditional condition.cleared (Statement.clearedAll thenBody) (Statement.clearedAll elseBody)
  | .forEach name range body => .forEach name range.cleared (Statement.clearedAll body)
  | .loop condition body => .loop condition.cleared (Statement.clearedAll body)
  | .result value => .result value.cleared

def Statement.clearedAll : List Statement → List Statement
  | [] => []
  | s :: ss => s.cleared :: Statement.clearedAll ss

end

def Method.cleared (method : Method) : Method :=
  { method with body := Statement.clearedAll method.body, binding := none }

/-- A program with its slots emptied. -/
def Program.cleared (program : Program) : Program where
  fields := program.fields.map Declaration.cleared
  methods := program.methods.map Method.cleared

/-! ## The bare tree -/

mutual

@[simp]
theorem Expression.bare_cleared : ∀ e : Expression, e.cleared.bare = e.bare
  | .literal .. | .access .. => rfl
  | .group _ inner => by rw [cleared, bare, bare, inner.bare_cleared]
  | .binary _ _ left right => by rw [cleared, bare, bare, left.bare_cleared, right.bare_cleared]
  | .memberAccess _ receiver _ _ => by rw [cleared, bare, bare, receiver.bare_cleared]
  | .call _ _ args _ => by rw [cleared, bare, bare, Expression.bareAll_clearedAll args]
  | .memberCall _ receiver _ args _ => by
    rw [cleared, bare, bare, receiver.bare_cleared, Expression.bareAll_clearedAll args]

theorem Expression.bareAll_clearedAll : ∀ es : List Expression,
    Expression.bareAll (Expression.clearedAll es) = Expression.bareAll es
  | [] => rfl
  | e :: es => by
    rw [clearedAll, bareAll, bareAll, e.bare_cleared, Expression.bareAll_clearedAll es]

end

@[simp]
theorem Declaration.bare_cleared (decl : Declaration) : decl.cleared.bare = decl.bare := by
  simp [bare, cleared, Function.comp_def]

mutual

theorem Statement.bare_cleared : ∀ s : Statement, s.cleared.bare = s.bare
  | .expression value => by rw [cleared, bare, bare, value.bare_cleared]
  | .declaration decl => by rw [cleared, bare, bare, decl.bare_cleared]
  | .assignment target value => by
    rw [cleared, bare, bare, target.bare_cleared, value.bare_cleared]
  | .conditional condition thenBody elseBody => by
    rw [cleared, bare, bare, condition.bare_cleared, Statement.bareAll_clearedAll thenBody,
      Statement.bareAll_clearedAll elseBody]
  | .forEach _ range body => by
    rw [cleared, bare, bare, range.bare_cleared, Statement.bareAll_clearedAll body]
  | .loop condition body => by
    rw [cleared, bare, bare, condition.bare_cleared, Statement.bareAll_clearedAll body]
  | .result value => by rw [cleared, bare, bare, value.bare_cleared]

theorem Statement.bareAll_clearedAll : ∀ ss : List Statement,
    Statement.bareAll (Statement.clearedAll ss) = Statement.bareAll ss
  | [] => rfl
  | s :: ss => by
    rw [clearedAll, bareAll, bareAll, s.bare_cleared, Statement.bareAll_clearedAll ss]

end

@[simp]
theorem Method.bare_cleared (method : Method) : method.cleared.bare = method.bare := by
  rw [bare, bare, cleared, Statement.bareAll_clearedAll]

theorem Program.bare_cleared (program : Program) : program.cleared.bare = program.bare := by
  simp [bare, cleared, Function.comp_def]

/-! ## Empty and filled slots -/

/-- No slot is filled, as in a program that nobody has checked. -/
def AllEmpty (slots : List Slot) : Prop :=
  ∀ slot ∈ slots, slot.IsEmpty

def AllFilled (slots : List Slot) : Prop :=
  ∀ slot ∈ slots, slot.IsFilled

section

variable {slot : Slot} {slots others : List Slot}

@[simp]
theorem allEmpty_nil : AllEmpty [] :=
  List.forall_mem_nil _

@[simp]
theorem allEmpty_cons : AllEmpty (slot :: slots) ↔ slot.IsEmpty ∧ AllEmpty slots :=
  List.forall_mem_cons

@[simp]
theorem allEmpty_append : AllEmpty (slots ++ others) ↔ AllEmpty slots ∧ AllEmpty others :=
  List.forall_mem_append

@[simp]
theorem allFilled_nil : AllFilled [] :=
  List.forall_mem_nil _

@[simp]
theorem allFilled_cons : AllFilled (slot :: slots) ↔ slot.IsFilled ∧ AllFilled slots :=
  List.forall_mem_cons

@[simp]
theorem allFilled_append : AllFilled (slots ++ others) ↔ AllFilled slots ∧ AllFilled others :=
  List.forall_mem_append

theorem allFilled_flatMap {α : Type} {parts : α → List Slot} {items : List α} :
    AllFilled (items.flatMap parts) ↔ ∀ item ∈ items, AllFilled (parts item) :=
  List.forall_mem_flatMap

theorem allEmpty_flatMap {α : Type} {parts : α → List Slot} {items : List α} :
    AllEmpty (items.flatMap parts) ↔ ∀ item ∈ items, AllEmpty (parts item) :=
  List.forall_mem_flatMap

/-- A complete filling found all slots empty and has filled them. -/
theorem Slot.Reaches.allFilled {kept : List Slot} (reaches : Slot.Reaches true slots kept) :
    AllEmpty slots ∧ AllFilled kept := by
  induction reaches with
  | nil => exact ⟨allEmpty_nil, allFilled_nil⟩
  | stop _ incomplete => cases incomplete
  | fill fills _ ih =>
    exact ⟨allEmpty_cons.mpr ⟨fills.isEmpty, ih.1⟩, allFilled_cons.mpr ⟨fills.isFilled, ih.2⟩⟩

end

end Primer
