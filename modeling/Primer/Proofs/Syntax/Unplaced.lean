import Primer.Java
import Primer.Proofs.Syntax.Bare

/-!
# Programs without their places

An unplaced tree is a tree whose nodes have all been moved to the beginning of the text.  Nothing
else is lost: names, constants, operators, names of types and slots stay.  Neither the Java text nor
the bare tree of a program looks at a place.
-/

namespace Primer

def Span.origin : Span := ⟨0, 0⟩

def Note.unplaced (note : Note) : Note :=
  { note with span := .origin }

mutual

/-- An expression without its places. -/
def Expression.unplaced : Expression → Expression
  | .literal note value => .literal note.unplaced value
  | .group note inner => .group note.unplaced inner.unplaced
  | .binary note operator left right =>
    .binary note.unplaced operator left.unplaced right.unplaced
  | .access note name binding => .access note.unplaced name binding
  | .memberAccess note receiver name binding =>
    .memberAccess note.unplaced receiver.unplaced name binding
  | .call note name args binding => .call note.unplaced name (Expression.unplacedAll args) binding
  | .memberCall note receiver name args binding =>
    .memberCall note.unplaced receiver.unplaced name (Expression.unplacedAll args) binding

def Expression.unplacedAll : List Expression → List Expression
  | [] => []
  | e :: es => e.unplaced :: Expression.unplacedAll es

end

def Declaration.unplaced (decl : Declaration) : Declaration :=
  { decl with value := decl.value.map Expression.unplaced, span := .origin }

mutual

def Statement.unplaced : Statement → Statement
  | .expression value => .expression value.unplaced
  | .declaration decl => .declaration decl.unplaced
  | .assignment target value => .assignment target.unplaced value.unplaced
  | .conditional condition thenBody elseBody =>
    .conditional condition.unplaced (Statement.unplacedAll thenBody)
      (Statement.unplacedAll elseBody)
  | .forEach name range body => .forEach name range.unplaced (Statement.unplacedAll body)
  | .loop condition body => .loop condition.unplaced (Statement.unplacedAll body)
  | .result value => .result value.unplaced

def Statement.unplacedAll : List Statement → List Statement
  | [] => []
  | s :: ss => s.unplaced :: Statement.unplacedAll ss

end

def Method.unplaced (method : Method) : Method :=
  { method with body := Statement.unplacedAll method.body, span := .origin }

def Program.unplaced (program : Program) : Program where
  fields := program.fields.map Declaration.unplaced
  methods := program.methods.map Method.unplaced

theorem Expression.unplacedAll_eq_map (es : List Expression) :
    Expression.unplacedAll es = es.map Expression.unplaced := by
  induction es with
  | nil => rfl
  | cons e es ih => rw [unplacedAll, ih, List.map_cons]

theorem Statement.unplacedAll_eq_map (ss : List Statement) :
    Statement.unplacedAll ss = ss.map Statement.unplaced := by
  induction ss with
  | nil => rfl
  | cons s ss ih => rw [unplacedAll, ih, List.map_cons]

@[simp]
theorem Expression.length_unplacedAll (es : List Expression) :
    (Expression.unplacedAll es).length = es.length := by
  rw [unplacedAll_eq_map, List.length_map]

@[simp]
theorem Statement.isEmpty_unplacedAll (ss : List Statement) :
    (Statement.unplacedAll ss).isEmpty = ss.isEmpty := by
  cases ss <;> rfl

/-! ## The bare tree -/

mutual

@[simp]
theorem Expression.bare_unplaced : ∀ e : Expression, e.unplaced.bare = e.bare
  | .literal .. | .access .. => rfl
  | .group _ inner => by rw [unplaced, bare, bare, inner.bare_unplaced]
  | .binary _ _ left right => by
    rw [unplaced, bare, bare, left.bare_unplaced, right.bare_unplaced]
  | .memberAccess _ receiver _ _ => by rw [unplaced, bare, bare, receiver.bare_unplaced]
  | .call _ _ args _ => by rw [unplaced, bare, bare, Expression.bareAll_unplacedAll args]
  | .memberCall _ receiver _ args _ => by
    rw [unplaced, bare, bare, receiver.bare_unplaced, Expression.bareAll_unplacedAll args]

theorem Expression.bareAll_unplacedAll : ∀ es : List Expression,
    Expression.bareAll (Expression.unplacedAll es) = Expression.bareAll es
  | [] => rfl
  | e :: es => by
    rw [unplacedAll, bareAll, bareAll, e.bare_unplaced, Expression.bareAll_unplacedAll es]

end

@[simp]
theorem Declaration.bare_unplaced (decl : Declaration) : decl.unplaced.bare = decl.bare := by
  simp [bare, unplaced, Function.comp_def]

mutual

@[simp]
theorem Statement.bare_unplaced : ∀ s : Statement, s.unplaced.bare = s.bare
  | .expression value => by rw [unplaced, bare, bare, value.bare_unplaced]
  | .declaration decl => by rw [unplaced, bare, bare, decl.bare_unplaced]
  | .assignment target value => by
    rw [unplaced, bare, bare, target.bare_unplaced, value.bare_unplaced]
  | .conditional condition thenBody elseBody => by
    rw [unplaced, bare, bare, condition.bare_unplaced, Statement.bareAll_unplacedAll thenBody,
      Statement.bareAll_unplacedAll elseBody]
  | .forEach _ range body => by
    rw [unplaced, bare, bare, range.bare_unplaced, Statement.bareAll_unplacedAll body]
  | .loop condition body => by
    rw [unplaced, bare, bare, condition.bare_unplaced, Statement.bareAll_unplacedAll body]
  | .result value => by rw [unplaced, bare, bare, value.bare_unplaced]

theorem Statement.bareAll_unplacedAll : ∀ ss : List Statement,
    Statement.bareAll (Statement.unplacedAll ss) = Statement.bareAll ss
  | [] => rfl
  | s :: ss => by
    rw [unplacedAll, bareAll, bareAll, s.bare_unplaced, Statement.bareAll_unplacedAll ss]

end

@[simp]
theorem Method.bare_unplaced (method : Method) : method.unplaced.bare = method.bare := by
  rw [bare, bare, unplaced, Statement.bareAll_unplacedAll]

theorem Program.bare_unplaced (program : Program) : program.unplaced.bare = program.bare := by
  simp [bare, unplaced, Function.comp_def]

/-! ## The Java text -/

mutual

@[simp]
theorem Expression.toJava_unplaced : ∀ e : Expression, e.unplaced.toJava = e.toJava
  | .literal .. | .access .. => rfl
  | .group _ inner => by rw [unplaced, toJava, toJava, inner.toJava_unplaced]
  | .binary _ _ left right => by
    rw [unplaced, toJava, toJava, left.toJava_unplaced, right.toJava_unplaced]
  | .memberAccess _ receiver _ _ => by rw [unplaced, toJava, toJava, receiver.toJava_unplaced]
  | .call _ _ args _ => by rw [unplaced, toJava, toJava, Expression.allToJava_unplacedAll args]
  | .memberCall _ receiver _ args _ => by
    rw [unplaced, toJava, toJava, receiver.toJava_unplaced, Expression.allToJava_unplacedAll args]

theorem Expression.allToJava_unplacedAll : ∀ es : List Expression,
    Expression.allToJava (Expression.unplacedAll es) = Expression.allToJava es
  | [] => rfl
  | e :: es => by
    rw [unplacedAll, allToJava, allToJava, e.toJava_unplaced, Expression.allToJava_unplacedAll es]

end

@[simp]
theorem Declaration.toJava_unplaced (depth : Nat) (decl : Declaration) :
    decl.unplaced.toJava depth = decl.toJava depth := by
  rcases decl with ⟨name, typeName, value, span, binding⟩
  cases value with
  | none => rfl
  | some value => simp only [toJava, unplaced, Option.map_some, value.toJava_unplaced]

mutual

@[simp]
theorem Statement.toJava_unplaced (depth : Nat) : ∀ s : Statement,
    s.unplaced.toJava depth = s.toJava depth
  | .expression value => by rw [unplaced, toJava, toJava, value.toJava_unplaced]
  | .declaration decl => by rw [unplaced, toJava, toJava, decl.toJava_unplaced]
  | .assignment target value => by
    rw [unplaced, toJava, toJava, target.toJava_unplaced, value.toJava_unplaced]
  | .conditional condition thenBody elseBody => by
    rw [unplaced, toJava, toJava, condition.toJava_unplaced, isEmpty_unplacedAll,
      Statement.allToJava_unplacedAll _ thenBody, Statement.allToJava_unplacedAll _ elseBody]
  | .forEach _ range body => by
    rw [unplaced, toJava, toJava, range.toJava_unplaced, Statement.allToJava_unplacedAll _ body]
  | .loop condition body => by
    rw [unplaced, toJava, toJava, condition.toJava_unplaced, Statement.allToJava_unplacedAll _ body]
  | .result value => by rw [unplaced, toJava, toJava, value.toJava_unplaced]

theorem Statement.allToJava_unplacedAll (depth : Nat) : ∀ ss : List Statement,
    Statement.allToJava depth (Statement.unplacedAll ss) = Statement.allToJava depth ss
  | [] => rfl
  | s :: ss => by
    rw [unplacedAll, allToJava, allToJava, s.toJava_unplaced, Statement.allToJava_unplacedAll _ ss]

end

@[simp]
theorem Method.toJava_unplaced (method : Method) : method.unplaced.toJava = method.toJava := by
  rw [toJava, toJava, unplaced, Statement.allToJava_unplacedAll]

theorem Program.toJava_unplaced (program : Program) :
    program.unplaced.toJava = program.toJava := by
  have lines : program.unplaced.javaLines = program.javaLines := by
    simp [javaLines, unplaced, List.mapM_map, Function.comp_def]
  rw [toJava, toJava, lines]

end Primer
