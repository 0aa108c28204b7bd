import Primer.Syntax.Basic

/-!
# Every node of a program

`Program.Everywhere` says that each node of a program, looked at by itself, obeys a rule for nodes
of its kind.  `Program.expressions` lists the expressions of a program, those inside others
included: what holds everywhere in the program holds everywhere in each of them.
-/

namespace Primer

/-- What is asked of a node of each kind. -/
structure Rules where
  expression : Expression → Prop
  declaration : Declaration → Prop
  statement : Statement → Prop
  method : Method → Prop

/-! ## Nodes -/

namespace Expression

mutual

def Everywhere (rule : Expression → Prop) : Expression → Prop
  | .literal note value => rule (.literal note value)
  | .group note inner => rule (.group note inner) ∧ inner.Everywhere rule
  | .binary note operator left right =>
    rule (.binary note operator left right) ∧ left.Everywhere rule ∧ right.Everywhere rule
  | .access note name binding => rule (.access note name binding)
  | .memberAccess note receiver name binding =>
    rule (.memberAccess note receiver name binding) ∧ receiver.Everywhere rule
  | .call note name args binding => rule (.call note name args binding) ∧ EverywhereAll rule args
  | .memberCall note receiver name args binding =>
    rule (.memberCall note receiver name args binding) ∧ receiver.Everywhere rule ∧
      EverywhereAll rule args

def EverywhereAll (rule : Expression → Prop) : List Expression → Prop
  | [] => True
  | e :: es => e.Everywhere rule ∧ EverywhereAll rule es

end

mutual

/-- An expression and the expressions inside it. -/
def parts : Expression → List Expression
  | .literal note value => [.literal note value]
  | .group note inner => .group note inner :: inner.parts
  | .binary note operator left right =>
    .binary note operator left right :: (left.parts ++ right.parts)
  | .access note name binding => [.access note name binding]
  | .memberAccess note receiver name binding =>
    .memberAccess note receiver name binding :: receiver.parts
  | .call note name args binding => .call note name args binding :: allParts args
  | .memberCall note receiver name args binding =>
    .memberCall note receiver name args binding :: (receiver.parts ++ allParts args)

def allParts : List Expression → List Expression
  | [] => []
  | e :: es => e.parts ++ allParts es

end

mutual

/-- A rule that can be checked can be checked everywhere. -/
instance decidableEverywhere (rule : Expression → Prop) [DecidablePred rule] :
    (e : Expression) → Decidable (e.Everywhere rule)
  | .literal note value => inferInstanceAs (Decidable (rule (.literal note value)))
  | .group note inner =>
    have := decidableEverywhere rule inner
    inferInstanceAs (Decidable (rule (.group note inner) ∧ _))
  | .binary note operator left right =>
    have := decidableEverywhere rule left
    have := decidableEverywhere rule right
    inferInstanceAs (Decidable (rule (.binary note operator left right) ∧ _ ∧ _))
  | .access note name binding => inferInstanceAs (Decidable (rule (.access note name binding)))
  | .memberAccess note receiver name binding =>
    have := decidableEverywhere rule receiver
    inferInstanceAs (Decidable (rule (.memberAccess note receiver name binding) ∧ _))
  | .call note name args binding =>
    have := decidableEverywhereAll rule args
    inferInstanceAs (Decidable (rule (.call note name args binding) ∧ _))
  | .memberCall note receiver name args binding =>
    have := decidableEverywhere rule receiver
    have := decidableEverywhereAll rule args
    inferInstanceAs (Decidable (rule (.memberCall note receiver name args binding) ∧ _ ∧ _))

instance decidableEverywhereAll (rule : Expression → Prop) [DecidablePred rule] :
    (es : List Expression) → Decidable (EverywhereAll rule es)
  | [] => inferInstanceAs (Decidable True)
  | e :: es =>
    have := decidableEverywhere rule e
    have := decidableEverywhereAll rule es
    inferInstanceAs (Decidable (_ ∧ _))

end

variable {rule : Expression → Prop}

theorem everywhereAll_iff {es : List Expression} :
    EverywhereAll rule es ↔ ∀ e ∈ es, e.Everywhere rule := by
  induction es with
  | nil => simp [EverywhereAll]
  | cons e es ih => simp [EverywhereAll, ih]

mutual

theorem everywhere_of_mem_parts : (e : Expression) → e.Everywhere rule →
    ∀ part ∈ e.parts, part.Everywhere rule
  | .literal .., everywhere, part, member | .access .., everywhere, part, member => by
    obtain rfl := List.mem_singleton.mp member
    exact everywhere
  | .group _ inner, everywhere, part, member
  | .memberAccess _ inner .., everywhere, part, member => by
    obtain rfl | member := List.mem_cons.mp member
    · exact everywhere
    · exact everywhere_of_mem_parts inner everywhere.2 part member
  | .binary _ _ left right, everywhere, part, member => by
    obtain rfl | member := List.mem_cons.mp member
    · exact everywhere
    obtain member | member := List.mem_append.mp member
    · exact everywhere_of_mem_parts left everywhere.2.1 part member
    · exact everywhere_of_mem_parts right everywhere.2.2 part member
  | .call _ _ args _, everywhere, part, member => by
    obtain rfl | member := List.mem_cons.mp member
    · exact everywhere
    · exact everywhere_of_mem_allParts args everywhere.2 part member
  | .memberCall _ receiver _ args _, everywhere, part, member => by
    obtain rfl | member := List.mem_cons.mp member
    · exact everywhere
    obtain member | member := List.mem_append.mp member
    · exact everywhere_of_mem_parts receiver everywhere.2.1 part member
    · exact everywhere_of_mem_allParts args everywhere.2.2 part member

theorem everywhere_of_mem_allParts : (es : List Expression) → EverywhereAll rule es →
    ∀ part ∈ allParts es, part.Everywhere rule
  | e :: es, everywhere, part, member => by
    obtain member | member := List.mem_append.mp member
    · exact everywhere_of_mem_parts e everywhere.1 part member
    · exact everywhere_of_mem_allParts es everywhere.2 part member

end

mutual

/-- What holds of an expression and of each inside it holds everywhere. -/
theorem everywhere_of_parts : (e : Expression) → (∀ part ∈ e.parts, rule part) → e.Everywhere rule
  | .literal .., holds | .access .., holds => holds _ List.mem_cons_self
  | .group _ inner, holds | .memberAccess _ inner .., holds => by
    rcases List.forall_mem_cons.mp holds with ⟨here, inside⟩
    exact ⟨here, everywhere_of_parts inner inside⟩
  | .binary _ _ left right, holds => by
    rcases List.forall_mem_cons.mp holds with ⟨here, inside⟩
    rcases List.forall_mem_append.mp inside with ⟨onLeft, onRight⟩
    exact ⟨here, everywhere_of_parts left onLeft, everywhere_of_parts right onRight⟩
  | .call _ _ args _, holds => by
    rcases List.forall_mem_cons.mp holds with ⟨here, inside⟩
    exact ⟨here, everywhereAll_of_parts args inside⟩
  | .memberCall _ receiver _ args _, holds => by
    rcases List.forall_mem_cons.mp holds with ⟨here, inside⟩
    rcases List.forall_mem_append.mp inside with ⟨onReceiver, onArgs⟩
    exact ⟨here, everywhere_of_parts receiver onReceiver, everywhereAll_of_parts args onArgs⟩

theorem everywhereAll_of_parts : (es : List Expression) → (∀ part ∈ allParts es, rule part) →
    EverywhereAll rule es
  | [], _ => trivial
  | e :: es, holds => by
    rcases List.forall_mem_append.mp holds with ⟨first, others⟩
    exact ⟨everywhere_of_parts e first, everywhereAll_of_parts es others⟩

end

end Expression

/-- A rule for expressions alone. -/
def Rules.ofExpressions (rule : Expression → Prop) : Rules where
  expression := rule
  declaration _ := True
  statement _ := True
  method _ := True

namespace Declaration

def Everywhere (rules : Rules) (decl : Declaration) : Prop :=
  rules.declaration decl ∧ ∀ value ∈ decl.value, value.Everywhere rules.expression

def expressions (decl : Declaration) : List Expression :=
  decl.value.toList.flatMap Expression.parts

theorem everywhere_of_mem_expressions {rules : Rules} {decl : Declaration}
    (everywhere : decl.Everywhere rules) :
    ∀ e ∈ decl.expressions, e.Everywhere rules.expression := by
  intro e member
  obtain ⟨value, found, member⟩ := List.mem_flatMap.mp member
  exact Expression.everywhere_of_mem_parts value
    (everywhere.2 value (Option.mem_toList.mp found)) e member

theorem everywhere_of_expressions {rule : Expression → Prop} {decl : Declaration}
    (holds : ∀ e ∈ decl.expressions, rule e) : decl.Everywhere (.ofExpressions rule) := by
  refine ⟨trivial, ?_⟩
  intro value found
  refine value.everywhere_of_parts fun part member => holds part ?_
  exact List.mem_flatMap.mpr ⟨value, Option.mem_toList.mpr found, member⟩

end Declaration

namespace Statement

mutual

def Everywhere (rules : Rules) : Statement → Prop
  | .expression value => rules.statement (.expression value) ∧ value.Everywhere rules.expression
  | .declaration decl => rules.statement (.declaration decl) ∧ decl.Everywhere rules
  | .assignment target value =>
    rules.statement (.assignment target value) ∧ target.Everywhere rules.expression ∧
      value.Everywhere rules.expression
  | .conditional condition thenBody elseBody =>
    rules.statement (.conditional condition thenBody elseBody) ∧
      condition.Everywhere rules.expression ∧ EverywhereAll rules thenBody ∧
      EverywhereAll rules elseBody
  | .forEach name range body =>
    rules.statement (.forEach name range body) ∧ range.Everywhere rules.expression ∧
      EverywhereAll rules body
  | .loop condition body =>
    rules.statement (.loop condition body) ∧ condition.Everywhere rules.expression ∧
      EverywhereAll rules body
  | .result value => rules.statement (.result value) ∧ value.Everywhere rules.expression

def EverywhereAll (rules : Rules) : List Statement → Prop
  | [] => True
  | s :: ss => s.Everywhere rules ∧ EverywhereAll rules ss

end

mutual

def expressions : Statement → List Expression
  | .expression value | .result value => value.parts
  | .declaration decl => decl.expressions
  | .assignment target value => target.parts ++ value.parts
  | .conditional condition thenBody elseBody =>
    condition.parts ++ (allExpressions thenBody ++ allExpressions elseBody)
  | .forEach _ range body => range.parts ++ allExpressions body
  | .loop condition body => condition.parts ++ allExpressions body

def allExpressions : List Statement → List Expression
  | [] => []
  | s :: ss => s.expressions ++ allExpressions ss

end

variable {rules : Rules}

theorem everywhereAll_iff {ss : List Statement} :
    EverywhereAll rules ss ↔ ∀ s ∈ ss, s.Everywhere rules := by
  induction ss with
  | nil => simp [EverywhereAll]
  | cons s ss ih => simp [EverywhereAll, ih]

mutual

theorem everywhere_of_mem_expressions : (s : Statement) → s.Everywhere rules →
    ∀ e ∈ s.expressions, e.Everywhere rules.expression
  | .expression value, everywhere, e, member | .result value, everywhere, e, member =>
    Expression.everywhere_of_mem_parts value everywhere.2 e member
  | .declaration _, everywhere, e, member =>
    Declaration.everywhere_of_mem_expressions everywhere.2 e member
  | .assignment target value, everywhere, e, member => by
    obtain member | member := List.mem_append.mp member
    · exact Expression.everywhere_of_mem_parts target everywhere.2.1 e member
    · exact Expression.everywhere_of_mem_parts value everywhere.2.2 e member
  | .conditional condition thenBody elseBody, everywhere, e, member => by
    obtain member | member := List.mem_append.mp member
    · exact Expression.everywhere_of_mem_parts condition everywhere.2.1 e member
    obtain member | member := List.mem_append.mp member
    · exact everywhere_of_mem_allExpressions thenBody everywhere.2.2.1 e member
    · exact everywhere_of_mem_allExpressions elseBody everywhere.2.2.2 e member
  | .forEach _ head body, everywhere, e, member | .loop head body, everywhere, e, member => by
    obtain member | member := List.mem_append.mp member
    · exact Expression.everywhere_of_mem_parts head everywhere.2.1 e member
    · exact everywhere_of_mem_allExpressions body everywhere.2.2 e member

theorem everywhere_of_mem_allExpressions : (ss : List Statement) → EverywhereAll rules ss →
    ∀ e ∈ allExpressions ss, e.Everywhere rules.expression
  | s :: ss, everywhere, e, member => by
    obtain member | member := List.mem_append.mp member
    · exact everywhere_of_mem_expressions s everywhere.1 e member
    · exact everywhere_of_mem_allExpressions ss everywhere.2 e member

end

mutual

theorem everywhere_of_expressions {rule : Expression → Prop} : (s : Statement) →
    (∀ e ∈ s.expressions, rule e) → s.Everywhere (.ofExpressions rule)
  | .expression value, holds | .result value, holds => ⟨trivial, value.everywhere_of_parts holds⟩
  | .declaration _, holds => ⟨trivial, Declaration.everywhere_of_expressions holds⟩
  | .assignment target value, holds => by
    rcases List.forall_mem_append.mp holds with ⟨onTarget, onValue⟩
    exact ⟨trivial, target.everywhere_of_parts onTarget, value.everywhere_of_parts onValue⟩
  | .conditional condition thenBody elseBody, holds => by
    rcases List.forall_mem_append.mp holds with ⟨onCondition, inside⟩
    rcases List.forall_mem_append.mp inside with ⟨onThen, onElse⟩
    exact ⟨trivial, condition.everywhere_of_parts onCondition,
      everywhereAll_of_expressions thenBody onThen, everywhereAll_of_expressions elseBody onElse⟩
  | .forEach _ head body, holds | .loop head body, holds => by
    rcases List.forall_mem_append.mp holds with ⟨onHead, inside⟩
    exact ⟨trivial, head.everywhere_of_parts onHead, everywhereAll_of_expressions body inside⟩

theorem everywhereAll_of_expressions {rule : Expression → Prop} : (ss : List Statement) →
    (∀ e ∈ allExpressions ss, rule e) → EverywhereAll (.ofExpressions rule) ss
  | [], _ => trivial
  | s :: ss, holds => by
    rcases List.forall_mem_append.mp holds with ⟨first, others⟩
    exact ⟨everywhere_of_expressions s first, everywhereAll_of_expressions ss others⟩

end

end Statement

def Method.Everywhere (rules : Rules) (method : Method) : Prop :=
  rules.method method ∧ Statement.EverywhereAll rules method.body

namespace Program

/-- Every node of the program obeys the rule for its kind. -/
def Everywhere (rules : Rules) (program : Program) : Prop :=
  (∀ field ∈ program.fields, field.Everywhere rules) ∧
    ∀ method ∈ program.methods, method.Everywhere rules

/-- The expressions of a program, those inside others included. -/
def expressions (program : Program) : List Expression :=
  program.fields.flatMap Declaration.expressions ++
    program.methods.flatMap fun method => Statement.allExpressions method.body

theorem everywhere_of_mem_expressions {rules : Rules} {program : Program}
    (everywhere : program.Everywhere rules) :
    ∀ e ∈ program.expressions, e.Everywhere rules.expression := by
  intro e member
  obtain member | member := List.mem_append.mp member
  · obtain ⟨field, found, member⟩ := List.mem_flatMap.mp member
    exact Declaration.everywhere_of_mem_expressions (everywhere.1 field found) e member
  · obtain ⟨method, found, member⟩ := List.mem_flatMap.mp member
    exact Statement.everywhere_of_mem_allExpressions method.body (everywhere.2 method found).2 e
      member

/-- A rule for expressions alone is obeyed everywhere if each expression obeys it. -/
theorem everywhere_of_expressions {rule : Expression → Prop} {program : Program}
    (holds : ∀ e ∈ program.expressions, rule e) : program.Everywhere (.ofExpressions rule) := by
  rcases List.forall_mem_append.mp holds with ⟨onFields, onMethods⟩
  refine ⟨?_, ?_⟩
  · intro field found
    refine Declaration.everywhere_of_expressions fun e member => onFields e ?_
    exact List.mem_flatMap.mpr ⟨field, found, member⟩
  · intro method found
    refine ⟨trivial, Statement.everywhereAll_of_expressions method.body fun e member =>
      onMethods e ?_⟩
    exact List.mem_flatMap.mpr ⟨method, found, member⟩

end Program

/-! ## Calls -/

/-- If the expression is a call by name, its key is known. -/
def Expression.Calls (known : FunctionKey → Prop) : Expression → Prop
  | .call _ name args _ => known ⟨name, args.length⟩
  | _ => True

instance Expression.decidableCalls (known : FunctionKey → Prop) [DecidablePred known] :
    DecidablePred (Expression.Calls known)
  | .call _ name args _ => inferInstanceAs (Decidable (known ⟨name, args.length⟩))
  | .literal .. | .group .. | .binary .. | .access .. | .memberAccess .. | .memberCall .. =>
    inferInstanceAs (Decidable True)

theorem Expression.Calls.mono {known more : FunctionKey → Prop} {e : Expression}
    (weaken : ∀ key, known key → more key) (calls : e.Calls known) : e.Calls more := by
  cases e
  case call => exact weaken _ calls
  all_goals trivial

end Primer
