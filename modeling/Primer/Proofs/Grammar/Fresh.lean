import Primer.Proofs.Grammar.Soundness
import Primer.Proofs.Syntax.Slots

/-!
# Reading leaves the slots empty

A program that is read from tokens, whatever tokens they are, has not been checked: no slot of it is
filled.  `Gives` says what a reader's results are like, with a rule for each way to build readers.
-/

namespace Primer

namespace Reader

variable {α β : Type} {holds : α → Prop} {holds' : β → Prop}

/-- Whatever the reader gives, it is as described. -/
def Gives (reader : Reader α) (holds : α → Prop) : Prop :=
  ∀ c d a, reader c = .ok (a, d) → holds a

namespace Gives

theorem anything (reader : Reader α) : reader.Gives fun _ => True :=
  fun _ _ _ _ => trivial

theorem pure {a : α} (fine : holds a) : Gives (pure a) holds := by
  intro c d b read
  rcases pure_eq_ok.mp read with ⟨rfl, rfl⟩
  exact fine

theorem bind {first : Reader α} {next : α → Reader β} (gives : first.Gives holds)
    (then_gives : ∀ a, holds a → (next a).Gives holds') : (first >>= next).Gives holds' := by
  intro c d b read
  rcases bind_eq_ok.mp read with ⟨a, m, first_read, next_read⟩
  exact then_gives a (gives c m a first_read) m d b next_read

/-- A step whose result does not matter. -/
theorem skip {first : Reader α} {next : α → Reader β} (then_gives : ∀ a, (next a).Gives holds') :
    (first >>= next).Gives holds' :=
  .bind (.anything first) fun a _ => then_gives a

theorem many {opener : Cursor → Option (β × Cursor)} {item : β → Reader α}
    (gives : ∀ b, (item b).Gives holds) :
    (many opener item).Gives fun items => ∀ a ∈ items, holds a := by
  intro c d items read
  unfold Reader.many at read
  generalize c.rest.length = bound at read
  induction bound generalizing c items with
  | zero =>
    rcases pure_eq_ok.mp read with ⟨rfl, rfl⟩
    exact List.forall_mem_nil _
  | succ bound ih =>
    unfold manyWithin at read
    split at read
    · cases read
      exact List.forall_mem_nil _
    · rename_i opening m opened
      rcases bind_eq_ok.mp read with ⟨a, n, first, read⟩
      rcases bind_eq_ok.mp read with ⟨others, n', rest, done⟩
      rcases pure_eq_ok.mp done with ⟨rfl, rfl⟩
      exact List.forall_mem_cons.mpr ⟨gives opening m n a first, ih n others rest⟩

theorem after {text : String} {item : Reader α} (gives : item.Gives holds) :
    (after text item).Gives fun found => ∀ a ∈ found, holds a := by
  intro c d found read
  rcases after_eq_ok read with ⟨rfl, -⟩ | ⟨token, m, a, -, -, inner, rfl⟩
  · exact fun _ absent => nomatch absent
  · intro b present
    cases present
    exact gives m d a inner

theorem commaSeparated {item : Reader α} (gives : item.Gives holds) :
    (commaSeparated item).Gives fun items => ∀ a ∈ items, holds a := by
  refine .skip fun found => ?_
  cases found with
  | some closing => exact .pure (List.forall_mem_nil _)
  | none =>
    refine .bind gives fun first fine => ?_
    refine .bind (.many fun _ => gives) fun others fineOthers => ?_
    exact .skip fun _ => .pure (List.forall_mem_cons.mpr ⟨fine, fineOthers⟩)

end Gives

/-! ## Expressions -/

/-- The expression has no filled slot. -/
abbrev FreshExpression (e : Expression) : Prop :=
  AllEmpty e.slots

theorem allEmpty_allSlots {es : List Expression} (fresh : ∀ e ∈ es, FreshExpression e) :
    AllEmpty (Expression.allSlots es) := by
  induction es with
  | nil => exact allEmpty_nil
  | cons e es ih =>
    rcases List.forall_mem_cons.mp fresh with ⟨first, others⟩
    exact allEmpty_append.mpr ⟨first, ih others⟩

theorem allEmpty_type : AllEmpty [.ofType none] :=
  allEmpty_cons.mpr ⟨rfl, allEmpty_nil⟩

theorem allEmpty_binding {slot : Slot} (empty : slot.IsEmpty) : AllEmpty [slot, .ofType none] :=
  allEmpty_cons.mpr ⟨empty, allEmpty_type⟩

variable {expression : Reader Expression}

theorem operand_fresh (gives : expression.Gives FreshExpression) :
    (operand expression).Gives FreshExpression := by
  refine .skip fun start => ?_
  cases start with
  | literal span decoded => exact .skip fun _ => .pure allEmpty_type
  | parenthesis start =>
    refine .bind gives fun inner fresh => .skip fun _ => .skip fun _ => .pure ?_
    exact allEmpty_append.mpr ⟨fresh, allEmpty_type⟩
  | name span name =>
    refine .bind (.after (.commaSeparated gives)) fun arguments fresh => ?_
    cases arguments with
    | none => exact .pure (allEmpty_binding rfl)
    | some args =>
      refine .skip fun _ => .pure ?_
      exact allEmpty_append.mpr ⟨allEmpty_allSlots (fresh args rfl), allEmpty_binding rfl⟩

theorem suffix_fresh (gives : expression.Gives FreshExpression) :
    (suffix expression).Gives fun found =>
      ∀ args ∈ found.arguments, ∀ e ∈ args, FreshExpression e :=
  .skip fun _ => .bind (.after (.commaSeparated gives)) fun _ fresh => .skip fun _ => .pure fresh

theorem attach_fresh {receiver : Expression} {found : Suffix} (fresh : FreshExpression receiver)
    (freshArguments : ∀ args ∈ found.arguments, ∀ e ∈ args, FreshExpression e) :
    FreshExpression (found.attach receiver) := by
  rcases found with ⟨name, arguments, stop⟩
  cases arguments with
  | none => exact allEmpty_append.mpr ⟨fresh, allEmpty_binding rfl⟩
  | some args =>
    refine allEmpty_append.mpr ⟨fresh, allEmpty_append.mpr ⟨?_, allEmpty_binding rfl⟩⟩
    exact allEmpty_allSlots (freshArguments args rfl)

theorem foldl_fresh {join : Expression → α → Expression}
    (joins : ∀ e a, FreshExpression e → holds a → FreshExpression (join e a)) {first : Expression}
    {items : List α} (fresh : FreshExpression first) (fine : ∀ a ∈ items, holds a) :
    FreshExpression (items.foldl join first) := by
  induction items generalizing first with
  | nil => exact fresh
  | cons a items ih =>
    rcases List.forall_mem_cons.mp fine with ⟨here, others⟩
    exact ih (joins first a fresh here) others

theorem selection_fresh (gives : expression.Gives FreshExpression) :
    (selection expression).Gives FreshExpression := by
  refine .bind (operand_fresh gives) fun first fresh => ?_
  refine .bind (.many fun _ => suffix_fresh gives) fun suffixes fine => .pure ?_
  exact foldl_fresh (fun _ _ => attach_fresh) fresh fine

theorem level_fresh (precedence : Precedence) {tighter : Reader Expression}
    (gives : tighter.Gives FreshExpression) : (level precedence tighter).Gives FreshExpression := by
  have items : ∀ operator : Operator,
      Gives (do return (operator, ← tighter)) fun item => FreshExpression item.2 :=
    fun _ => .bind gives fun _ fresh => .pure fresh
  refine .bind gives fun first fresh => .bind (.many items) fun others fine => .pure ?_
  refine foldl_fresh (fun left item freshLeft freshRight => ?_) fresh fine
  exact allEmpty_append.mpr ⟨freshLeft, allEmpty_append.mpr ⟨freshRight, allEmpty_type⟩⟩

theorem expressionWithin_fresh (bound : Nat) : (expressionWithin bound).Gives FreshExpression := by
  induction bound with
  | zero => exact fun _ _ _ read => nomatch read
  | succ bound ih =>
    exact level_fresh _ (level_fresh _ (level_fresh _ (level_fresh _ (selection_fresh ih))))

theorem expression_fresh : Gives Reader.expression FreshExpression :=
  fun c => expressionWithin_fresh c.rest.length c

/-! ## Programs -/

theorem declarationAfter_fresh (opening : Token) :
    (declarationAfter opening).Gives fun decl => AllEmpty decl.slots := by
  refine .skip fun name => .skip fun typeName => ?_
  refine .bind (.after expression_fresh) fun value fresh => .skip fun _ => .skip fun _ => .pure ?_
  refine allEmpty_append.mpr ⟨?_, allEmpty_cons.mpr ⟨rfl, allEmpty_nil⟩⟩
  cases value with
  | none => exact allEmpty_nil
  | some value => exact fresh value rfl

/-- The statement has no filled slot. -/
abbrev FreshStatement (s : Statement) : Prop :=
  AllEmpty s.slots

theorem allEmpty_allStatementSlots {ss : List Statement} (fresh : ∀ s ∈ ss, FreshStatement s) :
    AllEmpty (Statement.allSlots ss) := by
  induction ss with
  | nil => exact allEmpty_nil
  | cons s ss ih =>
    rcases List.forall_mem_cons.mp fresh with ⟨first, others⟩
    exact allEmpty_append.mpr ⟨first, ih others⟩

section

variable {statement : Reader Statement} (gives : statement.Gives FreshStatement)

include gives

theorem block_fresh (terminators : List String) :
    (block terminators statement).Gives fun ss => AllEmpty (Statement.allSlots ss) :=
  fun c d ss read => allEmpty_allStatementSlots (Gives.many (fun _ => gives) c d ss read)

theorem body_fresh : (body statement).Gives fun ss => AllEmpty (Statement.allSlots ss) :=
  .skip fun _ => .bind (block_fresh gives _) fun _ fresh => .skip fun _ => .pure fresh

theorem statementUsing_fresh : (statementUsing statement).Gives FreshStatement := by
  refine .skip fun opened => ?_
  match opened with
  | some (.declaration, opening) =>
    exact .bind (declarationAfter_fresh opening) fun _ fresh => .pure fresh
  | some (.conditional, _) =>
    refine .bind expression_fresh fun condition freshCondition => .skip fun _ => ?_
    refine .bind (block_fresh gives _) fun thenBody freshThen => ?_
    refine .bind (.after (block_fresh gives _)) fun elseBody freshElse => .skip fun _ => .pure ?_
    refine allEmpty_append.mpr ⟨freshCondition, allEmpty_append.mpr ⟨freshThen, ?_⟩⟩
    cases elseBody with
    | none => exact allEmpty_nil
    | some elseBody => exact freshElse elseBody rfl
  | some (.forEach, _) =>
    refine .skip fun name => .skip fun _ => .bind expression_fresh fun range freshRange => ?_
    exact .bind (body_fresh gives) fun _ fresh => .pure (allEmpty_append.mpr ⟨freshRange, fresh⟩)
  | some (.loop, _) =>
    refine .bind expression_fresh fun condition freshCondition => ?_
    exact .bind (body_fresh gives) fun _ fresh =>
      .pure (allEmpty_append.mpr ⟨freshCondition, fresh⟩)
  | some (.result, _) =>
    exact .bind expression_fresh fun _ fresh => .skip fun _ => .pure fresh
  | none =>
    refine .bind expression_fresh fun target freshTarget => ?_
    refine .bind (.after expression_fresh) fun value freshValue => .skip fun _ => ?_
    cases value with
    | none => exact .pure freshTarget
    | some value => exact .pure (allEmpty_append.mpr ⟨freshTarget, freshValue value rfl⟩)

end

theorem statementWithin_fresh (bound : Nat) : (statementWithin bound).Gives FreshStatement := by
  induction bound with
  | zero => exact fun _ _ _ read => nomatch read
  | succ bound ih => exact statementUsing_fresh ih

theorem statement_fresh : Gives Reader.statement FreshStatement :=
  fun c => statementWithin_fresh c.rest.length c

theorem methodAfter_fresh (opening : Token) :
    (methodAfter opening).Gives fun method => AllEmpty method.slots := by
  refine .skip fun name => .skip fun _ => .skip fun parameters => .skip fun returnTypeName => ?_
  exact .bind (body_fresh statement_fresh) fun _ fresh => .skip fun _ =>
    .pure (allEmpty_cons.mpr ⟨rfl, fresh⟩)

theorem program_fresh : program.Gives fun program => AllEmpty program.slots := by
  refine .bind (.many declarationAfter_fresh) fun fields freshFields => ?_
  refine .bind (.many methodAfter_fresh) fun methods freshMethods => .skip fun _ => .pure ?_
  exact allEmpty_append.mpr ⟨allEmpty_flatMap.mpr freshFields, allEmpty_flatMap.mpr freshMethods⟩

end Reader

/-- No slot of a program is filled when it has just been read. -/
theorem Program.allEmpty_of_ofTokens {tokens : List Token} {program : Program}
    (read : Program.ofTokens tokens = .ok program) : AllEmpty program.slots := by
  rcases Program.ofTokens_eq_ok.mp read with ⟨after, ran⟩
  exact Reader.program_fresh _ after program ran

end Primer
