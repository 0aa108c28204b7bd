import Mathlib.Data.Prod.Lex
import Mathlib.Logic.Relation
import Primer.Proofs.Grammar.Earliest

/-!
# Reading makes progress

The readers of the grammar call each other.  `Rule` names them and `step` says what each does, given
how to read all of them; nothing in it bounds how deep calls nest.  The readers of the library are
the only solution of these equations (`eq_readers`).

A call stands behind a token that was taken, or it is a call of a lower rule at the same place: down
the ladder from the loosest operators to single operands, or from a block to a statement and from
there to an expression.  So calls go down in the number of tokens left and then in the rule
(`Calls.size_lt`), and a chain of calls that comes back to a rule has taken a token.

What a call needs of the readers below it is that they give no token back.  All of them take one,
except where a loop may go round zero times (`readers_consume`).
-/

namespace Primer.Reader

/-! ## The rules -/

/-- A rule of the grammar, with what is read by it.  Declarations and methods are read behind the
word that opens them. -/
inductive Rule : Type → Type
  | operand : Rule Expression
  | selection : Rule Expression
  | level (precedence : Precedence) : Rule Expression
  | expression : Rule Expression
  | arguments : Rule (List Expression)
  | declaration (opening : Token) : Rule Declaration
  | statement : Rule Statement
  | block (terminators : List String) : Rule (List Statement)
  | method (opening : Token) : Rule Method
  | program : Rule Program

/-- The place of a rule: at one token, a rule calls only those below it. -/
def Rule.rank : {α : Type} → Rule α → Nat
  | _, .operand => 0
  | _, .selection => 1
  | _, .level .multiplicative => 2
  | _, .level .additive => 3
  | _, .level .comparison => 4
  | _, .level .logical => 5
  | _, .expression => 6
  | _, .arguments => 7
  | _, .declaration _ => 7
  | _, .statement => 8
  | _, .block _ => 9
  | _, .method _ => 10
  | _, .program => 11

/-- How many tokens a rule takes at least. -/
def Rule.least : {α : Type} → Rule α → Nat
  | _, .block _ => 0
  | _, .program => 0
  | _, _ => 1

/-- The rule for the operands of a level. -/
def operands : Precedence → Rule Expression
  | .logical => .level .comparison
  | .comparison => .level .additive
  | .additive => .level .multiplicative
  | .multiplicative => .selection

/-- A reader for each rule. -/
abbrev Readers := ⦃α : Type⦄ → Rule α → Reader α

/-- A block between `DO` and `END`, given how to read it. -/
def enclosed (block : Reader (List Statement)) : Reader (List Statement) := do
  let _ ← word "DO"
  let statements ← block
  let _ ← word "END"
  return statements

/-- What a rule does, given how to read by all of them. -/
def step (read : Readers) : Readers
  | _, .operand => do
    match ← expect .expression OperandStart.ofToken? with
    | .literal span decoded =>
      let literal ← decoded
      return .literal { span } literal
    | .parenthesis start =>
      let inner ← read .expression
      let _ ← word ")"
      return .group { span := ← spanFrom start } inner
    | .name span name =>
      match ← after "(" (read .arguments) with
      | none => return .access { span } name none
      | some arguments => return .call { span := ← spanFrom span.start } name arguments none
  | _, .selection => do
    let first ← read .operand
    let suffixes ← many (Cursor.take? (hasText ".")) fun _ => do
      let name ← identifier
      let arguments ← after "(" (read .arguments)
      return ⟨name, arguments, ← lastEnd⟩
    return suffixes.foldl Suffix.attach first
  | _, .level precedence => level precedence (read (operands precedence))
  | _, .expression => read (.level .logical)
  | _, .arguments => commaSeparated (read .expression)
  | _, .declaration opening => do
    let name ← identifier
    let typeName ← after ":" identifier
    let value ← after "=" (read .expression)
    let _ ← word ";"
    return { name, typeName, value, span := ← spanFrom opening.span.start }
  | _, .statement => do
    match ← optional statementWord? with
    | some (.declaration, opening) => return .declaration (← read (.declaration opening))
    | some (.conditional, _) =>
      let condition ← read .expression
      let _ ← word "DO"
      let thenBody ← read (.block ["ELSE", "END"])
      let elseBody ← after "ELSE" (read (.block ["END"]))
      let _ ← word "END"
      return .conditional condition thenBody (elseBody.getD [])
    | some (.forEach, _) =>
      let name ← identifier
      let _ ← word "IN"
      let range ← read .expression
      return .forEach name range (← enclosed (read (.block ["END"])))
    | some (.loop, _) =>
      let condition ← read .expression
      return .loop condition (← enclosed (read (.block ["END"])))
    | some (.result, _) =>
      let value ← read .expression
      let _ ← word ";"
      return .result value
    | none =>
      let target ← read .expression
      let value ← after "=" (read .expression)
      let _ ← word ";"
      match value with
      | some value => return .assignment target value
      | none => return .expression target
  | _, .block terminators => many (blockContinues terminators) fun _ => read .statement
  | _, .method opening => do
    let name ← identifier
    let _ ← word "("
    let parameters ← commaSeparated parameter
    let returnTypeName ← after ":" identifier
    let body ← enclosed (read (.block ["END"]))
    return { name, parameters, returnTypeName, body, span := ← spanFrom opening.span.start }
  | _, .program => do
    let fields ← many (Cursor.take? (hasText "LET")) fun opening => read (.declaration opening)
    let methods ← many (Cursor.take? (hasText "DEF")) fun opening => read (.method opening)
    atEnd
    return ⟨fields, methods⟩

/-- The readers of the library. -/
def readers : Readers
  | _, .operand => operand expression
  | _, .selection => selection expression
  | _, .level precedence => upTo expression precedence.looseness
  | _, .expression => expression
  | _, .arguments => commaSeparated expression
  | _, .declaration opening => declarationAfter opening
  | _, .statement => statement
  | _, .block terminators => block terminators statement
  | _, .method opening => methodAfter opening
  | _, .program => program

/-- The readers satisfy the equations, in which no bound appears. -/
theorem readers_eq_step : ∀ ⦃α : Type⦄ (rule : Rule α), readers rule = step readers rule
  | _, .level precedence => by cases precedence <;> rfl
  | _, .expression => expression_eq
  | _, .statement => statement_eq
  | _, .operand | _, .selection | _, .arguments | _, .declaration _ | _, .block _ | _, .method _
  | _, .program => rfl

/-! ## Progress -/

/-- The reader takes at least `count` tokens from the front, and gives none back. -/
def Consumes {α : Type} (count : Nat) (reader : Reader α) : Prop :=
  ∀ c d a, reader c = .ok (a, d) → ∃ taken, c.rest = taken ++ d.rest ∧ count ≤ taken.length

theorem takes_atEnd : Takes 0 atEnd := by
  intro c d u read
  unfold atEnd at read
  split at read
  · cases read
    exact Nat.le_refl _
  · cases read

theorem takes_readers : ∀ ⦃α : Type⦄ (rule : Rule α), Takes rule.least (readers rule)
  | _, .operand => takes_operand takes_expression.weaken
  | _, .selection => takes_selection takes_expression.weaken
  | _, .level precedence => takes_upTo takes_expression.weaken precedence.looseness
  | _, .expression => takes_expression
  | _, .arguments => .commaSeparated takes_expression.weaken
  | _, .declaration opening => takes_declarationAfter opening
  | _, .statement => takes_statement
  | _, .block _ => takes_block takes_statement.weaken
  | _, .method opening => takes_methodAfter opening
  | _, .program => by
    refine .left (.many opening_take? fun opening => ?_) fun _ => ?_
    · exact (takes_declarationAfter opening).weaken
    refine .left (.many opening_take? fun opening => ?_) fun _ => .left takes_atEnd fun _ => .pure
    exact (takes_methodAfter opening).weaken

/-- The readers give no token back. -/
def Keeping (read : Readers) : Prop :=
  ∀ ⦃α : Type⦄ (rule : Rule α), Takes 0 (read rule)

theorem keeping_readers : Keeping readers :=
  fun _ rule c d a read => Nat.le_trans (Nat.le_add_right _ _) (takes_readers rule c d a read)

theorem Prompt.split {α : Type} {reader : Reader α} {first follow : Token → Prop} {c d : Cursor}
    {a : α} (prompt : Prompt (c.rest.length + 1) first follow reader)
    (read : reader c = .ok (a, d)) : ∃ taken, c.rest = taken ++ d.rest := by
  rcases (prompt.prompt c (Nat.lt_succ_self _)).finds a d read with ⟨taken, tokens, -, -⟩
  exact ⟨taken, tokens⟩

/-- What is left is the end of what there was. -/
theorem readers_split {α : Type} (rule : Rule α) {c d : Cursor} {a : α}
    (read : readers rule c = .ok (a, d)) : ∃ taken, c.rest = taken ++ d.rest := by
  have ladder := fun k => upTo_prompt takes_expression.weaken
    (fun fewer (_ : fewer < c.rest.length + 1) => expression_prompt) k
  cases rule with
  | operand => exact (ladder 0).split read
  | selection => exact (ladder 1).split read
  | level precedence => exact (ladder precedence.looseness).split read
  | expression => exact expression_prompt.split read
  | arguments =>
    have prompt : Prompt (c.rest.length + 1) Anything Anything (commaSeparated expression) :=
      .commaSeparated takes_expression.weaken (expression_prompt_before ")" (by decide))
    exact prompt.split read
  | declaration opening =>
    have prompt : Prompt (c.rest.length + 1) Anything Anything (declarationAfter opening) :=
      declarationAfter_prompt opening
    exact prompt.split read
  | statement => exact statement_prompt.split read
  | block terminators =>
    rcases block_sound terminators statement_sound c d a read with ⟨taken, tokens, -⟩
    exact ⟨taken, tokens⟩
  | method opening =>
    have prompt : Prompt (c.rest.length + 1) Anything Anything (methodAfter opening) :=
      methodAfter_prompt opening
    exact prompt.split read
  | program => exact program_prompt.split read

theorem readers_consume {α : Type} (rule : Rule α) : Consumes rule.least (readers rule) := by
  intro c d a read
  rcases readers_split rule read with ⟨taken, tokens⟩
  refine ⟨taken, tokens, ?_⟩
  have length := takes_readers rule c d a read
  rw [tokens, List.length_append] at length
  omega

/-! ## Loops -/

section

variable {α β : Type} {opener : Cursor → Option (β × Cursor)} {item : β → Reader α}

/-- A loop comes to an end by itself: the bound on its rounds does not show.  It takes a token for
each item, and none if there is no item. -/
structure Halts (opener : Cursor → Option (β × Cursor)) (item : β → Reader α) : Prop where
  stops : ∀ c, opener c = none → many opener item c = .ok ([], c)
  goesOn : ∀ c b m, opener c = some (b, m) → many opener item c = (do
    let first ← item b
    let others ← many opener item
    return first :: others) m
  enough : ∀ bound c, c.rest.length ≤ bound → manyWithin opener item bound c = many opener item c
  takes : ∀ c d items, many opener item c = .ok (items, d) →
    d.rest.length + items.length ≤ c.rest.length
  idle : ∀ c d, many opener item c = .ok ([], d) → d = c

theorem length_of_manyWithin (advances : Advances opener item) {bound : Nat} {c d : Cursor}
    {items : List α} (read : manyWithin opener item bound c = .ok (items, d)) :
    d.rest.length + items.length ≤ c.rest.length ∧ (items = [] → d = c) := by
  induction bound generalizing c items with
  | zero =>
    rcases pure_eq_ok.mp read with ⟨rfl, rfl⟩
    exact ⟨Nat.le_refl _, fun _ => rfl⟩
  | succ bound ih =>
    cases opened : opener c with
    | none =>
      rw [manyWithin_of_none opened] at read
      cases read
      exact ⟨Nat.le_refl _, fun _ => rfl⟩
    | some found =>
      rw [manyWithin_of_some opened] at read
      rcases bind_eq_ok.mp read with ⟨first, n, head, read⟩
      rcases bind_eq_ok.mp read with ⟨others, n', tail, done⟩
      rcases pure_eq_ok.mp done with ⟨rfl, rfl⟩
      have shorter := advances c found.2 n found.1 first opened head
      have behind := (ih tail).1
      refine ⟨?_, fun none_read => absurd none_read (List.cons_ne_nil _ _)⟩
      rw [List.length_cons]
      omega

theorem halts (opening : Opening opener) (advances : Advances opener item) :
    Halts opener item where
  stops _ := many_of_none
  goesOn _ _ _ := many_of_some opening advances
  enough _ _ := manyWithin_eq_many opening advances
  takes _ _ _ read := (length_of_manyWithin advances read).1
  idle _ _ read := (length_of_manyWithin advances read).2 rfl

/-- The loops of the grammar. -/
inductive IsLoop : {α β : Type} → (Cursor → Option (β × Cursor)) → (β → Reader α) → Prop
  | operators (precedence : Precedence) :
    IsLoop (Cursor.take? (operatorAt precedence)) fun operator => do
      return (operator, ← readers (operands precedence))
  | members : IsLoop (Cursor.take? (hasText ".")) fun _ => suffix expression
  | arguments : IsLoop (Cursor.take? (hasText ",")) fun _ => expression
  | parameters : IsLoop (Cursor.take? (hasText ",")) fun _ => parameter
  | statements (terminators : List String) :
    IsLoop (blockContinues terminators) fun _ => statement
  | fields : IsLoop (Cursor.take? (hasText "LET")) declarationAfter
  | methods : IsLoop (Cursor.take? (hasText "DEF")) methodAfter

theorem IsLoop.halts (loop : IsLoop opener item) : Halts opener item := by
  cases loop with
  | operators precedence =>
    refine Reader.halts opening_take? (advances_take? fun _ => ?_)
    exact .left (keeping_readers _) fun _ => .pure
  | members =>
    refine Reader.halts opening_take? (advances_take? fun _ => ?_)
    exact (takes_suffix takes_expression.weaken).weaken
  | arguments => exact Reader.halts opening_take? (advances_take? fun _ => takes_expression.weaken)
  | parameters => exact Reader.halts opening_take? (advances_take? fun _ => takes_parameter.weaken)
  | statements terminators =>
    exact Reader.halts opening_blockContinues
      (advances_of_takes opening_blockContinues fun _ => takes_statement)
  | fields =>
    exact Reader.halts opening_take? (advances_take? fun o => (takes_declarationAfter o).weaken)
  | methods =>
    exact Reader.halts opening_take? (advances_take? fun o => (takes_methodAfter o).weaken)

end

/-! ## Calls -/

/-- A rule, and where to read by it. -/
structure Request where
  {result : Type}
  rule : Rule result
  cursor : Cursor

namespace Request

def answer (request : Request) (read : Readers) :
    Except SyntaxError (request.result × Cursor) :=
  read request.rule request.cursor

/-- The tokens left, and then the place of the rule. -/
def size (request : Request) : Nat ×ₗ Nat :=
  toLex (request.cursor.rest.length, request.rule.rank)

theorem size_lt_iff {other request : Request} :
    other.size < request.size ↔ other.cursor.rest.length < request.cursor.rest.length ∨
      other.cursor.rest.length = request.cursor.rest.length ∧
        other.rule.rank < request.rule.rank :=
  Prod.Lex.toLex_lt_toLex

end Request

theorem Agree.enclosed {bound : Nat} {block block' : Reader (List Statement)}
    (agree : Agree bound block block') (takes : Takes 0 block) :
    Agree bound (enclosed block) (enclosed block') :=
  .bind (.refl _) Takes.word.weaken fun _ => .bind agree takes fun _ => .refl _

theorem Takes.enclosed {block : Reader (List Statement)} (takes : Takes 0 block) :
    Takes 0 (enclosed block) :=
  .left Takes.word.weaken fun _ => .left takes fun _ => .left Takes.word.weaken fun _ => .pure

/-- Items that stand behind a token need to agree only there. -/
theorem Agree.manyBehind {α β : Type} {bound : Nat} {test : Token → Option β}
    {item item' : β → Reader α} (takes : ∀ b, Takes 0 (item b))
    (agree : ∀ b d, d.rest.length < bound → item b d = item' b d) :
    Agree bound (Reader.many (Cursor.take? test) item) (Reader.many (Cursor.take? test) item') := by
  have within : ∀ count, Agree bound (manyWithin (Cursor.take? test) item count)
      (manyWithin (Cursor.take? test) item' count) := by
    intro count
    induction count with
    | zero => exact refl _
    | succ count ih =>
      intro c enough
      cases opened : c.take? test with
      | none => rw [manyWithin_of_none opened, manyWithin_of_none opened]
      | some found =>
        have shorter := length_of_take? opened
        rw [manyWithin_of_some opened, manyWithin_of_some opened]
        refine bind_congr_at (agree _ _ (by omega)) fun _ d read => ?_
        have kept := takes found.1 found.2 d _ read
        exact bind_congr_at (ih d (by omega)) fun _ _ _ => rfl
  exact fun c => within c.rest.length c

section

variable {f g : Readers} (keeping : Keeping f) {c : Cursor}
  (shorter : ∀ ⦃α : Type⦄ (rule : Rule α) (d : Cursor),
    d.rest.length < c.rest.length → f rule d = g rule d)

include shorter

theorem agree_behind {d : Cursor} (less : d.rest.length < c.rest.length) {α : Type}
    (rule : Rule α) : Agree d.rest.length (f rule) (g rule) :=
  fun e enough => shorter rule e (Nat.lt_of_le_of_lt enough less)

include keeping

theorem operand_congr : step f .operand c = step g .operand c := by
  refine bind_congr_at rfl fun start d read => ?_
  have less : d.rest.length < c.rest.length := Takes.expect c d start read
  have agree := fun {α : Type} (rule : Rule α) => agree_behind shorter less rule
  cases start with
  | literal span decoded => rfl
  | parenthesis start =>
    exact Agree.bind (agree .expression) (keeping _) (fun _ => .refl _) d (Nat.le_refl _)
  | name span name =>
    have arguments : Agree d.rest.length (after "(" (f .arguments)) (after "(" (g .arguments)) :=
      .after (agree .arguments) (keeping _)
    exact Agree.bind arguments (.after (keeping _)) (fun _ => .refl _) d (Nat.le_refl _)

theorem selection_congr (operands : Agree c.rest.length (f .operand) (g .operand)) :
    step f .selection c = step g .selection c := by
  have takes : Takes 0 (do
      let name ← identifier
      let arguments ← after "(" (f .arguments)
      return (⟨name, arguments, ← lastEnd⟩ : Suffix)) :=
    .left Takes.identifier.weaken fun _ => .left (.after (keeping _)) fun _ =>
      .left .lastEnd fun _ => .pure
  refine Agree.bind operands (keeping _) (fun _ => ?_) c (Nat.le_refl _)
  refine .bind (.manyBehind (fun _ => takes) fun _ d less => ?_) ?_ fun _ => .refl _
  · have agree := agree_behind shorter less .arguments
    refine Agree.bind (.refl _) Takes.identifier.weaken (fun _ => ?_) d (Nat.le_refl _)
    exact .bind (.after agree (keeping _)) (.after (keeping _)) fun _ => .refl _
  · exact .many opening_take? fun _ => takes

theorem declaration_congr (opening : Token) :
    step f (.declaration opening) c = step g (.declaration opening) c := by
  refine bind_congr_at rfl fun name d read => ?_
  have agree := agree_behind shorter (Takes.identifier c d name read) .expression
  refine Agree.bind (.refl _) (.after Takes.identifier.weaken) (fun _ => ?_) d (Nat.le_refl _)
  exact .bind (.after agree (keeping _)) (.after (keeping _)) fun _ => .refl _

theorem statement_congr (expressions : Agree c.rest.length (f .expression) (g .expression)) :
    step f .statement c = step g .statement c := by
  refine bind_congr_at rfl fun opened d read => ?_
  match opened with
  | some (word, opening) =>
    have less : d.rest.length < c.rest.length :=
      Nat.le_of_eq (length_of_take? (optional_eq_some read))
    have agree := fun {α : Type} (rule : Rule α) => agree_behind shorter less rule
    match word with
    | .declaration =>
      have declarations := agree (.declaration opening)
      exact Agree.bind declarations (keeping _) (fun _ => .refl _) d (Nat.le_refl _)
    | .conditional =>
      refine Agree.bind (agree .expression) (keeping _) (fun _ => ?_) d (Nat.le_refl _)
      refine .bind (.refl _) Takes.word.weaken fun _ => ?_
      refine .bind (agree (.block ["ELSE", "END"])) (keeping _) fun _ => ?_
      refine .bind (.after (agree (.block ["END"])) (keeping _)) ?_ fun _ => .refl _
      exact .after (keeping _)
    | .forEach =>
      refine Agree.bind (.refl _) Takes.identifier.weaken (fun _ => ?_) d (Nat.le_refl _)
      refine .bind (.refl _) Takes.word.weaken fun _ => ?_
      refine .bind (agree .expression) (keeping _) fun _ => ?_
      refine .bind (.enclosed (agree (.block ["END"])) (keeping _)) ?_ fun _ => .refl _
      exact .enclosed (keeping _)
    | .loop =>
      refine Agree.bind (agree .expression) (keeping _) (fun _ => ?_) d (Nat.le_refl _)
      refine .bind (.enclosed (agree (.block ["END"])) (keeping _)) ?_ fun _ => .refl _
      exact .enclosed (keeping _)
    | .result =>
      exact Agree.bind (agree .expression) (keeping _) (fun _ => .refl _) d (Nat.le_refl _)
  | none =>
    -- No word of its own: the statement begins with an expression, at the same token.
    cases optional_eq_none read
    refine Agree.bind expressions (keeping _) (fun _ => ?_) c (Nat.le_refl _)
    exact .bind (.after expressions (keeping _)) (.after (keeping _)) fun _ => .refl _

theorem method_congr (opening : Token) :
    step f (.method opening) c = step g (.method opening) c := by
  refine bind_congr_at rfl fun name d read => ?_
  have agree := agree_behind shorter (Takes.identifier c d name read) (.block ["END"])
  refine Agree.bind (.refl _) Takes.word.weaken (fun _ => ?_) d (Nat.le_refl _)
  refine .bind (.refl _) (Takes.commaSeparated takes_parameter.weaken).weaken fun _ => ?_
  refine .bind (.refl _) (.after Takes.identifier.weaken) fun _ => ?_
  exact .bind (.enclosed agree (keeping _)) (.enclosed (keeping _)) fun _ => .refl _

theorem program_congr : step f .program c = step g .program c := by
  refine Agree.bind (.manyBehind (fun _ => keeping _) fun _ d less => ?_) ?_ (fun _ => ?_) c
    (Nat.le_refl _)
  · exact shorter _ d less
  · exact .many opening_take? fun _ => keeping _
  refine .bind (.manyBehind (fun _ => keeping _) fun _ d less => ?_) ?_ fun _ => .refl _
  · exact shorter _ d less
  · exact .many opening_take? fun _ => keeping _

end

theorem rank_operands_lt (precedence : Precedence) :
    (operands precedence).rank < (Rule.level precedence).rank := by
  cases precedence <;> decide

/-- The answer to a request depends on the answers to smaller ones, and on nothing else. -/
theorem step_congr {f g : Readers} (keeping : Keeping f) {request : Request}
    (agree : ∀ other : Request, other.size < request.size → other.answer f = other.answer g) :
    request.answer (step f) = request.answer (step g) := by
  rcases request with ⟨rule, c⟩
  have shorter : ∀ ⦃β : Type⦄ (lower : Rule β) (d : Cursor),
      d.rest.length < c.rest.length → f lower d = g lower d :=
    fun _ lower d less => agree ⟨lower, d⟩ (Request.size_lt_iff.mpr (.inl less))
  -- What is read in front of the first token of the rule's own may be read at `c` itself.
  have lower : ∀ ⦃β : Type⦄ (lower : Rule β), lower.rank < rule.rank →
      Agree c.rest.length (f lower) (g lower) := by
    intro β lower less d enough
    rcases Nat.lt_or_eq_of_le enough with fewer | same
    · exact shorter lower d fewer
    · exact agree ⟨lower, d⟩ (Request.size_lt_iff.mpr (.inr ⟨same, less⟩))
  cases rule with
  | operand => exact operand_congr keeping shorter
  | selection => exact selection_congr keeping shorter (lower .operand (by decide))
  | level precedence =>
    have tighter := lower (operands precedence) (rank_operands_lt precedence)
    exact level_agree tighter (keeping _) precedence c (Nat.le_refl _)
  | expression => exact lower (.level .logical) (by decide) c (Nat.le_refl _)
  | arguments =>
    exact Agree.commaSeparated (lower .expression (by decide)) (keeping _) c (Nat.le_refl _)
  | declaration opening => exact declaration_congr keeping shorter opening
  | statement => exact statement_congr keeping shorter (lower .expression (by decide))
  | block terminators =>
    refine Agree.many opening_blockContinues (fun _ => keeping _) (fun _ => ?_) c (Nat.le_refl _)
    exact lower .statement (Nat.lt_succ_self 8)
  | method opening => exact method_congr keeping shorter opening
  | program => exact program_congr keeping shorter

/-- To answer the request, the answer to the other one is looked at: there are readers for which a
change of the latter changes the former. -/
def Calls (request other : Request) : Prop :=
  ∃ f g : Readers, Keeping f ∧ (∀ third, third ≠ other → third.answer f = third.answer g) ∧
    request.answer (step f) ≠ request.answer (step g)

/-- Calls go down. -/
theorem Calls.size_lt {request other : Request} (calls : Calls request other) :
    other.size < request.size := by
  rcases calls with ⟨f, g, keeping, alike, changed⟩
  by_contra large
  refine changed (step_congr keeping fun third less => alike third ?_)
  rintro rfl
  exact large less

theorem size_lt_of_transGen {request later : Request}
    (chain : Relation.TransGen Calls request later) : later.size < request.size := by
  induction chain with
  | single calls => exact calls.size_lt
  | tail _ calls ih => exact calls.size_lt.trans ih

/-- No chain of calls goes on for ever. -/
theorem wellFounded_calls : WellFounded fun other request => Calls request other :=
  Subrelation.wf Calls.size_lt (InvImage.wf Request.size wellFounded_lt)

/-- A chain of calls that comes back to a rule has taken a token. -/
theorem length_lt_of_cycle {α : Type} {rule : Rule α} {c d : Cursor}
    (chain : Relation.TransGen Calls ⟨rule, c⟩ ⟨rule, d⟩) : d.rest.length < c.rest.length := by
  rcases Request.size_lt_iff.mp (size_lt_of_transGen chain) with fewer | ⟨-, lower⟩
  · exact fewer
  · exact absurd lower (Nat.lt_irrefl _)

/-- Whoever fails as soon as a call fails, and in the same way, makes that call. -/
theorem calls_of_fails {request other : Request}
    (asks : ∀ (read : Readers) (error : SyntaxError), other.answer read = .error error →
      request.answer (step read) = .error error) : Calls request other := by
  classical
  -- All readers fail alike, so that the call shows in how the request fails.
  let complaint (position : Nat) : SyntaxError := .unexpectedEnd .expression position
  let f : Readers := fun _ _ _ => .error (complaint 0)
  let g : Readers := fun _ rule c =>
    if (⟨rule, c⟩ : Request) = other then .error (complaint 1) else .error (complaint 0)
  have keeping : Keeping f := fun _ _ _ _ _ read => nomatch read
  have changed : other.answer g = .error (complaint 1) := if_pos rfl
  refine ⟨f, g, keeping, fun third different => (if_neg different).symm, ?_⟩
  rw [asks f _ rfl, asks g _ changed]
  simp [complaint]

/-- The ladder is called from its top to its bottom at one place. -/
theorem calls_ladder (c : Cursor) :
    Relation.TransGen Calls ⟨.expression, c⟩ ⟨.operand, c⟩ := by
  have level : ∀ precedence : Precedence,
      Calls ⟨.level precedence, c⟩ ⟨operands precedence, c⟩ :=
    fun precedence => calls_of_fails fun _ _ failed => bind_of_error failed
  have selection : Calls ⟨.selection, c⟩ ⟨.operand, c⟩ :=
    calls_of_fails fun _ _ failed => bind_of_error failed
  have top : Calls ⟨.expression, c⟩ ⟨.level .logical, c⟩ := calls_of_fails fun _ _ failed => failed
  exact .tail (.tail (.tail (.tail (.tail (.single top) (level .logical)) (level .comparison))
    (level .additive)) (level .multiplicative)) selection

/-- An opening parenthesis leads from an operand back to an operand. -/
theorem calls_in_parentheses {token : Token} {start : Nat}
    (opens : OperandStart.ofToken? token = some (.parenthesis start)) (rest : List Token)
    (last : Nat) :
    Relation.TransGen Calls ⟨.operand, ⟨token :: rest, last⟩⟩
      ⟨.operand, ⟨rest, token.span.stop⟩⟩ := by
  refine .head (calls_of_fails fun read error failed => ?_) (calls_ladder _)
  have taken : expect .expression OperandStart.ofToken? ⟨token :: rest, last⟩ =
      .ok (.parenthesis start, ⟨rest, token.span.stop⟩) :=
    expect_eq_ok.mpr (take?_of_cons rfl opens)
  exact (bind_of_ok taken).trans (bind_of_error failed)

/-! ## Bounded depth -/

/-- Reading with calls nested less than `depth` deep.  Below that, the answers are `ranOut`. -/
def within (ranOut : Readers) : Nat → Readers
  | 0 => ranOut
  | depth + 1 => step (within ranOut depth)

/-- A bound on how deep calls nest below a request: all rules for each token left, and then those
below its own. -/
def Request.depth (request : Request) : Nat :=
  12 * request.cursor.rest.length + request.rule.rank

theorem Rule.rank_lt {α : Type} (rule : Rule α) : rule.rank < 12 := by
  cases rule with
  | level precedence => cases precedence <;> decide
  | _ => exact by simp [Rule.rank]

theorem Request.depth_lt {request other : Request} (less : other.size < request.size) :
    other.depth < request.depth := by
  have bounded := other.rule.rank_lt
  unfold Request.depth
  rcases Request.size_lt_iff.mp less with fewer | ⟨same, lower⟩ <;> omega

/-- With a depth that grows with the number of tokens, the answers below it do not show. -/
theorem within_eq (ranOut : Readers) {depth : Nat} {request : Request}
    (enough : request.depth < depth) : request.answer (within ranOut depth) =
      request.answer readers := by
  induction depth generalizing request with
  | zero => exact absurd enough (Nat.not_lt_zero _)
  | succ depth ih =>
    have inside : ∀ other : Request, other.size < request.size →
        other.answer readers = other.answer (within ranOut depth) := by
      intro other less
      have deeper := Request.depth_lt less
      exact (ih (by omega)).symm
    have solved : request.answer readers = request.answer (step readers) :=
      congrFun (readers_eq_step request.rule) request.cursor
    rw [solved]
    exact (step_congr keeping_readers inside).symm

/-- The equations have no other solution. -/
theorem eq_readers {read : Readers}
    (solves : ∀ ⦃α : Type⦄ (rule : Rule α), read rule = step read rule) {α : Type}
    (rule : Rule α) : read rule = readers rule := by
  -- A solution stays as it is at every depth, so it may stand for the answers below.
  have still : ∀ depth, within read depth = read := by
    intro depth
    induction depth with
    | zero => rfl
    | succ depth ih =>
      rw [within, ih]
      funext α rule
      exact (solves rule).symm
  funext c
  have reached := within_eq read (Nat.lt_succ_self (Request.depth ⟨rule, c⟩))
  rw [still] at reached
  exact reached

/-! ## Operators -/

/-- The operators of a level as they are written. -/
def symbolsAt : Precedence → List String
  | .logical => ["AND", "OR"]
  | .comparison => ["<", "<=", ">", ">=", "==", "!="]
  | .additive => ["+", "-"]
  | .multiplicative => ["*", "/"]

/-- Takes a token that reads as one of the symbols, and gives the operator of that symbol. -/
def matchOperator (symbols : List String) : Reader (Option Operator) :=
  fun cursor =>
    match symbols.findSome? fun symbol => cursor.take? (hasText symbol) with
    | none => .ok (none, cursor)
    | some (token, next) => .ok (Operator.ofSymbol? token.text, next)

theorem mem_symbolsAt {precedence : Precedence} {text : String} :
    text ∈ symbolsAt precedence ↔
      ∃ operator, Operator.ofSymbol? text = some operator ∧ operator.precedence = precedence := by
  constructor
  · intro member
    cases precedence
    all_goals
      simp only [symbolsAt, List.mem_cons, List.not_mem_nil, or_false] at member
      rcases member with rfl | rfl | rfl | rfl | rfl | rfl
      all_goals exact ⟨_, rfl, rfl⟩
  · rintro ⟨operator, found, rfl⟩
    rw [Operator.ofSymbol?_eq_some.mp found]
    cases operator <;> decide

theorem findSome?_take? (symbols : List String) (token : Token) (rest : List Token) (last : Nat) :
    (symbols.findSome? fun symbol => Cursor.take? (hasText symbol) ⟨token :: rest, last⟩) =
      if token.text ∈ symbols then some (token, ⟨rest, token.span.stop⟩) else none := by
  induction symbols with
  | nil => rfl
  | cons symbol symbols ih =>
    rw [List.findSome?_cons, ih]
    by_cases same : token.text = symbol
    · simp [Cursor.take?, hasText, same]
    · simp [Cursor.take?, hasText, same]

/-- Every symbol of a level is that of an operator, so a token is taken if and only if an operator
is found. -/
theorem matchOperator_eq (precedence : Precedence) :
    matchOperator (symbolsAt precedence) = optional (operatorAt precedence) := by
  funext c
  rcases c with ⟨_ | ⟨token, rest⟩, last⟩
  · have nothing : (symbolsAt precedence).findSome?
        (fun symbol => Cursor.take? (hasText symbol) ⟨[], last⟩) = none :=
      List.findSome?_eq_none_iff.mpr fun _ _ => rfl
    rw [matchOperator, nothing]
    rfl
  · rw [matchOperator, findSome?_take?]
    by_cases member : token.text ∈ symbolsAt precedence
    · rcases mem_symbolsAt.mp member with ⟨operator, found, level⟩
      have here : operatorAt precedence token = some operator := by
        rw [operatorAt, found, Option.filter_some, if_pos (decide_eq_true level)]
      rw [if_pos member, optional_of_some (take?_of_cons rfl here)]
      simp only [found]
    · have absent : operatorAt precedence token = none := by
        cases found : operatorAt precedence token with
        | none => rfl
        | some operator =>
          rcases Option.filter_eq_some_iff.mp found with ⟨symbol, level⟩
          exact absurd (mem_symbolsAt.mpr ⟨operator, symbol, of_decide_eq_true level⟩) member
      have missed : Cursor.take? (operatorAt precedence) ⟨token :: rest, last⟩ = none := by
        simp only [Cursor.take?, absent, Option.map_none]
      rw [if_neg member, optional_of_none missed]

/-! ## The readers of the grammar -/

/-- Reading comes to an end, for every list of tokens.

The readers satisfy equations without a bound and are their only solution.  What they take is a
piece at the front, of one token at least except for blocks and programs.  A call leads to a request
with fewer tokens left, or to a lower rule; so no chain of calls goes on for ever, and one that
comes back to a rule has taken a token.  Calls nested to a depth that grows with the number of
tokens are enough, whatever is answered below it.  A loop takes a token for each item, and none only
if it does not go round.  Where no operator is found, no token is taken. -/
theorem reading_terminates :
    (∀ ⦃α : Type⦄ (rule : Rule α),
      readers rule = step readers rule ∧ Consumes rule.least (readers rule)) ∧
    (∀ read : Readers, (∀ ⦃α : Type⦄ (rule : Rule α), read rule = step read rule) →
      ∀ ⦃α : Type⦄ (rule : Rule α), read rule = readers rule) ∧
    (∀ request other, Calls request other → other.size < request.size) ∧
    (WellFounded fun other request => Calls request other) ∧
    (∀ ⦃α : Type⦄ (rule : Rule α) (c d : Cursor),
      Relation.TransGen Calls ⟨rule, c⟩ ⟨rule, d⟩ → d.rest.length < c.rest.length) ∧
    (∀ (ranOut : Readers) (depth : Nat) (request : Request), request.depth < depth →
      request.answer (within ranOut depth) = request.answer readers) ∧
    (∀ (ranOut : Readers) (depth : Nat) (tokens : List Token), 12 * (tokens.length + 1) ≤ depth →
      Program.ofTokens tokens = (within ranOut depth .program ⟨tokens, 0⟩).map Prod.fst ∧
      Expression.ofTokens tokens = (within ranOut depth .expression ⟨tokens, 0⟩).map Prod.fst) ∧
    (∀ ⦃α β : Type⦄ (opener : Cursor → Option (β × Cursor)) (item : β → Reader α),
      IsLoop opener item → Halts opener item) ∧
    (∀ precedence, matchOperator (symbolsAt precedence) = optional (operatorAt precedence) ∧
      ∀ c d, matchOperator (symbolsAt precedence) c = .ok (none, d) → d = c) := by
  refine ⟨fun _ rule => ⟨readers_eq_step rule, readers_consume rule⟩, fun _ solves _ => ?_,
    fun _ _ => Calls.size_lt, wellFounded_calls, fun _ _ _ _ => length_lt_of_cycle,
    fun ranOut _ _ => within_eq ranOut, fun ranOut depth tokens enough => ?_, fun _ _ _ _ => ?_,
    fun precedence => ?_⟩
  · exact eq_readers solves
  · have start : ∀ {α : Type} (rule : Rule α), Request.depth ⟨rule, ⟨tokens, 0⟩⟩ < depth := by
      intro α rule
      have low := rule.rank_lt
      unfold Request.depth
      dsimp only
      omega
    constructor
    · exact congrArg (Except.map Prod.fst) (within_eq ranOut (start .program)).symm
    · exact congrArg (Except.map Prod.fst) (within_eq ranOut (start .expression)).symm
  · exact IsLoop.halts
  · rw [matchOperator_eq]
    exact ⟨rfl, fun _ _ => optional_eq_none⟩

/-- `(NIL)` -/
def parenthesized : List Token :=
  [⟨.operator, "(", ⟨0, 1⟩⟩, ⟨.identifier, "NIL", ⟨1, 4⟩⟩, ⟨.operator, ")", ⟨4, 5⟩⟩]

/-- Reading `(NIL)` leads from the operand in front back to an operand, one token later. -/
theorem reading_terminates_parenthesized :
    let c : Cursor := ⟨parenthesized, 0⟩
    let d : Cursor := ⟨parenthesized.tail, 1⟩
    let tree : Expression := .group { span := ⟨0, 5⟩ } (.literal { span := ⟨1, 4⟩ } .nil)
    (Relation.TransGen Calls ⟨.operand, c⟩ ⟨.operand, d⟩ ∧ d.rest.length < c.rest.length) ∧
      (Calls ⟨.selection, c⟩ ⟨.operand, c⟩ ∧
        Request.size ⟨.operand, c⟩ < Request.size ⟨.selection, c⟩) ∧
      (∀ ranOut : Readers, (within ranOut 48 .expression c).map Prod.fst = .ok tree ∧
        within ranOut 48 .operand c = readers .operand c) ∧
      (∀ ⦃α : Type⦄ (rule : Rule α), step readers rule = readers rule) ∧
      (Halts (blockContinues ["END"]) fun _ => statement) ∧
      (matchOperator (symbolsAt .additive) c = .ok (none, c)) := by
  intro c d tree
  obtain ⟨-, unique, down, -, cycles, depths, entries, loops, operators⟩ := reading_terminates
  have cycle : Relation.TransGen Calls ⟨.operand, c⟩ ⟨.operand, d⟩ :=
    calls_in_parentheses rfl _ _
  have call : Calls ⟨.selection, c⟩ ⟨.operand, c⟩ :=
    calls_of_fails fun _ _ failed => bind_of_error failed
  have read : Expression.ofTokens parenthesized = .ok tree := rfl
  have solved : (step readers : Readers) = readers := by
    funext α rule
    exact (readers_eq_step rule).symm
  have unmatched : ∃ e, matchOperator (symbolsAt .additive) c = .ok (none, e) := ⟨_, rfl⟩
  refine ⟨⟨cycle, cycles _ _ _ cycle⟩, ⟨call, down _ _ call⟩, fun ranOut => ⟨?_, ?_⟩, ?_,
    loops _ _ (.statements ["END"]), ?_⟩
  · rw [← (entries ranOut 48 parenthesized (by decide)).2, read]
  · exact depths ranOut 48 ⟨.operand, c⟩ (by decide)
  · exact unique (step readers) fun _ rule => by rw [solved, solved]
  · obtain ⟨e, found⟩ := unmatched
    rw [found, (operators .additive).2 c e found]

end Primer.Reader
