import Mathlib.Data.List.Forall2
import Primer.Grammar.Program
import Primer.Proofs.Grammar.Unfolding
import Primer.Proofs.Syntax.Unplaced
import Primer.Proofs.Token.Scanning

/-!
# Reading looks at no place

Two lists of tokens that hold the same lexemes are read in step: the two readers take the same
decisions, and what they give is equal apart from the places in it.  `InStep` is this relation
between two readers, with a rule for each way to build readers.  It compares errors too, apart from
the position at which they point (`Program.ofTokens_inStep`).
-/

namespace Primer

/-- The syntax error without the position that it points at. -/
def SyntaxError.unplaced : SyntaxError → SyntaxError
  | .unexpected expected found _ => .unexpected expected found 0
  | .unexpectedEnd expected _ => .unexpectedEnd expected 0
  | .invalidLiteral kind literal _ => .invalidLiteral kind literal 0

/-! ## Equal apart from places -/

abbrev SyntaxError.Alike (error error' : SyntaxError) : Prop :=
  error.unplaced = error'.unplaced

abbrev Expression.Alike (e e' : Expression) : Prop :=
  e.unplaced = e'.unplaced

abbrev Declaration.Alike (decl decl' : Declaration) : Prop :=
  decl.unplaced = decl'.unplaced

abbrev Statement.Alike (s s' : Statement) : Prop :=
  s.unplaced = s'.unplaced

abbrev Method.Alike (method method' : Method) : Prop :=
  method.unplaced = method'.unplaced

abbrev Program.Alike (program program' : Program) : Prop :=
  program.unplaced = program'.unplaced

theorem forall₂_alike {α : Type} {unplaced : α → α} {items items' : List α}
    (alike : List.Forall₂ (fun a a' => unplaced a = unplaced a') items items') :
    items.map unplaced = items'.map unplaced := by
  induction alike with
  | nil => rfl
  | cons first _ ih => rw [List.map_cons, List.map_cons, first, ih]

theorem rel_alike {α : Type} {unplaced : α → α} {found found' : Option α}
    (alike : Option.Rel (fun a a' => unplaced a = unplaced a') found found') :
    found.map unplaced = found'.map unplaced := by
  cases alike with
  | none => rfl
  | some same => exact congrArg some same

theorem eq_of_rel {α : Type} {found found' : Option α} (same : Option.Rel Eq found found') :
    found = found' := by
  cases same with
  | none => rfl
  | some same => exact congrArg some same

theorem Expression.unplacedAll_of_alike {es es' : List Expression}
    (alike : List.Forall₂ Expression.Alike es es') :
    Expression.unplacedAll es = Expression.unplacedAll es' := by
  rw [unplacedAll_eq_map, unplacedAll_eq_map, forall₂_alike alike]

theorem Statement.unplacedAll_of_alike {ss ss' : List Statement}
    (alike : List.Forall₂ Statement.Alike ss ss') :
    Statement.unplacedAll ss = Statement.unplacedAll ss' := by
  rw [unplacedAll_eq_map, unplacedAll_eq_map, forall₂_alike alike]

/-- The same lexemes are left. -/
def Cursor.Alike (c c' : Cursor) : Prop :=
  List.Forall₂ Token.SameLexeme c.rest c'.rest

theorem Cursor.complaint_alike {c c' : Cursor} (alike : c.Alike c') (expected : Expectation) :
    (c.complaint expected).Alike (c'.complaint expected) := by
  rcases c with ⟨rest, last⟩
  rcases c' with ⟨rest', last'⟩
  cases alike with
  | nil => rfl
  | @cons token token' _ _ same _ =>
    show SyntaxError.unexpected expected token.text 0 = .unexpected expected token'.text 0
    rw [same.2]

namespace Reader

variable {α β : Type} {related : α → α → Prop} {related' : β → β → Prop}

/-! ## Readers in step -/

/-- Two results of reading that correspond. -/
inductive Matching (related : α → α → Prop) :
    Except SyntaxError (α × Cursor) → Except SyntaxError (α × Cursor) → Prop
  | ok {a a' : α} {c c' : Cursor} : related a a' → c.Alike c' →
    Matching related (.ok (a, c)) (.ok (a', c'))
  | error {error error' : SyntaxError} : error.Alike error' →
    Matching related (.error error) (.error error')

/-- Over the same lexemes, the two readers give corresponding results. -/
def InStep (related : α → α → Prop) (reader reader' : Reader α) : Prop :=
  ∀ c c', c.Alike c' → Matching related (reader c) (reader' c')

/-- Where the one finds something, the other finds the like. -/
def OpenInStep (related : β → β → Prop) (opener opener' : Cursor → Option (β × Cursor)) : Prop :=
  ∀ c c', c.Alike c' →
    Option.Rel (fun found found' => related found.1 found'.1 ∧ found.2.Alike found'.2)
      (opener c) (opener' c')

/-- The two tests agree on tokens that hold the same lexeme. -/
def TestAlike (related : β → β → Prop) (test test' : Token → Option β) : Prop :=
  ∀ token token', Token.SameLexeme token token' → Option.Rel related (test token) (test' token')

theorem take?_inStep {test test' : Token → Option β} (tests : TestAlike related' test test') :
    OpenInStep related' (Cursor.take? test) (Cursor.take? test') := by
  rintro ⟨rest, last⟩ ⟨rest', last'⟩ alike
  cases alike with
  | nil => exact .none
  | @cons token token' rest rest' same others =>
    have found := tests token token' same
    simp only [Cursor.take?]
    generalize test token = result at found
    generalize test' token' = result' at found
    cases found with
    | none => exact .none
    | some holds => exact .some ⟨holds, others⟩

theorem hasText_alike (text : String) :
    TestAlike Token.SameLexeme (hasText text) (hasText text) := by
  intro token token' same
  unfold hasText
  rw [same.2]
  split
  · exact .some same
  · exact .none

theorem blockContinues_inStep (terminators : List String) :
    OpenInStep (fun _ _ => True) (blockContinues terminators) (blockContinues terminators) := by
  rintro ⟨rest, last⟩ ⟨rest', last'⟩ alike
  cases alike with
  | nil => exact .none
  | @cons token token' rest rest' same others =>
    simp only [blockContinues, same.2]
    split
    · exact .none
    · exact .some ⟨trivial, .cons same others⟩

namespace InStep

variable {first first' : Reader α} {next next' : α → Reader β}

theorem pure {a a' : α} (holds : related a a') : InStep related (pure a) (pure a') :=
  fun _ _ alike => .ok holds alike

theorem bind (inStep : InStep related first first')
    (continues : ∀ a a', related a a' → InStep related' (next a) (next' a')) :
    InStep related' (first >>= next) (first' >>= next') := by
  intro c c' alike
  have results := inStep c c' alike
  show Matching related' (first c >>= fun p => next p.1 p.2) (first' c' >>= fun p => next' p.1 p.2)
  generalize first c = result at results
  generalize first' c' = result' at results
  cases results with
  | ok holds alike => exact continues _ _ holds _ _ alike
  | error same => exact .error same

/-- The second steps may be in step whatever the first ones give. -/
theorem skip (inStep : InStep related first first')
    (continues : ∀ a a', InStep related' (next a) (next' a')) :
    InStep related' (first >>= next) (first' >>= next') :=
  inStep.bind fun a a' _ => continues a a'

theorem fail {expected : Expectation} : InStep related (fail expected) (fail expected) :=
  fun _ _ alike => .error (Cursor.complaint_alike alike expected)

theorem expect {expected : Expectation} {test test' : Token → Option β}
    (tests : TestAlike related' test test') :
    InStep related' (expect expected test) (expect expected test') := by
  intro c c' alike
  have found := take?_inStep tests c c' alike
  unfold Reader.expect
  generalize c.take? test = result at found
  generalize c'.take? test' = result' at found
  cases found with
  | none => exact .error (Cursor.complaint_alike alike expected)
  | some holds => exact .ok holds.1 holds.2

theorem optional {test test' : Token → Option β} (tests : TestAlike related' test test') :
    InStep (Option.Rel related') (optional test) (optional test') := by
  intro c c' alike
  have found := take?_inStep tests c c' alike
  unfold Reader.optional
  generalize c.take? test = result at found
  generalize c'.take? test' = result' at found
  cases found with
  | none => exact .ok .none alike
  | some holds => exact .ok (.some holds.1) holds.2

theorem manyWithin {opener opener' : Cursor → Option (β × Cursor)} {item item' : β → Reader α}
    (opens : OpenInStep related' opener opener')
    (items : ∀ b b', related' b b' → InStep related (item b) (item' b')) (bound : Nat) :
    InStep (List.Forall₂ related) (manyWithin opener item bound)
      (manyWithin opener' item' bound) := by
  induction bound with
  | zero => exact .pure .nil
  | succ bound ih =>
    intro c c' alike
    have found := opens c c' alike
    unfold Reader.manyWithin
    generalize opener c = result at found
    generalize opener' c' = result' at found
    cases found with
    | none => exact .ok .nil alike
    | some opened =>
      refine bind (items _ _ opened.1) (fun a a' holds => ?_) _ _ opened.2
      exact ih.bind fun others others' alike => .pure (.cons holds alike)

theorem many {opener opener' : Cursor → Option (β × Cursor)} {item item' : β → Reader α}
    (opens : OpenInStep related' opener opener')
    (items : ∀ b b', related' b b' → InStep related (item b) (item' b')) :
    InStep (List.Forall₂ related) (many opener item) (many opener' item') := by
  intro c c' alike
  unfold Reader.many
  rw [List.Forall₂.length_eq alike]
  exact manyWithin opens items _ c c' alike

theorem word (text : String) : InStep Token.SameLexeme (word text) (word text) :=
  .expect (hasText_alike text)

theorem identifier : InStep Eq identifier identifier := by
  refine .expect fun token token' same => ?_
  simp only [same.1, same.2]
  split
  · exact .some rfl
  · exact .none

theorem lastEnd : InStep (fun _ _ => True) lastEnd lastEnd :=
  fun _ _ alike => .ok trivial alike

theorem spanFrom {start start' : Nat} :
    InStep (fun _ _ => True) (spanFrom start) (spanFrom start') :=
  .skip lastEnd fun _ _ => .pure trivial

theorem after (text : String) {item item' : Reader α} (items : InStep related item item') :
    InStep (Option.Rel related) (after text item) (after text item') := by
  refine .bind (.optional (hasText_alike text)) fun found found' same => ?_
  cases same with
  | none => exact .pure .none
  | some => exact items.bind fun a a' holds => .pure (.some holds)

theorem commaSeparated {item item' : Reader α} (items : InStep related item item') :
    InStep (List.Forall₂ related) (commaSeparated item) (commaSeparated item') := by
  refine .bind (.optional (hasText_alike ")")) fun found found' same => ?_
  cases same with
  | some => exact .pure .nil
  | none =>
    refine items.bind fun a a' holds => ?_
    refine .bind (.many (take?_inStep (hasText_alike ",")) fun _ _ _ => items)
      fun others others' alike => ?_
    exact .skip (.word ")") fun _ _ => .pure (.cons holds alike)

end InStep

/-! ## Expressions -/

/-- The two tokens start an operand alike. -/
inductive OperandStart.Alike : OperandStart → OperandStart → Prop
  | literal {span span' : Span} {value : Literal} :
    Alike (.literal span (.ok value)) (.literal span' (.ok value))
  | invalid {span span' : Span} {error error' : SyntaxError} : error.Alike error' →
    Alike (.literal span (.error error)) (.literal span' (.error error'))
  | parenthesis {start start' : Nat} : Alike (.parenthesis start) (.parenthesis start')
  | name {span span' : Span} {name : String} : Alike (.name span name) (.name span' name)

theorem ofToken?_alike :
    TestAlike OperandStart.Alike OperandStart.ofToken? OperandStart.ofToken? := by
  rintro ⟨kind, text, span⟩ ⟨_, _, span'⟩ ⟨rfl, rfl⟩
  -- What a token denotes depends on its text alone.
  have decoded : ∀ k : LiteralKind,
      k.decode? ⟨kind, text, span'⟩ = k.decode? ⟨kind, text, span⟩ := by
    intro k
    cases k <;> rfl
  simp only [OperandStart.ofToken?, Token.literal?, decoded]
  cases Literal.ofWord? text with
  | some value => exact .some .literal
  | none =>
    cases kind.literal? with
    | some k =>
      cases value : k.decode? ⟨kind, text, span⟩ with
      | some value =>
        simp only [Option.map_some, value]
        exact .some .literal
      | none =>
        simp only [Option.map_some, value]
        exact .some (.invalid rfl)
    | none =>
      simp only [Option.map_none]
      split
      · exact .some .parenthesis
      · split
        · exact .some .name
        · exact .none

section

variable {expression expression' : Reader Expression}
  (inner : InStep Expression.Alike expression expression')

include inner

theorem operand_inStep : InStep Expression.Alike (operand expression) (operand expression') := by
  refine .bind (.expect ofToken?_alike) fun start start' same => ?_
  cases same with
  | literal => exact .bind (.pure rfl) fun value value' same => .pure (by rw [same]; rfl)
  | invalid same => exact fun _ _ _ => .error same
  | parenthesis =>
    refine inner.bind fun e e' alike => .skip (.word ")") fun _ _ => .skip .spanFrom fun _ _ => ?_
    exact .pure (congrArg (Expression.group _) alike)
  | name =>
    refine .bind (.after "(" (.commaSeparated inner)) fun args args' alike => ?_
    cases alike with
    | none => exact .pure rfl
    | some alike =>
      refine .skip .spanFrom fun _ _ => .pure ?_
      exact congrArg (Expression.call _ _ · none) (Expression.unplacedAll_of_alike alike)

/-- Suffixes that select the same member. -/
structure Suffix.Alike (suffix suffix' : Suffix) : Prop where
  name : suffix.name = suffix'.name
  arguments : Option.Rel (List.Forall₂ Expression.Alike) suffix.arguments suffix'.arguments

theorem suffix_inStep : InStep Suffix.Alike (suffix expression) (suffix expression') := by
  refine .bind .identifier fun name name' same => ?_
  refine .bind (.after "(" (.commaSeparated inner)) fun args args' alike => ?_
  exact .skip .lastEnd fun _ _ => .pure ⟨same, alike⟩

omit inner in
theorem attach_alike {e e' : Expression} {suffix suffix' : Suffix} (alike : e.Alike e')
    (same : suffix.Alike suffix') : (suffix.attach e).Alike (suffix'.attach e') := by
  rcases suffix with ⟨name, args, stop⟩
  rcases suffix' with ⟨name', args', stop'⟩
  rcases same with ⟨rfl, arguments⟩
  cases arguments with
  | none => exact congrArg (Expression.memberAccess _ · _ none) alike
  | some arguments =>
    simp only [Suffix.attach, Expression.Alike, Expression.unplaced, alike,
      Expression.unplacedAll_of_alike arguments]
    rfl

theorem selection_inStep :
    InStep Expression.Alike (selection expression) (selection expression') := by
  refine .bind (operand_inStep inner) fun e e' alike => ?_
  refine .bind (.many (take?_inStep (hasText_alike ".")) fun _ _ _ => suffix_inStep inner)
    fun suffixes suffixes' others => .pure ?_
  refine List.rel_foldl (fun e e' alike suffix suffix' same => ?_) alike others
  exact attach_alike alike same

theorem level_inStep (precedence : Precedence) :
    InStep Expression.Alike (level precedence expression) (level precedence expression') := by
  have operators : TestAlike Eq (operatorAt precedence) (operatorAt precedence) := by
    intro token token' same
    rw [operatorAt, operatorAt, same.2]
    cases (Operator.ofSymbol? token'.text).filter (·.precedence = precedence) with
    | none => exact .none
    | some operator => exact .some rfl
  have items : ∀ operator operator' : Operator, operator = operator' →
      InStep (fun item item' => item.1 = item'.1 ∧ item.2.Alike item'.2)
        (do return (operator, ← expression)) (do return (operator', ← expression')) :=
    fun _ _ same => inner.bind fun e e' alike => .pure ⟨same, alike⟩
  refine inner.bind fun e e' alike => ?_
  refine .bind (.many (take?_inStep operators) items) fun others others' same => .pure ?_
  refine List.rel_foldl (fun left left' alike item item' same => ?_) alike same
  simp only [Expression.Alike, Expression.combine, Expression.unplaced, same.1, alike, same.2]
  rfl

end

theorem expressionWithin_inStep (bound : Nat) :
    InStep Expression.Alike (expressionWithin bound) (expressionWithin bound) := by
  induction bound with
  | zero => exact .fail
  | succ bound ih =>
    exact level_inStep (level_inStep (level_inStep (level_inStep (selection_inStep ih) _) _) _) _

theorem expression_inStep : InStep Expression.Alike expression expression := by
  intro c c' alike
  unfold expression
  rw [List.Forall₂.length_eq alike]
  exact expressionWithin_inStep _ c c' alike

/-! ## Programs -/

theorem declarationAfter_inStep (opening opening' : Token) :
    InStep Declaration.Alike (declarationAfter opening) (declarationAfter opening') := by
  refine .bind .identifier fun name name' sameName => ?_
  refine .bind (.after ":" .identifier) fun typeName typeName' sameType => ?_
  refine .bind (.after "=" expression_inStep) fun value value' alike => ?_
  refine .skip (.word ";") fun _ _ => .skip .spanFrom fun _ _ => .pure ?_
  simp only [Declaration.Alike, Declaration.unplaced, sameName, eq_of_rel sameType, rel_alike alike]

section

variable {statement statement' : Reader Statement}
  (inner : InStep Statement.Alike statement statement')

include inner

theorem block_inStep (terminators : List String) :
    InStep (List.Forall₂ Statement.Alike) (block terminators statement)
      (block terminators statement') :=
  .many (blockContinues_inStep terminators) fun _ _ _ => inner

theorem body_inStep :
    InStep (List.Forall₂ Statement.Alike) (body statement) (body statement') :=
  .skip (.word "DO") fun _ _ => .bind (block_inStep inner ["END"]) fun _ _ alike =>
    .skip (.word "END") fun _ _ => .pure alike

theorem statementUsing_inStep :
    InStep Statement.Alike (statementUsing statement) (statementUsing statement') := by
  have opens : TestAlike (fun opened opened' => opened.1 = opened'.1) statementWord?
      statementWord? := by
    intro token token' same
    rw [statementWord?, statementWord?, same.2]
    cases StatementWord.ofText? token'.text with
    | none => exact .none
    | some word => exact .some rfl
  refine .bind (.optional opens) fun opened opened' same => ?_
  cases same with
  | none =>
    refine expression_inStep.bind fun target target' alike => ?_
    refine .bind (.after "=" expression_inStep) fun value value' alikeValue => ?_
    refine .skip (.word ";") fun _ _ => ?_
    cases alikeValue with
    | none => exact .pure (congrArg Statement.expression alike)
    | some alikeValue =>
      refine .pure ?_
      simp only [Statement.Alike, Statement.unplaced, alike, alikeValue]
  | @some opened opened' same =>
    rcases opened with ⟨word, opening⟩
    rcases opened' with ⟨_, opening'⟩
    cases same
    cases word with
    | declaration =>
      refine (declarationAfter_inStep opening opening').bind fun decl decl' alike => ?_
      exact .pure (congrArg Statement.declaration alike)
    | conditional =>
      refine expression_inStep.bind fun condition condition' alike => ?_
      refine .skip (.word "DO") fun _ _ => ?_
      refine .bind (block_inStep inner ["ELSE", "END"]) fun thenBody thenBody' alikeThen => ?_
      refine .bind (.after "ELSE" (block_inStep inner ["END"])) fun found found' alikeElse => ?_
      refine .skip (.word "END") fun _ _ => .pure ?_
      have sameElse : Statement.unplacedAll (found.getD []) =
          Statement.unplacedAll (found'.getD []) := by
        cases alikeElse with
        | none => rfl
        | some alikeElse => exact Statement.unplacedAll_of_alike alikeElse
      simp only [Statement.Alike, Statement.unplaced, alike,
        Statement.unplacedAll_of_alike alikeThen, sameElse]
    | forEach =>
      refine .bind .identifier fun name name' sameName => .skip (.word "IN") fun _ _ => ?_
      refine expression_inStep.bind fun range range' alike => ?_
      refine (body_inStep inner).bind fun body body' alikeBody => .pure ?_
      simp only [Statement.Alike, Statement.unplaced, sameName, alike,
        Statement.unplacedAll_of_alike alikeBody]
    | loop =>
      refine expression_inStep.bind fun condition condition' alike => ?_
      refine (body_inStep inner).bind fun body body' alikeBody => .pure ?_
      simp only [Statement.Alike, Statement.unplaced, alike,
        Statement.unplacedAll_of_alike alikeBody]
    | result =>
      refine expression_inStep.bind fun value value' alike => ?_
      exact .skip (.word ";") fun _ _ => .pure (congrArg Statement.result alike)

end

theorem statementWithin_inStep (bound : Nat) :
    InStep Statement.Alike (statementWithin bound) (statementWithin bound) := by
  induction bound with
  | zero => exact .fail
  | succ bound ih => exact statementUsing_inStep ih

theorem statement_inStep : InStep Statement.Alike statement statement := by
  intro c c' alike
  unfold statement
  rw [List.Forall₂.length_eq alike]
  exact statementWithin_inStep _ c c' alike

theorem parameter_inStep : InStep Eq parameter parameter := by
  refine .bind .identifier fun name name' sameName => .skip (.word ":") fun _ _ => ?_
  refine .bind .identifier fun typeName typeName' sameType => .pure ?_
  rw [sameName, sameType]

theorem methodAfter_inStep (opening opening' : Token) :
    InStep Method.Alike (methodAfter opening) (methodAfter opening') := by
  refine .bind .identifier fun name name' sameName => .skip (.word "(") fun _ _ => ?_
  refine .bind (.commaSeparated parameter_inStep) fun parameters parameters' sameParameters => ?_
  refine .bind (.after ":" .identifier) fun returns returns' sameReturns => ?_
  refine (body_inStep statement_inStep).bind fun body body' alike => ?_
  refine .skip .spanFrom fun _ _ => .pure ?_
  rw [List.forall₂_eq_eq_eq] at sameParameters
  simp only [Method.Alike, Method.unplaced, sameName, sameParameters, eq_of_rel sameReturns,
    Statement.unplacedAll_of_alike alike]

theorem atEnd_inStep : InStep Eq atEnd atEnd := by
  rintro ⟨rest, last⟩ ⟨rest', last'⟩ alike
  have complaint := Cursor.complaint_alike alike .methodOrEnd
  cases alike with
  | nil => exact .ok rfl .nil
  | cons => exact .error complaint

theorem program_inStep : InStep Program.Alike program program := by
  refine .bind (.many (take?_inStep (hasText_alike "LET")) fun opening opening' _ =>
    declarationAfter_inStep opening opening') fun fields fields' alikeFields => ?_
  refine .bind (.many (take?_inStep (hasText_alike "DEF")) fun opening opening' _ =>
    methodAfter_inStep opening opening') fun methods methods' alikeMethods => ?_
  refine .skip atEnd_inStep fun _ _ => .pure ?_
  simp only [Program.Alike, Program.unplaced, forall₂_alike alikeFields,
    forall₂_alike alikeMethods]

end Reader

/-- The same lexemes make programs that are equal apart from places, or none for reasons that are
equal apart from the position. -/
theorem Program.ofTokens_inStep {tokens tokens' : List Token}
    (same : List.Forall₂ Token.SameLexeme tokens tokens') :
    (∃ program program', ofTokens tokens = .ok program ∧ ofTokens tokens' = .ok program' ∧
      program.Alike program') ∨
    ∃ error error', ofTokens tokens = .error error ∧ ofTokens tokens' = .error error' ∧
      error.Alike error' := by
  have results := Reader.program_inStep ⟨tokens, 0⟩ ⟨tokens', 0⟩ same
  unfold ofTokens StateT.run
  generalize Reader.program ⟨tokens, 0⟩ = result at results
  generalize Reader.program ⟨tokens', 0⟩ = result' at results
  cases results with
  | ok alike => exact .inl ⟨_, _, rfl, rfl, alike⟩
  | error alike => exact .inr ⟨_, _, rfl, rfl, alike⟩

end Primer
