import Primer.Proofs.Grammar.Promptness

/-!
# Syntax errors come at the earliest token

Every reader of the grammar is prompt.  So a list of tokens that is no program is refused at the
first token that no program has in this place: what stands before that token can be completed to a
program, and nothing behind it matters.  A list that ends too early can be completed as a whole.

Nothing is asked of the tokens, whose texts and kinds need not fit together.
-/

namespace Primer

namespace Reader

variable {bound : Nat} {first follow : Token → Prop}

theorem says_ne {text other : String} (different : text ≠ other) :
    ∀ token, Says text token → token.text ≠ other :=
  fun _ same => same ▸ different

/-- What is made of the tokens read so far. -/
theorem Prompt.spanned {α : Type} {start : Nat} {build : Span → α}
    (keeps : ∀ token, follow token → first token) :
    Prompt bound first follow (do return build (← spanFrom start)) := by
  have reads : ∀ rest last, (do return build (← spanFrom start) : Reader α) ⟨rest, last⟩ =
      .ok (build ⟨start, last⟩, ⟨rest, last⟩) :=
    fun _ _ => rfl
  exact .still reads keeps

/-- A first part and a chain of items. -/
theorem Prompt.spine {α β γ : Type} {head : Reader α} {test : Token → Option β}
    {item : β → Reader γ} {join : α → γ → α} {before : Token → Prop}
    (prompt : Prompt bound first before head) (takes : ∀ b, Takes 0 (item b))
    (promptItem : ∀ fewer < bound, ∀ b, Prompt fewer Anything follow (item b))
    (weaken : ∀ token, follow token → before token)
    (ends : ∀ token, follow token → test token = none) :
    Prompt bound first follow (do
      let a ← head
      let items ← Reader.many (Cursor.take? test) item
      return items.foldl join a) := by
  refine prompt.bind (fun a => ?_) weaken
  exact .returning (.many takes promptItem ends weaken)

/-! ## Expressions -/

/-- A literal that cannot be decoded is blamed where it stands. -/
theorem blames_of_literal? {token : Token} {error : SyntaxError} {span : Span} {last : Nat}
    {rest : List Token}
    (start : OperandStart.ofToken? token = some (.literal span (.error error))) :
    error.Blames last (token :: rest) := by
  unfold OperandStart.ofToken? at start
  split at start
  · rename_i decoded literal
    cases start
    unfold Token.literal? at literal
    split at literal
    · cases literal
    · rcases Option.map_eq_some_iff.mp literal with ⟨kind, isLiteral, decoded⟩
      split at decoded <;> cases decoded
      exact .invalidLiteral isLiteral ‹_›
  · split at start
    · cases start
    · split at start <;> cases start

section

variable {inner : Reader Expression} (takes : Takes 0 inner)

include takes

theorem arguments_prompt (prompt : Prompt bound Anything (Token.Stops 5) inner) :
    Prompt bound Anything (Token.Stops 0) (after "(" (commaSeparated inner)) := by
  refine .after (.commaSeparated takes (prompt.mono fun token closing => ?_)) ?_
    fun _ _ => trivial
  · exact Token.stops_of_text closing (by decide)
  · exact fun token stops => stops.not_call

theorem operand_prompt (prompt : ∀ fewer < bound, Prompt fewer Anything (Token.Stops 5) inner) :
    Prompt bound Anything (Token.Stops 0) (operand inner) := by
  constructor
  · intro last
    have start : OperandStart.ofToken? (spare "NIL") = some (.literal ⟨0, 0⟩ (.ok .nil)) := rfl
    refine ⟨[spare "NIL"], .literal { span := ⟨0, 0⟩ } .nil, 0, fun other _ => ⟨.always, ?_⟩⟩
    exact bind_of_ok (expect_eq_ok.mpr (take?_of_cons rfl start))
  · rintro ⟨tokens, last⟩ short
    rcases next_or_taken OperandStart.ofToken? tokens with absent | ⟨token, rest, start, rfl, taken⟩
    · exact .missing absent
    · have prompt := prompt _ short
      match start with
      | .literal span (.ok value) => exact .taken taken (.pure fun _ _ => trivial) (Nat.le_refl _)
      | .literal span (.error error) =>
        -- The token has been taken when its text turns out wrong, but it is still the one blamed.
        refine .stuck (blames_of_literal? taken) fun other same => ?_
        rcases List.head?_eq_some_iff.mp same with ⟨others, rfl⟩
        exact bind_of_ok (expect_eq_ok.mpr (take?_of_cons rfl taken))
      | .parenthesis start =>
        refine .taken taken ?_ (Nat.le_refl _)
        refine Prompt.taking (prompt.mono fun token (closing : Says ")" token) => ?_) (fun _ => ?_)
          fun _ => .left .word fun _ => .left .spanFrom fun _ => .pure
        · exact Token.stops_of_text closing (by decide)
        · exact .word rfl fun _ => .spanned fun _ _ => trivial
      | .name span name =>
        refine .taken taken ?_ (Nat.le_refl _)
        refine (arguments_prompt takes prompt).bind (fun found => ?_) fun _ stops => stops
        cases found with
        | none => exact .pure fun _ stops => stops
        | some arguments => exact .spanned fun _ stops => stops

theorem suffix_prompt (prompt : Prompt bound Anything (Token.Stops 5) inner) :
    Prompt bound Anything (Token.Stops 0) (suffix inner) := by
  refine .identifier fun name => ?_
  refine (arguments_prompt takes prompt).bind (fun arguments => ?_) fun _ stops => stops
  exact .returning (.still (fun _ _ => rfl) fun _ stops => stops)

theorem upTo_prompt (prompt : ∀ fewer < bound, Prompt fewer Anything (Token.Stops 5) inner)
    (looseness : Nat) :
    Prompt bound Anything (Token.Stops looseness) (upTo inner looseness) := by
  match looseness with
  | 0 => exact operand_prompt takes prompt
  | 1 =>
    have tighter : ∀ token : Token, token.Stops 1 → token.Stops 0 :=
      fun _ stops => stops.mono (Nat.zero_le 1)
    refine .spine (operand_prompt takes prompt) (fun _ => (takes_suffix takes).weaken) ?_ tighter ?_
    · exact fun fewer less _ => (suffix_prompt takes (prompt fewer less)).mono tighter
    · exact fun token stops => hasText_of_ne (stops.not_member (Nat.le_refl 1))
  | k + 2 =>
    have tighter : ∀ token : Token, token.Stops (k + 2) → token.Stops (k + 1) :=
      fun _ stops => stops.mono (Nat.le_succ (k + 1))
    have operands := upTo_prompt prompt (k + 1)
    have takesOperand := takes_upTo takes (k + 1)
    refine .spine operands (fun _ => .left takesOperand.weaken fun _ => .pure) ?_ tighter ?_
    · intro fewer less operator
      exact .returning ((operands.below (Nat.le_of_lt less)).mono tighter)
    · exact fun token stops => stops.not_operator (looseness_precedenceAt_le k)

end

theorem expression_prompt : Prompt bound Anything (Token.Stops 5) expression := by
  induction bound using Nat.strong_induction_on with
  | _ bound ih =>
    rw [expression_eq]
    exact upTo_prompt takes_expression.weaken ih 5

/-- An expression in front of a word that ends it. -/
theorem expression_prompt_before (text : String) (ending : text ∈ [")", ",", ";", "=", "DO"]) :
    Prompt bound Anything (Says text) expression :=
  expression_prompt.mono fun _ same => Token.stops_of_text same ending

/-! ## Statements -/

/-- A value in front of the end of a statement. -/
theorem value_prompt : Prompt bound (Says ";") (Says ";") (after "=" expression) :=
  .after (expression_prompt_before ";" (by decide)) (says_ne (by decide)) fun _ fits => fits

theorem declarationAfter_prompt (opening : Token) :
    Prompt bound Anything follow (declarationAfter opening) := by
  have typed : Prompt bound Anything (Says ";") (after ":" identifier) :=
    .after .name (says_ne (by decide)) fun _ _ => trivial
  have closes : ∀ build : Span → Declaration, Takes 1 (do
      let _ ← word ";"
      return build (← spanFrom opening.span.start)) :=
    fun _ => .left .word fun _ => .left .spanFrom fun _ => .pure
  refine .identifier fun name => ?_
  refine typed.taking (fun typeName => ?_) fun typeName => ?_
  · refine value_prompt.taking (fun value => ?_) fun value => closes _
    exact .word rfl fun _ => .spanned fun _ _ => trivial
  · exact .right (.after takes_expression.weaken) fun value => closes _

theorem result_prompt : Prompt bound Anything follow (do
    let value ← expression
    let _ ← word ";"
    return Statement.result value) := by
  refine (expression_prompt_before ";" (by decide)).taking (fun _ => ?_) fun _ => ?_
  · exact .word rfl fun _ => .pure fun _ _ => trivial
  · exact .left .word fun _ => .pure

section

variable {terminators : List String} {c : Cursor}

theorem blockContinues_of_next (ended : Next (·.text ∈ terminators) c.rest) :
    blockContinues terminators c = none := by
  unfold blockContinues
  split
  · rfl
  · rename_i token rest tokens
    exact if_pos (List.contains_iff_mem.mpr (ended token (by rw [tokens]; rfl)))

theorem blockContinues_of_not_next (goes_on : ¬ Next (·.text ∈ terminators) c.rest) :
    blockContinues terminators c = some ((), c) := by
  unfold blockContinues
  split
  · rename_i tokens
    exact absurd (fun _ absent => by rw [tokens] at absent; cases absent) goes_on
  · rename_i token rest tokens
    refine if_neg fun ended => goes_on fun other member => ?_
    rw [tokens] at member
    cases member
    exact List.contains_iff_mem.mp ended

end

section

variable {inner : Reader Statement} (takes : Takes 1 inner)

include takes

/-- Statements up to a word that ends the block. -/
theorem block_prompt {text : String} {terminators : List String}
    (prompt : Prompt bound Anything Anything inner) (ending : text ∈ terminators)
    (keeps : ∀ token, Says text token → first token) :
    Prompt bound first (Says text) (block terminators inner) := by
  have ends : ∀ other last, Next (·.text ∈ terminators) other →
      block terminators inner ⟨other, last⟩ = .ok ([], ⟨other, last⟩) :=
    fun other last ended => many_of_none (blockContinues_of_next ended)
  have ended : ∀ other, Next (Says text) other → Next (·.text ∈ terminators) other :=
    fun other => .mono fun token same => same ▸ ending
  have completes : ∀ first, (∀ token, Says text token → first token) → ∀ last,
      Completes (block terminators inner) first (Says text) [] last :=
    fun first keeps last => ⟨[], [], last, fun other ahead =>
      ⟨.mono keeps ahead, ends other last (ended other ahead)⟩⟩
  induction bound generalizing first with
  | zero => exact ⟨completes first keeps, fun _ short => absurd short (Nat.not_lt_zero _)⟩
  | succ bound ih =>
    refine ⟨completes first keeps, ?_⟩
    rintro ⟨tokens, last⟩ short
    by_cases stops : Next (·.text ∈ terminators) tokens
    · refine .stop fun other ahead => ends other last ?_
      exact ahead.elim (.congr · stops) (ended other)
    · -- The opener takes no token here, so it is the statement that makes the rest shorter.
      have others : ∀ statement, Prompt bound Anything (Says text) (do
          let others ← block terminators inner
          return statement :: others) := fun statement =>
        .returning (ih (prompt.below (Nat.le_succ bound)) fun _ _ => trivial)
      refine .turn (.left takes fun _ => .left (takes_block takes.weaken) fun _ => .pure)
        (fun other same => many_of_some opening_blockContinues
          (advances_of_takes opening_blockContinues fun _ => takes)
          (blockContinues_of_not_next fun ended => stops (.congr same.symm ended))) ?_
      refine (prompt.prompt _ short).bind (fun a => (others a).completes) (.inl fun _ _ => trivial)
        fun a d read => (others a).prompt d ?_
      have shorter := takes _ d a read
      omega

theorem body_prompt (prompt : Prompt bound Anything Anything inner) :
    Prompt bound (Says "DO") follow (body inner) := by
  have statements : Prompt bound Anything (Says "END") (block ["END"] inner) :=
    block_prompt takes prompt (by decide) fun _ _ => trivial
  refine .word rfl fun _ => statements.taking (fun _ => ?_) fun _ => .left .word fun _ => .pure
  exact .word rfl fun _ => .pure fun _ _ => trivial

/-- A body behind an expression. -/
theorem guarded_prompt {build : Expression → List Statement → Statement}
    (prompt : Prompt bound Anything Anything inner) :
    Prompt bound Anything follow (do
      let guard ← expression
      return build guard (← body inner)) := by
  refine (expression_prompt_before "DO" (by decide)).taking (fun _ => ?_) fun _ => ?_
  · exact .returning (body_prompt takes prompt)
  · exact .left (takes_body takes.weaken) fun _ => .pure

theorem conditional_prompt (prompt : Prompt bound Anything Anything inner) :
    Prompt bound Anything follow (do
      let condition ← expression
      let _ ← word "DO"
      let thenBody ← block ["ELSE", "END"] inner
      let elseBody ← after "ELSE" (block ["END"] inner)
      let _ ← word "END"
      return Statement.conditional condition thenBody (elseBody.getD [])) := by
  have thenBlock : Prompt bound Anything (Says "END") (block ["ELSE", "END"] inner) :=
    block_prompt takes prompt (by decide) fun _ _ => trivial
  have elseBlock : Prompt bound (Says "END") (Says "END") (after "ELSE" (block ["END"] inner)) :=
    .after (block_prompt takes prompt (by decide) fun _ _ => trivial) (says_ne (by decide))
      fun _ fits => fits
  have takesBlock : ∀ terminators, Takes 0 (block terminators inner) :=
    fun _ => takes_block takes.weaken
  refine (expression_prompt_before "DO" (by decide)).taking (fun condition => ?_) fun _ => ?_
  · refine .word rfl fun _ => thenBlock.taking (fun thenBody => ?_) fun thenBody => ?_
    · refine elseBlock.taking (fun elseBody => ?_) fun _ => .left .word fun _ => .pure
      exact .word rfl fun _ => .pure fun _ _ => trivial
    · exact .right (.after (takesBlock _)) fun _ => .left .word fun _ => .pure
  · exact .left .word fun _ => .left (takesBlock _) fun _ => .left (.after (takesBlock _))
      fun _ => .left Takes.word.weaken fun _ => .pure

theorem statementUsing_prompt (prompt : ∀ fewer < bound, Prompt fewer Anything Anything inner) :
    Prompt bound Anything follow (statementUsing inner) := by
  constructor
  · -- `RETURN` begins a statement that holds no others.
    intro last
    have opened : statementWord? (spare "RETURN") = some (.result, spare "RETURN") := rfl
    have result : Prompt 0 Anything follow _ := result_prompt
    rcases result.completes 0 with ⟨more, statement, stop, ends⟩
    refine ⟨spare "RETURN" :: more, statement, stop, fun other ahead => ⟨.always, ?_⟩⟩
    exact (bind_of_ok (optional_of_some (take?_of_cons rfl opened))).trans (ends other ahead).2
  · rintro ⟨tokens, last⟩ short
    rcases next_or_taken statementWord? tokens with absent | ⟨token, rest, found, rfl, taken⟩
    · refine .unopened absent ?_ ?_ short
      · refine .left takes_expression fun _ => ?_
        refine .left (.after takes_expression.weaken) fun value => ?_
        refine .left Takes.word.weaken fun _ => ?_
        cases value <;> exact .pure
      · refine (expression_prompt_before ";" (by decide)).taking (fun _ => ?_) fun _ => ?_
        · refine value_prompt.taking (fun value => ?_) fun value => .left .word fun _ => ?_
          · refine .word rfl fun _ => ?_
            cases value <;> exact .pure fun _ _ => trivial
          · cases value <;> exact .pure
        · refine .right (.after takes_expression.weaken) fun value => .left .word fun _ => ?_
          cases value <;> exact .pure
    · have prompt := prompt _ short
      rcases found with ⟨word, opening⟩
      refine .opened taken ?_ (Nat.le_refl _)
      cases word with
      | declaration => exact .returning (declarationAfter_prompt opening)
      | conditional => exact conditional_prompt takes prompt
      | forEach =>
        refine .identifier fun name => .word trivial fun _ => ?_
        exact guarded_prompt takes prompt
      | loop => exact guarded_prompt takes prompt
      | result => exact result_prompt

end

theorem statement_prompt : Prompt bound Anything Anything statement := by
  induction bound using Nat.strong_induction_on with
  | _ bound ih =>
    rw [statement_eq]
    exact statementUsing_prompt takes_statement ih

/-! ## Programs -/

theorem parameter_prompt : Prompt bound Anything follow parameter := by
  refine .identifier fun name => .word trivial fun _ => ?_
  exact .identifier fun type => .pure fun _ _ => trivial

theorem methodAfter_prompt (opening : Token) :
    Prompt bound Anything follow (methodAfter opening) := by
  have parameters : Prompt bound Anything Anything (commaSeparated parameter) :=
    .commaSeparated takes_parameter.weaken parameter_prompt
  have returns : Prompt bound Anything (Says "DO") (after ":" identifier) :=
    .after .name (says_ne (by decide)) fun _ _ => trivial
  have statements : Prompt bound (Says "DO") Anything (body statement) :=
    body_prompt takes_statement statement_prompt
  refine .identifier fun name => .word trivial fun _ => ?_
  refine parameters.bind (fun _ => returns.taking (fun _ => ?_) fun _ => ?_) fun _ _ => trivial
  · exact statements.bind (fun _ => .spanned fun _ _ => trivial) fun _ _ => trivial
  · exact .left (takes_body takes_statement.weaken) fun _ => .left .spanFrom fun _ => .pure

/-- No token. -/
abbrev Nothing : Token → Prop :=
  fun _ => False

theorem next_nothing {tokens : List Token} : Next Nothing tokens ↔ tokens = [] := by
  cases tokens <;> simp [Next]

theorem atEnd_prompt : Prompt bound Nothing Nothing atEnd where
  completes last := by
    refine ⟨[], (), last, fun other ahead => ⟨ahead, ?_⟩⟩
    rw [next_nothing.mp ahead]
    rfl
  prompt c _ := by
    rcases c with ⟨tokens, last⟩
    cases tokens with
    | nil =>
      refine .stop (a := ()) fun other ahead => ?_
      rw [ahead.elim List.head?_eq_none_iff.mp next_nothing.mp]
      rfl
    | cons token rest =>
      refine .stuck (Cursor.complaint_blames _ .methodOrEnd) fun other same => ?_
      rcases List.head?_eq_some_iff.mp same with ⟨others, rfl⟩
      rfl

theorem program_prompt : Prompt bound Anything Nothing program := by
  have fields : Prompt bound Anything Nothing
      (many (Cursor.take? (hasText "LET")) declarationAfter) :=
    .many (fun opening => (takes_declarationAfter opening).weaken)
      (fun _ _ opening => declarationAfter_prompt opening) (fun _ => False.elim) fun _ _ => trivial
  have methods : Prompt bound Nothing Nothing (many (Cursor.take? (hasText "DEF")) methodAfter) :=
    .many (fun opening => (takes_methodAfter opening).weaken)
      (fun _ _ opening => methodAfter_prompt opening) (fun _ => False.elim) fun _ => False.elim
  refine fields.bind (fun _ => methods.bind (fun _ => ?_) fun _ => False.elim) fun _ => False.elim
  exact atEnd_prompt.returning

end Reader

namespace Program

/-- The tokens begin a program: with some more behind them they are one. -/
def Begun (tokens : List Token) : Prop :=
  ∃ more program, ofTokens (tokens ++ more) = .ok program

theorem begun_nil : Begun [] :=
  ⟨[], ⟨[], []⟩, rfl⟩

/-- A list of tokens that is no program either ends too early, and then it begins one, or has a
token that is refused.  The tokens before that one begin a program; with it they fail in the same
way whatever follows. -/
theorem error_at_earliest_token {tokens : List Token} {error : SyntaxError}
    (failed : ofTokens tokens = .error error) :
    (Begun tokens ∧ ∃ expected,
      error = .unexpectedEnd expected ((tokens.getLast?.map (·.span.stop)).getD 0)) ∨
    ∃ before bad behind, tokens = before ++ bad :: behind ∧ Begun before ∧
      ((∃ expected, error = .unexpected expected bad.text bad.span.start) ∨
        ∃ kind, error = .invalidLiteral kind bad.text bad.span.start) ∧
      ∀ others, ofTokens (before ++ bad :: others) = .error error := by
  have prompt := Reader.program_prompt.prompt ⟨tokens, 0⟩ (Nat.lt_succ_self _)
  rcases prompt.rejects error (ofTokens_eq_error.mp failed) with
    ⟨used, rest, rfl, blames, fails, completed⟩
  have begun : Begun used := by
    by_cases empty : used = []
    · exact empty ▸ begun_nil
    · rcases completed empty with ⟨more, program, stop, ends⟩
      rcases ends [] (Reader.next_nothing.mpr rfl) with ⟨-, read⟩
      exact ⟨more ++ [], program, ofTokens_eq_ok.mpr ⟨_, read⟩⟩
  cases blames with
  | unexpectedEnd =>
    rw [List.append_nil]
    exact .inl ⟨begun, _, rfl⟩
  | unexpected =>
    refine .inr ⟨used, _, _, rfl, begun, .inl ⟨_, rfl⟩, fun others => ?_⟩
    exact ofTokens_eq_error.mpr (fails _ rfl)
  | invalidLiteral =>
    refine .inr ⟨used, _, _, rfl, begun, .inr ⟨_, rfl⟩, fun others => ?_⟩
    exact ofTokens_eq_error.mpr (fails _ rfl)

/-- A method whose body has a comma in front of a closing parenthesis. -/
def trailingComma : List Token :=
  [⟨.identifier, "DEF", ⟨0, 3⟩⟩, ⟨.identifier, "f", ⟨4, 5⟩⟩, ⟨.operator, "(", ⟨5, 6⟩⟩,
    ⟨.operator, ")", ⟨6, 7⟩⟩, ⟨.identifier, "DO", ⟨8, 10⟩⟩, ⟨.identifier, "IF", ⟨11, 13⟩⟩,
    ⟨.identifier, "g", ⟨14, 15⟩⟩, ⟨.operator, "(", ⟨15, 16⟩⟩, ⟨.identifier, "x", ⟨16, 17⟩⟩,
    ⟨.operator, ",", ⟨17, 18⟩⟩, ⟨.operator, ")", ⟨19, 20⟩⟩, ⟨.identifier, "DO", ⟨21, 23⟩⟩]

theorem error_at_earliest_token_trailingComma :
    ofTokens trailingComma = .error (.unexpected .expression ")" 19) ∧
    ∃ before bad behind, trailingComma = before ++ bad :: behind ∧ Begun before ∧
      bad.text = ")" ∧ bad.span.start = 19 ∧
      ∀ others, ofTokens (before ++ bad :: others) = .error (.unexpected .expression ")" 19) := by
  have failed : ofTokens trailingComma = .error (.unexpected .expression ")" 19) := rfl
  refine ⟨failed, ?_⟩
  rcases error_at_earliest_token failed with
    ⟨-, _, ⟨⟩⟩ | ⟨before, bad, behind, tokens, begun, ⟨_, same⟩ | ⟨_, ⟨⟩⟩, fails⟩
  injection same with _ text start
  exact ⟨before, bad, behind, tokens, begun, text.symm, start.symm, fails⟩

end Program

end Primer
