import Primer.Proofs.Grammar.Completeness
import Primer.Proofs.Grammar.Soundness

/-!
# Readers without their bounds

Readers that repeat or nest are given a bound, taken from the number of tokens left.  The bound does
not show in what they read.  Every item of a list takes a token, and so does everything in front of
a nested expression or statement (`Takes`).  A bound that is no smaller than the number of tokens is
therefore as good as any other (`Agree`), and the readers satisfy the equations that they would have
without one: `expression_eq` and `statement_eq`.
-/

namespace Primer.Reader

variable {α β : Type}

theorem bind_of_error {first : Reader α} {next : α → Reader β} {c : Cursor} {error : SyntaxError}
    (failed : first c = .error error) : (first >>= next) c = .error error := by
  change (first c >>= fun p => next p.1 p.2) = _
  rw [failed]
  rfl

/-- Two steps do the same where the first ones do and, behind what they read, the second ones do. -/
theorem bind_congr_at {first first' : Reader α} {next next' : α → Reader β} {c : Cursor}
    (same : first c = first' c)
    (then_same : ∀ a d, first c = .ok (a, d) → next a d = next' a d) :
    (first >>= next) c = (first' >>= next') c := by
  cases read : first c with
  | error error => rw [bind_of_error read, bind_of_error (same.symm.trans read)]
  | ok result =>
    rw [bind_of_ok read, bind_of_ok (same.symm.trans read)]
    exact then_same result.1 result.2 read

/-! ## How many tokens a reader takes -/

/-- Whenever the reader gives a result, at least `count` tokens are gone. -/
def Takes (count : Nat) (reader : Reader α) : Prop :=
  ∀ c d a, reader c = .ok (a, d) → d.rest.length + count ≤ c.rest.length

theorem length_of_take? {test : Token → Option β} {c d : Cursor} {b : β}
    (taken : c.take? test = some (b, d)) : d.rest.length + 1 = c.rest.length := by
  rcases take?_eq_some.mp taken with ⟨token, tokens, -, -⟩
  rw [tokens, List.length_cons]

namespace Takes

variable {count : Nat} {first : Reader α} {next : α → Reader β}

theorem weaken (takes : Takes 1 first) : Takes 0 first :=
  fun c d a read => Nat.le_of_succ_le (takes c d a read)

theorem pure {a : α} : Takes 0 (pure a : Reader α) := by
  intro c d b read
  rcases pure_eq_ok.mp read with ⟨rfl, rfl⟩
  exact Nat.le_refl _

theorem lift {result : Except SyntaxError α} : Takes 0 (liftM result : Reader α) := by
  intro c d a read
  rcases lift_eq_ok.mp read with ⟨-, rfl⟩
  exact Nat.le_refl _

theorem bind {j k : Nat} (takes : Takes j first) (then_takes : ∀ a, Takes k (next a)) :
    Takes (j + k) (first >>= next) := by
  intro c d b read
  rcases bind_eq_ok.mp read with ⟨a, m, first_read, next_read⟩
  have front := takes c m a first_read
  have back := then_takes a m d b next_read
  omega

/-- The tokens are taken by the first step. -/
theorem left (takes : Takes count first) (then_takes : ∀ a, Takes 0 (next a)) :
    Takes count (first >>= next) :=
  takes.bind then_takes

/-- The tokens are taken behind the first step. -/
theorem right (takes : Takes 0 first) (then_takes : ∀ a, Takes count (next a)) :
    Takes count (first >>= next) := by
  have both := takes.bind then_takes
  rwa [Nat.zero_add] at both

theorem lastEnd : Takes 0 lastEnd := by
  intro c d a read
  cases read
  exact Nat.le_refl _

theorem spanFrom {start : Nat} : Takes 0 (spanFrom start) :=
  .left lastEnd fun _ => .pure

theorem expect {expected : Expectation} {test : Token → Option β} :
    Takes 1 (expect expected test) := by
  intro c d b read
  have length := length_of_take? (expect_eq_ok.mp read)
  omega

theorem word {text : String} : Takes 1 (word text) :=
  expect

theorem identifier : Takes 1 identifier :=
  expect

theorem optional {test : Token → Option β} : Takes 0 (optional test) := by
  intro c d found read
  cases found with
  | none =>
    rw [optional_eq_none read]
    exact Nat.le_refl _
  | some b =>
    have length := length_of_take? (optional_eq_some read)
    omega

end Takes

/-! ## Repetition -/

/-- An opener finds nothing where no token is left, and gives no tokens back. -/
structure Opening (opener : Cursor → Option (β × Cursor)) : Prop where
  ends : ∀ c, c.rest = [] → opener c = none
  length_le : ∀ c m b, opener c = some (b, m) → m.rest.length ≤ c.rest.length

theorem opening_take? {test : Token → Option β} : Opening (Cursor.take? test) where
  ends c none_left := by rw [Cursor.take?, none_left]
  length_le c m b taken := by
    have length := length_of_take? taken
    omega

theorem blockContinues_eq_some {terminators : List String} {c m : Cursor} {u : Unit}
    (opened : blockContinues terminators c = some (u, m)) : m = c := by
  unfold blockContinues at opened
  split at opened
  · cases opened
  · split at opened <;> cases opened
    rfl

theorem opening_blockContinues {terminators : List String} :
    Opening (blockContinues terminators) where
  ends c none_left := by rw [blockContinues, none_left]
  length_le c m b opened := by rw [blockContinues_eq_some opened]

section Many

variable {opener : Cursor → Option (β × Cursor)} {item : β → Reader α}

theorem manyWithin_of_none {bound : Nat} {c : Cursor} (ended : opener c = none) :
    manyWithin opener item bound c = .ok ([], c) := by
  cases bound with
  | zero => rfl
  | succ bound => simp only [manyWithin, ended]

theorem manyWithin_of_some {bound : Nat} {c m : Cursor} {b : β} (opened : opener c = some (b, m)) :
    manyWithin opener item (bound + 1) c = (do
      let first ← item b
      let others ← manyWithin opener item bound
      return first :: others) m := by
  simp only [manyWithin, opened]

theorem Takes.manyWithin (opening : Opening opener) (takes : ∀ b, Takes 0 (item b)) (bound : Nat) :
    Takes 0 (Reader.manyWithin opener item bound) := by
  induction bound with
  | zero => exact .pure
  | succ bound ih =>
    intro c d items read
    cases opened : opener c with
    | none =>
      rw [manyWithin_of_none opened] at read
      cases read
      exact Nat.le_refl _
    | some found =>
      have inside : Takes 0 (do
          let first ← item found.1
          let others ← Reader.manyWithin opener item bound
          return first :: others) :=
        .left (takes found.1) fun _ => .left ih fun _ => .pure
      rw [manyWithin_of_some opened] at read
      exact Nat.le_trans (inside found.2 d items read) (opening.length_le c found.2 found.1 opened)

theorem Takes.many (opening : Opening opener) (takes : ∀ b, Takes 0 (item b)) :
    Takes 0 (Reader.many opener item) :=
  fun c => manyWithin opening takes c.rest.length c

/-- From the opener to the end of the item a token is taken. -/
def Advances (opener : Cursor → Option (β × Cursor)) (item : β → Reader α) : Prop :=
  ∀ c m d b a, opener c = some (b, m) → item b m = .ok (a, d) → d.rest.length < c.rest.length

theorem advances_take? {test : Token → Option β} (takes : ∀ b, Takes 0 (item b)) :
    Advances (Cursor.take? test) item := by
  intro c m d b a taken read
  have atOpening := length_of_take? taken
  have atItem := takes b m d a read
  omega

theorem advances_of_takes (opening : Opening opener) (takes : ∀ b, Takes 1 (item b)) :
    Advances opener item := by
  intro c m d b a opened read
  have atOpening := opening.length_le c m b opened
  have atItem := takes b m d a read
  omega

section

variable (opening : Opening opener) (advances : Advances opener item) {bound : Nat} {c : Cursor}

include opening advances

theorem manyWithin_succ (enough : c.rest.length ≤ bound) :
    manyWithin opener item (bound + 1) c = manyWithin opener item bound c := by
  induction bound generalizing c with
  | zero =>
    have ended := opening.ends c (List.length_eq_zero_iff.mp (Nat.le_zero.mp enough))
    rw [manyWithin_of_none ended, manyWithin_of_none ended]
  | succ bound ih =>
    cases opened : opener c with
    | none => rw [manyWithin_of_none opened, manyWithin_of_none opened]
    | some found =>
      rw [manyWithin_of_some opened, manyWithin_of_some opened]
      refine bind_congr_at rfl fun a d read => bind_congr_at (ih ?_) fun _ _ _ => rfl
      have shorter := advances c found.2 d found.1 a opened read
      omega

/-- A bound that is no smaller than the number of tokens does not show. -/
theorem manyWithin_eq_many (enough : c.rest.length ≤ bound) :
    manyWithin opener item bound c = many opener item c := by
  induction enough with
  | refl => rfl
  | step enough ih => rw [manyWithin_succ opening advances enough, ih]

/-- One item, and the others behind it. -/
theorem many_of_some {b : β} {m : Cursor} (opened : opener c = some (b, m)) :
    many opener item c = (do
      let first ← item b
      let others ← many opener item
      return first :: others) m := by
  rw [← manyWithin_eq_many opening advances (Nat.le_succ _), manyWithin_of_some opened]
  refine bind_congr_at rfl fun a d read => bind_congr_at ?_ fun _ _ _ => rfl
  have shorter := advances c m d b a opened read
  exact manyWithin_eq_many opening advances (Nat.le_of_lt shorter)

end

theorem many_of_none {c : Cursor} (ended : opener c = none) : many opener item c = .ok ([], c) :=
  manyWithin_of_none ended

end Many

section

variable {text : String} {item : Reader α}

theorem Takes.after (takes : Takes 0 item) : Takes 0 (after text item) := by
  refine .left .optional fun found => ?_
  cases found with
  | none => exact .pure
  | some _ => exact .left takes fun _ => .pure

theorem Takes.commaSeparated (takes : Takes 0 item) : Takes 1 (commaSeparated item) := by
  intro c d items read
  rcases bind_eq_ok.mp read with ⟨found, m, opened, read⟩
  cases found with
  | some _ =>
    rcases pure_eq_ok.mp read with ⟨rfl, rfl⟩
    have length := length_of_take? (optional_eq_some opened)
    omega
  | none =>
    rw [optional_eq_none opened] at read
    refine Takes.right takes (fun first => ?_) c d items read
    exact .right (.many opening_take? fun _ => takes) fun _ => .left .word fun _ => .pure

end

/-! ## Readers that do the same -/

/-- The readers do the same where at most `bound` tokens are left. -/
def Agree (bound : Nat) (reader other : Reader α) : Prop :=
  ∀ c, c.rest.length ≤ bound → reader c = other c

namespace Agree

variable {bound : Nat} {first first' : Reader α} {next next' : α → Reader β}

theorem refl (reader : Reader α) : Agree bound reader reader :=
  fun _ _ => rfl

theorem bind (agree : Agree bound first first') (takes : Takes 0 first)
    (then_agree : ∀ a, Agree bound (next a) (next' a)) :
    Agree bound (first >>= next) (first' >>= next') := by
  intro c enough
  refine bind_congr_at (agree c enough) fun a d read => then_agree a d ?_
  have kept := takes c d a read
  omega

/-- Behind a token there is one token less to agree on. -/
theorem behind (agree : Agree (bound + 1) first first') (takes : Takes 1 first)
    (then_agree : ∀ a, Agree bound (next a) (next' a)) :
    Agree (bound + 1) (first >>= next) (first' >>= next') := by
  intro c enough
  refine bind_congr_at (agree c enough) fun a d read => then_agree a d ?_
  have shorter := takes c d a read
  omega

theorem many {opener : Cursor → Option (β × Cursor)} {item item' : β → Reader α}
    (opening : Opening opener) (takes : ∀ b, Takes 0 (item b))
    (agree : ∀ b, Agree bound (item b) (item' b)) :
    Agree bound (many opener item) (many opener item') := by
  have within : ∀ count,
      Agree bound (manyWithin opener item count) (manyWithin opener item' count) := by
    intro count
    induction count with
    | zero => exact refl _
    | succ count ih =>
      intro c enough
      cases opened : opener c with
      | none => rw [manyWithin_of_none opened, manyWithin_of_none opened]
      | some found =>
        rw [manyWithin_of_some opened, manyWithin_of_some opened]
        refine bind (agree found.1) (takes found.1) (fun _ => bind ih ?_ fun _ => refl _) found.2 ?_
        · exact .manyWithin opening takes count
        · exact Nat.le_trans (opening.length_le c found.2 found.1 opened) enough
  exact fun c => within c.rest.length c

theorem after {text : String} {item item' : Reader α} (agree : Agree bound item item')
    (takes : Takes 0 item) : Agree bound (after text item) (after text item') := by
  refine bind (refl _) .optional fun found => ?_
  cases found with
  | none => exact refl _
  | some _ => exact bind agree takes fun _ => refl _

theorem commaSeparated {item item' : Reader α} (agree : Agree bound item item')
    (takes : Takes 0 item) : Agree bound (commaSeparated item) (commaSeparated item') := by
  refine bind (refl _) .optional fun found => ?_
  cases found with
  | some _ => exact refl _
  | none =>
    refine bind agree takes fun _ => ?_
    refine bind (many opening_take? (fun _ => takes) fun _ => agree) ?_ fun _ => refl _
    exact .many opening_take? fun _ => takes

end Agree

/-! ## Nesting -/

/-- Readers of something that may hold more of its own kind, bounded in depth: `step` reads one,
given how to read those inside it.  They stand behind a token that it takes first. -/
structure Nesting (within : Nat → Reader α) (step : Reader α → Reader α) : Prop where
  zero : within 0 = fail .expression
  succ : ∀ bound, within (bound + 1) = step (within bound)
  ends : ∀ inner c, c.rest = [] → step inner c = .error (c.complaint .expression)
  takes : ∀ inner, Takes 0 inner → Takes 1 (step inner)
  agree : ∀ bound inner inner', Agree bound inner inner' → Takes 0 inner →
    Agree (bound + 1) (step inner) (step inner')

namespace Nesting

variable {within : Nat → Reader α} {step : Reader α → Reader α} (nesting : Nesting within step)

include nesting

theorem takes_within (bound : Nat) : Takes 1 (within bound) := by
  induction bound with
  | zero =>
    rw [nesting.zero]
    exact fun _ _ _ read => nomatch read
  | succ bound ih =>
    rw [nesting.succ]
    exact nesting.takes _ ih.weaken

theorem within_of_nil {bound : Nat} {c : Cursor} (none_left : c.rest = []) :
    within bound c = .error (c.complaint .expression) := by
  cases bound with
  | zero =>
    rw [nesting.zero]
    rfl
  | succ bound =>
    rw [nesting.succ]
    exact nesting.ends _ c none_left

/-- Bounds that are no smaller than the number of tokens do not show. -/
theorem within_agree {left right count : Nat} (enough : count ≤ left) (enough' : count ≤ right) :
    Agree count (within left) (within right) := by
  induction count generalizing left right with
  | zero =>
    intro c none_left
    have none_left := List.length_eq_zero_iff.mp (Nat.le_zero.mp none_left)
    rw [nesting.within_of_nil none_left, nesting.within_of_nil none_left]
  | succ count ih =>
    match left, right, enough, enough' with
    | left + 1, right + 1, enough, enough' =>
      rw [nesting.succ, nesting.succ]
      have inside := ih (Nat.le_of_succ_le_succ enough) (Nat.le_of_succ_le_succ enough')
      exact nesting.agree count _ _ inside (nesting.takes_within left).weaken

/-- With the number of tokens as the bound, the readers satisfy the equation without one. -/
theorem unfold {reader : Reader α} (bounded : ∀ c, reader c = within c.rest.length c) :
    reader = step reader := by
  funext c
  rw [bounded]
  cases length : c.rest.length with
  | zero =>
    have none_left := List.length_eq_zero_iff.mp length
    rw [nesting.within_of_nil none_left, nesting.ends reader c none_left]
  | succ bound =>
    have inside : Agree bound (within bound) reader := by
      intro d enough
      rw [bounded]
      exact nesting.within_agree enough (Nat.le_refl _) d (Nat.le_refl _)
    rw [nesting.succ]
    exact nesting.agree bound _ _ inside (nesting.takes_within bound).weaken c (Nat.le_of_eq length)

end Nesting

/-! ## Expressions -/

section

variable {inner tighter : Reader Expression}

theorem takes_operand (takes : Takes 0 inner) : Takes 1 (operand inner) := by
  refine .left .expect fun start => ?_
  cases start with
  | literal span decoded => exact .left .lift fun _ => .pure
  | parenthesis start =>
    exact .left takes fun _ => .left Takes.word.weaken fun _ => .left .spanFrom fun _ => .pure
  | name span name =>
    refine .left (.after (Takes.commaSeparated takes).weaken) fun found => ?_
    cases found with
    | none => exact .pure
    | some arguments => exact .left .spanFrom fun _ => .pure

theorem takes_suffix (takes : Takes 0 inner) : Takes 1 (suffix inner) :=
  .left .identifier fun _ =>
    .left (.after (Takes.commaSeparated takes).weaken) fun _ => .left .lastEnd fun _ => .pure

theorem takes_selection (takes : Takes 0 inner) : Takes 1 (selection inner) :=
  .left (takes_operand takes) fun _ =>
    .left (.many opening_take? fun _ => (takes_suffix takes).weaken) fun _ => .pure

theorem takes_level {precedence : Precedence} (takes : Takes 1 tighter) :
    Takes 1 (level precedence tighter) :=
  .left takes fun _ =>
    .left (.many opening_take? fun _ => .left takes.weaken fun _ => .pure) fun _ => .pure

theorem takes_upTo (takes : Takes 0 inner) (looseness : Nat) : Takes 1 (upTo inner looseness) := by
  match looseness with
  | 0 => exact takes_operand takes
  | 1 => exact takes_selection takes
  | k + 2 => exact takes_level (takes_upTo takes (k + 1))

end

section

variable {bound : Nat} {inner inner' : Reader Expression} (agree : Agree bound inner inner')
  (takes : Takes 0 inner)

include agree takes

theorem operand_agree : Agree (bound + 1) (operand inner) (operand inner') := by
  refine .behind (.refl _) .expect fun start => ?_
  cases start with
  | literal span decoded => exact .refl _
  | parenthesis start => exact .bind agree takes fun _ => .refl _
  | name span name =>
    refine .bind (.after (.commaSeparated agree takes) ?_) (.after ?_) fun _ => .refl _
    all_goals exact (Takes.commaSeparated takes).weaken

theorem suffix_agree : Agree bound (suffix inner) (suffix inner') := by
  refine .bind (.refl _) Takes.identifier.weaken fun _ => ?_
  refine .bind (.after (.commaSeparated agree takes) ?_) (.after ?_) fun _ => .refl _
  all_goals exact (Takes.commaSeparated takes).weaken

theorem selection_agree : Agree (bound + 1) (selection inner) (selection inner') := by
  refine .behind (operand_agree agree takes) (takes_operand takes) fun _ => ?_
  refine .bind (.many opening_take? ?_ fun _ => suffix_agree agree takes) ?_ fun _ => .refl _
  · exact fun _ => (takes_suffix takes).weaken
  · exact .many opening_take? fun _ => (takes_suffix takes).weaken

theorem level_agree (precedence : Precedence) :
    Agree bound (level precedence inner) (level precedence inner') := by
  have takesItem : ∀ operator : Operator, Takes 0 (do return (operator, ← inner)) :=
    fun _ => .left takes fun _ => .pure
  refine .bind agree takes fun _ => ?_
  refine .bind (.many opening_take? takesItem fun _ => ?_) ?_ fun _ => .refl _
  · exact .bind agree takes fun _ => .refl _
  · exact .many opening_take? takesItem

theorem upTo_agree (looseness : Nat) :
    Agree (bound + 1) (upTo inner looseness) (upTo inner' looseness) := by
  match looseness with
  | 0 => exact operand_agree agree takes
  | 1 => exact selection_agree agree takes
  | k + 2 => exact level_agree (upTo_agree (k + 1)) (takes_upTo takes (k + 1)).weaken _

end

/-- Where no token is left, no expression is. -/
theorem upTo_of_nil {inner : Reader Expression} {c : Cursor} (none_left : c.rest = [])
    (looseness : Nat) : upTo inner looseness c = .error (c.complaint .expression) := by
  have atOperand : operand inner c = .error (c.complaint .expression) := by
    refine bind_of_error ?_
    rw [expect, Cursor.take?, none_left]
  induction looseness with
  | zero => exact atOperand
  | succ k ih =>
    cases k with
    | zero => exact bind_of_error atOperand
    | succ k => exact bind_of_error ih

theorem expression_nesting : Nesting expressionWithin (upTo · 5) where
  zero := rfl
  succ _ := rfl
  ends _ _ none_left := upTo_of_nil none_left 5
  takes _ takes := takes_upTo takes 5
  agree _ _ _ agree takes := upTo_agree agree takes 5

theorem takes_expression : Takes 1 expression :=
  fun c => expression_nesting.takes_within c.rest.length c

/-- Expressions inside an expression are read as it is read itself. -/
theorem expression_eq : expression = upTo expression 5 :=
  expression_nesting.unfold fun _ => rfl

theorem expression_of_nil {c : Cursor} (none_left : c.rest = []) :
    expression c = .error (c.complaint .expression) :=
  expression_nesting.within_of_nil none_left

/-! ## Statements -/

theorem takes_declarationAfter (opening : Token) : Takes 1 (declarationAfter opening) :=
  .left .identifier fun _ => .left (.after Takes.identifier.weaken) fun _ =>
    .left (.after takes_expression.weaken) fun _ => .left Takes.word.weaken fun _ =>
      .left .spanFrom fun _ => .pure

section

variable {inner : Reader Statement}

theorem takes_block {terminators : List String} (takes : Takes 0 inner) :
    Takes 0 (block terminators inner) :=
  .many opening_blockContinues fun _ => takes

theorem takes_body (takes : Takes 0 inner) : Takes 1 (body inner) :=
  .left .word fun _ => .left (takes_block takes) fun _ => .left Takes.word.weaken fun _ => .pure

/-- The statement's own first word, or else an expression, is taken before any statement in it. -/
theorem takes_statementUsing (takes : Takes 0 inner) : Takes 1 (statementUsing inner) := by
  refine .right .optional fun opened => ?_
  match opened with
  | some (.declaration, opening) => exact .left (takes_declarationAfter opening) fun _ => .pure
  | some (.conditional, _) =>
    exact .left takes_expression fun _ => .left Takes.word.weaken fun _ =>
      .left (takes_block takes) fun _ => .left (.after (takes_block takes)) fun _ =>
        .left Takes.word.weaken fun _ => .pure
  | some (.forEach, _) =>
    exact .left .identifier fun _ => .left Takes.word.weaken fun _ =>
      .left takes_expression.weaken fun _ => .left (takes_body takes).weaken fun _ => .pure
  | some (.loop, _) =>
    exact .left takes_expression fun _ => .left (takes_body takes).weaken fun _ => .pure
  | some (.result, _) =>
    exact .left takes_expression fun _ => .left Takes.word.weaken fun _ => .pure
  | none =>
    refine .left takes_expression fun _ => .left (.after takes_expression.weaken) fun value => ?_
    refine .left Takes.word.weaken fun _ => ?_
    cases value <;> exact .pure

end

section

variable {bound : Nat} {inner inner' : Reader Statement} (agree : Agree bound inner inner')
  (takes : Takes 0 inner)

include agree takes

theorem block_agree (terminators : List String) :
    Agree bound (block terminators inner) (block terminators inner') :=
  .many opening_blockContinues (fun _ => takes) fun _ => agree

theorem body_agree : Agree bound (body inner) (body inner') :=
  .bind (.refl _) Takes.word.weaken fun _ =>
    .bind (block_agree agree takes _) (takes_block takes) fun _ => .refl _

theorem statementUsing_agree :
    Agree (bound + 1) (statementUsing inner) (statementUsing inner') := by
  intro c enough
  refine bind_congr_at rfl fun opened d read => ?_
  match opened with
  | some (word, opening) =>
    have length := length_of_take? (optional_eq_some read)
    have shorter : d.rest.length ≤ bound := by omega
    match word with
    | .declaration | .result => rfl
    | .conditional =>
      refine Agree.bind (.refl _) takes_expression.weaken (fun _ => ?_) d shorter
      refine .bind (.refl _) Takes.word.weaken fun _ => ?_
      refine .bind (block_agree agree takes _) (takes_block takes) fun _ => ?_
      refine .bind (.after (block_agree agree takes _) (takes_block takes)) ?_ fun _ => .refl _
      exact .after (takes_block takes)
    | .forEach =>
      refine Agree.bind (.refl _) Takes.identifier.weaken (fun _ => ?_) d shorter
      refine .bind (.refl _) Takes.word.weaken fun _ => ?_
      refine .bind (.refl _) takes_expression.weaken fun _ => ?_
      exact .bind (body_agree agree takes) (takes_body takes).weaken fun _ => .refl _
    | .loop =>
      refine Agree.bind (.refl _) takes_expression.weaken (fun _ => ?_) d shorter
      exact .bind (body_agree agree takes) (takes_body takes).weaken fun _ => .refl _
  | none => rfl

end

theorem statementUsing_of_nil {inner : Reader Statement} {c : Cursor} (none_left : c.rest = []) :
    statementUsing inner c = .error (c.complaint .expression) := by
  have absent : optional statementWord? c = .ok (none, c) :=
    optional_of_none (opening_take?.ends c none_left)
  rw [statementUsing, bind_of_ok absent]
  exact bind_of_error (expression_of_nil none_left)

theorem statement_nesting : Nesting statementWithin statementUsing where
  zero := rfl
  succ _ := rfl
  ends _ _ none_left := statementUsing_of_nil none_left
  takes _ takes := takes_statementUsing takes
  agree _ _ _ agree takes := statementUsing_agree agree takes

theorem takes_statement : Takes 1 statement :=
  fun c => statement_nesting.takes_within c.rest.length c

/-- Statements inside a statement are read as it is read itself. -/
theorem statement_eq : statement = statementUsing statement :=
  statement_nesting.unfold fun _ => rfl

/-! ## Methods -/

theorem takes_parameter : Takes 1 parameter :=
  .left .identifier fun _ => .left Takes.word.weaken fun _ =>
    .left Takes.identifier.weaken fun _ => .pure

theorem takes_methodAfter (opening : Token) : Takes 1 (methodAfter opening) :=
  .left .identifier fun _ => .left Takes.word.weaken fun _ =>
    .left (Takes.commaSeparated takes_parameter.weaken).weaken fun _ =>
      .left (.after Takes.identifier.weaken) fun _ =>
        .left (takes_body takes_statement.weaken).weaken fun _ => .left .spanFrom fun _ => .pure

end Primer.Reader
