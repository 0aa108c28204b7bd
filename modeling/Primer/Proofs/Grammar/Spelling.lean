import Primer.Proofs.Grammar.Promptness

/-!
# Expressions and the tokens that spell them

`Spells` is the grammar of expressions with places: the tokens spell the expression, and the place
of each node is read off the tokens of that node alone.

Reading agrees with it in both directions.  The tokens that a reader takes spell what it gives
(`Reader.expression_spells`).  Tokens that spell an expression are read as that expression, places
included, whatever stands behind them, as long as it does not go on with the expression
(`Spells.readFrom`).
-/

namespace Primer

open Reader

/-! ## Spelling -/

/-- Ranges of tokens with a comma in front of each. -/
inductive BehindCommas : List Token → List (List Token) → Prop
  | nil : BehindCommas [] []
  | cons {comma : Token} {ts us : List Token} {ranges : List (List Token)} :
    comma.text = "," → BehindCommas us ranges → BehindCommas (comma :: ts ++ us) (ts :: ranges)

/-- Ranges of tokens in parentheses, with commas between them.  The first of them does not look like
the closing parenthesis. -/
inductive Enclosed : List Token → List (List Token) → Prop
  | empty {opening closing : Token} :
    opening.text = "(" → closing.text = ")" → Enclosed [opening, closing] []
  | listed {opening closing : Token} {ts us : List Token} {ranges : List (List Token)} :
    opening.text = "(" → Next (·.text ≠ ")") ts → BehindCommas us ranges → closing.text = ")" →
    Enclosed (opening :: (ts ++ us) ++ [closing]) (ts :: ranges)

/-- Expressions, each with a range of tokens. -/
abbrev Parts :=
  List (List Token × Expression)

/-- The tokens spell the expression, whose operators bind no looser than `looseness`. -/
inductive Spells : (looseness : Nat) → List Token → Expression → Prop
  | tighter {k : Nat} {ts : List Token} {e : Expression} : Spells k ts e → Spells (k + 1) ts e
  | literal {token : Token} {value : Literal} :
    OperandStart.ofToken? token = some (.literal token.span (.ok value)) →
    Spells 0 [token] (.literal { span := token.span } value)
  | group {opening closing : Token} {ts : List Token} {inner : Expression} :
    OperandStart.ofToken? opening = some (.parenthesis opening.span.start) → Spells 5 ts inner →
    closing.text = ")" →
    Spells 0 (opening :: ts ++ [closing])
      (.group { span := ⟨opening.span.start, closing.span.stop⟩ } inner)
  | access {token : Token} {name : String} :
    OperandStart.ofToken? token = some (.name token.span name) →
    Spells 0 [token] (.access { span := token.span } name none)
  | call {token : Token} {name : String} {us : List Token} {parts : Parts} :
    OperandStart.ofToken? token = some (.name token.span name) →
    Enclosed us (parts.map Prod.fst) → (∀ part ∈ parts, Spells 5 part.1 part.2) →
    Spells 0 (token :: us)
      (.call { span := ⟨token.span.start, endOf token.span.stop us⟩ } name (parts.map Prod.snd)
        none)
  | memberAccess {point name : Token} {ts : List Token} {receiver : Expression} :
    Spells 1 ts receiver → point.text = "." → name.kind = .identifier →
    Spells 1 (ts ++ [point, name])
      (.memberAccess { span := ⟨receiver.span.start, name.span.stop⟩ } receiver name.text none)
  | memberCall {point name : Token} {ts us : List Token} {receiver : Expression} {parts : Parts} :
    Spells 1 ts receiver → point.text = "." → name.kind = .identifier →
    Enclosed us (parts.map Prod.fst) → (∀ part ∈ parts, Spells 5 part.1 part.2) →
    Spells 1 (ts ++ point :: name :: us)
      (.memberCall { span := ⟨receiver.span.start, endOf name.span.stop us⟩ } receiver name.text
        (parts.map Prod.snd) none)
  | binary {operator : Operator} {token : Token} {ts us : List Token} {left right : Expression} :
    Spells operator.looseness ts left → token.text = operator.symbol →
    Spells (operator.looseness - 1) us right →
    Spells operator.looseness (ts ++ token :: us) (.combine operator left right)

theorem endOf_concat {start : Nat} {tokens : List Token} {token : Token} :
    endOf start (tokens ++ [token]) = token.span.stop := by
  rw [endOf_append]
  rfl

/-! ## What is read is spelled -/

namespace Reader

variable {c d : Cursor} {inner : Reader Expression}

theorem next_of_take?_eq_none {β : Type} {test : Token → Option β} (absent : c.take? test = none) :
    Next (test · = none) c.rest := by
  rcases next_or_taken test c.rest with next | ⟨token, rest, b, tokens, found⟩
  · exact next
  · rw [take?_of_cons tokens found] at absent
    cases absent

theorem take?_of_optional_eq_none {β : Type} {test : Token → Option β}
    (read : optional test c = .ok (none, d)) : c.take? test = none := by
  unfold optional at read
  split at read <;> cases read
  assumption

theorem word_last {text : String} {token : Token} (read : word text c = .ok (token, d)) :
    d.last = token.span.stop := by
  obtain ⟨found, -, last, test⟩ := take?_eq_some.mp (expect_eq_ok.mp read)
  obtain ⟨-, rfl⟩ := hasText_eq_some.mp test
  exact last

theorem identifier_eq_ok {name : String} (read : identifier c = .ok (name, d)) :
    ∃ token, c.rest = token :: d.rest ∧ d.last = token.span.stop ∧ token.kind = .identifier ∧
      name = token.text := by
  obtain ⟨token, first, last, test⟩ := take?_eq_some.mp (expect_eq_ok.mp read)
  split at test <;> cases test
  exact ⟨token, first, last, ‹_›, rfl⟩

/-- The place in what a token begins is the token's own. -/
theorem OperandStart.ofToken?_cases {token : Token} {start : OperandStart}
    (found : ofToken? token = some start) :
    (∃ decoded, start = .literal token.span decoded) ∨
      start = .parenthesis token.span.start ∨ ∃ name, start = .name token.span name := by
  unfold ofToken? at found
  split at found
  · cases found
    exact .inl ⟨_, rfl⟩
  · split at found
    · cases found
      exact .inr (.inl rfl)
    · split at found <;> cases found
      exact .inr (.inr ⟨_, rfl⟩)

section

variable (sound : Sound inner (Spells 5))

include sound

theorem many_behindCommas {es : List Expression}
    (read : many (Cursor.take? (hasText ",")) (fun _ => inner) c = .ok (es, d)) :
    ∃ (us : List Token) (parts : Parts), c.rest = us ++ d.rest ∧ es = parts.map Prod.snd ∧
      BehindCommas us (parts.map Prod.fst) ∧
      ∀ part ∈ parts, Spells 5 part.1 part.2 := by
  have step : ∀ (c m d : Cursor) comma e, c.take? (hasText ",") = some (comma, m) →
      inner m = .ok (e, d) → ∃ ts, c.rest = ts ++ d.rest ∧
        ∃ comma us, ts = comma :: us ∧ comma.text = "," ∧ Spells 5 us e := by
    intro c m d comma e opened read
    obtain ⟨_, first, -, test⟩ := take?_eq_some.mp opened
    obtain ⟨text, rfl⟩ := hasText_eq_some.mp test
    obtain ⟨us, taken, spells⟩ := sound _ _ _ read
    exact ⟨comma :: us, by rw [first, taken]; rfl, comma, us, rfl, text, spells⟩
  obtain ⟨us, taken, repeats⟩ := many_sound step _ _ _ read
  have collected : ∃ parts : Parts, es = parts.map Prod.snd ∧
      BehindCommas us (parts.map Prod.fst) ∧ ∀ part ∈ parts, Spells 5 part.1 part.2 := by
    clear read taken
    induction repeats with
    | nil => exact ⟨[], rfl, .nil, nofun⟩
    | cons first _ ih =>
      obtain ⟨comma, ts, rfl, text, spells⟩ := first
      obtain ⟨parts, rfl, commas, all⟩ := ih
      exact ⟨(ts, _) :: parts, rfl, .cons text commas, List.forall_mem_cons.mpr ⟨spells, all⟩⟩
  obtain ⟨parts, same, commas, all⟩ := collected
  exact ⟨us, parts, taken, same, commas, all⟩

theorem commaSeparated_enclosed {opening : Token} (opens : opening.text = "(")
    {es : List Expression} (read : commaSeparated inner c = .ok (es, d)) :
    ∃ (us : List Token) (parts : Parts), c.rest = us ++ d.rest ∧
      d.last = endOf opening.span.stop us ∧ es = parts.map Prod.snd ∧
      Enclosed (opening :: us) (parts.map Prod.fst) ∧ ∀ part ∈ parts, Spells 5 part.1 part.2 := by
  obtain ⟨found, m, opened, rest⟩ := bind_eq_ok.mp read
  cases found with
  | some closing =>
    obtain ⟨rfl, rfl⟩ := pure_eq_ok.mp rest
    obtain ⟨_, first, last, test⟩ := take?_eq_some.mp (optional_eq_some opened)
    obtain ⟨closes, rfl⟩ := hasText_eq_some.mp test
    exact ⟨[closing], [], first, last, rfl, .empty opens closes, nofun⟩
  | none =>
    have unclosed := next_of_take?_eq_none (take?_of_optional_eq_none opened)
    cases optional_eq_none opened
    obtain ⟨e, n, head, rest⟩ := bind_eq_ok.mp rest
    obtain ⟨others, n', tail, rest⟩ := bind_eq_ok.mp rest
    obtain ⟨closing, n'', closed, done⟩ := bind_eq_ok.mp rest
    obtain ⟨rfl, rfl⟩ := pure_eq_ok.mp done
    obtain ⟨ts, taken, spells⟩ := sound _ _ _ head
    obtain ⟨us, parts, taken', rfl, commas, all⟩ := many_behindCommas sound tail
    obtain ⟨last, closes⟩ := word_eq_ok closed
    have unlike : Next (·.text ≠ ")") ts := by
      intro token member same
      have absent : hasText ")" token = none :=
        unclosed token (by rw [taken, List.head?_append, member]; rfl)
      rw [hasText_of_eq same] at absent
      cases absent
    refine ⟨ts ++ us ++ [closing], (ts, e) :: parts, ?_, ?_, rfl, ?_, ?_⟩
    · rw [taken, taken', last]
      simp
    · rw [word_last closed, endOf_concat]
    · exact .listed opens unlike commas closes
    · exact List.forall_mem_cons.mpr ⟨spells, all⟩

theorem arguments_enclosed {found : Option (List Expression)}
    (read : after "(" (commaSeparated inner) c = .ok (found, d)) :
    (found = none ∧ d = c) ∨ ∃ (us : List Token) (parts : Parts), c.rest = us ++ d.rest ∧
      d.last = endOf c.last us ∧ found = some (parts.map Prod.snd) ∧
      Enclosed us (parts.map Prod.fst) ∧ ∀ part ∈ parts, Spells 5 part.1 part.2 := by
  obtain absent | ⟨opening, m, es, first, opens, listed, rfl⟩ := after_eq_ok read
  · exact .inl absent
  · obtain ⟨us, parts, taken, last, rfl, enclosed, all⟩ :=
      commaSeparated_enclosed sound opens listed
    refine .inr ⟨opening :: us, parts, by rw [first, taken]; rfl, ?_, rfl, enclosed, all⟩
    rw [last, endOf_cons]

theorem operand_spells : Sound (operand inner) (Spells 0) := by
  intro c d e read
  obtain ⟨start, m, opened, rest⟩ := bind_eq_ok.mp read
  obtain ⟨token, first, last, test⟩ := take?_eq_some.mp (expect_eq_ok.mp opened)
  obtain ⟨decoded, rfl⟩ | rfl | ⟨name, rfl⟩ := OperandStart.ofToken?_cases test
  · obtain ⟨value, n, lifted, done⟩ := bind_eq_ok.mp rest
    obtain ⟨rfl, rfl⟩ := lift_eq_ok.mp lifted
    obtain ⟨rfl, rfl⟩ := pure_eq_ok.mp done
    exact ⟨[token], first, .literal test⟩
  · obtain ⟨inside, n, body, rest⟩ := bind_eq_ok.mp rest
    obtain ⟨closing, n', closed, rest⟩ := bind_eq_ok.mp rest
    obtain ⟨span, n'', placed, done⟩ := bind_eq_ok.mp rest
    obtain ⟨rfl, rfl⟩ := pure_eq_ok.mp done
    cases placed
    obtain ⟨ts, taken, spells⟩ := sound _ _ _ body
    obtain ⟨behind, closes⟩ := word_eq_ok closed
    rw [word_last closed]
    exact ⟨token :: ts ++ [closing], by simp [first, taken, behind], .group test spells closes⟩
  · obtain ⟨found, n, called, ending⟩ := bind_eq_ok.mp rest
    obtain ⟨rfl, rfl⟩ | ⟨us, parts, taken, last', rfl, enclosed, all⟩ :=
      arguments_enclosed sound called
    · obtain ⟨rfl, rfl⟩ := pure_eq_ok.mp ending
      exact ⟨[token], first, .access test⟩
    · obtain ⟨span, n', placed, done⟩ := bind_eq_ok.mp ending
      obtain ⟨rfl, rfl⟩ := pure_eq_ok.mp done
      cases placed
      rw [last', last]
      exact ⟨token :: us, by rw [first, taken]; rfl, .call test enclosed all⟩

/-- A member's name and arguments go on with whatever receiver stands in front. -/
theorem suffix_spells {point : Token} (text : point.text = ".") {found : Suffix}
    (read : suffix inner c = .ok (found, d)) :
    ∃ us, c.rest = us ++ d.rest ∧ ∀ ts receiver, Spells 1 ts receiver →
      Spells 1 (ts ++ point :: us) (found.attach receiver) := by
  obtain ⟨name, m, named, rest⟩ := bind_eq_ok.mp read
  obtain ⟨arguments, n, called, rest⟩ := bind_eq_ok.mp rest
  obtain ⟨stop, n', placed, done⟩ := bind_eq_ok.mp rest
  obtain ⟨rfl, rfl⟩ := pure_eq_ok.mp done
  cases placed
  obtain ⟨token, first, last, kind, rfl⟩ := identifier_eq_ok named
  obtain ⟨rfl, rfl⟩ | ⟨us, parts, taken, last', rfl, enclosed, all⟩ :=
    arguments_enclosed sound called
  · refine ⟨[token], first, fun ts receiver spells => ?_⟩
    rw [last]
    exact .memberAccess spells text kind
  · refine ⟨token :: us, by rw [first, taken]; rfl, fun ts receiver spells => ?_⟩
    rw [last', last]
    exact .memberCall spells text kind enclosed all

theorem selection_spells : Sound (selection inner) (Spells 1) := by
  intro c d e read
  obtain ⟨first, m, operand, rest⟩ := bind_eq_ok.mp read
  obtain ⟨suffixes, n, others, done⟩ := bind_eq_ok.mp rest
  obtain ⟨rfl, rfl⟩ := pure_eq_ok.mp done
  have step : ∀ (c m d : Cursor) point found, c.take? (hasText ".") = some (point, m) →
      suffix inner m = .ok (found, d) → ∃ us, c.rest = us ++ d.rest ∧
        ∀ ts receiver, Spells 1 ts receiver → Spells 1 (ts ++ us) (found.attach receiver) := by
    intro c m d point found opened read
    obtain ⟨_, first, -, test⟩ := take?_eq_some.mp opened
    obtain ⟨text, rfl⟩ := hasText_eq_some.mp test
    obtain ⟨us, taken, spells⟩ := suffix_spells sound text read
    exact ⟨point :: us, by rw [first, taken]; rfl, spells⟩
  obtain ⟨ts, taken, spells⟩ := operand_spells sound _ _ _ operand
  obtain ⟨us, taken', repeats⟩ := many_sound step _ _ _ others
  refine ⟨ts ++ us, by rw [taken, taken', List.append_assoc], ?_⟩
  exact repeats.foldl (Spells 1) (fun ts us receiver found spells item => item ts receiver spells)
    spells.tighter

end

theorem level_spells (precedence : Precedence) {tighter : Reader Expression}
    (sound : Sound tighter (Spells (precedence.looseness - 1))) :
    Sound (level precedence tighter) (Spells precedence.looseness) := by
  intro c d e read
  obtain ⟨first, m, operand, rest⟩ := bind_eq_ok.mp read
  obtain ⟨items, n, others, done⟩ := bind_eq_ok.mp rest
  obtain ⟨rfl, rfl⟩ := pure_eq_ok.mp done
  have step : ∀ (c m d : Cursor) operator (item : Operator × Expression),
      c.take? (operatorAt precedence) = some (operator, m) →
      (do return (operator, ← tighter) : Reader (Operator × Expression)) m = .ok (item, d) →
      ∃ us, c.rest = us ++ d.rest ∧ ∀ ts left, Spells precedence.looseness ts left →
        Spells precedence.looseness (ts ++ us) (.combine item.1 left item.2) := by
    intro c m d operator item opened inside
    obtain ⟨token, first, -, test⟩ := take?_eq_some.mp opened
    obtain ⟨symbol, rfl⟩ := operatorAt_eq_some test
    obtain ⟨right, n, second, done⟩ := bind_eq_ok.mp inside
    obtain ⟨rfl, rfl⟩ := pure_eq_ok.mp done
    obtain ⟨us, taken, spells⟩ := sound _ _ _ second
    exact ⟨token :: us, by rw [first, taken]; rfl, fun ts left before =>
      .binary before symbol spells⟩
  obtain ⟨ts, taken, spells⟩ := sound _ _ _ operand
  obtain ⟨us, taken', repeats⟩ := many_sound step _ _ _ others
  have start : Spells precedence.looseness ts first := by
    cases precedence <;> exact spells.tighter
  refine ⟨ts ++ us, by rw [taken, taken', List.append_assoc], ?_⟩
  exact repeats.foldl (Spells precedence.looseness)
    (fun ts us left item spells joins => joins ts left spells) start

theorem expression_spells : Sound expression (Spells 5) := by
  have within : ∀ bound, Sound (expressionWithin bound) (Spells 5) := by
    intro bound
    induction bound with
    | zero =>
      intro c d e read
      cases read
    | succ bound ih =>
      exact level_spells .logical (level_spells .comparison (level_spells .additive
        (level_spells .multiplicative (selection_spells ih))))
  exact fun c => within c.rest.length c

/-! ## What is spelled is read -/

/-- The tokens are read as the expression, up to whatever does not go on with it. -/
def ReadFrom (looseness : Nat) (ts : List Token) (e : Expression) : Prop :=
  ∀ other last, Next (Token.Stops looseness) other →
    upTo expression looseness ⟨ts ++ other, last⟩ = .ok (e, ⟨other, endOf last ts⟩)

section

variable {k : Nat} {ts us other : List Token} {e : Expression} {parts : Parts}

theorem ReadFrom.expression_eq_ok (reads : ReadFrom 5 ts e) (last : Nat)
    (stops : Next (Token.Stops 5) other) :
    expression ⟨ts ++ other, last⟩ = .ok (e, ⟨other, endOf last ts⟩) := by
  rw [expression_eq]
  exact reads other last stops

theorem ReadFrom.ne_nil (reads : ReadFrom k ts e) : ts ≠ [] := by
  intro none_left
  have read := reads [] 0 nofun
  rw [none_left, upTo_of_nil rfl] at read
  cases read

theorem next_of_text {text : String} {token : Token} (same : token.text = text)
    (ending : text ∈ [")", ",", ";", "=", "DO"]) : Next (Token.Stops k) (token :: other) := by
  intro next member
  cases member
  exact Token.stops_of_text same ending

theorem next_of_behindCommas {ranges : List (List Token)} (commas : BehindCommas us ranges)
    {closing : Token} (closes : closing.text = ")") :
    Next (Token.Stops k) (us ++ closing :: other) := by
  cases commas with
  | nil => exact next_of_text closes (by decide)
  | cons text => exact next_of_text text (by decide)

theorem word_of_cons {text : String} {token : Token} (same : token.text = text) (last : Nat) :
    word text ⟨token :: other, last⟩ = .ok (token, ⟨other, token.span.stop⟩) :=
  expect_eq_ok.mpr (take?_of_cons rfl (hasText_of_eq same))

theorem after_of_cons {α : Type} {item : Reader α} {text : String} {token : Token} {a : α}
    {d : Cursor} (same : token.text = text) (read : item ⟨other, token.span.stop⟩ = .ok (a, d))
    (last : Nat) : after text item ⟨token :: other, last⟩ = .ok (some a, d) := by
  rw [after, bind_of_ok (optional_of_some (take?_of_cons rfl (hasText_of_eq same)))]
  exact bind_of_ok read

theorem after_of_next {α : Type} {item : Reader α} {text : String}
    (absent : Next (·.text ≠ text) other) (last : Nat) :
    after text item ⟨other, last⟩ = .ok (none, ⟨other, last⟩) := by
  have missing : Next (hasText text · = none) other := .mono (fun _ => hasText_of_ne) absent
  exact bind_of_ok (optional_of_none (take?_of_next missing))

theorem many_of_behindCommas (commas : BehindCommas us (parts.map Prod.fst))
    (reads : ∀ part ∈ parts, ReadFrom 5 part.1 part.2) {closing : Token}
    (closes : closing.text = ")") (last : Nat) :
    many (Cursor.take? (hasText ",")) (fun _ => expression) ⟨us ++ closing :: other, last⟩ =
      .ok (parts.map Prod.snd, ⟨closing :: other, endOf last us⟩) := by
  induction parts generalizing us last with
  | nil =>
    cases commas
    have different : closing.text ≠ "," := by
      rw [closes]
      decide
    refine many_of_none (take?_of_next fun token member => ?_)
    cases member
    exact hasText_of_ne different
  | cons part parts ih =>
    obtain ⟨first, others⟩ := List.forall_mem_cons.mp reads
    obtain _ | ⟨text, commas⟩ := commas
    rename_i comma us
    have next : Next (Token.Stops 5) (us ++ closing :: other) := next_of_behindCommas commas closes
    have opened : Cursor.take? (hasText ",")
        ⟨comma :: part.1 ++ us ++ closing :: other, last⟩ =
          some (comma, ⟨part.1 ++ (us ++ closing :: other), comma.span.stop⟩) := by
      rw [List.append_assoc]
      exact take?_of_cons rfl (hasText_of_eq text)
    rw [many_of_some opening_take? (advances_take? fun _ => takes_expression.weaken) opened,
      bind_of_ok (first.expression_eq_ok _ next), bind_of_ok (ih commas others _)]
    rw [List.cons_append, endOf_cons, endOf_append]
    rfl

theorem commaSeparated_of_behindCommas (unlike : Next (·.text ≠ ")") ts)
    (reads : ReadFrom 5 ts e) (commas : BehindCommas us (parts.map Prod.fst))
    (all : ∀ part ∈ parts, ReadFrom 5 part.1 part.2) {closing : Token}
    (closes : closing.text = ")") (last : Nat) :
    commaSeparated expression ⟨ts ++ (us ++ closing :: other), last⟩ =
      .ok (e :: parts.map Prod.snd, ⟨other, closing.span.stop⟩) := by
  obtain ⟨first, ts, rfl⟩ := List.exists_cons_of_ne_nil reads.ne_nil
  have open' : Cursor.take? (hasText ")") ⟨first :: ts ++ (us ++ closing :: other), last⟩ =
      none := by
    refine take?_of_next fun token member => ?_
    cases member
    exact hasText_of_ne (unlike first rfl)
  rw [commaSeparated, bind_of_ok (optional_of_none open')]
  dsimp only
  rw [bind_of_ok (reads.expression_eq_ok last (next_of_behindCommas commas closes)),
    bind_of_ok (many_of_behindCommas commas all closes _), bind_of_ok (word_of_cons closes _)]
  rfl

theorem arguments_of_enclosed (enclosed : Enclosed us (parts.map Prod.fst))
    (reads : ∀ part ∈ parts, ReadFrom 5 part.1 part.2) (last : Nat) :
    after "(" (commaSeparated expression) ⟨us ++ other, last⟩ =
      .ok (some (parts.map Prod.snd), ⟨other, endOf last us⟩) := by
  cases parts with
  | nil =>
    obtain ⟨opens, closes⟩ := enclosed
    refine after_of_cons opens ?_ last
    exact bind_of_ok (optional_of_some (take?_of_cons rfl (hasText_of_eq closes)))
  | cons part parts =>
    obtain ⟨first, others⟩ := List.forall_mem_cons.mp reads
    obtain _ | ⟨opens, unlike, commas, closes⟩ := enclosed
    rw [endOf_concat]
    simp only [List.cons_append, List.append_assoc, List.nil_append]
    refine after_of_cons opens ?_ last
    exact commaSeparated_of_behindCommas unlike first commas others closes _

/-! ### Operands -/

theorem readFrom_literal {token : Token} {value : Literal}
    (start : OperandStart.ofToken? token = some (.literal token.span (.ok value))) :
    ReadFrom 0 [token] (.literal { span := token.span } value) := by
  intro other last _
  exact bind_of_ok (expect_eq_ok.mpr (take?_of_cons rfl start))

theorem readFrom_group {opening closing : Token}
    (start : OperandStart.ofToken? opening = some (.parenthesis opening.span.start))
    (reads : ReadFrom 5 ts e) (closes : closing.text = ")") :
    ReadFrom 0 (opening :: ts ++ [closing])
      (.group { span := ⟨opening.span.start, closing.span.stop⟩ } e) := by
  intro other last _
  have opened : expect .expression OperandStart.ofToken?
      ⟨opening :: ts ++ [closing] ++ other, last⟩ =
        .ok (.parenthesis opening.span.start, ⟨ts ++ closing :: other, opening.span.stop⟩) := by
    rw [List.append_assoc]
    exact expect_eq_ok.mpr (take?_of_cons rfl start)
  rw [upTo, operand, bind_of_ok opened, endOf_concat]
  dsimp only
  rw [bind_of_ok (reads.expression_eq_ok _ (next_of_text closes (by decide))),
    bind_of_ok (word_of_cons closes _)]
  rfl

theorem readFrom_access {token : Token} {name : String}
    (start : OperandStart.ofToken? token = some (.name token.span name)) :
    ReadFrom 0 [token] (.access { span := token.span } name none) := by
  intro other last stops
  have uncalled : Next (·.text ≠ "(") other := .mono (fun _ => Token.Stops.not_call) stops
  rw [upTo, operand, List.singleton_append,
    bind_of_ok (expect_eq_ok.mpr (take?_of_cons rfl start))]
  dsimp only
  exact bind_of_ok (after_of_next uncalled _)

theorem readFrom_call {token : Token} {name : String}
    (start : OperandStart.ofToken? token = some (.name token.span name))
    (enclosed : Enclosed us (parts.map Prod.fst))
    (reads : ∀ part ∈ parts, ReadFrom 5 part.1 part.2) :
    ReadFrom 0 (token :: us)
      (.call { span := ⟨token.span.start, endOf token.span.stop us⟩ } name (parts.map Prod.snd)
        none) := by
  intro other last _
  rw [upTo, operand, List.cons_append, bind_of_ok (expect_eq_ok.mpr (take?_of_cons rfl start))]
  dsimp only
  rw [bind_of_ok (arguments_of_enclosed enclosed reads _), endOf_cons]
  rfl

/-! ### Chains -/

section

variable {β γ : Type} {test : Token → Option β} {item : β → Reader γ}
  {join : Expression → γ → Expression}

/-- The tokens are read as a first part and some items that join it, up to whatever does not go on
with an item. -/
def ChainFrom (looseness : Nat) (test : Token → Option β) (item : β → Reader γ)
    (join : Expression → γ → Expression) (ts : List Token) (e : Expression) : Prop :=
  ∃ front us first items, ts = front ++ us ∧ e = items.foldl join first ∧
    ReadFrom looseness front first ∧ ∀ other last, Next (Token.Stops looseness) other →
      Next (Token.Stops looseness) (us ++ other) ∧
      Items (Cursor.take? test) item ⟨us ++ other, last⟩ items ⟨other, endOf last us⟩

theorem ReadFrom.chainFrom (reads : ReadFrom k ts e) : ChainFrom k test item join ts e := by
  refine ⟨ts, [], e, [], (List.append_nil ts).symm, rfl, reads, ?_⟩
  intro other last stops
  exact ⟨stops, .nil⟩

/-- One more item at the end of a chain. -/
theorem ChainFrom.snoc {token : Token} {b : β} {a : γ} (chain : ChainFrom k test item join ts e)
    (found : test token = some b) (stops : token.Stops k)
    (reads : ∀ other, Next (Token.Stops k) other →
      item b ⟨us ++ other, token.span.stop⟩ = .ok (a, ⟨other, endOf token.span.stop us⟩)) :
    ChainFrom k test item join (ts ++ token :: us) (join e a) := by
  obtain ⟨front, vs, first, items, rfl, rfl, readsFirst, readsItems⟩ := chain
  refine ⟨front, vs ++ token :: us, first, items ++ [a], ?_, ?_, readsFirst, ?_⟩
  · rw [List.append_assoc]
  · rw [List.foldl_append]
    rfl
  · intro other last ahead
    have before : Next (Token.Stops k) (token :: (us ++ other)) := by
      intro next member
      cases member
      exact stops
    obtain ⟨next, chained⟩ := readsItems (token :: (us ++ other)) last before
    rw [List.append_assoc, endOf_append, endOf_cons]
    refine ⟨next, chained.snoc (take?_of_cons rfl found) (reads other ahead) ?_⟩
    change other.length < (token :: (us ++ other)).length
    rw [List.length_cons, List.length_append]
    omega

theorem ChainFrom.read (chain : ChainFrom k test item join ts e)
    (ends : ∀ token : Token, token.Stops (k + 1) → test token = none) (last : Nat)
    (stops : Next (Token.Stops (k + 1)) other) :
    (do
      let first ← upTo expression k
      let items ← many (Cursor.take? test) item
      return items.foldl join first : Reader Expression) ⟨ts ++ other, last⟩ =
      .ok (e, ⟨other, endOf last ts⟩) := by
  obtain ⟨front, us, first, items, rfl, rfl, readsFirst, readsItems⟩ := chain
  have tighter : Next (Token.Stops k) other := .mono (fun _ next => next.mono (Nat.le_succ k)) stops
  obtain ⟨next, chained⟩ := readsItems other (endOf last front) tighter
  rw [List.append_assoc, bind_of_ok (readsFirst _ last next),
    bind_of_ok (many_of_items chained (take?_of_next (.mono ends stops))), endOf_append]
  rfl

end

/-- The expression is read from the tokens, and a reader of this level could go on behind them. -/
def GrownFrom : (looseness : Nat) → List Token → Expression → Prop
  | 0 => ReadFrom 0
  | 1 => ChainFrom 0 (hasText ".") (fun _ => suffix expression) Suffix.attach
  | k + 2 =>
    ChainFrom (k + 1) (operatorAt (precedenceAt (k + 2)))
      (fun operator => do return (operator, ← upTo expression (k + 1)))
      (fun left (operator, right) => .combine operator left right)

theorem GrownFrom.readFrom (grown : GrownFrom k ts e) : ReadFrom k ts e := by
  intro other last stops
  match k, grown with
  | 0, grown => exact grown other last stops
  | 1, grown =>
    refine ChainFrom.read grown (fun token next => ?_) last stops
    exact hasText_of_ne (next.not_member (Nat.le_refl 1))
  | k + 2, grown =>
    refine ChainFrom.read grown (fun token next => ?_) last stops
    exact next.not_operator (looseness_precedenceAt_le k)

theorem GrownFrom.succ (grown : GrownFrom k ts e) : GrownFrom (k + 1) ts e := by
  have reads := grown.readFrom
  match k with
  | 0 => exact reads.chainFrom
  | k + 1 => exact reads.chainFrom

theorem GrownFrom.member {point name : Token} {arguments : Option (List Expression)}
    (grown : GrownFrom 1 ts e) (text : point.text = ".") (kind : name.kind = .identifier)
    (reads : ∀ other, Next (Token.Stops 0) other →
      after "(" (commaSeparated expression) ⟨us ++ other, name.span.stop⟩ =
        .ok (arguments, ⟨other, endOf name.span.stop us⟩)) :
    GrownFrom 1 (ts ++ point :: name :: us)
      (Suffix.attach e ⟨name.text, arguments, endOf name.span.stop us⟩) := by
  have stops : point.Stops 0 := by
    intro k continues
    rw [Token.continues?, text] at continues
    cases continues
    decide
  refine ChainFrom.snoc grown (hasText_of_eq text) stops fun other ahead => ?_
  have named : identifier ⟨name :: us ++ other, point.span.stop⟩ =
      .ok (name.text, ⟨us ++ other, name.span.stop⟩) :=
    expect_eq_ok.mpr (take?_of_cons rfl (if_pos kind))
  rw [suffix, bind_of_ok named, bind_of_ok (reads other ahead), endOf_cons]
  rfl

theorem GrownFrom.combine {operator : Operator} {token : Token} {left right : Expression}
    (grown : GrownFrom operator.looseness ts left) (symbol : token.text = operator.symbol)
    (reads : ReadFrom (operator.looseness - 1) us right) :
    GrownFrom operator.looseness (ts ++ token :: us) (.combine operator left right) := by
  obtain ⟨k, same⟩ := Nat.exists_eq_add_of_le' operator.looseness_bounds.1
  have level : precedenceAt (k + 2) = operator.precedence := by
    rw [← same]
    exact precedenceAt_looseness operator.precedence
  have found : operatorAt (precedenceAt (k + 2)) token = some operator := by
    rw [operatorAt, symbol, Operator.ofSymbol?_eq_some.mpr rfl, level]
    simp
  have stops : token.Stops (k + 1) := by
    intro j continues
    rw [Token.continues?_of_symbol symbol, same] at continues
    cases continues
    exact Nat.lt_succ_self _
  rw [same] at grown reads ⊢
  have item : ∀ other, Next (Token.Stops (k + 1)) other →
      (do return (operator, ← upTo expression (k + 1)) : Reader (Operator × Expression))
        ⟨us ++ other, token.span.stop⟩ =
      .ok ((operator, right), ⟨other, endOf token.span.stop us⟩) :=
    fun other ahead => bind_of_ok (reads other _ ahead)
  exact ChainFrom.snoc grown found stops item

end

end Reader

namespace Spells

variable {k : Nat} {ts : List Token} {e : Expression}

theorem grownFrom (spells : Spells k ts e) : GrownFrom k ts e := by
  induction spells with
  | tighter _ ih => exact ih.succ
  | literal start => exact readFrom_literal start
  | group start _ closes ih => exact readFrom_group start ih.readFrom closes
  | access start => exact readFrom_access start
  | call start enclosed _ ih =>
    exact readFrom_call start enclosed fun part member => (ih part member).readFrom
  | @memberAccess point name _ _ _ text kind ih =>
    have uncalled : ∀ other, Next (Token.Stops 0) other →
        after "(" (commaSeparated expression) ⟨[] ++ other, name.span.stop⟩ =
          .ok (none, ⟨other, endOf name.span.stop []⟩) :=
      fun other stops => after_of_next (.mono (fun _ => Token.Stops.not_call) stops) _
    exact ih.member text kind uncalled
  | memberCall _ text kind enclosed _ ih ihParts =>
    have reads := fun part member => (ihParts part member).readFrom
    exact ih.member text kind fun other _ => arguments_of_enclosed enclosed reads _
  | binary _ symbol _ ih ihRight => exact ih.combine symbol ihRight.readFrom

/-- What some tokens spell is read from them. -/
theorem readFrom (spells : Spells k ts e) : ReadFrom k ts e :=
  spells.grownFrom.readFrom

end Spells

end Primer
