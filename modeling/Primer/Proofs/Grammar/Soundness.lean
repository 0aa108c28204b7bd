import Mathlib
import Primer.Grammar.Program
import Primer.Proofs.Grammar.Derivation

/-!
# What is read is derived

`Sound` says that a reader takes tokens from the front and gives a tree that they derive.  Every
reader is sound for the category that it reads, so a program that is read from a list of tokens is
derived by all of them: none is dropped, used twice or moved.

Nothing is asked of the tokens.  They need not come from a text, and their kinds, texts and places
need not fit together.
-/

namespace Primer

namespace Reader

variable {α β : Type} {c d : Cursor}

/-! ## Steps -/

theorem bind_eq_ok {first : Reader α} {next : α → Reader β} {b : β} :
    (first >>= next) c = .ok (b, d) ↔
      ∃ a m, first c = .ok (a, m) ∧ next a m = .ok (b, d) := by
  change (first c >>= fun p => next p.1 p.2) = _ ↔ _
  cases first c with
  | error error => simp [bind, Except.bind]
  | ok p =>
    refine ⟨fun read => ⟨p.1, p.2, rfl, read⟩, ?_⟩
    rintro ⟨a, m, ⟨⟩, read⟩
    exact read

theorem pure_eq_ok {a b : α} : (pure a : Reader α) c = .ok (b, d) ↔ b = a ∧ d = c := by
  change Except.ok (a, c) = .ok (b, d) ↔ _
  simp [eq_comm]

theorem lift_eq_ok {result : Except SyntaxError α} {a : α} :
    (liftM result : Reader α) c = .ok (a, d) ↔ result = .ok a ∧ d = c := by
  change (result >>= fun a => pure (a, c)) = _ ↔ _
  cases result <;> simp [bind, Except.bind, pure, Except.pure, eq_comm]

theorem take?_eq_some {test : Token → Option β} {b : β} :
    c.take? test = some (b, d) ↔
      ∃ token, c.rest = token :: d.rest ∧ d.last = token.span.stop ∧ test token = some b := by
  obtain ⟨rest, last⟩ := c
  obtain ⟨rest', last'⟩ := d
  cases rest with
  | nil => simp [Cursor.take?]
  | cons token rest =>
    simp only [Cursor.take?, Option.map_eq_some_iff, Prod.mk.injEq, Cursor.mk.injEq]
    constructor
    · rintro ⟨_, passed, rfl, rfl, rfl⟩
      exact ⟨token, rfl, rfl, passed⟩
    · rintro ⟨_, ⟨⟩, rfl, passed⟩
      exact ⟨b, passed, rfl, rfl, rfl⟩

theorem expect_eq_ok {expected : Expectation} {test : Token → Option β} {b : β} :
    expect expected test c = .ok (b, d) ↔ c.take? test = some (b, d) := by
  unfold expect
  cases c.take? test <;> simp

theorem hasText_eq_some {text : String} {token found : Token} :
    hasText text token = some found ↔ token.text = text ∧ found = token := by
  unfold hasText
  split
  · rename_i same
    simp [same, eq_comm]
  · rename_i other
    simp [other]

theorem word_eq_ok {text : String} {token : Token} (read : word text c = .ok (token, d)) :
    c.rest = token :: d.rest ∧ token.text = text := by
  obtain ⟨found, rest, -, test⟩ := take?_eq_some.mp (expect_eq_ok.mp read)
  obtain ⟨same, rfl⟩ := hasText_eq_some.mp test
  exact ⟨rest, same⟩

theorem optional_eq_none {test : Token → Option β} (read : optional test c = .ok (none, d)) :
    d = c := by
  unfold optional at read
  split at read <;> cases read
  rfl

theorem optional_eq_some {test : Token → Option β} {b : β}
    (read : optional test c = .ok (some b, d)) : c.take? test = some (b, d) := by
  unfold optional at read
  split at read <;> cases read
  assumption

/-! ## Soundness -/

/-- The reader takes tokens from the front that are, in this order, what it gives. -/
def Sound (reader : Reader α) (derives : List Token → α → Prop) : Prop :=
  ∀ c d a, reader c = .ok (a, d) → ∃ ts, c.rest = ts ++ d.rest ∧ derives ts a

theorem identifier_sound : Sound identifier (Derives .name) := by
  intro c d name read
  obtain ⟨token, rest, -, test⟩ := take?_eq_some.mp (expect_eq_ok.mp read)
  split at test <;> cases test
  rename_i kind
  exact ⟨[token], rest, .name kind⟩

theorem after_eq_ok {text : String} {item : Reader α} {result : Option α}
    (read : after text item c = .ok (result, d)) :
    (result = none ∧ d = c) ∨ ∃ token m a, c.rest = token :: m.rest ∧ token.text = text ∧
      item m = .ok (a, d) ∧ result = some a := by
  obtain ⟨found, m, opened, rest⟩ := bind_eq_ok.mp read
  cases found with
  | none =>
    obtain ⟨rfl, rfl⟩ := pure_eq_ok.mp rest
    exact .inl ⟨rfl, optional_eq_none opened⟩
  | some token =>
    obtain ⟨a, n, inner, done⟩ := bind_eq_ok.mp rest
    obtain ⟨rfl, rfl⟩ := pure_eq_ok.mp done
    obtain ⟨_, first, -, test⟩ := take?_eq_some.mp (optional_eq_some opened)
    obtain ⟨text_eq, rfl⟩ := hasText_eq_some.mp test
    exact .inr ⟨token, m, a, first, text_eq, inner, rfl⟩

theorem after_sound (category : Category) {item : Reader category.Tree} (text : String)
    (sound : Sound item (Derives category)) :
    Sound (after text item) (Derives (.optional (.behind text category))) := by
  intro c d result read
  obtain ⟨rfl, rfl⟩ | ⟨token, m, tree, first, text_eq, inner, rfl⟩ := after_eq_ok read
  · exact ⟨[], rfl, .absent⟩
  · obtain ⟨ts, others, derives⟩ := sound _ _ _ inner
    exact ⟨token :: ts, by rw [first, others]; rfl, .present (.behind text_eq derives)⟩

/-- Pieces of the tokens one after the other, with what each of them derives. -/
inductive Repeats (derives : List Token → α → Prop) : List Token → List α → Prop
  | nil : Repeats derives [] []
  | cons {ts us : List Token} {a : α} {as : List α} :
    derives ts a → Repeats derives us as → Repeats derives (ts ++ us) (a :: as)

theorem Repeats.derives {category : Category} {ts : List Token} {trees : List category.Tree}
    (repeats : Repeats (Derives category) ts trees) : Derives (.many category) ts trees := by
  induction repeats with
  | nil => exact .noMore
  | cons first _ ih => exact .more first ih

/-- Each piece joins what is derived so far. -/
theorem Repeats.foldl {derives : List Token → α → Prop} (joined : List Token → β → Prop)
    {join : β → α → β}
    (step : ∀ ts us b a, joined ts b → derives us a → joined (ts ++ us) (join b a))
    {ts us : List Token} {as : List α} {b : β} (start : joined ts b)
    (repeats : Repeats derives us as) : joined (ts ++ us) (as.foldl join b) := by
  induction repeats generalizing ts b with
  | nil => simpa using start
  | cons first _ ih =>
    rw [← List.append_assoc]
    exact ih (step _ _ _ _ start first)

theorem many_sound {opener : Cursor → Option (β × Cursor)} {item : β → Reader α}
    {derives : List Token → α → Prop}
    (step : ∀ c m d opening a, opener c = some (opening, m) → item opening m = .ok (a, d) →
      ∃ ts, c.rest = ts ++ d.rest ∧ derives ts a) :
    Sound (many opener item) (Repeats derives) := by
  intro c d as read
  unfold many at read
  generalize c.rest.length = bound at read
  induction bound generalizing c as with
  | zero =>
    obtain ⟨rfl, rfl⟩ := pure_eq_ok.mp read
    exact ⟨[], rfl, .nil⟩
  | succ bound ih =>
    unfold manyWithin at read
    split at read
    · cases read
      exact ⟨[], rfl, .nil⟩
    · rename_i opening m opened
      obtain ⟨a, n, first, read⟩ := bind_eq_ok.mp read
      obtain ⟨others, n', rest, done⟩ := bind_eq_ok.mp read
      obtain ⟨rfl, rfl⟩ := pure_eq_ok.mp done
      obtain ⟨ts, taken, derives⟩ := step _ _ _ _ _ opened first
      obtain ⟨us, taken', repeats⟩ := ih _ _ rest
      exact ⟨ts ++ us, by rw [taken, taken', List.append_assoc], .cons derives repeats⟩

/-- Items that each begin with a word. -/
theorem many_opened_sound (category : Category) {item : Token → Reader category.Tree}
    {text : String}
    (sound : ∀ opening c d tree, opening.text = text → item opening c = .ok (tree, d) →
      ∃ ts, c.rest = ts ++ d.rest ∧ Derives category (opening :: ts) tree) :
    Sound (many (Cursor.take? (hasText text)) item) (Derives (.many category)) := by
  intro c d trees read
  have step : ∀ (c m d : Cursor) opening tree, c.take? (hasText text) = some (opening, m) →
      item opening m = .ok (tree, d) → ∃ ts, c.rest = ts ++ d.rest ∧ Derives category ts tree := by
    intro c m d opening tree opened inner
    obtain ⟨_, first, -, test⟩ := take?_eq_some.mp opened
    obtain ⟨text_eq, rfl⟩ := hasText_eq_some.mp test
    obtain ⟨ts, taken, derives⟩ := sound _ _ _ _ text_eq inner
    exact ⟨opening :: ts, by rw [first, taken]; rfl, derives⟩
  obtain ⟨ts, taken, repeats⟩ := many_sound step _ _ _ read
  exact ⟨ts, taken, repeats.derives⟩

theorem commaSeparated_sound (category : Category) {item : Reader category.Tree}
    (sound : Sound item (Derives category)) {trees : List category.Tree}
    (read : commaSeparated item c = .ok (trees, d)) :
    ∃ ts closing, c.rest = ts ++ closing :: d.rest ∧ closing.text = ")" ∧
      Derives (.listed category) ts trees := by
  obtain ⟨found, m, opened, rest⟩ := bind_eq_ok.mp read
  cases found with
  | some closing =>
    obtain ⟨rfl, rfl⟩ := pure_eq_ok.mp rest
    obtain ⟨_, first, -, test⟩ := take?_eq_some.mp (optional_eq_some opened)
    obtain ⟨text_eq, rfl⟩ := hasText_eq_some.mp test
    exact ⟨[], closing, first, text_eq, .unlisted⟩
  | none =>
    cases optional_eq_none opened
    obtain ⟨tree, n, head, rest⟩ := bind_eq_ok.mp rest
    obtain ⟨others, n', tail, rest⟩ := bind_eq_ok.mp rest
    obtain ⟨closing, n'', closed, done⟩ := bind_eq_ok.mp rest
    obtain ⟨rfl, rfl⟩ := pure_eq_ok.mp done
    obtain ⟨ts, taken, derives⟩ := sound _ _ _ head
    have behind : ∀ comma c d tree, comma.text = "," → item c = .ok (tree, d) →
        ∃ ts, c.rest = ts ++ d.rest ∧ Derives (.behind "," category) (comma :: ts) tree := by
      intro comma c d tree text_eq inner
      obtain ⟨ts, taken, derives⟩ := sound _ _ _ inner
      exact ⟨ts, taken, .behind text_eq derives⟩
    obtain ⟨us, taken', derives'⟩ := many_opened_sound (.behind "," category) behind _ _ _ tail
    obtain ⟨last, text_eq⟩ := word_eq_ok closed
    exact ⟨ts ++ us, closing, by rw [taken, taken', last, List.append_assoc], text_eq,
      .listed derives derives'⟩

/-! ## Expressions -/

theorem literal?_denotes {token : Token} {value : Literal}
    (denoted : token.literal? = some (.ok value)) : token.Denotes value := by
  unfold Token.literal? at denoted
  split at denoted
  · rename_i word
    cases denoted
    unfold Literal.ofWord? at word
    split at word <;> cases word
    · exact .nil ‹_›
    · exact .true ‹_›
    · exact .false ‹_›
  · obtain ⟨kind, literal, decoded⟩ := Option.map_eq_some_iff.mp denoted
    split at decoded <;> cases decoded
    exact .decoded literal ‹_›

/-- Arguments in parentheses, if there are any parentheses. -/
theorem arguments_sound {expression : Reader Expression}
    (sound : Sound expression (Derives (.expression 5))) {arguments : Option (List Expression)}
    (read : after "(" (commaSeparated expression) c = .ok (arguments, d)) :
    (arguments = none ∧ d = c) ∨ ∃ opening ts closing args, arguments = some args ∧
      c.rest = opening :: ts ++ closing :: d.rest ∧ opening.text = "(" ∧
      Derives (.listed (.expression 5)) ts args ∧ closing.text = ")" := by
  obtain none | ⟨opening, m, args, first, opening_eq, inner, rfl⟩ := after_eq_ok read
  · exact .inl none
  · obtain ⟨ts, closing, taken, closing_eq, derives⟩ :=
      commaSeparated_sound (.expression 5) sound inner
    exact .inr ⟨opening, ts, closing, args, rfl, by rw [first, taken]; rfl, opening_eq, derives,
      closing_eq⟩

theorem operand_sound {expression : Reader Expression}
    (sound : Sound expression (Derives (.expression 5))) :
    Sound (operand expression) (Derives (.expression 0)) := by
  intro c d e read
  obtain ⟨start, m, opened, rest⟩ := bind_eq_ok.mp read
  obtain ⟨token, first, -, test⟩ := take?_eq_some.mp (expect_eq_ok.mp opened)
  unfold OperandStart.ofToken? at test
  split at test
  · rename_i decoded denoted
    cases test
    obtain ⟨value, n, lifted, done⟩ := bind_eq_ok.mp rest
    obtain ⟨rfl, rfl⟩ := lift_eq_ok.mp lifted
    obtain ⟨rfl, rfl⟩ := pure_eq_ok.mp done
    exact ⟨[token], first, .literal (literal?_denotes denoted)⟩
  split at test
  · rename_i opening
    cases test
    obtain ⟨inner, n, body, rest⟩ := bind_eq_ok.mp rest
    obtain ⟨closing, n', closed, rest⟩ := bind_eq_ok.mp rest
    obtain ⟨span, n'', placed, done⟩ := bind_eq_ok.mp rest
    obtain ⟨rfl, rfl⟩ := pure_eq_ok.mp done
    cases placed
    obtain ⟨ts, taken, derives⟩ := sound _ _ _ body
    obtain ⟨last, closing_eq⟩ := word_eq_ok closed
    exact ⟨token :: ts ++ [closing], by simp [first, taken, last],
      .group opening derives closing_eq⟩
  split at test
  · rename_i kind
    cases test
    obtain ⟨arguments, n, called, ending⟩ := bind_eq_ok.mp rest
    obtain ⟨rfl, rfl⟩ | ⟨opening, ts, closing, args, rfl, taken, opening_eq, derives, closing_eq⟩ :=
      arguments_sound sound called
    · obtain ⟨rfl, rfl⟩ := pure_eq_ok.mp ending
      exact ⟨[token], first, .access (.name kind)⟩
    · obtain ⟨span, n', placed, done⟩ := bind_eq_ok.mp ending
      obtain ⟨rfl, rfl⟩ := pure_eq_ok.mp done
      cases placed
      exact ⟨[token] ++ opening :: ts ++ [closing], by simp [first, taken],
        .call (.name kind) opening_eq derives closing_eq⟩
  · cases test

/-- What selects a member, behind the receiver. -/
inductive Suffix.Derived : List Token → Suffix → Prop
  | access {point : Token} {ts : List Token} {name : String} {stop : Nat} :
    point.text = "." → Derives .name ts name → Derived (point :: ts) ⟨name, none, stop⟩
  | call {point opening closing : Token} {ts us : List Token} {name : String}
      {args : List Expression} {stop : Nat} :
    point.text = "." → Derives .name ts name → opening.text = "(" →
    Derives (.listed (.expression 5)) us args → closing.text = ")" →
    Derived (point :: ts ++ opening :: us ++ [closing]) ⟨name, some args, stop⟩

theorem Suffix.Derived.attach {suffix : Suffix} {ts us : List Token} {receiver : Expression}
    (derives : Derives (.expression 1) ts receiver) (derived : suffix.Derived us) :
    Derives (.expression 1) (ts ++ us) (suffix.attach receiver) := by
  cases derived with
  | access point name => exact .memberAccess derives point name
  | call point name opening args closing =>
    exact (Derives.memberCall derives point name opening args closing).regroup (by simp)

theorem suffix_sound {expression : Reader Expression}
    (sound : Sound expression (Derives (.expression 5))) {point : Token} (text : point.text = ".")
    {found : Suffix} (read : suffix expression c = .ok (found, d)) :
    ∃ ts, c.rest = ts ++ d.rest ∧ found.Derived (point :: ts) := by
  obtain ⟨name, m, named, rest⟩ := bind_eq_ok.mp read
  obtain ⟨arguments, n, called, rest⟩ := bind_eq_ok.mp rest
  obtain ⟨stop, n', placed, done⟩ := bind_eq_ok.mp rest
  obtain ⟨rfl, rfl⟩ := pure_eq_ok.mp done
  cases placed
  obtain ⟨ts, taken, derives⟩ := identifier_sound _ _ _ named
  obtain ⟨rfl, rfl⟩ | ⟨opening, us, closing, args, rfl, taken', opening_eq, derives', closing_eq⟩ :=
    arguments_sound sound called
  · exact ⟨ts, taken, .access text derives⟩
  · exact ⟨ts ++ opening :: us ++ [closing], by simp [taken, taken'],
      .call text derives opening_eq derives' closing_eq⟩

theorem selection_sound {expression : Reader Expression}
    (sound : Sound expression (Derives (.expression 5))) :
    Sound (selection expression) (Derives (.expression 1)) := by
  intro c d e read
  obtain ⟨first, m, operand, rest⟩ := bind_eq_ok.mp read
  obtain ⟨suffixes, n, others, done⟩ := bind_eq_ok.mp rest
  obtain ⟨rfl, rfl⟩ := pure_eq_ok.mp done
  have step : ∀ (c m d : Cursor) point found, c.take? (hasText ".") = some (point, m) →
      suffix expression m = .ok (found, d) →
      ∃ ts, c.rest = ts ++ d.rest ∧ Suffix.Derived ts found := by
    intro c m d point found opened inner
    obtain ⟨_, first, -, test⟩ := take?_eq_some.mp opened
    obtain ⟨text, rfl⟩ := hasText_eq_some.mp test
    obtain ⟨ts, taken, derived⟩ := suffix_sound sound text inner
    exact ⟨point :: ts, by rw [first, taken]; rfl, derived⟩
  obtain ⟨ts, taken, derives⟩ := operand_sound sound _ _ _ operand
  obtain ⟨us, taken', repeats⟩ := many_sound step _ _ _ others
  refine ⟨ts ++ us, by rw [taken, taken', List.append_assoc],
    repeats.foldl (Derives (.expression 1)) ?_ derives.tighter⟩
  exact fun _ _ _ _ => Suffix.Derived.attach

theorem operatorAt_eq_some {precedence : Precedence} {token : Token} {operator : Operator}
    (found : operatorAt precedence token = some operator) :
    token.text = operator.symbol ∧ operator.precedence = precedence := by
  obtain ⟨symbol, level⟩ := Option.filter_eq_some_iff.mp found
  exact ⟨Operator.ofSymbol?_eq_some.mp symbol, of_decide_eq_true level⟩

/-- An operator of a level and its right operand. -/
def LevelItem (looseness : Nat) (ts : List Token) (item : Operator × Expression) : Prop :=
  ∃ token us, ts = token :: us ∧ token.text = item.1.symbol ∧ item.1.looseness = looseness ∧
    Derives (.expression (looseness - 1)) us item.2

theorem LevelItem.combine {looseness : Nat} {ts us : List Token} {left : Expression}
    {item : Operator × Expression} (derives : Derives (.expression looseness) ts left)
    (derived : LevelItem looseness us item) :
    Derives (.expression looseness) (ts ++ us) (.combine item.1 left item.2) := by
  obtain ⟨token, vs, rfl, symbol, rfl, right⟩ := derived
  exact .binary derives symbol right

theorem level_sound (precedence : Precedence) {tighter : Reader Expression}
    (sound : Sound tighter (Derives (.expression (precedence.looseness - 1)))) :
    Sound (level precedence tighter) (Derives (.expression precedence.looseness)) := by
  intro c d e read
  obtain ⟨first, m, operand, rest⟩ := bind_eq_ok.mp read
  obtain ⟨items, n, others, done⟩ := bind_eq_ok.mp rest
  obtain ⟨rfl, rfl⟩ := pure_eq_ok.mp done
  have step : ∀ (c m d : Cursor) operator item,
      c.take? (operatorAt precedence) = some (operator, m) →
      (do return (operator, ← tighter) : Reader (Operator × Expression)) m = .ok (item, d) →
      ∃ ts, c.rest = ts ++ d.rest ∧ LevelItem precedence.looseness ts item := by
    intro c m d operator item opened inner
    obtain ⟨token, first, -, test⟩ := take?_eq_some.mp opened
    obtain ⟨symbol, rfl⟩ := operatorAt_eq_some test
    obtain ⟨right, n, read, done⟩ := bind_eq_ok.mp inner
    obtain ⟨rfl, rfl⟩ := pure_eq_ok.mp done
    obtain ⟨ts, taken, derives⟩ := sound _ _ _ read
    exact ⟨token :: ts, by rw [first, taken]; rfl, token, ts, rfl, symbol, rfl, derives⟩
  obtain ⟨ts, taken, derives⟩ := sound _ _ _ operand
  obtain ⟨us, taken', repeats⟩ := many_sound step _ _ _ others
  have start : Derives (.expression precedence.looseness) ts first := by
    cases precedence <;> exact derives.tighter
  refine ⟨ts ++ us, by rw [taken, taken', List.append_assoc],
    repeats.foldl (Derives (.expression precedence.looseness)) ?_ start⟩
  exact fun _ _ _ _ => LevelItem.combine

theorem expressionWithin_sound (bound : Nat) :
    Sound (expressionWithin bound) (Derives (.expression 5)) := by
  induction bound with
  | zero =>
    intro c d e read
    cases read
  | succ bound ih =>
    exact level_sound .logical (level_sound .comparison (level_sound .additive
      (level_sound .multiplicative (selection_sound ih))))

theorem expression_sound : Sound expression (Derives (.expression 5)) :=
  fun c => expressionWithin_sound c.rest.length c

/-! ## Statements -/

theorem declarationAfter_sound (opening : Token) (c d : Cursor) (decl : Declaration)
    (text : opening.text = "LET") (read : declarationAfter opening c = .ok (decl, d)) :
    ∃ ts, c.rest = ts ++ d.rest ∧ Derives .declaration (opening :: ts) decl := by
  obtain ⟨name, m, named, rest⟩ := bind_eq_ok.mp read
  obtain ⟨typeName, m₁, typed, rest⟩ := bind_eq_ok.mp rest
  obtain ⟨value, m₂, valued, rest⟩ := bind_eq_ok.mp rest
  obtain ⟨closing, m₃, closed, rest⟩ := bind_eq_ok.mp rest
  obtain ⟨span, m₄, placed, done⟩ := bind_eq_ok.mp rest
  obtain ⟨rfl, rfl⟩ := pure_eq_ok.mp done
  cases placed
  obtain ⟨ts, taken, name_derives⟩ := identifier_sound _ _ _ named
  obtain ⟨us, taken', type_derives⟩ := after_sound .name ":" identifier_sound _ _ _ typed
  obtain ⟨vs, taken'', value_derives⟩ :=
    after_sound (.expression 5) "=" expression_sound _ _ _ valued
  obtain ⟨last, closing_eq⟩ := word_eq_ok closed
  exact ⟨ts ++ us ++ vs ++ [closing], by simp [taken, taken', taken'', last],
    .declaration text name_derives type_derives value_derives closing_eq⟩

theorem block_sound (terminators : List String) {statement : Reader Statement}
    (sound : Sound statement (Derives .statement)) :
    Sound (block terminators statement) (Derives (.many .statement)) := by
  intro c d statements read
  have step : ∀ (c m d : Cursor) (opening : Unit) s,
      blockContinues terminators c = some (opening, m) → statement m = .ok (s, d) →
      ∃ ts, c.rest = ts ++ d.rest ∧ Derives .statement ts s := by
    intro c m d opening s continues inner
    have same : m = c := by
      unfold blockContinues at continues
      split at continues
      · cases continues
      · split at continues <;> cases continues
        rfl
    exact same ▸ sound _ _ _ inner
  obtain ⟨ts, taken, repeats⟩ := many_sound step _ _ _ read
  exact ⟨ts, taken, repeats.derives⟩

theorem body_sound {statement : Reader Statement} (sound : Sound statement (Derives .statement))
    {statements : List Statement} (read : body statement c = .ok (statements, d)) :
    ∃ start ts closing, c.rest = start :: ts ++ closing :: d.rest ∧ start.text = "DO" ∧
      Derives (.many .statement) ts statements ∧ closing.text = "END" := by
  obtain ⟨start, m, started, rest⟩ := bind_eq_ok.mp read
  obtain ⟨_, m₁, inner, rest⟩ := bind_eq_ok.mp rest
  obtain ⟨closing, m₂, closed, done⟩ := bind_eq_ok.mp rest
  obtain ⟨rfl, rfl⟩ := pure_eq_ok.mp done
  obtain ⟨first, start_eq⟩ := word_eq_ok started
  obtain ⟨ts, taken, derives⟩ := block_sound _ sound _ _ _ inner
  obtain ⟨last, closing_eq⟩ := word_eq_ok closed
  exact ⟨start, ts, closing, by simp [first, taken, last], start_eq, derives, closing_eq⟩

theorem statementWord?_eq_some {token found : Token} {word : StatementWord}
    (matched : statementWord? token = some (word, found)) :
    found = token ∧ match word with
      | .declaration => token.text = "LET"
      | .conditional => token.text = "IF"
      | .forEach => token.text = "FOR"
      | .loop => token.text = "WHILE"
      | .result => token.text = "RETURN" := by
  obtain ⟨_, text, same⟩ := Option.map_eq_some_iff.mp matched
  cases same
  unfold StatementWord.ofText? at text
  split at text <;> cases text <;> exact ⟨rfl, ‹_›⟩

theorem statementUsing_sound {statement : Reader Statement}
    (sound : Sound statement (Derives .statement)) :
    Sound (statementUsing statement) (Derives .statement) := by
  intro c d s read
  obtain ⟨found, m, opened, rest⟩ := bind_eq_ok.mp read
  cases found with
  | none =>
    cases optional_eq_none opened
    obtain ⟨target, m₁, first, rest⟩ := bind_eq_ok.mp rest
    obtain ⟨value, m₂, second, rest⟩ := bind_eq_ok.mp rest
    obtain ⟨closing, m₃, closed, done⟩ := bind_eq_ok.mp rest
    obtain ⟨ts, taken, target_derives⟩ := expression_sound _ _ _ first
    obtain ⟨last, closing_eq⟩ := word_eq_ok closed
    obtain ⟨rfl, rfl⟩ | ⟨word, n, _, taken', word_eq, inner, rfl⟩ := after_eq_ok second
    · obtain ⟨rfl, rfl⟩ := pure_eq_ok.mp done
      exact ⟨ts ++ [closing], by simp [taken, last], .expression target_derives closing_eq⟩
    · obtain ⟨rfl, rfl⟩ := pure_eq_ok.mp done
      obtain ⟨us, taken'', value_derives⟩ := expression_sound _ _ _ inner
      exact ⟨ts ++ word :: us ++ [closing], by simp [taken, taken', taken'', last],
        .assignment target_derives word_eq value_derives closing_eq⟩
  | some found =>
    obtain ⟨word, opening⟩ := found
    obtain ⟨token, head, -, test⟩ := take?_eq_some.mp (optional_eq_some opened)
    obtain ⟨rfl, text⟩ := statementWord?_eq_some test
    cases word with
    | declaration =>
      obtain ⟨decl, m₁, inner, done⟩ := bind_eq_ok.mp rest
      obtain ⟨rfl, rfl⟩ := pure_eq_ok.mp done
      obtain ⟨ts, taken, derives⟩ := declarationAfter_sound _ _ _ _ text inner
      exact ⟨opening :: ts, by rw [head, taken]; rfl, .localDeclaration derives⟩
    | conditional =>
      obtain ⟨condition, m₁, first, rest⟩ := bind_eq_ok.mp rest
      obtain ⟨start, m₂, started, rest⟩ := bind_eq_ok.mp rest
      obtain ⟨thenBody, m₃, second, rest⟩ := bind_eq_ok.mp rest
      obtain ⟨elseBody, m₄, third, rest⟩ := bind_eq_ok.mp rest
      obtain ⟨closing, m₅, closed, done⟩ := bind_eq_ok.mp rest
      obtain ⟨rfl, rfl⟩ := pure_eq_ok.mp done
      obtain ⟨ts, taken, condition_derives⟩ := expression_sound _ _ _ first
      obtain ⟨taken₁, start_eq⟩ := word_eq_ok started
      obtain ⟨us, taken₂, then_derives⟩ := block_sound _ sound _ _ _ second
      obtain ⟨vs, taken₃, else_derives⟩ :=
        after_sound (.many .statement) "ELSE" (block_sound _ sound) _ _ _ third
      obtain ⟨last, closing_eq⟩ := word_eq_ok closed
      exact ⟨opening :: ts ++ start :: us ++ vs ++ [closing],
        by simp [head, taken, taken₁, taken₂, taken₃, last],
        .conditional text condition_derives start_eq then_derives else_derives closing_eq⟩
    | forEach =>
      obtain ⟨name, m₁, named, rest⟩ := bind_eq_ok.mp rest
      obtain ⟨word, m₂, worded, rest⟩ := bind_eq_ok.mp rest
      obtain ⟨range, m₃, first, rest⟩ := bind_eq_ok.mp rest
      obtain ⟨statements, m₄, second, done⟩ := bind_eq_ok.mp rest
      obtain ⟨rfl, rfl⟩ := pure_eq_ok.mp done
      obtain ⟨ts, taken, name_derives⟩ := identifier_sound _ _ _ named
      obtain ⟨taken₁, word_eq⟩ := word_eq_ok worded
      obtain ⟨us, taken₂, range_derives⟩ := expression_sound _ _ _ first
      obtain ⟨start, vs, closing, taken₃, start_eq, body_derives, closing_eq⟩ :=
        body_sound sound second
      exact ⟨opening :: ts ++ word :: us ++ start :: vs ++ [closing],
        by simp [head, taken, taken₁, taken₂, taken₃],
        .forEach text name_derives word_eq range_derives start_eq body_derives closing_eq⟩
    | loop =>
      obtain ⟨condition, m₁, first, rest⟩ := bind_eq_ok.mp rest
      obtain ⟨statements, m₂, second, done⟩ := bind_eq_ok.mp rest
      obtain ⟨rfl, rfl⟩ := pure_eq_ok.mp done
      obtain ⟨ts, taken, condition_derives⟩ := expression_sound _ _ _ first
      obtain ⟨start, us, closing, taken₁, start_eq, body_derives, closing_eq⟩ :=
        body_sound sound second
      exact ⟨opening :: ts ++ start :: us ++ [closing], by simp [head, taken, taken₁],
        .loop text condition_derives start_eq body_derives closing_eq⟩
    | result =>
      obtain ⟨value, m₁, first, rest⟩ := bind_eq_ok.mp rest
      obtain ⟨closing, m₂, closed, done⟩ := bind_eq_ok.mp rest
      obtain ⟨rfl, rfl⟩ := pure_eq_ok.mp done
      obtain ⟨ts, taken, value_derives⟩ := expression_sound _ _ _ first
      obtain ⟨last, closing_eq⟩ := word_eq_ok closed
      exact ⟨opening :: ts ++ [closing], by simp [head, taken, last],
        .result text value_derives closing_eq⟩

theorem statement_sound : Sound statement (Derives .statement) := by
  have within : ∀ bound, Sound (statementWithin bound) (Derives .statement) := by
    intro bound
    induction bound with
    | zero =>
      intro c d s read
      cases read
    | succ bound ih => exact statementUsing_sound ih
  exact fun c => within c.rest.length c

/-! ## Programs -/

theorem parameter_sound : Sound parameter (Derives .parameter) := by
  intro c d found read
  obtain ⟨name, m, named, rest⟩ := bind_eq_ok.mp read
  obtain ⟨colon, m₁, worded, rest⟩ := bind_eq_ok.mp rest
  obtain ⟨typeName, m₂, typed, done⟩ := bind_eq_ok.mp rest
  obtain ⟨rfl, rfl⟩ := pure_eq_ok.mp done
  obtain ⟨ts, taken, name_derives⟩ := identifier_sound _ _ _ named
  obtain ⟨taken₁, colon_eq⟩ := word_eq_ok worded
  obtain ⟨us, taken₂, type_derives⟩ := identifier_sound _ _ _ typed
  exact ⟨ts ++ colon :: us, by simp [taken, taken₁, taken₂],
    .parameter name_derives colon_eq type_derives⟩

theorem methodAfter_sound (opening : Token) (c d : Cursor) (method : Method)
    (text : opening.text = "DEF") (read : methodAfter opening c = .ok (method, d)) :
    ∃ ts, c.rest = ts ++ d.rest ∧ Derives .method (opening :: ts) method := by
  obtain ⟨name, m, named, rest⟩ := bind_eq_ok.mp read
  obtain ⟨left, m₁, opened, rest⟩ := bind_eq_ok.mp rest
  obtain ⟨parameters, m₂, listed, rest⟩ := bind_eq_ok.mp rest
  obtain ⟨returns, m₃, typed, rest⟩ := bind_eq_ok.mp rest
  obtain ⟨statements, m₄, inner, rest⟩ := bind_eq_ok.mp rest
  obtain ⟨span, m₅, placed, done⟩ := bind_eq_ok.mp rest
  obtain ⟨rfl, rfl⟩ := pure_eq_ok.mp done
  cases placed
  obtain ⟨ts, taken, name_derives⟩ := identifier_sound _ _ _ named
  obtain ⟨taken₁, left_eq⟩ := word_eq_ok opened
  obtain ⟨us, right, taken₂, right_eq, parameters_derive⟩ :=
    commaSeparated_sound .parameter parameter_sound listed
  obtain ⟨vs, taken₃, type_derives⟩ := after_sound .name ":" identifier_sound _ _ _ typed
  obtain ⟨start, ws, closing, taken₄, start_eq, body_derives, closing_eq⟩ :=
    body_sound statement_sound inner
  exact ⟨ts ++ left :: us ++ right :: vs ++ start :: ws ++ [closing],
    by simp [taken, taken₁, taken₂, taken₃, taken₄],
    .method text name_derives left_eq parameters_derive right_eq type_derives start_eq body_derives
      closing_eq⟩

theorem program_sound {found : Program} (read : program c = .ok (found, d)) :
    Derives .program c.rest found := by
  obtain ⟨fields, m, first, rest⟩ := bind_eq_ok.mp read
  obtain ⟨methods, m₁, second, rest⟩ := bind_eq_ok.mp rest
  obtain ⟨_, m₂, ended, done⟩ := bind_eq_ok.mp rest
  obtain ⟨rfl, rfl⟩ := pure_eq_ok.mp done
  have nothing : m₁.rest = [] := by
    unfold atEnd at ended
    split at ended
    · assumption
    · cases ended
  obtain ⟨ts, taken, fields_derive⟩ :=
    many_opened_sound .declaration declarationAfter_sound _ _ _ first
  obtain ⟨us, taken₁, methods_derive⟩ :=
    many_opened_sound .method methodAfter_sound _ _ _ second
  rw [nothing, List.append_nil] at taken₁
  exact (Derives.program fields_derive methods_derive).regroup (by rw [taken, taken₁])

end Reader

/-- A program that is read from a list of tokens is derived by the whole list, and its tree is
canonical. -/
theorem Program.derives_of_ofTokens {tokens : List Token} {program : Program}
    (read : Program.ofTokens tokens = .ok program) :
    Derives .program tokens program ∧ program.Canonical fun _ => True := by
  unfold Program.ofTokens at read
  cases found : Reader.program.run { rest := tokens } with
  | error error => simp [found, Except.map] at read
  | ok result =>
    rw [found] at read
    cases read
    have derives := Reader.program_sound found
    exact ⟨derives, derives.canonical⟩

/-- Tokens of no text: the kinds are at odds with the texts, and all stand at one place. -/
def oddTokens : List Token :=
  [⟨.operator, "LET", ⟨0, 0⟩⟩, ⟨.identifier, "x", ⟨0, 0⟩⟩, ⟨.string, "=", ⟨0, 0⟩⟩,
    ⟨.identifier, "a", ⟨0, 0⟩⟩, ⟨.identifier, "-", ⟨0, 0⟩⟩, ⟨.identifier, "b", ⟨0, 0⟩⟩,
    ⟨.decimal, "-", ⟨0, 0⟩⟩, ⟨.integer, "NIL", ⟨0, 0⟩⟩, ⟨.character, ";", ⟨0, 0⟩⟩]

/-- The program that `oddTokens` are read as. -/
def oddProgram : Program :=
  let note : Note := { span := ⟨0, 0⟩ }
  let value : Expression :=
    .binary note .subtract
      (.binary note .subtract (.access note "a" none) (.access note "b" none)) (.literal note .nil)
  ⟨[{ name := "x", typeName := none, value := some value, span := ⟨0, 0⟩ }], []⟩

theorem Program.derives_of_ofTokens_odd :
    Program.ofTokens oddTokens = .ok oddProgram ∧ Derives .program oddTokens oddProgram ∧
      oddProgram.Canonical fun _ => True := by
  have read : Program.ofTokens oddTokens = .ok oddProgram := rfl
  exact ⟨read, Program.derives_of_ofTokens read⟩

end Primer
