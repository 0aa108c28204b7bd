import Mathlib.Data.List.Forall2
import Primer.Grammar.Program
import Primer.Proofs.Syntax.Writing
import Primer.Token.Scan

/-!
# Reading what is written

`Reads reader pieces good follow` says that a reader finds its way through tokens that are a writing
of the pieces: whatever comes behind them, as long as the next token keeps to `follow`, it stops
right there with a good result.  The rules below go through a reader step by step, the way it was
put together, and through the pieces from the left.

A reader that repeats something is a first part and a chain of items (`Spine`).  Trees grow to the
left with each item, so a spine can be made longer at its end.
-/

namespace Primer

/-! ## Tokens that are a writing of pieces -/

/-- Whether a text is an identifier. -/
def Lexeme.isIdentifier : List Char → Bool
  | [] => false
  | c :: rest => isIdentifierStart c && rest.all isIdentifierPart

/-- The kind of a word. -/
def wordKind (text : String) : Token.Kind :=
  if Lexeme.isIdentifier text.toList then .identifier else .operator

/-- The texts that no expression begins with: words that begin a statement or end a block, and the
closing parenthesis. -/
def nonStarters : List String :=
  ["LET", "IF", "FOR", "WHILE", "RETURN", "ELSE", "END", ")"]

variable (alike : Literal → Literal → Prop)

/-- The token is a writing of the piece. -/
def Piece.Fits : Piece → Token → Prop
  | .word text, token => token.text = text ∧ token.kind = wordKind text
  | .constant value, token => (∃ read, token.literal? = some (.ok read) ∧ alike value read) ∧
    token.text ∉ nonStarters

/-- The tokens begin with a writing of the pieces; `rest` is what follows. -/
def Front (pieces : List Piece) (tokens rest : List Token) : Prop :=
  ∃ ts, tokens = ts ++ rest ∧ List.Forall₂ (Piece.Fits alike) pieces ts

variable {alike}

section Front

variable {p : Piece} {ps qs : List Piece} {tokens rest : List Token}

theorem front_nil : Front alike [] tokens rest ↔ tokens = rest := by
  simp [Front]

theorem front_cons : Front alike (p :: ps) tokens rest ↔
    ∃ token mid, tokens = token :: mid ∧ p.Fits alike token ∧ Front alike ps mid rest := by
  constructor
  · rintro ⟨_, rfl, fits⟩
    obtain ⟨token, ts, first, others, rfl⟩ := List.forall₂_cons_left_iff.mp fits
    exact ⟨token, ts ++ rest, rfl, first, ts, rfl, others⟩
  · rintro ⟨token, mid, rfl, first, ts, rfl, others⟩
    exact ⟨token :: ts, rfl, .cons first others⟩

theorem front_append : Front alike (ps ++ qs) tokens rest ↔
    ∃ mid, Front alike ps tokens mid ∧ Front alike qs mid rest := by
  induction ps generalizing tokens with
  | nil => simp [front_nil]
  | cons p ps ih =>
    simp only [List.cons_append, front_cons, ih]
    grind

theorem Front.length (front : Front alike ps tokens rest) :
    tokens.length = ps.length + rest.length := by
  obtain ⟨ts, rfl, fits⟩ := front
  rw [List.length_append, fits.length_eq]

end Front

/-! ## What comes next -/

/-- The next token, if there is one. -/
def Next (holds : Token → Prop) (tokens : List Token) : Prop :=
  ∀ token ∈ tokens.head?, holds token

variable (alike) in
/-- In front of a writing of the pieces the next token keeps to `before`, if it keeps to `follow`
behind them. -/
def Leads (pieces : List Piece) (follow before : Token → Prop) : Prop :=
  ∀ tokens rest, Front alike pieces tokens rest → Next follow rest → Next before tokens

section Leads

variable {follow before : Token → Prop}

theorem Leads.nil (keeps : ∀ token, follow token → before token) :
    Leads alike [] follow before := by
  intro tokens rest front next token member
  rw [front_nil] at front
  exact keeps token (next token (front ▸ member))

theorem Leads.cons {p : Piece} {ps : List Piece}
    (keeps : ∀ token, p.Fits alike token → before token) : Leads alike (p :: ps) follow before := by
  intro tokens rest front next token member
  obtain ⟨first, mid, rfl, fits, -⟩ := front_cons.mp front
  cases member
  exact keeps _ fits

theorem Leads.word {text : String} {ps : List Piece}
    (keeps : ∀ token : Token, token.text = text → before token) :
    Leads alike (.word text :: ps) follow before :=
  .cons fun token fits => keeps token fits.1

theorem Leads.always {ps : List Piece} : Leads alike ps follow fun _ => True :=
  fun _ _ _ _ _ _ => trivial

end Leads

namespace Reader

variable {α β γ : Type}

variable (alike) in
/-- The reader takes tokens that are a writing of the pieces, and no others. -/
def Reads (reader : Reader α) (pieces : List Piece) (good : α → Prop) (follow : Token → Prop) :
    Prop :=
  ∀ c rest, Front alike pieces c.rest rest → Next follow rest →
    ∃ a d, reader c = .ok (a, d) ∧ d.rest = rest ∧ good a

theorem bind_of_ok {first : Reader α} {next : α → Reader β} {c d : Cursor} {a : α}
    (read : first c = .ok (a, d)) : (first >>= next) c = next a d := by
  change (first c >>= fun p => next p.1 p.2) = _
  rw [read]
  rfl

/-! ## Taking a token -/

theorem take?_of_cons {test : Token → Option β} {c : Cursor} {token : Token} {rest : List Token}
    {b : β} (tokens : c.rest = token :: rest) (found : test token = some b) :
    c.take? test = some (b, ⟨rest, token.span.stop⟩) := by
  rw [Cursor.take?, tokens]
  simp [found]

theorem take?_of_next {test : Token → Option β} {c : Cursor}
    (next : Next (test · = none) c.rest) : c.take? test = none := by
  unfold Cursor.take?
  split
  · rfl
  · rename_i token rest tokens
    rw [next token (by rw [tokens]; rfl)]
    rfl

theorem hasText_of_eq {text : String} {token : Token} (same : token.text = text) :
    hasText text token = some token :=
  if_pos same

theorem hasText_of_ne {text : String} {token : Token} (different : token.text ≠ text) :
    hasText text token = none :=
  if_neg different

theorem optional_of_some {test : Token → Option β} {c d : Cursor} {b : β}
    (taken : c.take? test = some (b, d)) : optional test c = .ok (some b, d) := by
  rw [optional, taken]

theorem optional_of_none {test : Token → Option β} {c : Cursor} (absent : c.take? test = none) :
    optional test c = .ok (none, c) := by
  rw [optional, absent]

/-! ## Rules -/

namespace Reads

variable {ps qs : List Piece} {good : α → Prop} {good' : β → Prop} {follow before : Token → Prop}

theorem pure {a : α} (holds : good a) : Reads alike (pure a) [] good follow := by
  intro c rest front _
  exact ⟨a, c, rfl, front_nil.mp front, holds⟩

theorem regroup {reader : Reader α} (reads : Reads alike reader ps good follow) (same : qs = ps) :
    Reads alike reader qs good follow :=
  same ▸ reads

theorem bind {first : Reader α} {next : α → Reader β} (reads : Reads alike first ps good before)
    (leads : Leads alike qs follow before)
    (then_reads : ∀ a, good a → Reads alike (next a) qs good' follow) :
    Reads alike (first >>= next) (ps ++ qs) good' follow := by
  intro c rest front follows
  obtain ⟨mid, front, front'⟩ := front_append.mp front
  obtain ⟨a, d, read, rfl, holds⟩ := reads c mid front (leads _ _ front' follows)
  obtain ⟨b, e, read', rest_eq, holds'⟩ := then_reads a holds d rest front' follows
  exact ⟨b, e, (bind_of_ok read).trans read', rest_eq, holds'⟩

/-- A step that takes all tokens. -/
theorem last {first : Reader α} {next : α → Reader β} (reads : Reads alike first ps good follow)
    (then_reads : ∀ a, good a → Reads alike (next a) [] good' follow) :
    Reads alike (first >>= next) ps good' follow :=
  .regroup (.bind reads (.nil fun _ => id) then_reads) (List.append_nil ps).symm

/-- A step that takes no token. -/
theorem skip {first : Reader α} {next : α → Reader β} (skips : ∀ c, ∃ a, first c = .ok (a, c))
    (then_reads : ∀ a, Reads alike (next a) qs good' follow) :
    Reads alike (first >>= next) qs good' follow := by
  intro c rest front follows
  obtain ⟨a, read⟩ := skips c
  rw [bind_of_ok read]
  exact then_reads a c rest front follows

theorem expect {expected : Expectation} {test : Token → Option β} {next : β → Reader α}
    {p : Piece} (found : ∀ token, p.Fits alike token → ∃ b, test token = some b ∧
      Reads alike (next b) qs good follow) :
    Reads alike (expect expected test >>= next) (p :: qs) good follow := by
  intro c rest front follows
  obtain ⟨token, mid, tokens, fits, front⟩ := front_cons.mp front
  obtain ⟨b, test_eq, then_reads⟩ := found token fits
  have read : Reader.expect expected test c = .ok (b, ⟨mid, token.span.stop⟩) := by
    rw [Reader.expect, take?_of_cons tokens test_eq]
  rw [bind_of_ok read]
  exact then_reads _ rest front follows

theorem word {text : String} {next : Token → Reader α}
    (then_reads : ∀ token, Reads alike (next token) qs good follow) :
    Reads alike (word text >>= next) (.word text :: qs) good follow :=
  .expect fun token fits => ⟨token, if_pos fits.1, then_reads token⟩

theorem identifier {name : String} {next : String → Reader α}
    (named : Lexeme.isIdentifier name.toList = true)
    (then_reads : Reads alike (next name) qs good follow) :
    Reads alike (identifier >>= next) (.word name :: qs) good follow := by
  refine .expect fun token ⟨text, kind⟩ => ⟨name, ?_, then_reads⟩
  rw [wordKind, if_pos named] at kind
  rw [if_pos kind, text]

/-- A token that may be there, and is. -/
theorem opened {test : Token → Option β} {next : Option β → Reader α} {p : Piece}
    (found : ∀ token, p.Fits alike token → ∃ b, test token = some b ∧
      Reads alike (next (some b)) qs good follow) :
    Reads alike (optional test >>= next) (p :: qs) good follow := by
  intro c rest front follows
  obtain ⟨token, mid, tokens, fits, front⟩ := front_cons.mp front
  obtain ⟨b, test_eq, then_reads⟩ := found token fits
  rw [bind_of_ok (optional_of_some (take?_of_cons tokens test_eq))]
  exact then_reads _ rest front follows

/-- A token that may be there, and is not. -/
theorem unopened {test : Token → Option β} {next : Option β → Reader α}
    (leads : Leads alike qs follow fun token => test token = none)
    (then_reads : Reads alike (next none) qs good follow) :
    Reads alike (optional test >>= next) qs good follow := by
  intro c rest front follows
  rw [bind_of_ok (optional_of_none (take?_of_next (leads _ _ front follows)))]
  exact then_reads c rest front follows

/-- A word that is not there. -/
theorem without {text : String} {item : Reader β} {next : Option β → Reader α}
    (leads : Leads alike qs follow fun token => token.text ≠ text)
    (then_reads : Reads alike (next none) qs good follow) :
    Reads alike (after text item >>= next) qs good follow := by
  rw [after, bind_assoc]
  refine .unopened (fun tokens rest front follows token member => ?_) then_reads
  exact hasText_of_ne (leads tokens rest front follows token member)

/-- A word that is there, and what follows it. -/
theorem behind {text : String} {item : Reader β} {next : Option β → Reader α}
    (reads : Reads alike item ps good' before) (leads : Leads alike qs follow before)
    (then_reads : ∀ b, good' b → Reads alike (next (some b)) qs good follow) :
    Reads alike (after text item >>= next) (.word text :: (ps ++ qs)) good follow := by
  rw [after, bind_assoc]
  refine .opened fun token fits => ⟨token, hasText_of_eq fits.1, ?_⟩
  simp only [bind_assoc, pure_bind]
  exact .bind reads leads then_reads

/-- A reader that takes the number of tokens left as a bound. -/
theorem within {reader : Nat → Reader α}
    (reads : ∀ bound, ps.length ≤ bound → Reads alike (reader bound) ps good follow) :
    Reads alike (fun c => reader c.rest.length c) ps good follow := by
  intro c rest front follows
  exact reads c.rest.length (by rw [front.length]; exact Nat.le_add_right _ _) c rest front follows

end Reads

/-! ## Chains of items -/

/-- Items that are read one after the other; each of them takes a token. -/
inductive Items (opener : Cursor → Option (β × Cursor)) (item : β → Reader α) :
    Cursor → List α → Cursor → Prop
  | nil {c : Cursor} : Items opener item c [] c
  | cons {c m d e : Cursor} {b : β} {a : α} {as : List α} :
    opener c = some (b, m) → item b m = .ok (a, d) → d.rest.length < c.rest.length →
    Items opener item d as e → Items opener item c (a :: as) e

section Items

variable {opener : Cursor → Option (β × Cursor)} {item : β → Reader α} {c m d e : Cursor} {b : β}
  {a : α} {as : List α}

theorem Items.snoc (items : Items opener item c as d) (opened : opener d = some (b, m))
    (read : item b m = .ok (a, e)) (shorter : e.rest.length < d.rest.length) :
    Items opener item c (as ++ [a]) e := by
  induction items with
  | nil => exact .cons opened read shorter .nil
  | cons opened' read' shorter' _ ih => exact .cons opened' read' shorter' (ih opened shorter)

theorem Items.length (items : Items opener item c as d) :
    as.length + d.rest.length ≤ c.rest.length := by
  induction items with
  | nil => simp
  | cons _ _ shorter _ ih =>
    simp only [List.length_cons]
    omega

theorem many_of_items (items : Items opener item c as d) (ended : opener d = none) :
    many opener item c = .ok (as, d) := by
  have within : ∀ bound, as.length ≤ bound → manyWithin opener item bound c = .ok (as, d) := by
    intro bound enough
    induction items generalizing bound with
    | nil =>
      cases bound with
      | zero => rfl
      | succ bound => simp [manyWithin, ended]
    | cons opened read _ _ ih =>
      cases bound with
      | zero => simp at enough
      | succ bound =>
        simp only [manyWithin, opened]
        rw [bind_of_ok read, bind_of_ok (ih ended bound (by simpa using enough))]
        rfl
  exact within _ (Nat.le_of_add_right_le items.length)

end Items

variable (alike) in
/-- The opener finds an item in front of a writing of the pieces, and the item takes them all. -/
def Steps (opener : Cursor → Option (β × Cursor)) (item : β → Reader α) (pieces : List Piece)
    (good : α → Prop) (follow : Token → Prop) : Prop :=
  ∀ c rest, Front alike pieces c.rest rest → Next follow rest →
    ∃ b m a d, opener c = some (b, m) ∧ item b m = .ok (a, d) ∧ d.rest = rest ∧ good a

/-- An item that begins with a token of its own. -/
theorem Steps.of_reads {test : Token → Option β} {item : β → Reader α} {p : Piece}
    {ps : List Piece} {good : α → Prop} {follow : Token → Prop}
    (found : ∀ token, p.Fits alike token → ∃ b, test token = some b ∧
      Reads alike (item b) ps good follow) :
    Steps alike (Cursor.take? test) item (p :: ps) good follow := by
  intro c rest front follows
  obtain ⟨token, mid, tokens, fits, front⟩ := front_cons.mp front
  obtain ⟨b, test_eq, reads⟩ := found token fits
  obtain ⟨a, d, read, rest_eq, holds⟩ := reads ⟨mid, token.span.stop⟩ rest front follows
  exact ⟨b, ⟨mid, token.span.stop⟩, a, d, take?_of_cons tokens test_eq, read, rest_eq, holds⟩

section Spine

variable {first : Reader α} {opener : Cursor → Option (β × Cursor)} {item : β → Reader γ}
  {join : α → γ → α} {ps qs : List Piece} {good : α → Prop} {follow before : Token → Prop}

variable (alike) in
/-- A first part and some items behind it take a writing of the pieces, and joined they are good. -/
def Spine (first : Reader α) (opener : Cursor → Option (β × Cursor)) (item : β → Reader γ)
    (join : α → γ → α) (pieces : List Piece) (good : α → Prop) (follow : Token → Prop) : Prop :=
  ∀ c rest, Front alike pieces c.rest rest → Next follow rest →
    ∃ a m items d, first c = .ok (a, m) ∧ Items opener item m items d ∧ d.rest = rest ∧
      good (items.foldl join a)

theorem Spine.of_reads (reads : Reads alike first ps good follow) :
    Spine alike first opener item join ps good follow := by
  intro c rest front follows
  obtain ⟨a, d, read, rest_eq, holds⟩ := reads c rest front follows
  exact ⟨a, d, [], d, read, .nil, rest_eq, holds⟩

/-- One more item at the end. -/
theorem Spine.snoc {good' : α → Prop} {fine : γ → Prop}
    (spine : Spine alike first opener item join ps good before)
    (leads : Leads alike qs follow before)
    (steps : Steps alike opener item qs fine follow) (nonempty : qs ≠ [])
    (joins : ∀ a b, good a → fine b → good' (join a b)) :
    Spine alike first opener item join (ps ++ qs) good' follow := by
  intro c rest front follows
  obtain ⟨mid, front, front'⟩ := front_append.mp front
  obtain ⟨a, m, items, d, read, chain, rfl, holds⟩ :=
    spine c mid front (leads _ _ front' follows)
  obtain ⟨b, n, x, e, opened, read', rfl, fits⟩ := steps d rest front' follows
  have shorter : e.rest.length < d.rest.length := by
    have length := front'.length
    have positive := List.length_pos_iff.mpr nonempty
    omega
  refine ⟨a, m, items ++ [x], e, read, chain.snoc opened read' shorter, rfl, ?_⟩
  rw [List.foldl_append]
  exact joins _ _ holds fits

theorem Spine.reads (spine : Spine alike first opener item join ps good before)
    (weaken : ∀ token, follow token → before token)
    (ends : ∀ c, Next follow c.rest → opener c = none) :
    Reads alike (do
      let a ← first
      let items ← many opener item
      return items.foldl join a) ps good follow := by
  intro c rest front follows
  obtain ⟨a, m, items, d, read, chain, rfl, holds⟩ :=
    spine c rest front fun token member => weaken token (follows token member)
  refine ⟨items.foldl join a, d, ?_, rfl, holds⟩
  rw [bind_of_ok read, bind_of_ok (many_of_items chain (ends d follows))]
  rfl

end Spine

/-- Items of a list, one after the other. -/
theorem many_reads {opener : Cursor → Option (β × Cursor)} {item : β → Reader α}
    {pieces : γ → List Piece} {good : γ → α → Prop} {follow before : Token → Prop} {xs : List γ}
    (nonempty : ∀ x ∈ xs, pieces x ≠ [])
    (leads : ∀ x ∈ xs, ∀ qs, Leads alike (pieces x ++ qs) follow before)
    (steps : ∀ x ∈ xs, Steps alike opener item (pieces x) (good x) before)
    (weaken : ∀ token, follow token → before token)
    (ends : ∀ c, Next follow c.rest → opener c = none) :
    Reads alike (many opener item) (xs.flatMap pieces) (List.Forall₂ good xs) follow := by
  have chain : ∀ c rest, Front alike (xs.flatMap pieces) c.rest rest → Next follow rest →
      ∃ as d, Items opener item c as d ∧ d.rest = rest ∧ List.Forall₂ good xs as := by
    clear ends
    induction xs with
    | nil =>
      intro c rest front _
      exact ⟨[], c, .nil, front_nil.mp front, .nil⟩
    | cons x xs ih =>
      intro c rest front follows
      obtain ⟨mid, head, tail⟩ := front_append.mp front
      have next : Next before mid := by
        cases xs with
        | nil => exact Leads.nil weaken _ _ tail follows
        | cons y ys => exact leads y (by simp) _ _ _ tail follows
      obtain ⟨b, m, a, d, opened, read, rfl, holds⟩ := steps x (by simp) c mid head next
      obtain ⟨as, e, items, rfl, all⟩ := ih (fun y member => nonempty y (by simp [member]))
        (fun y member => leads y (by simp [member])) (fun y member => steps y (by simp [member]))
        d rest tail follows
      have shorter : d.rest.length < c.rest.length := by
        have length := head.length
        have positive := List.length_pos_iff.mpr (nonempty x (by simp))
        omega
      exact ⟨a :: as, e, .cons opened read shorter items, rfl, .cons holds all⟩
  intro c rest front follows
  obtain ⟨as, d, items, rfl, all⟩ := chain c rest front follows
  exact ⟨as, d, many_of_items items (ends d follows), rfl, all⟩

/-- Items between commas, and the closing parenthesis. -/
theorem commaSeparated_reads {item : Reader α} {pieces : γ → List Piece} {good : γ → α → Prop}
    {follow between : Token → Prop} {xs : List γ}
    (starts : ∀ x ∈ xs, ∀ qs, Leads alike (pieces x ++ qs) follow fun token => token.text ≠ ")")
    (reads : ∀ x ∈ xs, Reads alike item (pieces x) (good x) between)
    (comma : ∀ token : Token, token.text = "," → between token)
    (closing : ∀ token : Token, token.text = ")" → between token) :
    Reads alike (commaSeparated item) (commaPieces pieces xs ++ [.word ")"]) (List.Forall₂ good xs)
      follow := by
  cases xs with
  | nil => exact .opened fun token fits => ⟨token, hasText_of_eq fits.1, .pure .nil⟩
  | cons x xs =>
    rw [commaPieces, List.append_assoc]
    refine .unopened (fun tokens rest front follows token member =>
      hasText_of_ne (starts x (by simp) _ tokens rest front follows token member)) ?_
    have more : Reads alike (many (Cursor.take? (hasText ",")) fun _ => item)
        (xs.flatMap fun x => .word "," :: pieces x) (List.Forall₂ good xs)
        fun token => token.text = ")" := by
      refine many_reads (fun _ _ => List.cons_ne_nil _ _) (fun _ _ _ => .word comma)
        (fun y member => .of_reads fun token fits =>
          ⟨token, hasText_of_eq fits.1, reads y (by simp [member])⟩)
        closing fun c ends => take?_of_next fun token member => hasText_of_ne ?_
      rw [ends token member]
      decide
    refine .bind (reads x (by simp)) ?_ fun a holds =>
      .bind more (.word fun _ text => text) fun others all =>
        .word fun _ => .pure (.cons holds all)
    cases xs with
    | nil => exact .word closing
    | cons y ys => exact .word comma

end Reader

end Primer
