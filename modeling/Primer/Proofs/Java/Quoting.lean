import Primer.Proofs.Java.Recovery
import Primer.Proofs.Token.Respacing

/-!
# Quoted text is read back

Java text and source text quote characters and strings in the same way.  Writing escapes, scanning
checks escapes and reading resolves them, each by a table of its own.  The main statement is that
the tables fit together: any text in quotes, as it is written for Java, is a single token of a
source, and what it denotes is the text (`Java.quoted_reads_back`).

No quote inside ends the literal: each has a run of backslashes before it that is odd.
-/

namespace Primer

open Lexeme

/-! ## What a quoted text looks like -/

namespace Escape

/-- A backslash is pending behind these characters: they end in an odd number of backslashes, so
what comes next is escaped. -/
def pending (before : List Char) : Bool :=
  (before.reverse.takeWhile (· == '\\')).length % 2 == 1

variable {quote : Char}

/-- Whatever a character is written as, it is an item of a literal. -/
theorem item_spelling (isQuote : quote = '\'' ∨ quote = '"') (c : Char) :
    Item quote (spelling quote c) := by
  unfold spelling
  split
  case h_6 notBackspace notNewline notReturn notTab notBackslash =>
    split
    · rename_i same
      subst same
      exact .escape (by rcases isQuote with rfl | rfl <;> decide)
    · rename_i notQuote
      exact .plain notQuote notNewline notReturn notBackslash
  all_goals exact .escape (by decide)

theorem encode_eq_flatten (quote : Char) (text : List Char) :
    encode quote text = (text.map (spelling quote)).flatten :=
  List.flatMap_def

theorem items_encode (isQuote : quote = '\'' ∨ quote = '"') (text : List Char) :
    ∀ item ∈ text.map (spelling quote), Item quote item := by
  intro item member
  obtain ⟨c, -, rfl⟩ := List.mem_map.mp member
  exact item_spelling isQuote c

end Escape

namespace Lexeme.Item

variable {quote : Char} {item : List Char}

theorem ne_lineEnd (isItem : Item quote item) : ∀ c ∈ item, c ≠ '\n' ∧ c ≠ '\r' := by
  cases isItem with
  | plain _ notNewline notReturn _ =>
    intro c member
    rw [List.mem_singleton.mp member]
    exact ⟨notNewline, notReturn⟩
  | escape listed =>
    have letters : ∀ c ∈ ['b', 'n', 'r', 't', '\'', '"', '\\'], c ≠ '\n' ∧ c ≠ '\r' :=
      List.forall_iff_forall_mem.mp (by decide)
    intro c member
    obtain rfl | member := List.mem_cons.mp member
    · decide
    · rw [List.mem_singleton.mp member]
      exact letters _ listed

/-- No backslash is pending behind a whole item. -/
theorem pending_eq (isItem : Item quote item) : Escape.pending item = false := by
  cases isItem with
  | plain _ _ _ notBackslash => simp [Escape.pending, notBackslash]
  | @escape letter _ =>
    by_cases backslash : letter = '\\'
    · rw [backslash]
      rfl
    · simp [Escape.pending, backslash]

/-- A quote inside an item is behind its backslash. -/
theorem pending_of_mem (isItem : Item quote item) (notBackslash : quote ≠ '\\')
    {before behind : List Char} (found : item = before ++ quote :: behind) :
    Escape.pending before = true := by
  cases isItem with
  | plain notQuote =>
    have member : quote ∈ before ++ quote :: behind := by simp
    rw [← found, List.mem_singleton] at member
    exact absurd member.symm notQuote
  | escape =>
    cases before with
    | nil => exact absurd (List.cons.inj found).1.symm notBackslash
    | cons c before =>
      obtain ⟨rfl, rest⟩ := List.cons.inj found
      cases before with
      | nil => rfl
      | cons d before => simp at rest

end Lexeme.Item

namespace Escape

variable {quote : Char}

/-- What is pending behind more characters does not depend on those in front, if nothing is pending
behind them. -/
theorem pending_append {first : List Char} (whole : pending first = false) (before : List Char) :
    pending (first ++ before) = pending before := by
  unfold pending at *
  rw [beq_eq_false_iff_ne] at whole
  rw [List.reverse_append, List.takeWhile_append]
  split
  · -- All of `before` is backslashes, and an even number of them joins in from `first`.
    rename_i all
    rw [List.length_append, all, Bool.eq_iff_iff, beq_iff_eq, beq_iff_eq]
    omega
  · rfl

/-- Every quote among the items of a literal is escaped. -/
theorem pending_of_flatten {items : List (List Char)} (notBackslash : quote ≠ '\\')
    (areItems : ∀ item ∈ items, Item quote item) {before behind : List Char}
    (found : items.flatten = before ++ quote :: behind) : pending before = true := by
  induction items generalizing before with
  | nil => simp at found
  | cons item items ih =>
    obtain ⟨isItem, areItems⟩ := List.forall_mem_cons.mp areItems
    rw [List.flatten_cons] at found
    obtain ⟨inside, rfl, others⟩ | ⟨inside, split, others⟩ := List.append_eq_append_iff.mp found
    · rw [pending_append isItem.pending_eq]
      exact ih areItems others
    · cases inside with
      | nil =>
        have first : pending [] = true := ih areItems others.symm
        exact absurd first (by decide)
      | cons c inside =>
        obtain ⟨rfl, -⟩ := List.cons.inj others
        exact isItem.pending_of_mem notBackslash split

end Escape

/-! ## Reading it back -/

/-- The whole of `written` is one token, of the given kind, and its body stands for `text`. -/
structure Java.ReadBack (kind : Token.Kind) (written : String) (text : List Char) : Prop where
  scanned : Token.scan written = .ok [⟨kind, written, ⟨0, written.length⟩⟩]
  decoded : Escape.decode (Token.body ⟨kind, written, ⟨0, written.length⟩⟩) = some text

/-- Between its quotes a text holds no line end, and no quote but behind a backslash of its own. -/
structure Java.Closed (quote : Char) (written : String) (inside : List Char) : Prop where
  delimited : written.toList = quote :: inside ++ [quote]
  oneLine : ∀ c ∈ inside, c ≠ '\n' ∧ c ≠ '\r'
  escaped : ∀ before behind, inside = before ++ quote :: behind → Escape.pending before = true

theorem Lexeme.IsLexeme.scan_eq {kind : Token.Kind} {text : String}
    (isLexeme : IsLexeme kind text.toList) :
    Token.scan text = .ok [⟨kind, text, ⟨0, text.length⟩⟩] := by
  have ends : Ends [] := nofun
  have found := isLexeme.scanFrom_eq ends 0
  rw [List.append_nil, Nat.zero_add, Token.scanFrom_nil] at found
  exact found

namespace Java

variable {quote : Char}

theorem toList_quoted (quote : Char) (text : List Char) :
    (quoted quote text).toList = quote :: Escape.encode quote text ++ [quote] :=
  String.toList_ofList

theorem readBack_quoted (isQuote : quote = '\'' ∨ quote = '"') {kind : Token.Kind}
    {text : List Char} (isLexeme : IsLexeme kind (quoted quote text).toList) :
    ReadBack kind (quoted quote text) text where
  scanned := isLexeme.scan_eq
  decoded := by
    have inside : Token.body ⟨kind, quoted quote text, ⟨0, (quoted quote text).length⟩⟩ =
        Escape.encode quote text := by
      apply Token.body_of_quoted
      exact toList_quoted quote text
    rw [inside, Escape.decode_encode isQuote]

theorem closed_quoted (isQuote : quote = '\'' ∨ quote = '"') (text : List Char) :
    Closed quote (quoted quote text) (Escape.encode quote text) where
  delimited := toList_quoted quote text
  oneLine c member := by
    rw [Escape.encode_eq_flatten] at member
    obtain ⟨item, listed, member⟩ := List.mem_flatten.mp member
    exact (Escape.items_encode isQuote text item listed).ne_lineEnd c member
  escaped before behind found := by
    have notBackslash : quote ≠ '\\' := by rcases isQuote with rfl | rfl <;> decide
    rw [Escape.encode_eq_flatten] at found
    exact Escape.pending_of_flatten notBackslash (Escape.items_encode isQuote text) found

theorem isLexeme_quoted_string (text : List Char) : IsLexeme .string (quoted '"' text).toList := by
  rw [toList_quoted, Escape.encode_eq_flatten]
  exact .string (Escape.items_encode (.inr rfl) text)

theorem isLexeme_quoted_character (c : Char) : IsLexeme .character (quoted '\'' [c]).toList := by
  rw [toList_quoted, Escape.encode, List.flatMap_singleton]
  exact .character (Escape.item_spelling (.inl rfl) c)

/-- Every string and every character, in quotes for Java, is one token that denotes it, and nothing
inside ends the line or the literal. -/
theorem quoted_reads_back :
    (∀ text : String, ReadBack .string (Literal.string text).toJava text.toList ∧
      Closed '"' (Literal.string text).toJava (Escape.encode '"' text.toList)) ∧
    ∀ c : Char, ReadBack .character (Literal.character c).toJava [c] ∧
      Closed '\'' (Literal.character c).toJava (Escape.encode '\'' [c]) := by
  constructor
  · intro text
    exact ⟨readBack_quoted (.inr rfl) (isLexeme_quoted_string text.toList),
      closed_quoted (.inr rfl) text.toList⟩
  · intro c
    exact ⟨readBack_quoted (.inl rfl) (isLexeme_quoted_character c), closed_quoted (.inl rfl) [c]⟩

/-- A backslash in front of the quote of its own kind, and the quote of the other kind. -/
example : (Literal.string "\\\"'").toJava = "\"\\\\\\\"'\"" := by decide

end Java

end Primer
