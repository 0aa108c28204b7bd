import Primer.Grammar.Literal
import Primer.Proofs.Token.Lexemes

/-!
# What the lexemes of constants denote

Where a constant ends is decided character by character.  What it denotes is worked out later and
by other rules, from the whole lexeme.  The main statement is that the two never disagree: every
lexeme of a number, a character or a string denotes something (`LiteralKind.exists_decode?`), and
between the quotes of a character there is exactly one (`Escape.decode_character`).
-/

namespace Primer

open Lexeme

theorem takeWhile_append_of_head {p : Char → Bool} {text rest : List Char}
    (all : ∀ c ∈ text, p c = true) (stops : ∀ c ∈ rest.head?, p c = false) :
    (text ++ rest).takeWhile p = text := by
  rw [List.takeWhile_append_of_pos all]
  cases rest with
  | nil => simp
  | cons c rest => simp [stops c rfl]

theorem dropWhile_append_of_head {p : Char → Bool} {text rest : List Char}
    (all : ∀ c ∈ text, p c = true) (stops : ∀ c ∈ rest.head?, p c = false) :
    (text ++ rest).dropWhile p = rest := by
  rw [List.dropWhile_append_of_pos all]
  cases rest with
  | nil => rfl
  | cons c rest => simp [stops c rfl]

/-! ## Numbers -/

theorem Lexeme.IsDigits.append {first second : List Char} (left : IsDigits first)
    (right : ∀ c ∈ second, IsDigit c) : IsDigits (first ++ second) := by
  refine ⟨List.append_ne_nil_of_left_ne_nil left.1 _, ?_⟩
  exact List.forall_mem_append.mpr ⟨left.2, right⟩

namespace Numeral

/-- A minus sign or none. -/
def signText (negative : Bool) : List Char :=
  if negative then ['-'] else []

variable {digits : List Char} (isDigits : IsDigits digits) (negative : Bool)

include isDigits

theorem natural?_of_isDigits : natural? digits = some (ofDigits digits) := by
  have all : digits.all Char.isDigit = true := List.all_eq_true.mpr isDigits.isDigit
  have nonempty : digits.isEmpty = false := by simpa using isDigits.1
  rw [natural?, all, nonempty]
  rfl

theorem signed?_of_isDigits :
    signed? (signText negative ++ digits) =
      some (if negative then -(ofDigits digits : Int) else ofDigits digits) := by
  cases negative with
  | true =>
    have text : signText true ++ digits = '-' :: digits := rfl
    rw [text, signed?, natural?_of_isDigits isDigits]
    rfl
  | false =>
    obtain ⟨c, cs, rfl⟩ := List.exists_cons_of_ne_nil isDigits.1
    have digit := isDigits.isDigit c List.mem_cons_self
    show signed? (c :: cs) = _
    -- A digit is neither of the two signs.
    unfold signed?
    split
    · rename_i same
      obtain ⟨rfl, -⟩ := List.cons.inj same
      exact absurd digit (by decide)
    · rename_i same
      obtain ⟨rfl, -⟩ := List.cons.inj same
      exact absurd digit (by decide)
    · rw [natural?_of_isDigits isDigits]
      rfl

/-- The characters of a number before its fraction. -/
theorem mem_signText_append : ∀ c ∈ signText negative ++ digits, c.isDigit = true ∨ c = '-' := by
  intro c member
  rcases List.mem_append.mp member with member | member
  · cases negative with
    | true => exact .inr (List.mem_singleton.mp member)
    | false => exact absurd member List.not_mem_nil
  · exact .inl (isDigits.isDigit c member)

/-- Of the two signs only the minus sign stays. -/
theorem dropPlus_append {sign : List Char} (signed : IsSignText sign) (rest : List Char) :
    dropPlus (sign ++ digits ++ rest) = signText (sign == ['-']) ++ digits ++ rest := by
  simp only [IsSignText, List.mem_cons, List.not_mem_nil, or_false] at signed
  obtain rfl | rfl | rfl := signed
  · obtain ⟨first, digits, rfl⟩ := List.exists_cons_of_ne_nil isDigits.1
    have digit := isDigits.isDigit first List.mem_cons_self
    show dropPlus (first :: (digits ++ rest)) = first :: (digits ++ rest)
    rw [dropPlus]
    rintro rest same
    obtain ⟨rfl, -⟩ := List.cons.inj same
    exact absurd digit (by decide)
  · rfl
  · rfl

theorem exists_integer? {text : String} {sign : List Char} (signed : IsSignText sign)
    (spelled : text.toList = sign ++ digits) : ∃ value, integer? text = some value := by
  have kept := dropPlus_append isDigits signed []
  simp only [List.append_nil] at kept
  rw [integer?, spelled, kept]
  exact ⟨_, signed?_of_isDigits isDigits _⟩

end Numeral

/-- The decimal that a number denotes.  Its fraction, if it has one, is written with the point. -/
theorem Decimal.ofText?_of_parts {text : String} {sign whole fraction : List Char}
    (spelled : text.toList = sign ++ whole ++ fraction) (signed : IsSignText sign)
    (isDigits : IsDigits whole) (point : ∀ c ∈ fraction.head?, c = '.')
    (behind : ∀ c ∈ fraction.drop 1, IsDigit c) :
    Decimal.ofText? text =
      some ⟨if sign == ['-'] then -(Numeral.ofDigits (whole ++ fraction.drop 1) : Int)
        else Numeral.ofDigits (whole ++ fraction.drop 1), (fraction.drop 1).length⟩ := by
  have noPoint : ∀ c ∈ Numeral.signText (sign == ['-']) ++ whole, (c != '.') = true := by
    intro c member
    rcases Numeral.mem_signText_append isDigits _ c member with digit | rfl
    · rw [bne_iff_ne]
      rintro rfl
      exact absurd digit (by decide)
    · rfl
  have stops : ∀ c ∈ fraction.head?, (c != '.') = false := by
    intro c head
    rw [point c head]
    rfl
  simp only [Decimal.ofText?, spelled, Numeral.dropPlus_append isDigits signed,
    takeWhile_append_of_head noPoint stops, dropWhile_append_of_head noPoint stops]
  rw [List.append_assoc, Numeral.signed?_of_isDigits (isDigits.append behind)]
  rfl

/-- The digits behind the point give the scale. -/
theorem Decimal.ofText?_of_isLexeme {text : String} (isLexeme : IsLexeme .decimal text.toList) :
    ∃ value, Decimal.ofText? text = some value ∧ 0 < value.scale := by
  generalize spelled : text.toList = cs at isLexeme
  cases isLexeme with
  | decimal signed isDigits isFraction =>
    refine ⟨_, ofText?_of_parts spelled signed isDigits (fun c head => ?_) isFraction.2, ?_⟩
    · exact (Option.some.inj head).symm
    · exact Int.natCast_pos.mpr (List.length_pos_iff.mpr isFraction.1)

/-! ## Characters and strings -/

namespace Escape

theorem decode_escape {letter c : Char} (meaning : meaning? letter = some c) (rest : List Char) :
    decode ('\\' :: letter :: rest) = (decode rest).map (c :: ·) := by
  rw [decode, meaning]
  cases decode rest <;> rfl

theorem decode_plain {c : Char} (plain : c ≠ '\\') (rest : List Char) :
    decode (c :: rest) = (decode rest).map (c :: ·) := by
  rw [decode]
  · cases decode rest <;> rfl
  · exact fun backslash => absurd backslash plain
  · exact fun _ _ backslash => absurd backslash plain

/-- An item stands for one character, whatever comes behind it. -/
theorem decode_item {quote : Char} {item : List Char} (isItem : Item quote item) :
    ∃ c, ∀ rest, decode (item ++ rest) = (decode rest).map (c :: ·) := by
  cases isItem with
  | plain _ _ _ plain => exact ⟨_, decode_plain plain⟩
  | escape listed =>
    obtain ⟨c, meaning⟩ := Option.isSome_iff_exists.mp (isLetter_iff.mpr listed)
    exact ⟨c, decode_escape meaning⟩

theorem decode_character {quote : Char} {item : List Char} (isItem : Item quote item) :
    ∃ c, decode item = some [c] := by
  obtain ⟨c, decoded⟩ := decode_item isItem
  have single := decoded []
  rw [List.append_nil] at single
  exact ⟨c, single⟩

/-- As many items, so many characters. -/
theorem decode_string {quote : Char} {items : List (List Char)}
    (areItems : ∀ item ∈ items, Item quote item) :
    ∃ text, decode items.flatten = some text ∧ text.length = items.length := by
  induction items with
  | nil => exact ⟨[], rfl, rfl⟩
  | cons item items ih =>
    obtain ⟨isItem, areItems⟩ := List.forall_mem_cons.mp areItems
    obtain ⟨c, decoded⟩ := decode_item isItem
    obtain ⟨text, same, length⟩ := ih areItems
    refine ⟨c :: text, ?_, congrArg (· + 1) length⟩
    rw [List.flatten_cons, decoded, same]
    rfl

end Escape

/-! ## Constants -/

namespace Token

variable {token : Token}

/-- The body of a lexeme in quotes is what stands between them. -/
theorem body_of_quoted {quote : Char} {inside : List Char}
    (spelled : token.text.toList = quote :: inside ++ [quote]) : token.body = inside := by
  rw [body, spelled, List.cons_append, List.drop_succ_cons, List.drop_zero, List.dropLast_concat]

theorem decode_body_character (isLexeme : IsLexeme .character token.text.toList) :
    ∃ c, Escape.decode token.body = some [c] := by
  generalize spelled : token.text.toList = cs at isLexeme
  cases isLexeme with
  | character isItem =>
    rw [body_of_quoted spelled]
    exact Escape.decode_character isItem

theorem decode_body_string (isLexeme : IsLexeme .string token.text.toList) :
    ∃ text, Escape.decode token.body = some text := by
  generalize spelled : token.text.toList = cs at isLexeme
  cases isLexeme with
  | string areItems =>
    obtain ⟨text, decoded, -⟩ := Escape.decode_string areItems
    rw [body_of_quoted spelled]
    exact ⟨text, decoded⟩

end Token

theorem LiteralKind.exists_decode? {token : Token} {kind : LiteralKind}
    (isLexeme : IsLexeme token.kind token.text.toList)
    (literal : token.kind.literal? = some kind) : ∃ value, kind.decode? token = some value := by
  cases found : token.kind with
  | identifier | operator => simp [found, Token.Kind.literal?] at literal
  | integer =>
    rw [found] at isLexeme literal
    cases literal
    generalize spelled : token.text.toList = cs at isLexeme
    cases isLexeme with
    | integer signed isDigits =>
      obtain ⟨value, decoded⟩ := Numeral.exists_integer? isDigits signed spelled
      exact ⟨.integer value, by rw [decode?, decoded]; rfl⟩
  | decimal =>
    rw [found] at isLexeme literal
    cases literal
    obtain ⟨value, decoded, -⟩ := Decimal.ofText?_of_isLexeme isLexeme
    exact ⟨.decimal value, by rw [decode?, decoded]; rfl⟩
  | character =>
    rw [found] at isLexeme literal
    cases literal
    obtain ⟨c, decoded⟩ := Token.decode_body_character isLexeme
    exact ⟨.character c, by rw [decode?, decoded]⟩
  | string =>
    rw [found] at isLexeme literal
    cases literal
    obtain ⟨text, decoded⟩ := Token.decode_body_string isLexeme
    exact ⟨.string (String.ofList text), by rw [decode?, decoded]; rfl⟩

end Primer
