import Primer.Proofs.Java.OperatorGrouping
import Primer.Proofs.Syntax.Bare

/-!
# Expressions from their Java text

`Java.expression?` reads the text of an expression back, as a bare expression.  It has to guess in
two places.  Java writes the three constants that are words in small letters, and a variable may
have such a word as its name.  And a decimal that is zero is written as the integer zero.  Where
neither occurs the text gives back the expression (`Expression.expression?_text`).
-/

namespace Primer

open Java

/-! ## Numbers -/

namespace Numeral

theorem ofDigits_digits (n : Nat) : ofDigits (digits n) = n :=
  Nat.ofDigitChars_ten_toDigits

theorem ofDigits_zeros (count : Nat) (cs : List Char) :
    ofDigits (List.replicate count '0' ++ cs) = ofDigits cs := by
  induction count with
  | zero => rfl
  | succ count ih => exact ih

theorem isSignText_signText (negative : Bool) : Lexeme.IsSignText (signText negative) := by
  cases negative <;> simp [signText, Lexeme.IsSignText]

theorem signText_beq (negative : Bool) : (signText negative == ['-']) = negative := by
  cases negative <;> rfl

/-- A sign that says whether a number is below zero, and the size of the number. -/
theorem signed_natAbs (i : Int) :
    (if decide (i < 0) then -(i.natAbs : Int) else i.natAbs) = i := by
  simp only [decide_eq_true_eq]
  split <;> omega

theorem render_eq (i : Int) :
    (render i).toList = signText (decide (i < 0)) ++ digits i.natAbs := by
  rw [render, String.toList_ofList, signText]
  by_cases negative : i < 0 <;> simp [negative]

theorem signed?_render (i : Int) : signed? (render i).toList = some i := by
  rw [render_eq, signed?_of_isDigits (isDigits_digits _), ofDigits_digits, signed_natAbs]

end Numeral

namespace Java

/-- The decimal that a number with a fraction or an exponent is.  Both add to its scale. -/
def decimal? (cs : List Char) : Option Decimal :=
  let mantissa := cs.takeWhile (· != 'E')
  let exponent := cs.drop (mantissa.length + 2)
  (Decimal.ofText? (String.ofList mantissa)).map fun value =>
    ⟨value.digits, value.scale + Numeral.ofDigits exponent⟩

theorem IsFraction.characters {fraction : List Char} (isFraction : IsFraction fraction) :
    ∀ c ∈ fraction, c.isDigit = true ∨ c = '.' := by
  intro c member
  obtain rfl | ⟨digits, isDigits, rfl⟩ := isFraction
  · exact absurd member List.not_mem_nil
  rcases List.mem_cons.mp member with rfl | member
  · exact .inr rfl
  · exact .inl (isDigits.isDigit c member)

theorem IsFraction.isDigit_of_mem {fraction : List Char} (isFraction : IsFraction fraction) :
    ∀ c ∈ fraction.drop 1, Lexeme.IsDigit c := by
  obtain rfl | ⟨digits, isDigits, rfl⟩ := isFraction
  · exact fun c member => absurd member List.not_mem_nil
  · exact isDigits.2

theorem IsFraction.head_eq {fraction : List Char} (isFraction : IsFraction fraction) :
    ∀ c ∈ fraction.head?, c = '.' := by
  obtain rfl | ⟨digits, _, rfl⟩ := isFraction
  · exact fun c head => nomatch head
  · exact fun c head => (Option.some.inj head).symm

/-- The value of a number that is written with a fraction, an exponent or both. -/
theorem decimal?_of_parts {whole fraction exponent : List Char} (isDigits : Lexeme.IsDigits whole)
    (isFraction : IsFraction fraction) (isExponent : IsExponent exponent) (negative : Bool) :
    decimal? (Numeral.signText negative ++ whole ++ fraction ++ exponent) =
      some ⟨if negative then -(Numeral.ofDigits (whole ++ fraction.drop 1) : Int)
        else Numeral.ofDigits (whole ++ fraction.drop 1),
        (fraction.drop 1).length + Numeral.ofDigits (exponent.drop 2)⟩ := by
  have noLetter : ∀ c ∈ Numeral.signText negative ++ whole ++ fraction, (c != 'E') = true := by
    intro c member
    rw [bne_iff_ne]
    rintro rfl
    rcases List.mem_append.mp member with member | member
    · exact absurd (Numeral.mem_signText_append isDigits negative 'E' member) (by decide)
    · exact absurd (isFraction.characters 'E' member) (by decide)
  have letter : ∀ c ∈ exponent.head?, (c != 'E') = false := by
    obtain rfl | ⟨digits, _, rfl⟩ := isExponent
    · exact fun c head => nomatch head
    · rintro c ⟨⟩
      rfl
  have mantissa := Decimal.ofText?_of_parts String.toList_ofList
    (Numeral.isSignText_signText negative) isDigits isFraction.head_eq isFraction.isDigit_of_mem
  rw [Numeral.signText_beq] at mantissa
  simp only [decimal?, takeWhile_append_of_head noLetter letter, ← List.drop_drop, List.drop_left,
    mantissa, Option.map_some]

end Java

namespace Decimal

theorem render_eq {d : Decimal} (nonzero : d.isZero = false) :
    d.render.toList = Numeral.signText (decide (d.digits < 0)) ++
      (if maxLeadingZeros < d.scale - (Numeral.digits d.digits.natAbs).length then
        scientific (Numeral.digits d.digits.natAbs) d.scale
      else positional (Numeral.digits d.digits.natAbs) d.scale) := by
  rw [render, if_neg (by simp [nonzero])]
  dsimp only
  rw [String.toList_ofList, Numeral.signText]
  by_cases negative : d.digits < 0 <;> simp [negative]

/-- A decimal that is not zero and has a fraction is written with a point or an exponent, and can be
read back. -/
theorem decimal?_render {d : Decimal} (positive : 0 < d.scale) (nonzero : d.isZero = false) :
    decimal? d.render.toList = some d ∧ ('.' ∈ d.render.toList ∨ 'E' ∈ d.render.toList) := by
  have isDigits := Numeral.isDigits_digits d.digits.natAbs
  have value := Numeral.signed_natAbs d.digits
  rw [← Numeral.ofDigits_digits d.digits.natAbs] at value
  rw [render_eq nonzero]
  generalize Numeral.digits d.digits.natAbs = ds at isDigits value
  split
  · rename_i small
    rcases scientific_eq isDigits d.scale with
      ⟨whole, fraction, isWhole, isFraction, joined, length, same⟩
    have isExponent : IsExponent ('E' :: '-' :: Numeral.digits (d.scale - ds.length + 1).toNat) :=
      .inr ⟨_, Numeral.isDigits_digits _, rfl⟩
    have scale : ((fraction.drop 1).length : Int) +
        Numeral.ofDigits (Numeral.digits (d.scale - ds.length + 1).toNat) = d.scale := by
      rw [Numeral.ofDigits_digits]
      unfold maxLeadingZeros at small
      omega
    have read := decimal?_of_parts isWhole isFraction isExponent (decide (d.digits < 0))
    rw [joined, value, List.drop_succ_cons, List.drop_succ_cons, List.drop_zero, scale] at read
    rw [same, ← List.append_assoc, ← List.append_assoc]
    exact ⟨read, .inr (by simp)⟩
  · rcases positional_eq isDigits positive with
      ⟨whole, fraction, isWhole, isFraction, joined, length, same⟩
    have read := decimal?_of_parts isWhole (.inr ⟨fraction, isFraction, rfl⟩) (.inl rfl)
      (decide (d.digits < 0))
    have scale : (fraction.length : Int) + Numeral.ofDigits [] = d.scale := by
      show (fraction.length : Int) + 0 = d.scale
      omega
    rw [List.drop_succ_cons, List.drop_zero, List.drop_nil, joined, Numeral.ofDigits_zeros, value,
      scale, List.append_nil] at read
    rw [same, ← List.append_assoc]
    exact ⟨read, .inl (by simp)⟩

end Decimal

/-! ## Quoted text -/

namespace Escape

theorem decode_spelling {quote : Char} (isQuote : quote = '\'' ∨ quote = '"') (c : Char)
    (rest : List Char) : decode (spelling quote c ++ rest) = (decode rest).map (c :: ·) := by
  unfold spelling
  split
  case h_6 notBackslash =>
    split
    · rename_i same
      subst same
      rcases isQuote with rfl | rfl
      · exact decode_escape (show meaning? '\'' = some '\'' from rfl) rest
      · exact decode_escape (show meaning? '"' = some '"' from rfl) rest
    · exact decode_plain notBackslash rest
  all_goals exact decode_escape rfl rest

theorem decode_encode {quote : Char} (isQuote : quote = '\'' ∨ quote = '"') (text : List Char) :
    decode (encode quote text) = some text := by
  induction text with
  | nil => rfl
  | cons c text ih =>
    have spelled : encode quote (c :: text) = spelling quote c ++ encode quote text :=
      List.flatMap_cons
    rw [spelled, decode_spelling isQuote, ih]
    rfl

end Escape

/-! ## Operands -/

/-- Not a decimal that is zero. -/
def Literal.Unambiguous : Literal → Prop
  | .decimal value => value.isZero = false
  | _ => True

instance : DecidablePred Literal.Unambiguous
  | .decimal value => inferInstanceAs (Decidable (value.isZero = false))
  | .nil | .boolean _ | .integer _ | .character _ | .string _ => .isTrue trivial

namespace Expression

/-- Neither a constant nor a variable whose text could be that of another. -/
def Unambiguous : Expression → Prop
  | .literal _ value => value.Unambiguous
  | .access _ name _ => name ∉ ["null", "true", "false"]
  | _ => True

instance : DecidablePred Unambiguous
  | .literal _ value => inferInstanceAs (Decidable value.Unambiguous)
  | .access _ name _ => inferInstanceAs (Decidable (name ∉ ["null", "true", "false"]))
  | .group .. | .binary .. | .memberAccess .. | .call .. | .memberCall .. => .isTrue trivial

end Expression

namespace Java

/-- The constant that a text is which begins with `c` and is not a word. -/
def constant? (c : Char) (cs : List Char) : Option Literal :=
  if c = '\'' then
    match Escape.decode cs.dropLast with
    | some [value] => some (.character value)
    | _ => none
  else if c = '"' then
    (Escape.decode cs.dropLast).map fun value => .string (String.ofList value)
  else if '.' ∈ c :: cs ∨ 'E' ∈ c :: cs then
    (decimal? (c :: cs)).map .decimal
  else
    (Numeral.signed? (c :: cs)).map .integer

/-- The expression that a word is: a constant, where it can be one. -/
def word (text : String) : Expression :=
  if text = "null" then .literal .bare .nil
  else if text = "true" then .literal .bare (.boolean true)
  else if text = "false" then .literal .bare (.boolean false)
  else .access .bare text none

/-- The expression that an operand without parts is. -/
def operand? (text : String) : Option Expression :=
  match text.toList with
  | [] => none
  | c :: cs =>
    if Lexeme.isIdentifierStart c then some (word text)
    else (constant? c cs).map (.literal .bare)

theorem operand?_of_isSigned {text : String} (isSigned : IsSigned text.toList) :
    operand? text = if '.' ∈ text.toList ∨ 'E' ∈ text.toList then
        (decimal? text.toList).map fun value => .literal .bare (.decimal value)
      else (Numeral.signed? text.toList).map fun value => .literal .bare (.integer value) := by
  rcases isSigned.exists_cons with ⟨c, cs, spelled, sort⟩
  have notFirst : Lexeme.isIdentifierStart c = false := by
    rcases sort with digit | rfl
    · exact Lexeme.isIdentifierStart_of_isDigit digit
    · rfl
  have notQuote : c ≠ '\'' ∧ c ≠ '"' := by
    rcases sort with digit | rfl
    · constructor <;> rintro rfl <;> exact absurd digit (by decide)
    · decide
  rw [operand?, spelled]
  dsimp only
  rw [notFirst, constant?, if_neg notQuote.1, if_neg notQuote.2, if_neg Bool.false_ne_true]
  split <;> rw [Option.map_map] <;> rfl

theorem operand?_quoted {quote : Char} (isQuote : quote = '\'' ∨ quote = '"') (body : List Char) :
    operand? (quoted quote body) =
      (constant? quote (Escape.encode quote body ++ [quote])).map (.literal .bare) := by
  have notFirst : Lexeme.isIdentifierStart quote = false := by
    rcases isQuote with rfl | rfl <;> rfl
  rw [operand?, quoted, String.toList_ofList, List.cons_append]
  dsimp only
  rw [notFirst, if_neg Bool.false_ne_true]

end Java

/-- A constant is read back from its text. -/
theorem Literal.operand?_toJava {value : Literal} (isWritten : value.IsWritten)
    (unambiguous : value.Unambiguous) : operand? value.toJava = some (.literal .bare value) := by
  cases value with
  | nil => rfl
  | boolean value => cases value <;> rfl
  | integer value =>
    have plain : ¬ ('.' ∈ (Numeral.render value).toList ∨ 'E' ∈ (Numeral.render value).toList) := by
      have characters :=
        Numeral.mem_signText_append (Numeral.isDigits_digits value.natAbs) (decide (value < 0))
      rw [← Numeral.render_eq] at characters
      rintro (member | member)
      · exact absurd (characters _ member) (by decide)
      · exact absurd (characters _ member) (by decide)
    rw [Literal.toJava, operand?_of_isSigned (Numeral.isSigned_render value), if_neg plain,
      Numeral.signed?_render]
    rfl
  | decimal value =>
    rcases Decimal.decimal?_render isWritten unambiguous with ⟨read, marked⟩
    rw [Literal.toJava, operand?_of_isSigned value.isSigned_render, if_pos marked, read]
    rfl
  | character value =>
    rw [Literal.toJava, operand?_quoted (.inl rfl), constant?, if_pos rfl, List.dropLast_concat,
      Escape.decode_encode (.inl rfl)]
    rfl
  | string value =>
    rw [Literal.toJava, operand?_quoted (.inr rfl), constant?, if_neg (by decide), if_pos rfl,
      List.dropLast_concat, Escape.decode_encode (.inr rfl), Option.map_some, String.ofList_toList]
    rfl

theorem IsIdentifier.operand? {name : String} (isIdentifier : IsIdentifier name)
    (unambiguous : name ∉ ["null", "true", "false"]) :
    Java.operand? name = some (.access .bare name none) := by
  rcases isIdentifier.exists_cons with ⟨c, cs, spelled, first, -⟩
  simp only [List.mem_cons, List.not_mem_nil, or_false, not_or] at unambiguous
  rw [Java.operand?, spelled]
  dsimp only
  rw [if_pos first, word, if_neg unambiguous.1, if_neg unambiguous.2.1, if_neg unambiguous.2.2]

/-! ## Expressions -/

/-- The name of a function that goes by the given name in Java. -/
def Java.functionName (javaName : String) : String :=
  if javaName = "System.out.println" then "print" else javaName

theorem FunctionKey.functionName_javaName {key : FunctionKey}
    (isIdentifier : IsIdentifier key.name) : functionName key.javaName = key.name := by
  unfold FunctionKey.javaName
  split
  · rename_i print
    rw [print]
    rfl
  · have notPath : key.name ≠ "System.out.println" := by
      intro path
      rw [IsIdentifier, path] at isIdentifier
      exact absurd isIdentifier (by decide)
    rw [functionName, if_neg notPath]

mutual

/-- The bare expression that a tree of Java text is. -/
def Java.Tree.expression? : Tree → Option Expression
  | .leaf text => operand? text
  | .group inner => do
    return .group .bare (← inner.expression?)
  | .binary operator left right => do
    let left ← left.expression?
    let right ← right.expression?
    return .binary .bare operator left right
  | .call name arguments => do
    let arguments ← Java.Tree.expressions? arguments
    return .call .bare (functionName name) arguments none

def Java.Tree.expressions? : List Tree → Option (List Expression)
  | [] => some []
  | tree :: trees => do
    let first ← tree.expression?
    let others ← Java.Tree.expressions? trees
    return first :: others

end

mutual

theorem Expression.expression?_tree : (e : Expression) → e.Everywhere Rules.settled.expression →
    e.Everywhere Expression.Unambiguous → e.tree.expression? = some e.bare
  | .literal _ value, isWritten, unambiguous => Literal.operand?_toJava isWritten unambiguous
  | .group _ inner, settled, unambiguous => by
    have inside := Expression.expression?_tree inner settled.2 unambiguous.2
    rw [Expression.tree, Tree.expression?, inside]
    rfl
  | .binary _ operator left right, settled, unambiguous => by
    have onLeft := Expression.expression?_tree left settled.2.1 unambiguous.2.1
    have onRight := Expression.expression?_tree right settled.2.2 unambiguous.2.2
    rw [Expression.tree, Tree.expression?, onLeft, onRight]
    rfl
  | .access _ name _, ⟨isIdentifier, found, bound, sameName⟩, unambiguous => by
    subst bound
    show operand? found.javaName = _
    rw [sameName]
    exact isIdentifier.operand? unambiguous
  | .call _ name args _, ⟨⟨isIdentifier, found, bound, sameName⟩, settled⟩, unambiguous => by
    subst bound
    have inside := Expression.expressions?_trees args settled unambiguous.2
    have named : functionName found.javaName = name := by
      rw [sameName]
      exact FunctionKey.functionName_javaName isIdentifier
    rw [Expression.tree, Tree.expression?, inside]
    show some (Expression.call .bare (functionName found.javaName) _ none) = _
    rw [named]
    rfl
  | .memberAccess .., settled, _ => absurd settled.1 id
  | .memberCall .., settled, _ => absurd settled.1 id

theorem Expression.expressions?_trees : (es : List Expression) →
    Expression.EverywhereAll Rules.settled.expression es →
    Expression.EverywhereAll Expression.Unambiguous es →
    Tree.expressions? (Expression.trees es) = some (Expression.bareAll es)
  | [], _, _ => rfl
  | e :: es, settled, unambiguous => by
    have first := Expression.expression?_tree e settled.1 unambiguous.1
    have others := Expression.expressions?_trees es settled.2 unambiguous.2
    rw [Expression.trees, Tree.expressions?, first, others]
    rfl

end

/-- The bare expression that a text is. -/
def Java.expression? (text : String) : Option Expression :=
  (Java.read .primer text).bind Tree.expression?

/-- A settled expression in which nothing is ambiguous is read back from its text. -/
theorem Expression.expression?_text {e : Expression}
    (settled : e.Everywhere Rules.settled.expression)
    (unambiguous : e.Everywhere Expression.Unambiguous) :
    Java.expression? e.tree.text = some e.bare := by
  rw [Java.expression?, Tree.read_text (e.lexical_tree settled),
    Tree.regroup_eq_self_iff.mpr (e.canonical_tree settled)]
  exact e.expression?_tree settled unambiguous

end Primer
