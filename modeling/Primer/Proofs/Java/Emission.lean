import Primer.Proofs.Java.Reading
import Primer.Proofs.Typing.Standard

/-!
# Expressions in Java

`Expression.tree` is the operator tree of an expression, with each operand as it is written in Java.
An expression of a program that was checked in the standard environment is written as the text of
its tree (`Expression.toJava_eq_text`), and every operand can be told from what stands around it.
-/

namespace Primer

open Java

/-! ## Dialects -/

/-- The language's own names, with points in paths, and its own levels of operators. -/
def Java.Dialect.primer : Dialect where
  namePart c := Lexeme.isIdentifierPart c || c == '.'
  namePart_eq_false := by simp; decide
  looseness := Operator.looseness

/-- The names and levels of Java.  A hyphen does not belong to a name there. -/
def Java.Dialect.java : Dialect where
  namePart c := c.isAlphanum || c == '_' || c == '.'
  namePart_eq_false := by simp
  looseness
    | .multiply | .divide => 2
    | .add | .subtract => 3
    | .less | .lessEqual | .greater | .greaterEqual => 4
    | .equal | .notEqual => 5
    | .and => 6
    | .or => 7

/-! ## Names -/

theorem IsIdentifier.exists_cons {name : String} (isIdentifier : IsIdentifier name) :
    ∃ c cs, name.toList = c :: cs ∧ Lexeme.isIdentifierStart c = true ∧
      ∀ d ∈ cs, Lexeme.isIdentifierPart d = true := by
  unfold IsIdentifier at isIdentifier
  cases spelled : name.toList with
  | nil =>
    rw [spelled] at isIdentifier
    cases isIdentifier
  | cons c cs =>
    rw [spelled, Lexeme.isIdentifier, Bool.and_eq_true, List.all_eq_true] at isIdentifier
    exact ⟨c, cs, rfl, isIdentifier⟩

theorem IsIdentifier.isName {name : String} (isIdentifier : IsIdentifier name) :
    IsJavaName Dialect.primer.namePart name.toList := by
  obtain ⟨c, cs, spelled, first, parts⟩ := isIdentifier.exists_cons
  refine ⟨c, cs, spelled, first, ?_⟩
  intro d member
  exact Bool.or_eq_true_iff.mpr (.inl (parts d member))

theorem FunctionKey.isName_javaName {key : FunctionKey} (isIdentifier : IsIdentifier key.name) :
    IsJavaName Dialect.primer.namePart key.javaName.toList := by
  unfold FunctionKey.javaName
  split
  · have parts : ("ystem.out.println".toList.all Dialect.primer.namePart) = true := by decide
    exact ⟨'S', "ystem.out.println".toList, by decide, by decide, List.all_eq_true.mp parts⟩
  · exact isIdentifier.isName

/-! ## Constants -/

theorem Numeral.isDigits_digits (n : Nat) : Lexeme.IsDigits (Numeral.digits n) := by
  refine ⟨Nat.toDigits_ne_nil, ?_⟩
  intro c member
  exact Lexeme.isDigit_iff.mp (Nat.isDigit_of_mem_toDigits (by decide) (by decide) member)

theorem Java.IsNumber.of_digits {text : List Char} (isDigits : Lexeme.IsDigits text) :
    IsNumber text :=
  ⟨text, [], [], by simp, isDigits, .inl rfl, .inl rfl⟩

/-- A number with an exponent, in parts. -/
theorem Decimal.scientific_eq {ds : List Char} (isDigits : Lexeme.IsDigits ds) (scale : Int) :
    ∃ whole fraction, Lexeme.IsDigits whole ∧ IsFraction fraction ∧ whole ++ fraction.drop 1 = ds ∧
      (fraction.drop 1).length + 1 = ds.length ∧
      Decimal.scientific ds scale = whole ++ fraction ++
        'E' :: '-' :: Numeral.digits (scale - ds.length + 1).toNat := by
  match ds, isDigits with
  | [first], isDigits => exact ⟨[first], [], isDigits, .inl rfl, rfl, rfl, rfl⟩
  | first :: second :: rest, ⟨_, isDigit⟩ =>
    have whole : Lexeme.IsDigits [first] := ⟨by simp, by simp [isDigit first]⟩
    have fraction : Lexeme.IsDigits (second :: rest) :=
      ⟨by simp, fun c member => isDigit c (.tail _ member)⟩
    exact ⟨[first], '.' :: second :: rest, whole, .inr ⟨_, fraction, rfl⟩, rfl, rfl, rfl⟩

theorem Decimal.isNumber_scientific {ds : List Char} (isDigits : Lexeme.IsDigits ds) (scale : Int) :
    IsNumber (Decimal.scientific ds scale) := by
  obtain ⟨whole, fraction, isWhole, isFraction, -, -, same⟩ := Decimal.scientific_eq isDigits scale
  rw [same, List.append_assoc]
  exact ⟨whole, fraction, _, rfl, isWhole, isFraction, .inr ⟨_, Numeral.isDigits_digits _, rfl⟩⟩

theorem Lexeme.isDigit_zero : Lexeme.IsDigit '0' := by
  constructor <;> decide

/-- A number with a point, in parts. -/
theorem Decimal.positional_eq {ds : List Char} (isDigits : Lexeme.IsDigits ds) {scale : Int}
    (positive : 0 < scale) :
    ∃ whole fraction, Lexeme.IsDigits whole ∧ Lexeme.IsDigits fraction ∧
      whole ++ fraction = List.replicate (scale.toNat + 1 - ds.length) '0' ++ ds ∧
      fraction.length = scale.toNat ∧ Decimal.positional ds scale = whole ++ '.' :: fraction := by
  rw [Decimal.positional, if_neg (by omega)]
  dsimp only
  generalize padded_eq : List.replicate (scale.toNat + 1 - ds.length) '0' ++ ds = padded
  have isDigit : ∀ c ∈ padded, Lexeme.IsDigit c := by
    rw [← padded_eq]
    refine List.forall_mem_append.mpr ⟨?_, isDigits.2⟩
    intro c member
    obtain rfl := List.eq_of_mem_replicate member
    exact Lexeme.isDigit_zero
  have length : scale.toNat < padded.length := by
    rw [← padded_eq, List.length_append, List.length_replicate]
    omega
  refine ⟨padded.take (padded.length - scale.toNat), padded.drop (padded.length - scale.toNat),
    ⟨?_, fun c member => isDigit c (List.mem_of_mem_take member)⟩,
    ⟨?_, fun c member => isDigit c (List.mem_of_mem_drop member)⟩,
    List.take_append_drop _ _, ?_, rfl⟩
  · rw [← List.length_pos_iff, List.length_take]
    omega
  · rw [← List.length_pos_iff, List.length_drop]
    omega
  · rw [List.length_drop]
    omega

theorem Decimal.isNumber_positional {ds : List Char} (isDigits : Lexeme.IsDigits ds) (scale : Int) :
    IsNumber (Decimal.positional ds scale) := by
  by_cases positive : 0 < scale
  · obtain ⟨whole, fraction, isWhole, isFraction, -, -, same⟩ :=
      Decimal.positional_eq isDigits positive
    exact ⟨whole, '.' :: fraction, [], by rw [same, List.append_nil], isWhole,
      .inr ⟨fraction, isFraction, rfl⟩, .inl rfl⟩
  · rw [Decimal.positional, if_pos (by omega)]
    refine .of_digits (isDigits.append ?_)
    intro c member
    obtain rfl := List.eq_of_mem_replicate member
    exact Lexeme.isDigit_zero

/-- A number with a minus sign or without. -/
def Java.IsSigned (text : List Char) : Prop :=
  IsNumber text ∨ ∃ magnitude, text = '-' :: magnitude ∧ IsNumber magnitude

theorem Java.IsSigned.exists_cons {text : List Char} (isSigned : IsSigned text) :
    ∃ c cs, text = c :: cs ∧ (c.isDigit = true ∨ c = '-') := by
  rcases isSigned with ⟨whole, fraction, exponent, rfl, isDigits, -⟩ | ⟨magnitude, rfl, -⟩
  · rcases List.exists_cons_of_ne_nil isDigits.1 with ⟨c, cs, rfl⟩
    exact ⟨c, _, rfl, .inl (isDigits.isDigit c List.mem_cons_self)⟩
  · exact ⟨'-', magnitude, rfl, .inr rfl⟩

theorem Java.IsSigned.of_ite {text : List Char} (isNumber : IsNumber text) (negative : Prop)
    [Decidable negative] : IsSigned (if negative then '-' :: text else text) := by
  split
  · exact .inr ⟨text, rfl, isNumber⟩
  · exact .inl isNumber

theorem Numeral.isSigned_render (i : Int) : IsSigned (Numeral.render i).toList := by
  rw [Numeral.render, String.toList_ofList]
  exact .of_ite (.of_digits (Numeral.isDigits_digits _)) _

theorem Decimal.isSigned_render (d : Decimal) : IsSigned d.render.toList := by
  unfold Decimal.render
  split
  · exact .inl (.of_digits (Numeral.isDigits_digits 0))
  · dsimp only
    rw [String.toList_ofList]
    refine .of_ite ?_ _
    split
    · exact Decimal.isNumber_scientific (Numeral.isDigits_digits _) _
    · exact Decimal.isNumber_positional (Numeral.isDigits_digits _) _

theorem Java.IsSigned.isOperand {namePart : Char → Bool} {text : List Char}
    (isSigned : IsSigned text) : IsOperand namePart text := by
  rcases isSigned with isNumber | ⟨magnitude, rfl, isNumber⟩
  · exact .number isNumber
  · exact .negative isNumber

/-- Every constant is written as an operand. -/
theorem Literal.isOperand_toJava (value : Literal) :
    IsOperand Dialect.primer.namePart value.toJava.toList := by
  cases value with
  | nil => exact .name (IsIdentifier.isName rfl)
  | boolean value => cases value <;> exact .name (IsIdentifier.isName rfl)
  | integer value => exact (Numeral.isSigned_render value).isOperand
  | decimal value => exact value.isSigned_render.isOperand
  | character value =>
    rw [Literal.toJava, quoted, String.toList_ofList]
    exact .quoted ⟨'\'', [value], .inl rfl, rfl⟩
  | string value =>
    rw [Literal.toJava, quoted, String.toList_ofList]
    exact .quoted ⟨'"', value.toList, .inr rfl, rfl⟩

/-! ## Expressions -/

mutual

/-- The operator tree of an expression, with names and constants as in Java.  A member that is
selected from something is one operand, by its path. -/
def Expression.tree : Expression → Tree
  | .literal _ value => .leaf value.toJava
  | .group _ inner => .group inner.tree
  | .binary _ operator left right => .binary operator left.tree right.tree
  | .access _ name binding => .leaf ((binding.map Variable.javaName).getD name)
  | .memberAccess _ receiver name binding =>
    .leaf (receiver.tree.text ++ "." ++ (binding.map Variable.javaName).getD name)
  | .call _ name args binding =>
    .call ((binding.map SignatureOf.javaName).getD name) (Expression.trees args)
  | .memberCall _ receiver name args binding =>
    .call (receiver.tree.text ++ "." ++ (binding.map SignatureOf.javaName).getD name)
      (Expression.trees args)

def Expression.trees : List Expression → List Tree
  | [] => []
  | e :: es => e.tree :: Expression.trees es

end

/-- Texts with commas between them. -/
theorem Java.Tree.listText_eq (trees : List Tree) :
    Tree.listText trees = ", ".intercalate (trees.map Tree.text) := by
  cases trees with
  | nil => rfl
  | cons first others =>
    rw [Tree.listText]
    induction others generalizing first with
    | nil => simp [Tree.moreText]
    | cons second others ih =>
      rw [Tree.moreText, List.map_cons, List.map_cons, String.intercalate_cons_cons,
        ← List.map_cons, ← ih]
      simp [String.append_assoc]

mutual

/-- A settled expression is written as the text of its tree. -/
theorem Expression.toJava_eq_text : (e : Expression) → e.Everywhere Rules.settled.expression →
    e.toJava = .ok e.tree.text
  | .literal _ _, _ => rfl
  | .group _ inner, settled => by
    rw [Expression.toJava, Expression.toJava_eq_text inner settled.2]
    rfl
  | .binary _ operator left right, settled => by
    rw [Expression.toJava, Expression.toJava_eq_text left settled.2.1,
      Expression.toJava_eq_text right settled.2.2]
    rfl
  | .access _ name _, ⟨_, found, bound, _⟩ => by
    subst bound
    rfl
  | .call _ name args _, ⟨⟨_, found, bound, _⟩, settled⟩ => by
    subst bound
    rw [Expression.toJava, Expression.allToJava_eq_text args settled]
    show Except.ok _ = _
    rw [Expression.tree, Tree.text, Tree.listText_eq]
    rfl
  | .memberAccess .., settled => absurd settled.1 id
  | .memberCall .., settled => absurd settled.1 id

theorem Expression.allToJava_eq_text : (es : List Expression) →
    Expression.EverywhereAll Rules.settled.expression es →
    Expression.allToJava es = .ok ((Expression.trees es).map Tree.text)
  | [], _ => rfl
  | e :: es, settled => by
    rw [Expression.allToJava, Expression.toJava_eq_text e settled.1,
      Expression.allToJava_eq_text es settled.2]
    rfl

end

mutual

theorem Expression.lexical_tree : (e : Expression) → e.Everywhere Rules.settled.expression →
    e.tree.Lexical Dialect.primer.namePart
  | .literal _ value, _ => value.isOperand_toJava
  | .group _ inner, settled => Expression.lexical_tree inner settled.2
  | .binary _ _ left right, settled =>
    ⟨Expression.lexical_tree left settled.2.1, Expression.lexical_tree right settled.2.2⟩
  | .access _ name _, ⟨isIdentifier, found, bound, sameName⟩ => by
    subst bound
    show IsOperand _ found.javaName.toList
    rw [sameName]
    exact .name isIdentifier.isName
  | .call _ name args _, ⟨⟨isIdentifier, found, bound, sameName⟩, settled⟩ => by
    subst bound
    refine ⟨?_, Expression.lexical_trees args settled⟩
    show IsJavaName _ found.javaName.toList
    rw [sameName]
    exact FunctionKey.isName_javaName isIdentifier
  | .memberAccess .., settled => absurd settled.1 id
  | .memberCall .., settled => absurd settled.1 id

theorem Expression.lexical_trees : (es : List Expression) →
    Expression.EverywhereAll Rules.settled.expression es →
    Tree.EachAll (IsOperand Dialect.primer.namePart ·.toList)
      (IsJavaName Dialect.primer.namePart ·.toList) (Expression.trees es)
  | [], _ => trivial
  | e :: es, settled =>
    ⟨Expression.lexical_tree e settled.1, Expression.lexical_trees es settled.2⟩

end

end Primer
