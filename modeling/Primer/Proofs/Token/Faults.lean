import Primer.Proofs.Token.Lexemes

/-!
# Texts without a lexeme in front

`Faulty` says which texts have no lexeme in front, again class by class and without regard to how
that is found out.  It cuts such a text in two: `before` still begins a lexeme, or is empty, and
`behind` begins with the character that goes with no lexeme, or is empty.  The main statement is
that the search for a lexeme fails exactly there (`Lexeme.faulty_of_lexeme` and
`Lexeme.Faulty.lexeme_eq`).
-/

namespace Primer.Lexeme

/-- Where an item of a literal should stand there is none, and `before` is as far as it came.  A
literal that comes to its end or to the end of its line is called `unterminated`. -/
inductive ItemMissing (unterminated : LexicalFault) :
    (before behind : List Char) → LexicalFault → Prop
  | ended : ItemMissing unterminated [] [] unterminated
  | lineEnd {c : Char} {rest : List Char} : c = '\n' ∨ c = '\r' →
    ItemMissing unterminated [] (c :: rest) unterminated
  | escapeEnded : ItemMissing unterminated ['\\'] [] unterminated
  | escape {letter : Char} {rest : List Char} : letter ∉ ['b', 'n', 'r', 't', '\'', '"', '\\'] →
    ItemMissing unterminated ['\\'] (letter :: rest) (.invalidEscape letter)

/-- The text `before ++ behind` has no lexeme in front, and `before` is as far as one came. -/
inductive Faulty : (before behind : List Char) → LexicalFault → Prop
  | character {c : Char} {rest : List Char} : (∀ kind text, ¬ IsLexeme kind (c :: text)) →
    Faulty [] (c :: rest) (.unexpectedCharacter c)
  | emptyLiteral {rest : List Char} : Faulty ['\''] ('\'' :: rest) .emptyCharacter
  | noItem {before behind : List Char} {fault : LexicalFault} :
    ItemMissing .unterminatedCharacter before behind fault → Faulty ('\'' :: before) behind fault
  | notClosed {item behind : List Char} : Item '\'' item → behind.head? ≠ some '\'' →
    Faulty ('\'' :: item) behind .unterminatedCharacter
  | string {items : List (List Char)} {before behind : List Char} {fault : LexicalFault} :
    (∀ item ∈ items, Item '"' item) → ItemMissing .unterminatedString before behind fault →
    Faulty ('"' :: (items.flatten ++ before)) behind fault

/-! ## What follows from a fault -/

section

variable {unterminated fault : LexicalFault} {c : Char} {before behind : List Char}

theorem ItemMissing.of_head (missing : ItemMissing unterminated before (c :: behind) fault)
    (others : List Char) : ItemMissing unterminated before (c :: others) fault := by
  cases missing with
  | lineEnd ends => exact .lineEnd ends
  | escape unknown => exact .escape unknown

theorem ItemMissing.fault_eq (missing : ItemMissing unterminated before [] fault) :
    fault = unterminated := by
  cases missing <;> rfl

/-- What came of an item can be made one. -/
theorem ItemMissing.exists_item (missing : ItemMissing unterminated before behind fault)
    (quote : Char) (other : 'a' ≠ quote) : ∃ more, Item quote (before ++ more) := by
  have plain : Item quote ['a'] := .plain other (by decide) (by decide) (by decide)
  have escape : Item quote ['\\', 'n'] := .escape (by decide)
  cases missing with
  | ended => exact ⟨['a'], plain⟩
  | lineEnd => exact ⟨['a'], plain⟩
  | escapeEnded => exact ⟨['n'], escape⟩
  | escape => exact ⟨['n'], escape⟩

/-- One character is enough to see the fault. -/
theorem Faulty.of_head (faulty : Faulty before (c :: behind) fault) (others : List Char) :
    Faulty before (c :: others) fault := by
  cases faulty with
  | character startsNothing => exact .character startsNothing
  | emptyLiteral => exact .emptyLiteral
  | noItem missing => exact .noItem (missing.of_head others)
  | notClosed isItem other => exact .notClosed isItem other
  | string isItem missing => exact .string isItem (missing.of_head others)

theorem Faulty.fault_eq (faulty : Faulty before [] fault) :
    fault = .unterminatedString ∨ fault = .unterminatedCharacter := by
  cases faulty with
  | noItem missing => exact .inr missing.fault_eq
  | notClosed => exact .inr rfl
  | string _ missing => exact .inl missing.fault_eq

/-- What stands before the fault begins a lexeme. -/
theorem Faulty.exists_isLexeme (faulty : Faulty before behind fault) (nonempty : before ≠ []) :
    ∃ kind more, IsLexeme kind (before ++ more) := by
  cases faulty with
  | character => exact absurd rfl nonempty
  | emptyLiteral =>
    have item : Item '\'' ['a'] := .plain (by decide) (by decide) (by decide) (by decide)
    exact ⟨.character, ['a', '\''], .character item⟩
  | noItem missing =>
    obtain ⟨more, item⟩ := missing.exists_item '\'' (by decide)
    refine ⟨.character, more ++ ['\''], ?_⟩
    have closed := IsLexeme.character item
    rwa [← List.cons_append, List.append_assoc] at closed
  | notClosed isItem => exact ⟨.character, ['\''], .character isItem⟩
  | @string items before _ _ isItem missing =>
    obtain ⟨more, item⟩ := missing.exists_item '"' (by decide)
    refine ⟨.string, more ++ ['"'], ?_⟩
    have closed : IsLexeme .string ('"' :: (items ++ [before ++ more]).flatten ++ ['"']) := by
      apply IsLexeme.string
      intro other member
      obtain old | rfl := (List.mem_append.mp member).imp_right List.mem_singleton.mp
      · exact isItem other old
      · exact item
    simpa using closed

end

/-! ## Literals -/

theorem eq_error_of_map {ε α β : Type} {result : Except ε α} {f : α → β} {error : ε}
    (failed : result.map f = .error error) : result = .error error := by
  cases result with
  | ok => cases failed
  | error =>
    cases failed
    rfl

theorem isLetter_eq_false {letter : Char} :
    Escape.isLetter letter = false ↔ letter ∉ ['b', 'n', 'r', 't', '\'', '"', '\\'] := by
  rw [← isLetter_iff, Bool.not_eq_true]

theorem isLineEnd_iff {c : Char} : isLineEnd c = true ↔ c = '\n' ∨ c = '\r' := by
  simp [isLineEnd]

section

variable {before behind body : List Char} {fault : LexicalFault} {error : LexicalError}

theorem closeCharacter_eq_error {start length : Nat} :
    closeCharacter start length behind = .error error ↔
      behind.head? ≠ some '\'' ∧ error = ⟨.unterminatedCharacter, start + length⟩ := by
  unfold closeCharacter
  split
  · simp
  · rename_i other
    have unclosed : behind.head? ≠ some '\'' := by
      intro closes
      obtain ⟨rest, rfl⟩ := List.head?_eq_some_iff.mp closes
      exact other rest rfl
    constructor
    · intro failed
      exact ⟨unclosed, (Except.error.inj failed).symm⟩
    · rintro ⟨-, rfl⟩
      rfl

/-- Behind the item of a character literal only the closing quote is asked for. -/
theorem characterLength_append_item {item : List Char} (isItem : Item '\'' item) (start : Nat)
    (rest : List Char) :
    characterLength start (item ++ rest) = closeCharacter start (item.length + 1) rest := by
  cases isItem with
  | plain notQuote notNewline notReturn notEscape =>
    have sameLine := isLineEnd_eq_false.mpr ⟨notNewline, notReturn⟩
    rw [List.singleton_append, characterLength, sameLine]
    · rfl
    · exact fun escape => absurd escape notEscape
    · exact fun _ _ escape => absurd escape notEscape
    · exact notQuote
  | escape listed =>
    rw [List.cons_append, List.singleton_append, characterLength, if_pos (isLetter_iff.mpr listed)]
    rfl

theorem characterLength_of_itemMissing
    (missing : ItemMissing .unterminatedCharacter before behind fault) (start : Nat) :
    characterLength start (before ++ behind) = .error ⟨fault, start + 1 + before.length⟩ := by
  cases missing with
  | ended => rfl
  | lineEnd ends => obtain rfl | rfl := ends <;> rfl
  | escapeEnded => rfl
  | escape unknown =>
    rw [List.singleton_append, characterLength, isLetter_eq_false.mpr unknown]
    rfl

theorem faulty_of_characterLength {start : Nat}
    (failed : characterLength start body = .error error) :
    ∃ before behind, body = before ++ behind ∧ Faulty ('\'' :: before) behind error.fault ∧
      error.position = start + 1 + before.length := by
  unfold characterLength at failed
  split at failed
  · cases failed
    exact ⟨[], [], rfl, .noItem .ended, rfl⟩
  · cases failed
    exact ⟨['\\'], [], rfl, .noItem .escapeEnded, rfl⟩
  · rename_i letter rest
    split at failed
    · rename_i isLetter
      obtain ⟨isOpen, rfl⟩ := closeCharacter_eq_error.mp failed
      exact ⟨['\\', letter], rest, rfl, .notClosed (.escape (isLetter_iff.mp isLetter)) isOpen, rfl⟩
    · rename_i unknown
      cases failed
      have unknown := isLetter_eq_false.mp (Bool.not_eq_true _ ▸ unknown)
      exact ⟨['\\'], letter :: rest, rfl, .noItem (.escape unknown), rfl⟩
  · cases failed
    exact ⟨[], _, rfl, .emptyLiteral, rfl⟩
  · rename_i c rest lone escaped notQuote
    split at failed
    · rename_i ends
      cases failed
      exact ⟨[], c :: rest, rfl, .noItem (.lineEnd (isLineEnd_iff.mp ends)), rfl⟩
    · rename_i sameLine
      obtain ⟨notNewline, notReturn⟩ := isLineEnd_eq_false.mp (Bool.not_eq_true _ ▸ sameLine)
      obtain ⟨isOpen, rfl⟩ := closeCharacter_eq_error.mp failed
      have notEscape := ne_backslash lone escaped
      have item : Item '\'' [c] := .plain notQuote notNewline notReturn notEscape
      exact ⟨[c], rest, rfl, .notClosed item isOpen, rfl⟩

/-- An item of a string is passed over. -/
theorem stringBodyLength_append_item {item : List Char} (isItem : Item '"' item) (position : Nat)
    (rest : List Char) :
    stringBodyLength position (item ++ rest) =
      (stringBodyLength (position + item.length) rest).map (· + item.length) := by
  cases isItem with
  | plain notQuote notNewline notReturn notEscape =>
    have sameLine := isLineEnd_eq_false.mpr ⟨notNewline, notReturn⟩
    rw [List.singleton_append, stringBodyLength, sameLine]
    · rfl
    · exact notQuote
    · exact fun escape => absurd escape notEscape
    · exact fun _ _ escape => absurd escape notEscape
  | escape listed =>
    rw [List.cons_append, List.singleton_append, stringBodyLength, if_pos (isLetter_iff.mpr listed)]
    rfl

theorem stringBodyLength_of_itemMissing
    (missing : ItemMissing .unterminatedString before behind fault) (position : Nat) :
    stringBodyLength position (before ++ behind) = .error ⟨fault, position + before.length⟩ := by
  cases missing with
  | ended => rfl
  | lineEnd ends => obtain rfl | rfl := ends <;> rfl
  | escapeEnded => rfl
  | escape unknown =>
    rw [List.singleton_append, stringBodyLength, isLetter_eq_false.mpr unknown]
    rfl

theorem stringBodyLength_of_items {items : List (List Char)}
    (isItem : ∀ item ∈ items, Item '"' item)
    (missing : ItemMissing .unterminatedString before behind fault) (position : Nat) :
    stringBodyLength position (items.flatten ++ (before ++ behind)) =
      .error ⟨fault, position + (items.flatten ++ before).length⟩ := by
  induction items generalizing position with
  | nil => exact stringBodyLength_of_itemMissing missing position
  | cons item items ih =>
    have later := ih (fun other member => isItem other (.tail _ member)) (position + item.length)
    rw [List.flatten_cons, List.append_assoc,
      stringBodyLength_append_item (isItem item List.mem_cons_self), later]
    simp only [Except.map, List.append_assoc, List.length_append, Nat.add_assoc]

/-- A string has the fault that is behind its first item. -/
theorem Faulty.cons_item {item : List Char} (isItem : Item '"' item)
    (faulty : Faulty ('"' :: before) behind fault) :
    Faulty ('"' :: (item ++ before)) behind fault := by
  cases faulty with
  | @string items rest _ _ isItems missing =>
    have longer : ∀ other ∈ item :: items, Item '"' other :=
      List.forall_mem_cons.mpr ⟨isItem, isItems⟩
    rw [← List.append_assoc, ← List.flatten_cons]
    exact .string longer missing

theorem faulty_of_stringBodyLength {position : Nat}
    (failed : stringBodyLength position body = .error error) :
    ∃ before behind, body = before ++ behind ∧ Faulty ('"' :: before) behind error.fault ∧
      error.position = position + before.length := by
  have missing : ∀ {before behind fault}, ItemMissing .unterminatedString before behind fault →
      Faulty ('"' :: before) behind fault :=
    fun missing => @Faulty.string [] _ _ _ (fun _ member => absurd member List.not_mem_nil) missing
  fun_induction stringBodyLength position body with
  | case1 position =>
    cases failed
    exact ⟨[], [], rfl, missing .ended, rfl⟩
  | case2 => cases failed
  | case3 position =>
    cases failed
    exact ⟨['\\'], [], rfl, missing .escapeEnded, rfl⟩
  | case4 position letter rest isLetter ih =>
    obtain ⟨before, behind, rfl, faulty, place⟩ := ih (eq_error_of_map failed)
    have isItem : Item '"' ['\\', letter] := .escape (isLetter_iff.mp isLetter)
    refine ⟨['\\', letter] ++ before, behind, rfl, faulty.cons_item isItem, ?_⟩
    rw [place, List.length_append]
    simp only [List.length_cons, List.length_nil]
    omega
  | case5 position letter rest unknown =>
    cases failed
    have unknown := isLetter_eq_false.mp (Bool.not_eq_true _ ▸ unknown)
    exact ⟨['\\'], letter :: rest, rfl, missing (.escape unknown), rfl⟩
  | case6 position c rest notQuote lone escaped ends =>
    cases failed
    exact ⟨[], c :: rest, rfl, missing (.lineEnd (isLineEnd_iff.mp ends)), rfl⟩
  | case7 position c rest notQuote lone escaped sameLine ih =>
    obtain ⟨before, behind, rfl, faulty, place⟩ := ih (eq_error_of_map failed)
    obtain ⟨notNewline, notReturn⟩ := isLineEnd_eq_false.mp (Bool.not_eq_true _ ▸ sameLine)
    have notEscape := ne_backslash lone escaped
    have isItem : Item '"' [c] := .plain notQuote notNewline notReturn notEscape
    refine ⟨[c] ++ before, behind, rfl, faulty.cons_item isItem, ?_⟩
    rw [place, List.length_append, List.length_singleton]
    omega

end

/-! ## All texts -/

section

variable {start : Nat} {c : Char} {rest : List Char} {error : LexicalError}

theorem lexeme_character (start : Nat) (body : List Char) :
    lexeme start '\'' body = (characterLength start body).map (Token.Kind.character, ·) := by
  have notNumber : startsNumber ('\'' :: body) = false := by cases body <;> rfl
  rw [lexeme, if_neg (by decide), notNumber, if_neg Bool.false_ne_true, if_pos rfl]

theorem lexeme_string (start : Nat) (body : List Char) :
    lexeme start '"' body =
      (stringBodyLength (start + 1) body).map fun length => (.string, length + 1) := by
  have notNumber : startsNumber ('"' :: body) = false := by cases body <;> rfl
  rw [lexeme, if_neg (by decide), notNumber, if_neg Bool.false_ne_true, if_neg (by decide),
    if_pos rfl]

theorem isSign_mem_operatorCharacters (sign : isSign c = true) : c ∈ operatorCharacters := by
  simp only [isSign, Bool.or_eq_true, beq_iff_eq] at sign
  obtain rfl | rfl := sign <;> decide

theorem mem_operatorCharacters {n : Nat} (found : operatorLength start c rest = .ok n) :
    c ∈ operatorCharacters := by
  have comparisons : ∀ d ∈ ['<', '>', '!', '='], d ∈ operatorCharacters :=
    List.forall_iff_forall_mem.mp (by decide)
  unfold operatorLength at found
  split at found
  · rename_i both
    exact comparisons c (isComparisonStart_iff.mp (Bool.and_eq_true_iff.mp both).1)
  · split at found
    · rename_i listed
      exact List.contains_iff_mem.mp listed
    · cases found

/-- A character that cannot be an operator where it stands begins no lexeme at all. -/
theorem not_isLexeme_of_operatorLength (notFirst : isIdentifierStart c = false)
    (notNumber : startsNumber (c :: rest) = false) (notQuote : c ≠ '\'') (notString : c ≠ '"')
    (failed : operatorLength start c rest = .error error) :
    error = ⟨.unexpectedCharacter c, start⟩ ∧ ∀ kind text, ¬ IsLexeme kind (c :: text) := by
  have refused : error = ⟨.unexpectedCharacter c, start⟩ ∧ c ∉ operatorCharacters := by
    unfold operatorLength at failed
    split at failed
    · cases failed
    · split at failed
      · cases failed
      · rename_i notOperator
        cases failed
        exact ⟨rfl, fun listed => notOperator (List.contains_iff_mem.mpr listed)⟩
  obtain ⟨rfl, notOperator⟩ := refused
  have notDigit : c.isDigit = false := by
    cases rest <;> simp_all [startsNumber]
  refine ⟨rfl, fun kind text isLexeme => ?_⟩
  obtain ⟨kind', n, found, -⟩ := exists_lexeme_of_isLexeme start isLexeme List.prefix_rfl
  cases lexeme_eq_ok.mp found with
  | identifier first => simp [notFirst] at first
  | number _ starts =>
    have sign : isSign c = true := by
      cases text <;> simp_all [startsNumber]
    exact notOperator (isSign_mem_operatorCharacters sign)
  | character quote => exact notQuote quote
  | string quote => exact notString quote
  | operator _ _ _ _ length => exact notOperator (mem_operatorCharacters length)

theorem faulty_of_lexeme (failed : lexeme start c rest = .error error) :
    ∃ before behind, c :: rest = before ++ behind ∧ Faulty before behind error.fault ∧
      error.position = start + before.length := by
  have quoted : ∀ {quote : Char}, (∃ before behind, rest = before ++ behind ∧
      Faulty (quote :: before) behind error.fault ∧ error.position = start + 1 + before.length) →
      ∃ before behind, quote :: rest = before ++ behind ∧ Faulty before behind error.fault ∧
        error.position = start + before.length := by
    rintro quote ⟨before, behind, rfl, faulty, place⟩
    refine ⟨quote :: before, behind, rfl, faulty, ?_⟩
    rw [place, List.length_cons]
    omega
  unfold lexeme at failed
  split at failed
  · cases failed
  split at failed
  · cases failed
  split at failed
  · rename_i quote
    subst quote
    exact quoted (faulty_of_characterLength (eq_error_of_map failed))
  split at failed
  · rename_i quote
    subst quote
    exact quoted (faulty_of_stringBodyLength (eq_error_of_map failed))
  · rename_i notFirst notNumber notQuote notString
    obtain ⟨rfl, startsNothing⟩ := not_isLexeme_of_operatorLength (Bool.not_eq_true _ ▸ notFirst)
      (Bool.not_eq_true _ ▸ notNumber) notQuote notString (eq_error_of_map failed)
    exact ⟨[], c :: rest, rfl, .character startsNothing, rfl⟩

theorem Faulty.lexeme_eq {before behind : List Char} {fault : LexicalFault}
    (faulty : Faulty before behind fault) (source : c :: rest = before ++ behind) :
    lexeme start c rest = .error ⟨fault, start + before.length⟩ := by
  cases faulty with
  | character startsNothing =>
    obtain ⟨rfl, rfl⟩ := List.cons.inj source
    cases found : lexeme start c rest with
    | ok lexed =>
      obtain ⟨n, positive⟩ := Nat.exists_eq_succ_of_ne_zero (lexeme_length_pos found).ne'
      have isLexeme := isLexeme_of_lexeme found
      rw [positive, List.take_succ_cons] at isLexeme
      exact absurd isLexeme (startsNothing _ _)
    | error error =>
      -- Any other fault comes behind a first character, which then does begin a lexeme.
      obtain ⟨fault, position⟩ := error
      obtain ⟨before, behind, source, faulty, rfl⟩ := faulty_of_lexeme found
      by_cases empty : before = []
      · subst empty
        obtain ⟨-⟩ := faulty
        obtain ⟨rfl, -⟩ := List.cons.inj source
        rfl
      · obtain ⟨kind, more, isLexeme⟩ := faulty.exists_isLexeme empty
        obtain ⟨d, others, rfl⟩ := List.exists_cons_of_ne_nil empty
        obtain ⟨rfl, -⟩ := List.cons.inj source
        exact absurd isLexeme (startsNothing _ _)
  | emptyLiteral =>
    obtain ⟨rfl, rfl⟩ := List.cons.inj source
    rw [lexeme_character]
    rfl
  | noItem missing =>
    rw [List.cons_append] at source
    obtain ⟨rfl, rfl⟩ := List.cons.inj source
    rw [lexeme_character, characterLength_of_itemMissing missing, List.length_cons, Nat.add_assoc,
      Nat.add_comm 1]
    rfl
  | notClosed isItem isOpen =>
    rw [List.cons_append] at source
    obtain ⟨rfl, rfl⟩ := List.cons.inj source
    rw [lexeme_character, characterLength_append_item isItem,
      closeCharacter_eq_error.mpr ⟨isOpen, rfl⟩]
    rfl
  | string isItem missing =>
    rw [List.cons_append, List.append_assoc] at source
    obtain ⟨rfl, rfl⟩ := List.cons.inj source
    rw [lexeme_string, stringBodyLength_of_items isItem missing, List.length_cons, Nat.add_assoc,
      Nat.add_comm 1]
    rfl

end

end Primer.Lexeme
