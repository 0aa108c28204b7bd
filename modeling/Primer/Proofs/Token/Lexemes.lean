import Mathlib.Data.List.TakeWhile
import Primer.Proofs.Token.Scanning

/-!
# Lexemes

The lexemes of the language, class by class and without regard to how they are found: `IsLexeme`
says which texts are lexemes of which kind.  `IsLongest` picks the longest of those at the front of
a text.

Finding a lexeme looks at one or two characters to choose the class, and never goes back on that
choice.  The main statement is that this finds the longest lexeme of all classes whenever there is a
lexeme at all (`Lexeme.isLongest_iff`).
-/

namespace Primer.Lexeme

/-! ## Classes of characters -/

def IsLetter (c : Char) : Prop :=
  ('A' ≤ c ∧ c ≤ 'Z') ∨ ('a' ≤ c ∧ c ≤ 'z')

def IsDigit (c : Char) : Prop :=
  '0' ≤ c ∧ c ≤ '9'

def StartsIdentifier (c : Char) : Prop :=
  IsLetter c ∨ c = '_'

def ContinuesIdentifier (c : Char) : Prop :=
  IsLetter c ∨ IsDigit c ∨ c = '_' ∨ c = '-'

/-- The characters that stand between lexemes. -/
def IsSeparator (c : Char) : Prop :=
  c ∈ [' ', '\t', '\n', '\r', '\x08']

theorem isDigit_iff {c : Char} : c.isDigit = true ↔ IsDigit c := by
  simp only [Char.isDigit, Bool.and_eq_true, decide_eq_true_eq, IsDigit, Char.le_def]

theorem isAlpha_iff {c : Char} : c.isAlpha = true ↔ IsLetter c := by
  have upper : c.isUpper = true ↔ 'A' ≤ c ∧ c ≤ 'Z' := decide_eq_true_iff
  have lower : c.isLower = true ↔ 'a' ≤ c ∧ c ≤ 'z' :=
    Bool.and_eq_true_iff.trans (and_congr decide_eq_true_iff decide_eq_true_iff)
  rw [IsLetter, ← upper, ← lower]
  exact Bool.or_eq_true_iff

theorem isIdentifierStart_iff {c : Char} :
    isIdentifierStart c = true ↔ StartsIdentifier c := by
  simp [isIdentifierStart, StartsIdentifier, isAlpha_iff]

theorem isIdentifierPart_iff {c : Char} :
    isIdentifierPart c = true ↔ ContinuesIdentifier c := by
  simp [isIdentifierPart, ContinuesIdentifier, Char.isAlphanum, isAlpha_iff, isDigit_iff, or_assoc]

theorem isBlank_iff {c : Char} : isBlank c = true ↔ IsSeparator c := by
  simp [isBlank, IsSeparator, or_assoc]

/-! ## Classes of lexemes -/

/-- At least one digit, and nothing else. -/
def IsDigits (text : List Char) : Prop :=
  text ≠ [] ∧ ∀ c ∈ text, IsDigit c

def IsSignText (text : List Char) : Prop :=
  text ∈ [[], ['+'], ['-']]

/-- What stands for one character between two quotes: the character itself, or an escape. -/
inductive Item (quote : Char) : List Char → Prop
  | plain {c : Char} : c ≠ quote → c ≠ '\n' → c ≠ '\r' → c ≠ '\\' → Item quote [c]
  | escape {letter : Char} : letter ∈ ['b', 'n', 'r', 't', '\'', '"', '\\'] →
    Item quote ['\\', letter]

/-- The lexemes of each kind. -/
inductive IsLexeme : Token.Kind → List Char → Prop
  | identifier {c : Char} {cs : List Char} : StartsIdentifier c →
    (∀ d ∈ cs, ContinuesIdentifier d) → IsLexeme .identifier (c :: cs)
  | integer {sign digits : List Char} : IsSignText sign → IsDigits digits →
    IsLexeme .integer (sign ++ digits)
  | decimal {sign whole fraction : List Char} : IsSignText sign → IsDigits whole →
    IsDigits fraction → IsLexeme .decimal (sign ++ whole ++ '.' :: fraction)
  | character {item : List Char} : Item '\'' item → IsLexeme .character ('\'' :: item ++ ['\''])
  | string {items : List (List Char)} : (∀ item ∈ items, Item '"' item) →
    IsLexeme .string ('"' :: items.flatten ++ ['"'])
  | comparison {c : Char} : c ∈ ['<', '>', '!', '='] → IsLexeme .operator [c, '=']
  | operator {c : Char} : c ∈ "$&+,:;=?@#|<>.-^*()%!/[]\x7b\x7d~".toList → IsLexeme .operator [c]

/-- A lexeme at the front of `source`, and none at its front is longer. -/
def IsLongest (kind : Token.Kind) (text source : List Char) : Prop :=
  text <+: source ∧ IsLexeme kind text ∧
    ∀ kind' text', text' <+: source → IsLexeme kind' text' → text'.length ≤ text.length

theorem isLetter_iff {letter : Char} :
    Escape.isLetter letter = true ↔ letter ∈ ['b', 'n', 'r', 't', '\'', '"', '\\'] := by
  constructor
  · intro isLetter
    unfold Escape.isLetter Escape.meaning? at isLetter
    split at isLetter <;> simp_all
  · intro listed
    simp only [List.mem_cons, List.not_mem_nil, or_false] at listed
    obtain rfl | rfl | rfl | rfl | rfl | rfl | rfl := listed <;> rfl

theorem contains_operatorCharacters {c : Char} :
    operatorCharacters.contains c = true ↔ c ∈ "$&+,:;=?@#|<>.-^*()%!/[]\x7b\x7d~".toList := by
  rw [List.contains_iff_mem]
  exact Iff.rfl

theorem isComparisonStart_iff {c : Char} :
    isComparisonStart c = true ↔ c ∈ ['<', '>', '!', '='] := by
  simp [isComparisonStart, or_assoc]

/-! ## Numbers -/

theorem IsDigits.isDigit {digits : List Char} (h : IsDigits digits) :
    ∀ c ∈ digits, c.isDigit = true :=
  fun c member => isDigit_iff.mpr (h.2 c member)

theorem isDigits_takeWhile {text : List Char} (found : text.takeWhile Char.isDigit ≠ []) :
    IsDigits (text.takeWhile Char.isDigit) :=
  ⟨found, fun _ member => isDigit_iff.mp (List.mem_takeWhile_imp member)⟩

theorem isSign_of_isDigit {c : Char} (digit : c.isDigit = true) : isSign c = false := by
  rw [Bool.eq_false_iff]
  intro sign
  simp only [isSign, Bool.or_eq_true, beq_iff_eq] at sign
  obtain rfl | rfl := sign <;> exact absurd digit (by decide)

/-- The sign and the digits that are found in front of a text that starts like a number. -/
theorem wholeLength_append_digits {sign digits : List Char} (signed : IsSignText sign)
    (isDigits : IsDigits digits) (rest : List Char) :
    wholeLength (sign ++ (digits ++ rest)) =
      sign.length + digits.length + (rest.takeWhile Char.isDigit).length := by
  have whole : ((digits ++ rest).takeWhile Char.isDigit).length =
      digits.length + (rest.takeWhile Char.isDigit).length := by
    rw [List.takeWhile_append_of_pos isDigits.isDigit, List.length_append]
  obtain ⟨first, digits, rfl⟩ := List.exists_cons_of_ne_nil isDigits.1
  have unsigned := isSign_of_isDigit (isDigits.isDigit first List.mem_cons_self)
  simp only [IsSignText, List.mem_cons, List.not_mem_nil, or_false] at signed
  obtain rfl | rfl | rfl := signed
  · simp only [wholeLength, List.nil_append, List.cons_append, List.take_succ_cons,
      List.takeWhile_cons, unsigned]
    simpa [List.takeWhile_cons] using whole
  all_goals
    simp only [wholeLength, List.cons_append, List.nil_append, List.take_succ_cons, List.take_zero]
    rw [List.cons_append] at whole
    simp [isSign, whole]
    omega

/-- A text that starts like a number has a sign and digits in front, up to the first character that
is no digit. -/
theorem exists_digits_of_startsNumber {source : List Char} (starts : startsNumber source = true) :
    ∃ sign digits rest, source = sign ++ (digits ++ rest) ∧ IsSignText sign ∧ IsDigits digits ∧
      rest.takeWhile Char.isDigit = [] := by
  have cut : ∀ sign text, IsSignText sign → text.takeWhile Char.isDigit ≠ [] →
      ∃ sign' digits rest, sign ++ text = sign' ++ (digits ++ rest) ∧ IsSignText sign' ∧
        IsDigits digits ∧ rest.takeWhile Char.isDigit = [] := by
    intro sign text signed found
    refine ⟨sign, text.takeWhile Char.isDigit, text.dropWhile Char.isDigit, ?_, signed,
      isDigits_takeWhile found, ?_⟩
    · rw [List.takeWhile_append_dropWhile]
    · rw [List.takeWhile_eq_nil_iff]
      exact fun _ => by simpa using List.dropWhile_get_zero_not _ _ _
  match source, starts with
  | [c], starts => exact cut [] [c] (by simp [IsSignText]) (by simp_all [startsNumber])
  | c :: d :: rest, starts =>
    simp only [startsNumber, Bool.or_eq_true, Bool.and_eq_true] at starts
    obtain digit | ⟨sign, digit⟩ := starts
    · exact cut [] (c :: d :: rest) (by simp [IsSignText]) (by simp [digit])
    · have signed : IsSignText [c] := by simpa [isSign, IsSignText] using sign
      exact cut [c] (d :: rest) signed (by simp [digit])

theorem startsNumber_append_digits {sign digits : List Char} (signed : IsSignText sign)
    (isDigits : IsDigits digits) (rest : List Char) :
    startsNumber (sign ++ (digits ++ rest)) = true := by
  obtain ⟨first, digits, rfl⟩ := List.exists_cons_of_ne_nil isDigits.1
  have digit := isDigits.isDigit first List.mem_cons_self
  simp only [IsSignText, List.mem_cons, List.not_mem_nil, or_false] at signed
  obtain rfl | rfl | rfl := signed
  · cases h : digits ++ rest <;> simp [startsNumber, digit, h]
  all_goals simp [startsNumber, isSign, digit]

/-- A point and the digits behind it, if there is one. -/
theorem fractionLength_cases (text : List Char) :
    fractionLength text = 0 ∨
      ∃ fraction rest, text = '.' :: (fraction ++ rest) ∧ IsDigits fraction ∧
        fractionLength text = fraction.length + 1 := by
  unfold fractionLength
  split
  · rename_i rest
    split
    · exact .inl rfl
    · rename_i positive
      refine .inr ⟨rest.takeWhile Char.isDigit, rest.dropWhile Char.isDigit, ?_,
        isDigits_takeWhile fun empty => positive (by rw [empty]; rfl), rfl⟩
      rw [List.takeWhile_append_dropWhile]
  · exact .inl rfl

theorem fractionLength_append_digits {fraction : List Char} (isDigits : IsDigits fraction)
    (rest : List Char) :
    fraction.length + 1 ≤ fractionLength ('.' :: (fraction ++ rest)) := by
  have length : ((fraction ++ rest).takeWhile Char.isDigit).length =
      fraction.length + (rest.takeWhile Char.isDigit).length := by
    rw [List.takeWhile_append_of_pos isDigits.isDigit, List.length_append]
  have positive := List.length_pos_iff.mpr isDigits.1
  rw [fractionLength]
  split <;> omega

/-- A number is a decimal exactly if a fraction follows its whole part. -/
theorem number_cases {source : List Char} {kind : Token.Kind} {n : Nat}
    (found : number source = (kind, n)) :
    n = wholeLength source + fractionLength (source.drop (wholeLength source)) ∧
      kind = if fractionLength (source.drop (wholeLength source)) = 0 then .integer
        else .decimal := by
  unfold number at found
  split at found
  · rename_i none
    cases found
    rw [none]
    exact ⟨rfl, rfl⟩
  · rename_i some
    cases found
    exact ⟨rfl, (if_neg some).symm⟩

/-- The number found is at least as long as any integer in front, and is that integer if it is no
longer. -/
theorem number_of_integer {sign digits : List Char} (signed : IsSignText sign)
    (isDigits : IsDigits digits) (rest : List Char) :
    ∃ kind n, number (sign ++ (digits ++ rest)) = (kind, n) ∧
      ((sign ++ digits).length < n ∨ (sign ++ digits).length = n ∧ .integer = kind) := by
  have whole := wholeLength_append_digits signed isDigits rest
  obtain ⟨⟨kind, n⟩, found⟩ : ∃ pair, number (sign ++ (digits ++ rest)) = pair := ⟨_, rfl⟩
  obtain ⟨length, kind_eq⟩ := number_cases found
  refine ⟨kind, n, found, ?_⟩
  rw [List.length_append]
  by_cases none : fractionLength ((sign ++ (digits ++ rest)).drop
      (wholeLength (sign ++ (digits ++ rest)))) = 0
  · rw [if_pos none] at kind_eq
    have longer : sign.length + digits.length ≤ n := by omega
    exact longer.lt_or_eq.imp_right fun same => ⟨same, kind_eq.symm⟩
  · exact .inl (by omega)

theorem number_of_decimal {sign digits fraction : List Char} (signed : IsSignText sign)
    (isDigits : IsDigits digits) (isFraction : IsDigits fraction) (rest : List Char) :
    ∃ n, number (sign ++ (digits ++ '.' :: (fraction ++ rest))) = (.decimal, n) ∧
      (sign ++ digits ++ '.' :: fraction).length ≤ n := by
  have whole := wholeLength_append_digits signed isDigits ('.' :: (fraction ++ rest))
  have point : ('.' :: (fraction ++ rest)).takeWhile Char.isDigit = [] := rfl
  rw [point, List.length_nil, Nat.add_zero, ← List.length_append] at whole
  have behind : (sign ++ (digits ++ '.' :: (fraction ++ rest))).drop (sign ++ digits).length =
      '.' :: (fraction ++ rest) := by
    rw [← List.append_assoc, List.drop_left]
  have longer := fractionLength_append_digits isFraction rest
  obtain ⟨⟨kind, n⟩, found⟩ :
    ∃ pair, number (sign ++ (digits ++ '.' :: (fraction ++ rest))) = pair := ⟨_, rfl⟩
  obtain ⟨length, kind_eq⟩ := number_cases found
  rw [whole, behind] at length kind_eq
  rw [if_neg (by omega)] at kind_eq
  subst kind_eq
  refine ⟨n, found, ?_⟩
  rw [List.length_append, List.length_cons]
  omega

/-! ## Quoted text -/

theorem isLineEnd_eq_false {c : Char} : isLineEnd c = false ↔ c ≠ '\n' ∧ c ≠ '\r' := by
  simp [isLineEnd]

theorem characterLength_item {item : List Char} (isItem : Item '\'' item) (start : Nat)
    (rest : List Char) :
    characterLength start (item ++ '\'' :: rest) = .ok (item.length + 2) := by
  cases isItem with
  | @plain c notQuote notNewline notReturn notEscape =>
    have sameLine := isLineEnd_eq_false.mpr ⟨notNewline, notReturn⟩
    rw [List.singleton_append, characterLength, sameLine]
    · rfl
    · exact fun escape => absurd escape notEscape
    · exact fun _ _ escape => absurd escape notEscape
    · exact notQuote
  | escape listed =>
    simp only [List.cons_append, List.nil_append, characterLength, isLetter_iff.mpr listed]
    rfl

theorem exists_item_of_characterLength {start n : Nat} {body : List Char}
    (found : characterLength start body = .ok n) :
    ∃ item rest, Item '\'' item ∧ body = item ++ '\'' :: rest ∧ n = item.length + 2 := by
  have closed : ∀ {length rest}, closeCharacter start length rest = .ok n →
      ∃ rest', rest = '\'' :: rest' ∧ n = length + 1 := by
    intro length rest closes
    unfold closeCharacter at closes
    split at closes <;> cases closes
    exact ⟨_, rfl, rfl⟩
  unfold characterLength at found
  split at found
  · cases found
  · cases found
  · rename_i letter rest
    split at found
    · rename_i isLetter
      obtain ⟨rest, rfl, rfl⟩ := closed found
      exact ⟨['\\', letter], rest, .escape (isLetter_iff.mp isLetter), rfl, rfl⟩
    · cases found
  · cases found
  · rename_i c rest lone escaped notQuote
    split at found
    · cases found
    · rename_i sameLine
      obtain ⟨notNewline, notReturn⟩ := isLineEnd_eq_false.mp (Bool.not_eq_true _ ▸ sameLine)
      obtain ⟨rest, rfl, rfl⟩ := closed found
      have notEscape : c ≠ '\\' := fun escape => escaped _ _ escape rfl
      exact ⟨[c], rest, .plain notQuote notNewline notReturn notEscape, rfl, rfl⟩

theorem stringBodyLength_items {items : List (List Char)} (isItem : ∀ item ∈ items, Item '"' item)
    (position : Nat) (rest : List Char) :
    stringBodyLength position (items.flatten ++ '"' :: rest) = .ok (items.flatten.length + 1) := by
  induction items generalizing position with
  | nil => rw [List.flatten_nil, List.nil_append, stringBodyLength]; rfl
  | cons item items ih =>
    have others := fun position => ih (fun item member => isItem item (.tail _ member)) position
    rw [List.flatten_cons, List.append_assoc]
    cases isItem item List.mem_cons_self with
    | @plain c notQuote notNewline notReturn notEscape =>
      have sameLine := isLineEnd_eq_false.mpr ⟨notNewline, notReturn⟩
      rw [List.singleton_append, stringBodyLength, sameLine, others]
      · rfl
      · exact notQuote
      · exact fun escape => absurd escape notEscape
      · exact fun _ _ escape => absurd escape notEscape
    | escape listed =>
      rw [List.cons_append, List.cons_append, List.nil_append, stringBodyLength,
        if_pos (isLetter_iff.mpr listed), others]
      simp [bind, Except.bind, pure, Except.pure]

/-- The first `length` characters of `body` are items and a closing quote. -/
def ClosesString (body : List Char) (length : Nat) : Prop :=
  ∃ (items : List (List Char)) (rest : List Char), (∀ item ∈ items, Item '"' item) ∧
    body = items.flatten ++ '"' :: rest ∧ length = items.flatten.length + 1

theorem ClosesString.cons {item body : List Char} {length : Nat} (isItem : Item '"' item)
    (closes : ClosesString body length) : ClosesString (item ++ body) (length + item.length) := by
  obtain ⟨items, rest, isItems, rfl, rfl⟩ := closes
  refine ⟨item :: items, rest, ?_, ?_, ?_⟩
  · rintro other (_ | ⟨_, member⟩)
    · exact isItem
    · exact isItems other member
  · rw [List.flatten_cons, List.append_assoc]
  · rw [List.flatten_cons, List.length_append]
    omega

theorem closesString_of_stringBodyLength {position n : Nat} {body : List Char}
    (found : stringBodyLength position body = .ok n) : ClosesString body n := by
  fun_induction stringBodyLength position body generalizing n with
  | case1 | case3 | case5 | case6 => cases found
  | case2 position rest =>
    cases found
    exact ⟨[], rest, fun _ member => absurd member List.not_mem_nil, rfl, rfl⟩
  | case4 position letter rest isLetter ih =>
    cases inner : stringBodyLength (position + 2) rest with
    | error error => simp [inner, bind, Except.bind] at found
    | ok length =>
      rw [inner] at found
      cases found
      exact (ih inner).cons (.escape (isLetter_iff.mp isLetter))
  | case7 position c rest notQuote lone escaped sameLine ih =>
    cases inner : stringBodyLength (position + 1) rest with
    | error error => simp [inner, bind, Except.bind] at found
    | ok length =>
      rw [inner] at found
      cases found
      obtain ⟨notNewline, notReturn⟩ := isLineEnd_eq_false.mp (Bool.not_eq_true _ ▸ sameLine)
      have notEscape := ne_backslash lone escaped
      exact (ih inner).cons (.plain notQuote notNewline notReturn notEscape)

/-! ## What is found is the longest lexeme -/

section

variable {n : Nat} {c : Char} {rest : List Char} {kind : Token.Kind}

theorem isLexeme_of_lexeme {start : Nat} (found : lexeme start c rest = .ok (kind, n)) :
    IsLexeme kind ((c :: rest).take n) := by
  cases lexeme_eq_ok.mp found with
  | identifier first =>
    have part : rest.take (identifierLength rest) = rest.takeWhile isIdentifierPart :=
      (List.prefix_iff_eq_take.mp (List.takeWhile_prefix _)).symm
    rw [List.take_succ_cons, part]
    exact .identifier (isIdentifierStart_iff.mp first) fun _ member =>
      isIdentifierPart_iff.mp (List.mem_takeWhile_imp member)
  | number _ starts found =>
    obtain ⟨length, kind_eq⟩ := number_cases found
    obtain ⟨sign, digits, tail, source, signed, isDigits, ended⟩ :=
      exists_digits_of_startsNumber starts
    have whole := wholeLength_append_digits signed isDigits tail
    rw [ended, List.length_nil, Nat.add_zero, ← List.length_append] at whole
    rw [source, whole, ← List.append_assoc, List.drop_left] at length kind_eq
    rw [source, ← List.append_assoc, length, kind_eq]
    obtain none | ⟨fraction, tail, rfl, isFraction, some⟩ := fractionLength_cases tail
    · rw [none, if_pos rfl, Nat.add_zero, List.take_left]
      exact .integer signed isDigits
    · have cut : (sign ++ digits ++ '.' :: (fraction ++ tail)).take
          ((sign ++ digits).length + (fraction.length + 1)) =
            sign ++ digits ++ '.' :: fraction := by
        rw [List.take_length_add_append, List.take_succ_cons, List.take_left]
      rw [some, if_neg (Nat.succ_ne_zero _), cut]
      exact .decimal signed isDigits isFraction
  | character quote length =>
    obtain ⟨item, tail, isItem, rfl, rfl⟩ := exists_item_of_characterLength length
    have cut : (c :: (item ++ '\'' :: tail)).take (item.length + 2) = c :: item ++ ['\''] := by
      rw [List.take_succ_cons, List.take_length_add_append, List.take_succ_cons, List.take_zero,
        List.cons_append]
    rw [cut, quote]
    exact .character isItem
  | string quote length =>
    obtain ⟨items, tail, isItem, rfl, rfl⟩ := closesString_of_stringBodyLength length
    have cut : (c :: (items.flatten ++ '"' :: tail)).take (items.flatten.length + 1 + 1) =
        c :: items.flatten ++ ['"'] := by
      rw [List.take_succ_cons, List.take_length_add_append, List.take_succ_cons, List.take_zero,
        List.cons_append]
    rw [cut, quote]
    exact .string isItem
  | operator _ _ _ _ length =>
    unfold operatorLength at length
    split at length
    · rename_i both
      obtain ⟨compares, equals⟩ := Bool.and_eq_true_iff.mp both
      cases length
      obtain ⟨tail, rfl⟩ : ∃ tail, rest = '=' :: tail := by
        cases rest <;> simp_all
      exact .comparison (isComparisonStart_iff.mp compares)
    · split at length <;> cases length
      rename_i listed
      exact .operator (contains_operatorCharacters.mp listed)

theorem isIdentifierStart_of_isDigit (digit : c.isDigit = true) : isIdentifierStart c = false := by
  rw [Bool.eq_false_iff]
  intro first
  obtain letter | rfl := isIdentifierStart_iff.mp first
  · have digit := isDigit_iff.mp digit
    simp only [IsLetter, IsDigit, Char.le_def, UInt32.le_iff_toNat_le] at letter digit
    have bounds : '9'.val.toNat < 'A'.val.toNat ∧ '9'.val.toNat < 'a'.val.toNat := by decide
    omega
  · exact absurd digit (by decide)

theorem isIdentifierStart_of_startsNumber (starts : startsNumber (c :: rest) = true) :
    isIdentifierStart c = false := by
  have sign : isSign c = true → isIdentifierStart c = false := by
    intro sign
    simp only [isSign, Bool.or_eq_true, beq_iff_eq] at sign
    obtain rfl | rfl := sign <;> rfl
  cases rest with
  | nil => exact isIdentifierStart_of_isDigit starts
  | cons d rest =>
    simp only [startsNumber, Bool.or_eq_true, Bool.and_eq_true] at starts
    exact starts.elim isIdentifierStart_of_isDigit fun both => sign both.1

theorem not_quote_of_operator (listed : c ∈ operatorCharacters) :
    isIdentifierStart c = false ∧ c.isDigit = false ∧ c ≠ '\'' ∧ c ≠ '"' := by
  have each : ∀ c ∈ operatorCharacters, isIdentifierStart c = false ∧ c.isDigit = false ∧
      c ≠ '\'' ∧ c ≠ '"' :=
    -- Not `decide` alone: the characters are finitely many, and it would try them all.
    List.forall_iff_forall_mem.mp (by decide)
  exact each c listed

theorem lexed_comparison (start : Nat) (listed : c ∈ ['<', '>', '!', '=']) :
    Lexed start c ('=' :: rest) .operator 2 := by
  have each : ∀ d ∈ ['<', '>', '!', '='], isSign d = false ∧ d ∈ operatorCharacters :=
    List.forall_iff_forall_mem.mp (by decide)
  obtain ⟨unsigned, operator⟩ := each c listed
  obtain ⟨notFirst, notDigit, notQuote, notString⟩ := not_quote_of_operator operator
  have notNumber : startsNumber (c :: '=' :: rest) = false := by
    simp [startsNumber, notDigit, unsigned]
  have compares := isComparisonStart_iff.mpr listed
  exact .operator notFirst notNumber notQuote notString (by simp [operatorLength, compares])

/-- Where an operator character stands, that operator is found, or something longer. -/
theorem exists_lexed_operator (start : Nat) (listed : c ∈ operatorCharacters) :
    ∃ kind n, Lexed start c rest kind n ∧ (1 < n ∨ 1 = n ∧ .operator = kind) := by
  obtain ⟨notFirst, notDigit, notQuote, notString⟩ := not_quote_of_operator listed
  cases starts : startsNumber (c :: rest) with
  | true =>
    -- a sign with a digit behind it: the number takes at least both
    obtain ⟨d, tail, rfl⟩ : ∃ d tail, rest = d :: tail := by
      cases rest with
      | nil => simp [startsNumber, notDigit] at starts
      | cons d tail => exact ⟨d, tail, rfl⟩
    have both : isSign c = true ∧ d.isDigit = true := by
      simpa [startsNumber, notDigit] using starts
    have longer : 1 < wholeLength (c :: d :: tail) := by
      simp [wholeLength, both.1, both.2]
    obtain ⟨⟨kind, n⟩, found⟩ : ∃ pair, number (c :: d :: tail) = pair := ⟨_, rfl⟩
    have length := (number_cases found).1
    exact ⟨kind, n, .number notFirst starts found, .inl (by omega)⟩
  | false =>
    by_cases both : (isComparisonStart c && rest.head? == some '=') = true
    · refine ⟨_, 2, .operator notFirst starts notQuote notString ?_, .inl (by omega)⟩
      rw [operatorLength, if_pos both]
    · refine ⟨_, 1, .operator notFirst starts notQuote notString ?_, .inr ⟨rfl, rfl⟩⟩
      rw [operatorLength, if_neg both, if_pos (List.contains_iff_mem.mpr listed)]

/-- A text with a lexeme at its front is not refused, and the lexeme found is longer, or as long and
of the same kind. -/
theorem exists_lexeme_of_isLexeme (start : Nat) {text : List Char} (isLexeme : IsLexeme kind text)
    (front : text <+: c :: rest) :
    ∃ kind' n, lexeme start c rest = .ok (kind', n) ∧
      (text.length < n ∨ text.length = n ∧ kind = kind') := by
  obtain ⟨tail, source⟩ := front
  simp only [lexeme_eq_ok]
  cases isLexeme with
  | @identifier first cs isFirst parts =>
    rw [List.cons_append] at source
    obtain ⟨rfl, rfl⟩ := List.cons.inj source
    refine ⟨_, _, .identifier (isIdentifierStart_iff.mpr isFirst), ?_⟩
    have longer : cs.length ≤ identifierLength (cs ++ tail) := by
      rw [identifierLength, List.takeWhile_append_of_pos fun d member =>
        isIdentifierPart_iff.mpr (parts d member), List.length_append]
      omega
    exact (Nat.succ_le_succ longer).lt_or_eq.imp_right fun same => ⟨same, rfl⟩
  | integer signed isDigits =>
    rw [List.append_assoc] at source
    have starts := startsNumber_append_digits signed isDigits tail
    obtain ⟨kind', n, found, further⟩ := number_of_integer signed isDigits tail
    rw [source] at starts found
    exact ⟨kind', n, .number (isIdentifierStart_of_startsNumber starts) starts found, further⟩
  | @decimal sign digits fraction signed isDigits isFraction =>
    have text : sign ++ digits ++ '.' :: fraction ++ tail =
        sign ++ (digits ++ '.' :: (fraction ++ tail)) := by simp
    rw [text] at source
    have starts := startsNumber_append_digits signed isDigits ('.' :: (fraction ++ tail))
    obtain ⟨n, found, longer⟩ := number_of_decimal signed isDigits isFraction tail
    rw [source] at starts found
    exact ⟨_, n, .number (isIdentifierStart_of_startsNumber starts) starts found,
      longer.lt_or_eq.imp_right fun same => ⟨same, rfl⟩⟩
  | @character item isItem =>
    simp only [List.cons_append, List.append_assoc, List.nil_append] at source
    obtain ⟨rfl, rfl⟩ := List.cons.inj source
    refine ⟨_, _, .character rfl (characterLength_item isItem start tail), .inr ⟨?_, rfl⟩⟩
    simp
  | @string items isItem =>
    simp only [List.cons_append, List.append_assoc, List.nil_append] at source
    obtain ⟨rfl, rfl⟩ := List.cons.inj source
    refine ⟨_, _, .string rfl (stringBodyLength_items isItem (start + 1) tail), .inr ⟨?_, rfl⟩⟩
    simp
  | comparison listed =>
    obtain ⟨rfl, rfl⟩ := List.cons.inj source
    exact ⟨_, _, lexed_comparison start listed, .inr ⟨rfl, rfl⟩⟩
  | operator listed =>
    obtain ⟨rfl, rfl⟩ := List.cons.inj source
    exact exists_lexed_operator start
      (List.contains_iff_mem.mp (contains_operatorCharacters.mpr listed))

/-- What is found at the front is the longest lexeme there, and it is found if there is one. -/
theorem isLongest_iff (start : Nat) {text : List Char} :
    IsLongest kind text (c :: rest) ↔
      text <+: c :: rest ∧ lexeme start c rest = .ok (kind, text.length) := by
  constructor
  · rintro ⟨front, isLexeme, longest⟩
    obtain ⟨kind', n, found, further⟩ := exists_lexeme_of_isLexeme start isLexeme front
    have shorter := longest kind' _ (List.take_prefix n _) (isLexeme_of_lexeme found)
    rw [List.length_take_of_le (lexeme_length_le found)] at shorter
    obtain longer | ⟨rfl, rfl⟩ := further
    · omega
    · exact ⟨front, found⟩
  · rintro ⟨front, found⟩
    refine ⟨front, ?_, ?_⟩
    · rw [List.prefix_iff_eq_take.mp front]
      exact isLexeme_of_lexeme found
    · intro kind' text' front' isLexeme
      obtain ⟨kind'', n, found', further⟩ := exists_lexeme_of_isLexeme start isLexeme front'
      cases found.symm.trans found'
      omega

theorem isLongest_of_lexeme {start : Nat} (found : lexeme start c rest = .ok (kind, n)) :
    IsLongest kind ((c :: rest).take n) (c :: rest) := by
  rw [isLongest_iff start, List.length_take_of_le (lexeme_length_le found)]
  exact ⟨List.take_prefix n _, found⟩

end

theorem IsLexeme.ne_nil {kind : Token.Kind} {text : List Char} (isLexeme : IsLexeme kind text) :
    text ≠ [] := by
  cases isLexeme with
  | integer _ isDigits => exact List.append_ne_nil_of_right_ne_nil _ isDigits.1
  | decimal => simp
  | _ => exact List.cons_ne_nil _ _

/-- A lexeme that stands alone is found as a whole. -/
theorem IsLexeme.lexeme_eq {kind : Token.Kind} {c : Char} {text : List Char}
    (isLexeme : IsLexeme kind (c :: text)) (start : Nat) :
    lexeme start c text = .ok (kind, (c :: text).length) := by
  have longest : IsLongest kind (c :: text) (c :: text) :=
    ⟨List.prefix_rfl, isLexeme, fun _ _ front _ => front.length_le⟩
  exact ((isLongest_iff start).mp longest).2

/-- A text is a lexeme of one kind at most. -/
theorem IsLexeme.kind_unique {kind kind' : Token.Kind} {text : List Char}
    (isLexeme : IsLexeme kind text) (isLexeme' : IsLexeme kind' text) : kind = kind' := by
  obtain ⟨c, rest, rfl⟩ := List.exists_cons_of_ne_nil isLexeme.ne_nil
  -- Finding the lexeme in front is a function, and it finds the whole text.
  have found := (isLexeme.lexeme_eq 0).symm.trans (isLexeme'.lexeme_eq 0)
  cases found
  rfl

end Primer.Lexeme
