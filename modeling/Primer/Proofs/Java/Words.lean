import Primer.Java
import Primer.Proofs.Java.Grouping
import Primer.Proofs.Token.Denotation

/-!
# Reading the text of an expression

A text is cut into words, and the words are read one by one: the reader keeps what it has of the
expression at hand and of those around it, up to the parentheses that are still open.  Two things
are left to a `Dialect`: which characters belong to a name, and how loosely the operators bind.

A name may hold points, so that a path such as `System.out.println` is a single name; with an
opening parenthesis right behind it, it begins a call.  A minus sign where an operand is due is the
sign of the number behind it.
-/

namespace Primer.Java

open Lexeme

/-- What a reader has to know about names and operators. -/
structure Dialect where
  /-- The characters of a name behind its first. -/
  namePart : Char → Bool
  /-- A name ends at a blank, a parenthesis or a comma. -/
  namePart_eq_false : ∀ c ∈ [' ', '(', ')', ','], namePart c = false
  looseness : Operator → Nat

/-! ## Words -/

inductive Word where
  | name (text : String)
  | callee (name : String)
  | number (text : String)
  | quoted (text : String)
  | operator (operator : Operator)
  | opening
  | closing
  | comma
deriving DecidableEq, Repr

/-- Length of a negative exponent. -/
def exponentLength : List Char → Nat
  | 'E' :: '-' :: rest => (rest.takeWhile Char.isDigit).length + 2
  | _ => 0

/-- Length of what belongs to a number behind its first digit. -/
def numberRest (rest : List Char) : Nat :=
  let whole := (rest.takeWhile Char.isDigit).length
  let fraction := fractionLength (rest.drop whole)
  whole + fraction + exponentLength (rest.drop (whole + fraction))

/-- Number of characters up to and with the closing quote.  A backslash takes the character behind
it along. -/
def quotedLength (quote : Char) : List Char → Option Nat
  | [] => none
  | '\\' :: _ :: rest => (quotedLength quote rest).map (· + 2)
  | c :: rest => if c = quote then some 1 else (quotedLength quote rest).map (· + 1)

/-- The operator at the front of `c :: rest`, and how many characters of `rest` it takes. -/
def operatorAt? : Char → List Char → Option (Operator × Nat)
  | '&', '&' :: _ => some (.and, 1)
  | '|', '|' :: _ => some (.or, 1)
  | '<', '=' :: _ => some (.lessEqual, 1)
  | '>', '=' :: _ => some (.greaterEqual, 1)
  | '=', '=' :: _ => some (.equal, 1)
  | '!', '=' :: _ => some (.notEqual, 1)
  | '<', _ => some (.less, 0)
  | '>', _ => some (.greater, 0)
  | '+', _ => some (.add, 0)
  | '-', _ => some (.subtract, 0)
  | '*', _ => some (.multiply, 0)
  | '/', _ => some (.divide, 0)
  | _, _ => none

/-- The word at the front of `c :: rest`, and how many characters of `rest` it takes. -/
def word? (namePart : Char → Bool) (c : Char) (rest : List Char) : Option (Word × Nat) :=
  if isIdentifierStart c then
    let tail := rest.takeWhile namePart
    if (rest.drop tail.length).head? = some '(' then
      some (.callee (String.ofList (c :: tail)), tail.length + 1)
    else
      some (.name (String.ofList (c :: tail)), tail.length)
  else if c.isDigit then
    some (.number (String.ofList (c :: rest.take (numberRest rest))), numberRest rest)
  else if c = '\'' ∨ c = '"' then
    (quotedLength c rest).map fun length =>
      (.quoted (String.ofList (c :: rest.take length)), length)
  else if c = '(' then
    some (.opening, 0)
  else if c = ')' then
    some (.closing, 0)
  else if c = ',' then
    some (.comma, 0)
  else
    (operatorAt? c rest).map fun (operator, length) => (.operator operator, length)

/-- The words of a text without its first `skip` characters. -/
def words (namePart : Char → Bool) : Nat → List Char → Option (List Word)
  | _, [] => some []
  | skip + 1, _ :: rest => words namePart skip rest
  | 0, c :: rest =>
    if c = ' ' then
      words namePart 0 rest
    else do
      let (word, length) ← word? namePart c rest
      let others ← words namePart length rest
      return word :: others

/-! ## The word at the front of a text -/

/-- The text has ended, or goes on with a character that ends every operand. -/
def Bounded (rest : List Char) : Prop :=
  ∀ c ∈ rest.head?, c ∈ [' ', ')', ',']

section

variable {namePart : Char → Bool} {c : Char} {text rest : List Char}

theorem words_skip (text rest : List Char) :
    words namePart text.length (text ++ rest) = words namePart 0 rest := by
  induction text with
  | nil => rfl
  | cons c text ih => exact ih

theorem words_cons {word : Word} (notBlank : c ≠ ' ')
    (found : word? namePart c (text ++ rest) = some (word, text.length)) :
    words namePart 0 (c :: (text ++ rest)) = (words namePart 0 rest).map (word :: ·) := by
  rw [words, if_neg notBlank, found]
  show (words namePart text.length (text ++ rest) >>= fun others => some (word :: others)) = _
  rw [words_skip]
  cases words namePart 0 rest <;> rfl

/-- An operator before a blank. -/
theorem words_operator (operator : Operator) (rest : List Char) :
    words namePart 0 (operator.toJava.toList ++ ' ' :: rest) =
      (words namePart 0 rest).map (.operator operator :: ·) := by
  obtain ⟨c, text, spelled, notBlank, found⟩ : ∃ c text, operator.toJava.toList = c :: text ∧
      c ≠ ' ' ∧ word? namePart c (text ++ ' ' :: rest) =
        some (.operator operator, text.length) := by
    cases operator <;> exact ⟨_, _, rfl, by decide, rfl⟩
  rw [spelled, List.cons_append, words_cons notBlank found, words, if_pos rfl]

theorem words_opening (rest : List Char) :
    words namePart 0 ('(' :: rest) = (words namePart 0 rest).map (.opening :: ·) := by
  have found : word? namePart '(' ([] ++ rest) = some (.opening, 0) := rfl
  exact words_cons (by decide) found

theorem words_closing (rest : List Char) :
    words namePart 0 (')' :: rest) = (words namePart 0 rest).map (.closing :: ·) := by
  have found : word? namePart ')' ([] ++ rest) = some (.closing, 0) := rfl
  exact words_cons (by decide) found

/-- A comma before a blank. -/
theorem words_comma (rest : List Char) :
    words namePart 0 (',' :: ' ' :: rest) = (words namePart 0 rest).map (.comma :: ·) := by
  have found : word? namePart ',' ([] ++ ' ' :: rest) = some (.comma, 0) := rfl
  have split := words_cons (by decide) found
  rw [List.nil_append] at split
  rw [split, words, if_pos rfl]

end

/-! ## Operands -/

section

variable {dialect : Dialect} {c : Char} {cs text rest : List Char}

/-- A name, in a dialect. -/
def IsJavaName (namePart : Char → Bool) (text : List Char) : Prop :=
  ∃ c cs, text = c :: cs ∧ isIdentifierStart c = true ∧ ∀ d ∈ cs, namePart d = true

theorem isIdentifierStart_ne_blank (first : isIdentifierStart c = true) : c ≠ ' ' := by
  rintro rfl
  exact absurd first (by decide)

theorem words_name (isName : IsJavaName dialect.namePart text) (bounded : Bounded rest) :
    words dialect.namePart 0 (text ++ rest) =
      (words dialect.namePart 0 rest).map (.name (String.ofList text) :: ·) := by
  obtain ⟨c, cs, rfl, first, parts⟩ := isName
  have ends : ∀ d ∈ rest.head?, dialect.namePart d = false := by
    intro d head
    refine dialect.namePart_eq_false d ?_
    have listed := bounded d head
    simp only [List.mem_cons, List.not_mem_nil, or_false] at listed ⊢
    tauto
  have tail := takeWhile_append_of_head parts ends
  have notOpening : rest.head? ≠ some '(' := by
    intro head
    exact absurd (bounded '(' head) (by decide)
  refine words_cons (isIdentifierStart_ne_blank first) ?_
  simp only [word?, first, if_true, tail, List.drop_left, if_neg notOpening]

theorem words_callee (isName : IsJavaName dialect.namePart text) (rest : List Char) :
    words dialect.namePart 0 (text ++ '(' :: rest) =
      (words dialect.namePart 0 rest).map (.callee (String.ofList text) :: ·) := by
  obtain ⟨c, cs, rfl, first, parts⟩ := isName
  have ends : ∀ d ∈ ('(' :: rest).head?, dialect.namePart d = false := by
    rintro d ⟨⟩
    exact dialect.namePart_eq_false '(' (by decide)
  have tail := takeWhile_append_of_head parts ends
  have found : word? dialect.namePart c (cs ++ ['('] ++ rest) =
      some (.callee (String.ofList (c :: cs)), (cs ++ ['(']).length) := by
    rw [List.append_assoc, List.singleton_append]
    simp only [word?, first, if_true, tail, List.drop_left, List.head?_cons, List.length_append,
      List.length_singleton]
  have split := words_cons (isIdentifierStart_ne_blank first) found
  rw [List.append_assoc, List.singleton_append] at split
  exact split

/-- A fraction or none. -/
def IsFraction (text : List Char) : Prop :=
  text = [] ∨ ∃ digits, IsDigits digits ∧ text = '.' :: digits

/-- A negative exponent or none. -/
def IsExponent (text : List Char) : Prop :=
  text = [] ∨ ∃ digits, IsDigits digits ∧ text = 'E' :: '-' :: digits

def IsNumber (text : List Char) : Prop :=
  ∃ whole fraction exponent, text = whole ++ (fraction ++ exponent) ∧ IsDigits whole ∧
    IsFraction fraction ∧ IsExponent exponent

theorem Bounded.not_digit (bounded : Bounded rest) : ∀ d ∈ rest.head?, d.isDigit = false := by
  intro d head
  have each : ∀ d ∈ [' ', ')', ','], d.isDigit = false :=
    List.forall_iff_forall_mem.mp (by decide)
  exact each d (bounded d head)

theorem exponentLength_of_isExponent {exponent : List Char} (isExponent : IsExponent exponent)
    (bounded : Bounded rest) : exponentLength (exponent ++ rest) = exponent.length := by
  obtain rfl | ⟨digits, isDigits, rfl⟩ := isExponent
  · rw [List.nil_append]
    unfold exponentLength
    split
    · exact absurd (bounded 'E' rfl) (by decide)
    · rfl
  · simp only [List.cons_append, exponentLength, List.length_cons,
      takeWhile_append_of_head isDigits.isDigit bounded.not_digit]

/-- What a fraction or the digits before it are followed by. -/
theorem IsExponent.head {exponent : List Char} (isExponent : IsExponent exponent)
    (bounded : Bounded rest) :
    ∀ d ∈ (exponent ++ rest).head?, d.isDigit = false ∧ d ≠ '.' := by
  obtain rfl | ⟨digits, _, rfl⟩ := isExponent
  · intro d head
    refine ⟨bounded.not_digit d head, ?_⟩
    rintro rfl
    exact absurd (bounded '.' head) (by decide)
  · rintro d ⟨⟩
    decide

theorem fractionLength_of_isFraction {fraction : List Char} (isFraction : IsFraction fraction)
    {behind : List Char} (stops : ∀ d ∈ behind.head?, d.isDigit = false ∧ d ≠ '.') :
    fractionLength (fraction ++ behind) = fraction.length := by
  obtain rfl | ⟨digits, isDigits, rfl⟩ := isFraction
  · rw [List.nil_append]
    unfold fractionLength
    split
    · exact absurd rfl (stops '.' rfl).2
    · rfl
  · have digits_eq := takeWhile_append_of_head isDigits.isDigit fun d head => (stops d head).1
    have positive := List.length_pos_iff.mpr isDigits.1
    rw [List.cons_append, fractionLength, digits_eq, List.length_cons]
    split
    · omega
    · rfl

theorem words_number (isNumber : IsNumber text) (bounded : Bounded rest) :
    words dialect.namePart 0 (text ++ rest) =
      (words dialect.namePart 0 rest).map (.number (String.ofList text) :: ·) := by
  obtain ⟨whole, fraction, exponent, rfl, isDigits, isFraction, isExponent⟩ := isNumber
  obtain ⟨c, whole, rfl⟩ := List.exists_cons_of_ne_nil isDigits.1
  have digit := isDigits.isDigit c List.mem_cons_self
  have behindFraction := isExponent.head bounded
  have behindWhole : ∀ d ∈ (fraction ++ (exponent ++ rest)).head?, d.isDigit = false := by
    obtain rfl | ⟨digits, _, rfl⟩ := isFraction
    · exact fun d head => (behindFraction d head).1
    · rintro d ⟨⟩
      decide
  have whole_eq : (whole ++ (fraction ++ (exponent ++ rest))).takeWhile Char.isDigit = whole :=
    takeWhile_append_of_head (fun d member => isDigits.isDigit d (.tail _ member)) behindWhole
  have length : numberRest (whole ++ (fraction ++ exponent) ++ rest) =
      (whole ++ (fraction ++ exponent)).length := by
    have skip : (whole ++ (fraction ++ (exponent ++ rest))).drop (whole.length + fraction.length) =
        exponent ++ rest := by
      rw [← List.length_append, ← List.append_assoc, List.drop_left]
    simp only [List.append_assoc]
    simp only [numberRest, whole_eq, List.drop_left,
      fractionLength_of_isFraction isFraction behindFraction, skip,
      exponentLength_of_isExponent isExponent bounded, List.length_append]
    omega
  rw [List.cons_append, List.cons_append]
  refine words_cons ?_ ?_
  · rintro rfl
    exact absurd digit (by decide)
  · simp only [word?, isIdentifierStart_of_isDigit digit, digit, length, List.take_left]
    rfl

/-- A character is spelled with a backslash in front, or stands for itself and is neither a quote of
its own kind nor a backslash. -/
theorem spelling_cases (quote c : Char) :
    (∃ letter, Escape.spelling quote c = ['\\', letter]) ∨
      Escape.spelling quote c = [c] ∧ c ≠ quote ∧ c ≠ '\\' := by
  unfold Escape.spelling
  split
  case h_6 notBackspace notNewline notReturn notTab notEscape =>
    split
    · exact .inl ⟨_, rfl⟩
    · rename_i notQuote
      exact .inr ⟨rfl, notQuote, notEscape⟩
  all_goals exact .inl ⟨_, rfl⟩

theorem quotedLength_encode {quote : Char} (notEscape : quote ≠ '\\') (body rest : List Char) :
    quotedLength quote (Escape.encode quote body ++ quote :: rest) =
      some ((Escape.encode quote body).length + 1) := by
  induction body with
  | nil =>
    rw [Escape.encode, List.flatMap_nil, List.nil_append, quotedLength, if_pos rfl]
    · rfl
    · exact fun _ _ escape => absurd escape notEscape
  | cons c body ih =>
    have spelled : Escape.encode quote (c :: body) =
        Escape.spelling quote c ++ Escape.encode quote body := List.flatMap_cons
    rw [spelled, List.append_assoc]
    obtain ⟨letter, escaped⟩ | ⟨plain, notQuote, notBackslash⟩ := spelling_cases quote c
    · rw [escaped, List.cons_append, List.cons_append, List.nil_append, quotedLength, ih]
      simp
    · rw [plain, List.singleton_append, quotedLength, if_neg notQuote, ih]
      · simp
      · exact fun _ _ escape => absurd escape notBackslash

/-- A quoted text, as the emitter writes it. -/
def IsQuoted (text : List Char) : Prop :=
  ∃ quote body, (quote = '\'' ∨ quote = '"') ∧
    text = quote :: (Escape.encode quote body ++ [quote])

theorem words_quoted (isQuoted : IsQuoted text) (rest : List Char) :
    words dialect.namePart 0 (text ++ rest) =
      (words dialect.namePart 0 rest).map (.quoted (String.ofList text) :: ·) := by
  obtain ⟨quote, body, isQuote, rfl⟩ := isQuoted
  have notEscape : quote ≠ '\\' := by
    obtain rfl | rfl := isQuote <;> decide
  have notFirst : isIdentifierStart quote = false := by
    obtain rfl | rfl := isQuote <;> rfl
  have notDigit : quote.isDigit = false := by
    obtain rfl | rfl := isQuote <;> rfl
  have length : quotedLength quote (Escape.encode quote body ++ [quote] ++ rest) =
      some (Escape.encode quote body ++ [quote]).length := by
    rw [List.append_assoc, List.singleton_append, quotedLength_encode notEscape, List.length_append,
      List.length_singleton]
  rw [List.cons_append]
  refine words_cons ?_ ?_
  · obtain rfl | rfl := isQuote <;> decide
  · simp only [word?, notFirst, notDigit, isQuote, length, Option.map_some, List.take_left]
    rfl

/-- An operand without parts: a name, a number with or without a minus sign, or a quoted text. -/
inductive IsOperand (namePart : Char → Bool) : List Char → Prop
  | name {text : List Char} : IsJavaName namePart text → IsOperand namePart text
  | number {text : List Char} : IsNumber text → IsOperand namePart text
  | negative {text : List Char} : IsNumber text → IsOperand namePart ('-' :: text)
  | quoted {text : List Char} : IsQuoted text → IsOperand namePart text

end

/-! ## Reading words -/

/-- An open parenthesis, and the place of what it will have been. -/
inductive Opened where
  | group (place : Place)
  | call (name : String) (arguments : List Tree) (place : Place)

/-- How far a reader is: the parentheses that are open, the innermost first, and the expression at
hand, which lacks an operand or does not. -/
inductive Reading where
  | lacking (outer : List Opened) (place : Place)
  | signed (outer : List Opened) (place : Place)
  | complete (outer : List Opened) (tree : Tree)

/-- Reads one word. -/
def Reading.step (looseness : Operator → Nat) : Reading → Word → Option Reading
  | .lacking outer place, .name text | .lacking outer place, .number text
  | .lacking outer place, .quoted text =>
    some (.complete outer (place.fill looseness (.leaf text)))
  | .lacking outer place, .operator .subtract => some (.signed outer place)
  | .signed outer place, .number text =>
    some (.complete outer (place.fill looseness (.leaf ("-" ++ text))))
  | .lacking outer place, .opening => some (.lacking (.group place :: outer) .front)
  | .lacking outer place, .callee name => some (.lacking (.call name [] place :: outer) .front)
  | .lacking (.call name [] place :: outer) .front, .closing =>
    some (.complete outer (place.fill looseness (.call name [])))
  | .complete outer tree, .operator operator => some (.lacking outer (.behind tree operator))
  | .complete (.group place :: outer) tree, .closing =>
    some (.complete outer (place.fill looseness (.group tree)))
  | .complete (.call name arguments place :: outer) tree, .closing =>
    some (.complete outer (place.fill looseness (.call name (arguments ++ [tree]))))
  | .complete (.call name arguments place :: outer) tree, .comma =>
    some (.lacking (.call name (arguments ++ [tree]) place :: outer) .front)
  | _, _ => none

/-- Reads words one by one. -/
def Reading.run (looseness : Operator → Nat) (reading : Reading) (found : List Word) :
    Option Reading :=
  found.foldlM (Reading.step looseness) reading

/-- The expression that was read, if all parentheses are closed. -/
def Reading.result? : Reading → Option Tree
  | .complete [] tree => some tree
  | _ => none

/-- The expression that a text is in a dialect. -/
def read (dialect : Dialect) (text : String) : Option Tree := do
  let found ← words dialect.namePart 0 text.toList
  let reading ← Reading.run dialect.looseness (.lacking [] .front) found
  reading.result?

namespace Reading

variable {looseness : Operator → Nat} {reading next : Reading}

theorem run_cons {word : Word} (stepped : reading.step looseness word = some next)
    (found : List Word) : reading.run looseness (word :: found) = next.run looseness found := by
  rw [run, List.foldlM_cons, stepped]
  rfl

theorem run_append {first : List Word} (ran : reading.run looseness first = some next)
    (second : List Word) :
    reading.run looseness (first ++ second) = next.run looseness second := by
  rw [run, List.foldlM_append]
  rw [run] at ran
  rw [ran]
  rfl

end Reading

end Primer.Java
