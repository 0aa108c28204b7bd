import Primer.Text.Escape
import Primer.Token.Basic

/-!
# Cutting a source into tokens

`lexeme` finds the kind and the length of the lexeme at the front of a text, `Token.scan` cuts a
whole source: it drops blanks and takes the lexeme at the front until nothing is left.

A sign belongs to the number after it whenever a digit follows, whatever stands before the sign.
Literals keep their escapes; here they are only checked.
-/

namespace Primer

/-- Why a text has no lexeme at its front. -/
inductive LexicalFault where
  | unexpectedCharacter (character : Char)
  | invalidEscape (escape : Char)
  | emptyCharacter
  | unterminatedCharacter
  | unterminatedString
deriving DecidableEq, Repr

/-- A fault and the character it was found at. -/
structure LexicalError where
  fault : LexicalFault
  position : Nat
deriving DecidableEq, Repr

/-- The text of a lexical error. -/
def LexicalError.message (error : LexicalError) : String :=
  let place := s!" at position {error.position}"
  match error.fault with
  | .unexpectedCharacter character => s!"Unexpected character '{character}'" ++ place
  | .invalidEscape escape => s!"Invalid escape sequence '\\{escape}'" ++ place
  | .emptyCharacter => "Empty character literal" ++ place
  | .unterminatedCharacter => "Unterminated character literal" ++ place
  | .unterminatedString => "Unterminated string literal" ++ place

/-! ## Character classes -/

namespace Lexeme

/-- The characters that only separate tokens: space, tab, both line ends and backspace. -/
def isBlank (c : Char) : Bool :=
  c == ' ' || c == '\t' || c == '\n' || c == '\r' || c == '\x08'

/-- The first character of an identifier: an ASCII letter or an underscore. -/
def isIdentifierStart (c : Char) : Bool :=
  c.isAlpha || c == '_'

/-- A later character of an identifier: also an ASCII digit or a hyphen. -/
def isIdentifierPart (c : Char) : Bool :=
  c.isAlphanum || c == '_' || c == '-'

def isSign (c : Char) : Bool :=
  c == '+' || c == '-'

/-- A line end, which no literal may hold raw. -/
def isLineEnd (c : Char) : Bool :=
  c == '\n' || c == '\r'

/-- The characters that are an operator on their own. -/
def operatorCharacters : List Char :=
  ['$', '&', '+', ',', ':', ';', '=', '?', '@', '#', '|', '<', '>', '.', '-', '^', '*', '(', ')',
    '%', '!', '/', '[', ']', '\x7b', '\x7d', '~']

/-- The characters that make one operator with an equals sign after them. -/
def isComparisonStart (c : Char) : Bool :=
  c == '<' || c == '>' || c == '!' || c == '='

/-! ## The lexeme at the front -/

/-- Length of the identifier at the front. -/
def identifierLength (source : List Char) : Nat :=
  (source.takeWhile isIdentifierPart).length

/-- Whether a number starts here: a digit, or a sign right before one. -/
def startsNumber : List Char → Bool
  | c :: d :: _ => c.isDigit || (isSign c && d.isDigit)
  | [c] => c.isDigit
  | [] => false

/-- Length of the optional sign and the digits at the front. -/
def wholeLength (source : List Char) : Nat :=
  let sign := (source.take 1).takeWhile isSign
  sign.length + ((source.drop sign.length).takeWhile Char.isDigit).length

/-- Length of a point and the digits behind it; a point without a digit behind it is no fraction. -/
def fractionLength : List Char → Nat
  | '.' :: rest =>
    match (rest.takeWhile Char.isDigit).length with
    | 0 => 0
    | digits => digits + 1
  | _ => 0

/-- Kind and length of the number at the front. -/
def number (source : List Char) : Token.Kind × Nat :=
  match fractionLength (source.drop (wholeLength source)) with
  | 0 => (.integer, wholeLength source)
  | fraction => (.decimal, wholeLength source + fraction)

/-- Closes a character literal whose first `length` characters, from `start` on, are read. -/
def closeCharacter (start length : Nat) (rest : List Char) : Except LexicalError Nat :=
  match rest with
  | '\'' :: _ => .ok (length + 1)
  | _ => .error ⟨.unterminatedCharacter, start + length⟩

/-- Length of the character literal that starts at `start`; `body` is what follows its opening
quote. -/
def characterLength (start : Nat) (body : List Char) : Except LexicalError Nat :=
  match body with
  | [] => .error ⟨.unterminatedCharacter, start + 1⟩
  | ['\\'] => .error ⟨.unterminatedCharacter, start + 2⟩
  | '\\' :: letter :: rest =>
    if Escape.isLetter letter then
      closeCharacter start 3 rest
    else
      .error ⟨.invalidEscape letter, start + 2⟩
  | '\'' :: _ => .error ⟨.emptyCharacter, start + 1⟩
  | c :: rest =>
    if isLineEnd c then
      .error ⟨.unterminatedCharacter, start + 1⟩
    else
      closeCharacter start 2 rest

/-- Number of characters up to and with the closing quote of a string whose unread body starts at
`position`. -/
def stringBodyLength (position : Nat) : List Char → Except LexicalError Nat
  | [] => .error ⟨.unterminatedString, position⟩
  | '"' :: _ => .ok 1
  | ['\\'] => .error ⟨.unterminatedString, position + 1⟩
  | '\\' :: letter :: rest =>
    if Escape.isLetter letter then do
      let length ← stringBodyLength (position + 2) rest
      return length + 2
    else
      .error ⟨.invalidEscape letter, position + 1⟩
  | c :: rest =>
    if isLineEnd c then
      .error ⟨.unterminatedString, position⟩
    else do
      let length ← stringBodyLength (position + 1) rest
      return length + 1

/-- Length of the operator at the front. -/
def operatorLength (start : Nat) (c : Char) (rest : List Char) : Except LexicalError Nat :=
  if isComparisonStart c && rest.head? == some '=' then
    .ok 2
  else if operatorCharacters.contains c then
    .ok 1
  else
    .error ⟨.unexpectedCharacter c, start⟩

end Lexeme

open Lexeme in
/-- Kind and length of the lexeme at the front of the text `c :: rest`, which starts at character
`start` of the source. -/
def lexeme (start : Nat) (c : Char) (rest : List Char) : Except LexicalError (Token.Kind × Nat) :=
  if isIdentifierStart c then
    .ok (.identifier, identifierLength rest + 1)
  else if startsNumber (c :: rest) then
    .ok (number (c :: rest))
  else if c = '\'' then
    (characterLength start rest).map (Token.Kind.character, ·)
  else if c = '"' then
    (stringBodyLength (start + 1) rest).map fun length => (.string, length + 1)
  else
    (operatorLength start c rest).map (Token.Kind.operator, ·)

/-! ## A lexeme is never empty -/

namespace Lexeme

theorem wholeLength_pos {source : List Char} (h : startsNumber source = true) :
    0 < wholeLength source := by
  match source, h with
  | c :: rest, h =>
    cases sign : isSign c with
    | true =>
      have signed : ((c :: rest).take 1).takeWhile isSign = [c] := by simp [sign]
      simp only [wholeLength, signed, List.length_singleton]
      omega
    | false =>
      have digit : c.isDigit = true := by cases rest <;> simp_all [startsNumber]
      simp [wholeLength, sign, digit]

theorem number_length_pos {source : List Char} {kind : Token.Kind} {n : Nat}
    (h : startsNumber source = true) (number_eq : number source = (kind, n)) : 0 < n := by
  have := wholeLength_pos h
  unfold number at number_eq
  split at number_eq <;> cases number_eq <;> omega

theorem closeCharacter_pos {start length n : Nat} {rest : List Char}
    (h : closeCharacter start length rest = .ok n) : 0 < n := by
  unfold closeCharacter at h
  split at h <;> cases h
  omega

theorem characterLength_pos {start n : Nat} {body : List Char}
    (h : characterLength start body = .ok n) : 0 < n := by
  unfold characterLength at h
  split at h
  · cases h
  · cases h
  · split at h
    · exact closeCharacter_pos h
    · cases h
  · cases h
  · split at h
    · cases h
    · exact closeCharacter_pos h

theorem operatorLength_pos {start n : Nat} {c : Char} {rest : List Char}
    (h : operatorLength start c rest = .ok n) : 0 < n := by
  unfold operatorLength at h
  split at h
  · cases h; omega
  · split at h <;> cases h
    omega

end Lexeme

/-- The lexeme at the front takes at least one character, so scanning makes progress. -/
theorem lexeme_length_pos {start n : Nat} {c : Char} {rest : List Char} {kind : Token.Kind}
    (h : lexeme start c rest = .ok (kind, n)) : 0 < n := by
  unfold lexeme at h
  split at h
  · cases h; omega
  split at h
  · rename_i starts
    exact Lexeme.number_length_pos starts (Except.ok.inj h)
  split at h
  · cases length : Lexeme.characterLength start rest with
    | error e => simp [length, Except.map] at h
    | ok m =>
      simp [length, Except.map] at h
      exact h.2 ▸ Lexeme.characterLength_pos length
  split at h
  · cases length : Lexeme.stringBodyLength (start + 1) rest with
    | error e => simp [length, Except.map] at h
    | ok m =>
      simp [length, Except.map] at h
      omega
  · cases length : Lexeme.operatorLength start c rest with
    | error e => simp [length, Except.map] at h
    | ok m =>
      simp [length, Except.map] at h
      exact h.2 ▸ Lexeme.operatorLength_pos length

/-! ## Scanning -/

namespace Token

/-- The tokens of `source`, whose first character stands at `position`. -/
def scanFrom (position : Nat) (source : List Char) : Except LexicalError (List Token) :=
  match source with
  | [] => .ok []
  | c :: rest =>
    if Lexeme.isBlank c then
      scanFrom (position + 1) rest
    else
      match _found : lexeme position c rest with
      | .error error => .error error
      | .ok (kind, length) => do
        let text := String.ofList ((c :: rest).take length)
        let others ← scanFrom (position + length) ((c :: rest).drop length)
        return ⟨kind, text, ⟨position, position + length⟩⟩ :: others
termination_by source.length
decreasing_by
  · simp
  · have := lexeme_length_pos _found
    simp only [List.length_drop, List.length_cons]
    omega

/-- The tokens of a source text, in order. -/
def scan (source : String) : Except LexicalError (List Token) :=
  scanFrom 0 source.toList

end Token

end Primer
