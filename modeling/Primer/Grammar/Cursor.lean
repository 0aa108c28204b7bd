import Primer.Token.Basic

/-!
# Reading tokens

A cursor is what is left of a list of tokens.  `Reader α` reads an `α` from the front, or says
what it expected there.  All readers are built from three steps: `expect`, which takes a token
that has to be there, `optional`, which takes one that may be there, and `many`, which repeats a
reader for as long as an opener finds its beginning.

The next token alone decides what is read, so a reader never steps back.
-/

namespace Primer

/-- What a reader was looking for. -/
inductive Expectation where
  | word (text : String)
  | identifier
  | expression
  | methodOrEnd
deriving DecidableEq, Repr

/-- The kinds of literal whose text has to be decoded. -/
inductive LiteralKind where
  | integer
  | decimal
  | character
  | string
deriving DecidableEq, Repr

/-- Why a list of tokens is no program. -/
inductive SyntaxError where
  | unexpected (expected : Expectation) (found : String) (position : Nat)
  | unexpectedEnd (expected : Expectation) (position : Nat)
  | invalidLiteral (kind : LiteralKind) (literal : String) (position : Nat)
deriving DecidableEq, Repr

def Expectation.describe : Expectation → String
  | .word text => s!"'{text}'"
  | .identifier => "identifier"
  | .expression => "an expression"
  | .methodOrEnd => "'DEF' or end of input"

def LiteralKind.describe : LiteralKind → String
  | .integer => "integer"
  | .decimal => "decimal"
  | .character => "character"
  | .string => "string"

/-- The text of a syntax error. -/
def SyntaxError.message : SyntaxError → String
  | .unexpected expected found position =>
    s!"Expected {expected.describe}, found '{found}' at position {position}"
  | .unexpectedEnd expected position =>
    s!"Expected {expected.describe} at end of input (position {position})"
  | .invalidLiteral kind literal position =>
    s!"Invalid {kind.describe} literal {literal} at position {position}"

/-- The character that a syntax error points at. -/
def SyntaxError.position : SyntaxError → Nat
  | .unexpected _ _ position | .unexpectedEnd _ position | .invalidLiteral _ _ position => position

/-- The tokens not read yet, and where the last token read ended. -/
structure Cursor where
  rest : List Token
  last : Nat := 0

namespace Cursor

/-- Takes the next token if `test` finds something in it. -/
def take? {β : Type} (test : Token → Option β) (cursor : Cursor) : Option (β × Cursor) :=
  match cursor.rest with
  | [] => none
  | token :: rest => (test token).map (·, ⟨rest, token.span.stop⟩)

/-- The complaint that the next token is not what was expected. -/
def complaint (cursor : Cursor) (expected : Expectation) : SyntaxError :=
  match cursor.rest with
  | [] => .unexpectedEnd expected cursor.last
  | token :: _ => .unexpected expected token.text token.span.start

end Cursor

/-! ## Readers -/

/-- Reads an `α` from the front of the tokens. -/
abbrev Reader (α : Type) := StateT Cursor (Except SyntaxError) α

namespace Reader

variable {α β : Type}

/-- Gives up at the next token. -/
def fail (expected : Expectation) : Reader α :=
  fun cursor => .error (cursor.complaint expected)

/-- Takes a token that has to be there. -/
def expect (expected : Expectation) (test : Token → Option β) : Reader β :=
  fun cursor =>
    match cursor.take? test with
    | some found => .ok found
    | none => .error (cursor.complaint expected)

/-- Takes a token that may be there. -/
def optional (test : Token → Option β) : Reader (Option β) :=
  fun cursor =>
    match cursor.take? test with
    | some (found, next) => .ok (some found, next)
    | none => .ok (none, cursor)

/-- At most `bound` items, each begun by what `opener` finds. -/
def manyWithin (opener : Cursor → Option (β × Cursor)) (item : β → Reader α) :
    Nat → Reader (List α)
  | 0 => pure []
  | bound + 1 => fun cursor =>
    match opener cursor with
    | none => .ok ([], cursor)
    | some (opening, next) => (do
      let first ← item opening
      let others ← manyWithin opener item bound
      return first :: others) next

/-- Reads items for as long as `opener` finds the beginning of one.  Every item takes a token, so
the number of tokens left bounds the number of items. -/
def many (opener : Cursor → Option (β × Cursor)) (item : β → Reader α) : Reader (List α) :=
  fun cursor => manyWithin opener item cursor.rest.length cursor

/-! ## Single tokens -/

/-- A token with a given text, whatever its kind. -/
def hasText (text : String) (token : Token) : Option Token :=
  if token.text = text then some token else none

/-- Takes the token that reads `text`. -/
def word (text : String) : Reader Token :=
  expect (.word text) (hasText text)

/-- Takes an identifier and gives its name. -/
def identifier : Reader String :=
  expect .identifier fun token => if token.kind = .identifier then some token.text else none

/-- Where the last token read ended. -/
def lastEnd : Reader Nat :=
  fun cursor => .ok (cursor.last, cursor)

/-- The span from `start` to the end of the last token read. -/
def spanFrom (start : Nat) : Reader Span := do
  return ⟨start, ← lastEnd⟩

/-- Reads what follows the word `text`, if that word comes next. -/
def after (text : String) (item : Reader α) : Reader (Option α) := do
  match ← optional (hasText text) with
  | none => return none
  | some _ => return some (← item)

/-- Items between commas, up to and with a closing parenthesis.  There may be none; a comma needs an
item behind it. -/
def commaSeparated (item : Reader α) : Reader (List α) := do
  match ← optional (hasText ")") with
  | some _ => return []
  | none =>
    let first ← item
    let others ← many (Cursor.take? (hasText ",")) fun _ => item
    let _ ← word ")"
    return first :: others

end Reader

end Primer
