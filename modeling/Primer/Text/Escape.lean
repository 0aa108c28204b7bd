/-!
# Escapes in quoted text

The body of a character or string literal may name seven characters by a backslash and a letter.
`meaning?` is the table, `decode` reads a whole body and `encode` writes one between two quotes of
a given kind.  `encode` escapes only what could not stand there raw, so it is one of several
spellings that `decode` accepts.
-/

namespace Primer.Escape

/-- The character that a backslash followed by `letter` stands for. -/
def meaning? (letter : Char) : Option Char :=
  match letter with
  | 'b' => some '\x08'
  | 'n' => some '\n'
  | 'r' => some '\r'
  | 't' => some '\t'
  | '\'' => some '\''
  | '"' => some '"'
  | '\\' => some '\\'
  | _ => none

/-- Whether a backslash may stand before `letter`. -/
def isLetter (letter : Char) : Bool :=
  (meaning? letter).isSome

/-- The text that a literal's body stands for.  A backslash before anything but an escape letter,
or at the end, makes the body meaningless. -/
def decode : List Char → Option (List Char)
  | [] => some []
  | '\\' :: [] => none
  | '\\' :: letter :: rest => do
    let head ← meaning? letter
    let tail ← decode rest
    return head :: tail
  | c :: rest => do
    let tail ← decode rest
    return c :: tail

/-- How `c` is written in a literal that `quote` delimits. -/
def spelling (quote c : Char) : List Char :=
  match c with
  | '\x08' => ['\\', 'b']
  | '\n' => ['\\', 'n']
  | '\r' => ['\\', 'r']
  | '\t' => ['\\', 't']
  | '\\' => ['\\', '\\']
  | c => if c = quote then ['\\', c] else [c]

/-- The body of a literal that stands for `text` between two `quote`s. -/
def encode (quote : Char) (text : List Char) : List Char :=
  text.flatMap (spelling quote)

/-- `decode` on strings. -/
def decodeString (body : String) : Option String :=
  (decode body.toList).map String.ofList

end Primer.Escape
