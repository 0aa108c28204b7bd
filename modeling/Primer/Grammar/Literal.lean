import Primer.Decimal.Text
import Primer.Grammar.Cursor
import Primer.Syntax.Basic
import Primer.Text.Escape

/-!
# Literals

Three words are literals whatever their kind; otherwise the kind of a token says how to decode
its text. Tokens that `Token.scan` makes can always be decoded, but tokens may come from
elsewhere.
-/

namespace Primer

/-- The text between the quotes of a literal: all but its first and last character. -/
def Token.body (token : Token) : List Char :=
  (token.text.toList.drop 1).dropLast

/-- The constant that a token of a given kind denotes. -/
def LiteralKind.decode? (kind : LiteralKind) (token : Token) : Option Literal :=
  match kind with
  | .integer => (Numeral.integer? token.text).map .integer
  | .decimal => (Decimal.ofText? token.text).map .decimal
  | .character =>
    match Escape.decode token.body with
    | some [c] => some (.character c)
    | _ => none
  | .string => (Escape.decode token.body).map fun text => .string (String.ofList text)

/-- The kind of literal that a kind of token is. -/
def Token.Kind.literal? : Token.Kind → Option LiteralKind
  | .integer => some .integer
  | .decimal => some .decimal
  | .character => some .character
  | .string => some .string
  | .identifier | .operator => none

/-- The words that are literals. -/
def Literal.ofWord? : String → Option Literal
  | "NIL" => some .nil
  | "TRUE" => some (.boolean true)
  | "FALSE" => some (.boolean false)
  | _ => none

/-- The literal that a token is, unless it is something else. -/
def Token.literal? (token : Token) : Option (Except SyntaxError Literal) :=
  match Literal.ofWord? token.text with
  | some literal => some (.ok literal)
  | none => token.kind.literal?.map fun kind =>
    match kind.decode? token with
    | some literal => .ok literal
    | none => .error (.invalidLiteral kind token.text token.span.start)

end Primer
