/-!
# Tokens

A token is a piece of the source with its kind and its place.  Places are counted in characters
from the start of the source.
-/

namespace Primer

/-- The half-open stretch of characters from `start` to `stop`. -/
structure Span where
  start : Nat
  stop : Nat
deriving DecidableEq, Repr

/-- What a token is.  Words with a meaning of their own are identifiers like any other: they are
told apart by their text. -/
inductive Token.Kind where
  | identifier
  | integer
  | decimal
  | character
  | string
  | operator
deriving DecidableEq, Repr

/-- A token keeps its text as written, quotes and escapes included. -/
structure Token where
  kind : Token.Kind
  text : String
  span : Span
deriving DecidableEq, Repr

end Primer
