/-!
# Whole numbers as text

`Numeral.render` writes an integer in base ten, `Numeral.signed?` reads one back.  The reader takes
either sign, any number of leading zeros, and nothing else around the digits.
-/

namespace Primer.Numeral

/-- The digits of a natural number, most significant first. -/
def digits (n : Nat) : List Char :=
  Nat.toDigits 10 n

/-- An integer in base ten, with a minus sign when it is negative. -/
def render (i : Int) : String :=
  String.ofList (if i < 0 then '-' :: digits i.natAbs else digits i.natAbs)

/-- The number that a list of digits denotes. -/
def ofDigits (cs : List Char) : Nat :=
  cs.foldl (fun n c => 10 * n + (c.toNat - '0'.toNat)) 0

/-- Reads a non-empty list of digits. -/
def natural? (cs : List Char) : Option Nat :=
  if cs.isEmpty || !cs.all Char.isDigit then none else some (ofDigits cs)

/-- Reads digits with an optional sign. -/
def signed? : List Char → Option Int
  | '-' :: rest => (natural? rest).map fun n => -(n : Int)
  | '+' :: rest => (natural? rest).map Int.ofNat
  | cs => (natural? cs).map Int.ofNat

/-- Drops one plus sign at the front. -/
def dropPlus : List Char → List Char
  | '+' :: rest => rest
  | cs => cs

/-- The integer that a number token denotes. -/
def integer? (text : String) : Option Int :=
  signed? (dropPlus text.toList)

end Primer.Numeral
