/-!
# Two's complement

Integers of any size as bytes, the least significant byte first.  The upper half of the values of
the last byte is negative, so a number can be given any number of bytes from the fewest on.
-/

namespace Primer.TwosComplement

/-- The integer that bytes stand for. -/
def value : List UInt8 → Int
  | [] => 0
  | [byte] => if byte.toNat < 128 then byte.toNat else byte.toNat - 256
  | byte :: bytes => byte.toNat + 256 * value bytes

/-- The low eight bits of an integer. -/
def lowByte (number : Int) : UInt8 :=
  UInt8.ofNat (number % 256).toNat

/-- The fewest bytes that stand for an integer. -/
def bytes (number : Int) : List UInt8 :=
  if -128 ≤ number ∧ number < 128 then
    [lowByte number]
  else
    lowByte number :: bytes (number / 256)
termination_by number.natAbs

/-- Writes bytes into the slots, the first into the first, until either runs out. -/
def fill : (slots bytes : List UInt8) → List UInt8
  | _ :: slots, byte :: bytes => byte :: fill slots bytes
  | slots, _ => slots

/-- What a slot holds of an integer that has no byte for it. -/
def signByte (number : Int) : UInt8 :=
  if number < 0 then 255 else 0

/-- The bytes of an integer in `width` slots: further bytes are left out, and slots that are left
over repeat the sign. -/
def truncate (width : Nat) (number : Int) : List UInt8 :=
  fill (List.replicate width (signByte number)) (bytes number)

end Primer.TwosComplement
