import Primer.Decimal.Basic
import Primer.Text.Numeral

/-!
# Decimal numbers as text

A decimal is written with all its fraction digits, so its scale can be read off.  Two forms stand
out: zero is `0` at any scale, and a number with more than five zeros between the point and its
first digit is written with an exponent.
-/

namespace Primer.Decimal

/-- The most zeros that are written between the point and the first other digit. -/
def maxLeadingZeros : Int := 5

/-- `d.dddE-x`, for the digits `ds` of a number below one. -/
def scientific (ds : List Char) (scale : Int) : List Char :=
  let exponent := (scale - ds.length + 1).toNat
  let mantissa :=
    match ds with
    | first :: second :: rest => first :: '.' :: second :: rest
    | ds => ds
  mantissa ++ 'E' :: '-' :: Numeral.digits exponent

/-- Positional notation with `scale` digits behind the point. -/
def positional (ds : List Char) (scale : Int) : List Char :=
  if scale ≤ 0 then
    ds ++ List.replicate (-scale).toNat '0'
  else
    let fraction := scale.toNat
    let padded := List.replicate (fraction + 1 - ds.length) '0' ++ ds
    padded.take (padded.length - fraction) ++ '.' :: padded.drop (padded.length - fraction)

/-- The text of a decimal. -/
def render (d : Decimal) : String :=
  if d.isZero then
    "0"
  else
    let ds := Numeral.digits d.digits.natAbs
    let magnitude :=
      if maxLeadingZeros < d.scale - ds.length then scientific ds d.scale else positional ds d.scale
    String.ofList (if d.digits < 0 then '-' :: magnitude else magnitude)

/-- The decimal that a number token denotes: a signed whole number with at most one point in it, the
characters behind the point giving the scale. -/
def ofText? (text : String) : Option Decimal :=
  let cs := Numeral.dropPlus text.toList
  let whole := cs.takeWhile (· != '.')
  let fraction := (cs.dropWhile (· != '.')).drop 1
  (Numeral.signed? (whole ++ fraction)).map (⟨·, fraction.length⟩)

end Primer.Decimal
