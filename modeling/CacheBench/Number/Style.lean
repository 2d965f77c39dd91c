import CacheBench.Number.Shortest

/-!
# Number text

A `Style` says how a number is written once its digits are chosen: which decimal exponents are
written positionally, what follows a whole number, and the words for the numbers without digits.
`Style.plain` never uses an exponent. `Style.json` is the number form of JSON texts, where a
number without digits becomes `null`.
-/

namespace CacheBench

structure Style where
  tie : Tie
  /-- Whether a leading digit at this power of ten is written positionally. -/
  positional : Int → Bool
  /-- What follows a number without a fraction. -/
  whole : String
  nan : String
  infinity : Bool → String

namespace Style

def plain : Style where
  tie := .up
  positional _ := true
  whole := ""
  nan := "NaN"
  infinity negative := if negative then "-inf" else "inf"

def json : Style where
  tie := .even
  positional e := -5 ≤ e && e < 16
  whole := ".0"
  nan := "null"
  infinity _ := "null"

end Style

namespace Decimal

def zeros (n : Nat) : String := String.ofList (List.replicate n '0')

def positional (d : Decimal) (whole : String) : String :=
  let text := toString d.digits
  if 0 ≤ d.exponent then
    text ++ zeros d.exponent.toNat ++ whole
  else
    let places := (-d.exponent).toNat
    if text.length ≤ places then
      "0." ++ zeros (places - text.length) ++ text
    else
      let cs := text.toList
      String.ofList (cs.take (cs.length - places)) ++ "." ++
        String.ofList (cs.drop (cs.length - places))

/-- One digit before the point, none after it if there is only one, and a signed exponent. -/
def scientific (d : Decimal) : String :=
  let cs := (toString d.digits).toList
  let mantissa := String.ofList (cs.take 1) ++
    (if 1 < cs.length then "." ++ String.ofList (cs.drop 1) else "")
  let e := d.leading
  mantissa ++ "e" ++ (if e < 0 then "-" else "+") ++ toString e.natAbs

end Decimal

namespace Binary64

def text (style : Style) (x : Binary64) : String :=
  if x.isNaN then style.nan
  else if x.isInfinite then style.infinity x.isNegative
  else
    let sign := if x.isNegative then "-" else ""
    if x.isZero then sign ++ "0" ++ style.whole
    else
      let d := x.shortest style.tie
      sign ++ (if style.positional d.leading then d.positional style.whole else d.scientific)

instance : ToString Binary64 := ⟨text .plain⟩

end Binary64

end CacheBench
