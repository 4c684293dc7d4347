import Custody.Decimal
import Custody.Text.Digits

/-!
# Decimals as text

A decimal is written with a sign if it is negative, its whole part, and a point before its places if
it has any. Reading is more liberal than writing: a plus sign, underscores among the digits and a
missing whole part are let pass, and so is an exponent of ten. Places that there is no room for are
rounded away, a half upwards.

* **`Decimal.text`**, **`Decimal.ofText?`**: writing and reading.
-/

namespace Custody

open Custody.Text

/-! ### Writing -/

namespace Decimal

/-- The written form. -/
def text (d : Decimal) : String :=
  let unit := scale d.places
  let whole := digits (d.mantissa.natAbs / unit)
  let places := if d.places = 0 then [] else '.' :: padded d.places (d.mantissa.natAbs % unit)
  String.ofList ((if d.mantissa < 0 then ['-'] else []) ++ whole ++ places)

instance : ToString Decimal := ⟨text⟩

end Decimal

/-! ### The parts of a written number -/

/-- The digits of a number before and after its point. -/
structure Numeral where
  whole : List Char
  places : List Char

namespace Numeral

/-- The number of digits and a point. There is at least one digit, and underscores may stand after
the first. -/
def ofChars? (cs : List Char) : Option Numeral :=
  let whole := cs.takeWhile (· ≠ '.')
  let places := (cs.dropWhile (· ≠ '.')).drop 1
  let n : Numeral := ⟨whole.filter (· ≠ '_'), places.filter (· ≠ '_')⟩
  if (whole ++ places).head? = some '_' then none
  else if (n.whole ++ n.places).isEmpty || !(n.whole ++ n.places).all Char.isDigit then none
  else some n

/-- The sign before a number, whether it is a minus, and the text after it. -/
def splitSign : List Char → Bool × List Char
  | '-' :: cs => (true, cs)
  | '+' :: cs => (false, cs)
  | cs => (false, cs)

/-- Whether a character announces an exponent. -/
def isExponentMark (c : Char) : Bool := c = 'e' || c = 'E'

/-- The text before an exponent, and that of the exponent, if there is one. -/
def splitExponent (cs : List Char) : List Char × Option (List Char) :=
  (cs.takeWhile (!isExponentMark ·), ((cs.dropWhile (!isExponentMark ·)).tail?))

/-- The value of an exponent. -/
def exponent? (cs : List Char) : Option Int :=
  let (negative, run) := splitSign cs
  if run.isEmpty || !run.all Char.isDigit then none
  else some (if negative then -(value run : Int) else value run)

/-- The value of the first `keep` places after the whole part, as a number of steps of the last of
them, a half rounded up. -/
def roundedTo (n : Numeral) (keep : Nat) : Nat :=
  let kept := value (n.whole ++ n.places.take keep)
  match n.places.drop keep with
  | next :: _ => if '5' ≤ next then kept + 1 else kept
  | [] => kept

/-- The value to as many places as there is room for, up to some number of them; none if the whole
part alone is too large. -/
def fitted? (n : Numeral) : Nat → Option (Nat × Nat)
  | 0 => if n.roundedTo 0 ≤ Decimal.maxMantissa then some (n.roundedTo 0, 0) else none
  | keep + 1 =>
    if n.roundedTo (keep + 1) ≤ Decimal.maxMantissa then some (n.roundedTo (keep + 1), keep + 1)
    else n.fitted? keep

/-- The decimal of a number. -/
def decimal? (n : Numeral) : Option Decimal :=
  (n.fitted? (min Decimal.maxPlaces n.places.length)).map fun (mantissa, places) =>
    ⟨mantissa, places⟩

end Numeral

/-! ### Reading -/

namespace Decimal

/-- The number times a power of ten, if there is room for it as it stands. -/
def timesTenTo? (d : Decimal) (exponent : Int) : Option Decimal :=
  let places : Int := d.places - exponent
  let shifted : Decimal :=
    if 0 ≤ places then ⟨d.mantissa, places.toNat⟩ else ⟨d.widen (-places).toNat, 0⟩
  if exponent ≤ maxPlaces ∧ shifted.fits then some shifted else none

/-- The decimal that a text stands for. -/
def ofText? (s : String) : Option Decimal := do
  let (number, exponent) := Numeral.splitExponent s.toList
  let (negative, cs) := Numeral.splitSign number
  let d ← (← Numeral.ofChars? cs).decimal?
  let d := if negative then d.neg else d
  match exponent with
  | none => some d
  | some cs => d.timesTenTo? (← Numeral.exponent? cs)

end Decimal

end Custody
