import ConfigLoader.Text
import ConfigLoader.Number.Binary64

/-! # Shortest decimal text

The fewest digits that read back as the same number, the nearest such decimal among them, laid out
as a style asks. Where no short decimal reads back, the exact value is written.
-/
namespace ConfigLoader.Binary64

structure Decimal where
  digits : Nat
  exp : Int
  deriving DecidableEq, Repr

def readsBack (x : Binary64) (d : Decimal) : Bool := ofDecimal x.isNegative d.digits d.exp == x

/-- Least `k` with `num / den < 10 ^ k`, found upwards from `k` in at most `fuel` steps. -/
def scaleUp (num den : Nat) : Nat → Int → Int
  | 0, k => k
  | fuel + 1, k =>
    if num * 10 ^ (-k).toNat < den * 10 ^ k.toNat then k else scaleUp num den fuel (k + 1)

/-- The number of digits before the point of `num / den`, negative for leading zeros after it. -/
def decimalScale (num den : Nat) : Int :=
  let guess := ((num.log2 : Int) - (den.log2 : Int) - 1) * 30103 / 100000 - 1
  scaleUp num den 5 guess

/-- The better of the two neighbours of `num / den` on the grid `10 ^ k` that read back as `x`. -/
def onGrid (x : Binary64) (num den : Nat) (k : Int) : Option Decimal :=
  let n := num * 10 ^ (-k).toNat
  let d := den * 10 ^ k.toNat
  let low := n / d
  let r := n % d
  let below : Decimal := ⟨low, k⟩
  let above : Decimal := ⟨low + 1, k⟩
  match readsBack x below, readsBack x above with
  | true, true =>
    if 2 * r < d then some below
    else if d < 2 * r then some above
    else some (if low % 2 = 0 then below else above)
  | true, false => some below
  | false, true => some above
  | false, false => none

/-- The first hit on the grids of `n`, `n + 1`, … digits, of which `fuel` are tried. -/
def firstGrid (x : Binary64) (num den : Nat) (scale : Int) : Nat → Nat → Option Decimal
  | 0, _ => none
  | fuel + 1, n =>
    match onGrid x num den (scale - n) with
    | some d => some d
    | none => firstGrid x num den scale fuel (n + 1)

def exactDecimal (x : Binary64) : Decimal :=
  if 0 ≤ x.exponent then ⟨x.mantissa * 2 ^ x.exponent.toNat, 0⟩
  else ⟨x.mantissa * 5 ^ (-x.exponent).toNat, x.exponent⟩

/-- The shortest decimal of a finite number, without its sign. -/
def shortest (x : Binary64) : Decimal :=
  if x.isZero then ⟨0, 0⟩
  else
    let (num, den) := x.ratio
    (firstGrid x num den (decimalScale num den) 17 1).getD x.exactDecimal

/-- Moves trailing zeros of the digits into the exponent, at most `fuel` of them. -/
def Decimal.strip : Nat → Decimal → Decimal
  | 0, d => d
  | fuel + 1, d =>
    if d.digits ≠ 0 ∧ d.digits % 10 = 0 then strip fuel ⟨d.digits / 10, d.exp + 1⟩ else d

/-- How numbers are laid out: the positions of the point at which exponents begin, what is added to
whole numbers, the width of exponents, and the words for the numbers that are not finite. -/
structure Style where
  lowPoint : Int
  highPoint : Int
  wholeEnd : Text
  exponentWidth : Nat
  signedZero : Bool
  infinity : Text
  nan : Text

def positional (style : Style) (ds : Text) (point : Int) : Text :=
  let n : Int := ds.length
  if point ≤ 0 then "0." ++ List.replicate (-point).toNat (CodePoint.ofChar '0') ++ ds
  else if n ≤ point then
    ds ++ List.replicate (point - n).toNat (CodePoint.ofChar '0') ++ style.wholeEnd
  else ds.take point.toNat ++ "." ++ ds.drop point.toNat

def scientific (style : Style) (ds : Text) (e : Int) : Text :=
  let mantissa : Text := match ds with
    | [] => "0"
    | [d] => [d]
    | d :: r => d :: '.' :: r
  let sign : Text := if e < 0 then "-" else "+"
  mantissa ++ "e" ++ sign ++ Text.padded style.exponentWidth e.natAbs

def text (style : Style) (x : Binary64) : Text :=
  if x.isNaN then style.nan
  else
    let sign : Text := if x.isNegative && (style.signedZero || !x.isZero) then "-" else ""
    if x.isInfinite then sign ++ style.infinity
    else if x.isZero then sign ++ "0" ++ style.wholeEnd
    else
      let d := x.shortest.strip 400
      let ds := Text.ofNat d.digits
      let point := ds.length + d.exp
      if style.lowPoint ≤ point && point ≤ style.highPoint then
        sign ++ positional style ds point
      else sign ++ scientific style ds (point - 1)

end ConfigLoader.Binary64
