import ConfigLoader.Text

/-! # Binary floating-point numbers of 64 bits

A number is its bits. A finite one stands for `± mantissa * 2 ^ exponent`, and every ratio of
naturals is rounded to the nearest number, a tie to the even mantissa.
-/
namespace ConfigLoader

structure Binary64 where
  bits : UInt64
  deriving DecidableEq, Repr, Inhabited

namespace Binary64

def signBit : Nat := 2 ^ 63

def magnitude (x : Binary64) : Nat := x.bits.toNat % signBit

def isNegative (x : Binary64) : Bool := signBit ≤ x.bits.toNat

def exponentField (x : Binary64) : Nat := x.magnitude / 2 ^ 52

def fraction (x : Binary64) : Nat := x.magnitude % 2 ^ 52

def isFinite (x : Binary64) : Bool := x.exponentField < 2047

def isInfinite (x : Binary64) : Bool := x.magnitude == 2047 * 2 ^ 52

def isNaN (x : Binary64) : Bool := 2047 * 2 ^ 52 < x.magnitude

def isZero (x : Binary64) : Bool := x.magnitude == 0

def mantissa (x : Binary64) : Nat :=
  if x.exponentField = 0 then x.fraction else 2 ^ 52 + x.fraction

def exponent (x : Binary64) : Int :=
  if x.exponentField = 0 then -1074 else (x.exponentField : Int) - 1075

def ofMagnitude (neg : Bool) (m : Nat) : Binary64 :=
  ⟨UInt64.ofNat (if neg then signBit + m % signBit else m % signBit)⟩

def zero (neg : Bool) : Binary64 := ofMagnitude neg 0

def infinity (neg : Bool) : Binary64 := ofMagnitude neg (2047 * 2 ^ 52)

def nan : Binary64 := ofMagnitude false (2047 * 2 ^ 52 + 2 ^ 51)

/-- The quotient `n / d` to the nearest natural, a tie to the even one. -/
def roundDiv (n d : Nat) : Nat :=
  let q := n / d
  let r := n % d
  if d < 2 * r then q + 1
  else if 2 * r = d then q + q % 2
  else q

def scaleRatio (num den : Nat) (e : Int) : Nat × Nat :=
  (num * 2 ^ (-e).toNat, den * 2 ^ e.toNat)

/-- The exponent at which `num / den` has a mantissa of 53 bits, or the least one. -/
def ratioExponent (num den : Nat) : Int :=
  let e := max ((num.log2 : Int) - (den.log2 : Int) - 53) (-1074)
  let s := scaleRatio num den e
  if 2 ^ 53 ≤ s.1 / s.2 then e + 1 else e

def ofRatio (neg : Bool) (num den : Nat) : Binary64 :=
  let e := ratioExponent num den
  let s := scaleRatio num den e
  let q := roundDiv s.1 s.2
  let bits := if q < 2 ^ 52 then q else (e + 1075).toNat * 2 ^ 52 + (q - 2 ^ 52)
  if 2047 * 2 ^ 52 ≤ bits then infinity neg else ofMagnitude neg bits

def ratio (x : Binary64) : Nat × Nat :=
  (x.mantissa * 2 ^ x.exponent.toNat, 2 ^ (-x.exponent).toNat)

def ofInt (n : Int) : Binary64 := ofRatio (n < 0) n.natAbs 1

/-- The number `± digits * 10 ^ exp`, rounded; scales far outside the range are settled by the digit
count. -/
def ofDecimal (neg : Bool) (digits : Nat) (exp : Int) : Binary64 :=
  if digits = 0 then zero neg
  else
    let top : Int := (Nat.toDigits 10 digits).length + exp
    if top < -400 then zero neg
    else if 400 < top then infinity neg
    else ofRatio neg (digits * 10 ^ exp.toNat) (10 ^ (-exp).toNat)

def toInt? (x : Binary64) : Option Int :=
  if x.isFinite then
    let (n, d) := x.ratio
    if n % d = 0 then some (if x.isNegative then -(n / d : Nat) else (n / d : Nat)) else none
  else none

/-- Equality of the numbers meant: zeros are equal, and a NaN differs from itself. -/
def same (x y : Binary64) : Bool :=
  !x.isNaN && !y.isNaN && (x == y || (x.isZero && y.isZero))

def neg (x : Binary64) : Binary64 := ofMagnitude (!x.isNegative) x.magnitude

/-- The sum of two finite numbers, rounded. -/
def add (x y : Binary64) : Binary64 :=
  let (a, b) := x.ratio
  let (c, d) := y.ratio
  let sgn (s : Bool) (n : Nat) : Int := if s then -(n : Int) else n
  let n := sgn x.isNegative (a * d) + sgn y.isNegative (c * b)
  if n = 0 then zero (x.isNegative && y.isNegative) else ofRatio (n < 0) n.natAbs (b * d)

/-- The product of two finite numbers, rounded. -/
def mul (x y : Binary64) : Binary64 :=
  let (a, b) := x.ratio
  let (c, d) := y.ratio
  ofRatio (x.isNegative != y.isNegative) (a * c) (b * d)

end Binary64
end ConfigLoader
