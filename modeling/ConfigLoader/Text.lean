/-! # Text

A text is a list of code points. Surrogates count as code points, because escapes in a document
can name one on its own, so a text is more general than a string.
-/
namespace ConfigLoader

-- Powers of naturals are the plain ones, whatever else is imported.
attribute [instance (20000), default_instance 20000] instPowNat

abbrev CodePoint := Fin 0x110000

instance codePointsNeZero : @NeZero Nat Zero.ofOfNat0 0x110000 := @Nat.instNeZeroSucc 0x10FFFF

theorem toNat_lt (c : Char) : c.toNat < 0x110000 := by
  have h := c.valid
  simp only [UInt32.isValidChar, Nat.isValidChar] at h
  have : c.toNat = c.val.toNat := rfl
  omega

namespace CodePoint

def ofChar (c : Char) : CodePoint := ⟨c.toNat, toNat_lt c⟩

instance : Coe Char CodePoint := ⟨ofChar⟩

def isSurrogate (c : CodePoint) : Bool := 0xD800 ≤ c.val && c.val < 0xE000

def isHighSurrogate (c : CodePoint) : Bool := 0xD800 ≤ c.val && c.val < 0xDC00

def isLowSurrogate (c : CodePoint) : Bool := 0xDC00 ≤ c.val && c.val < 0xE000

def isDigit (c : CodePoint) : Bool := 48 ≤ c.val && c.val ≤ 57

def isUpper (c : CodePoint) : Bool := 65 ≤ c.val && c.val ≤ 90

def isLower (c : CodePoint) : Bool := 97 ≤ c.val && c.val ≤ 122

def isLetter (c : CodePoint) : Bool := c.isUpper || c.isLower

/-- The value of a decimal or hexadecimal digit. -/
def digit? (base : Nat) (c : CodePoint) : Option Nat :=
  let d :=
    if c.isDigit then c.val - 48
    else if 97 ≤ c.val && c.val ≤ 102 then c.val - 87
    else if 65 ≤ c.val && c.val ≤ 70 then c.val - 55
    else 16
  if d < base then some d else none

/-- The code point with a number, or the replacement character when there is none. -/
def ofNat (n : Nat) : CodePoint := if h : n < 0x110000 then ⟨n, h⟩ else ⟨0xFFFD, by decide⟩

/-- The supplementary code point that two surrogates stand for. -/
def ofSurrogates (high low : CodePoint) : CodePoint :=
  ofNat (0x10000 + (high.val - 0xD800) * 0x400 + (low.val - 0xDC00))

end CodePoint

abbrev Text := List CodePoint

namespace Text

def ofString (s : String) : Text := s.toList.map CodePoint.ofChar

instance : Coe String Text := ⟨ofString⟩

/-- The string of a text without surrogates; a surrogate becomes the replacement character. -/
def toString (t : Text) : String :=
  String.ofList (t.map fun c => if c.isSurrogate then Char.ofNat 0xFFFD else Char.ofNat c.val)

def ofNat (n : Nat) : Text := (Nat.toDigits 10 n).map CodePoint.ofChar

def ofInt : Int → Text
  | .ofNat n => ofNat n
  | .negSucc n => '-' :: ofNat (n + 1)

/-- Digits of `n` in base sixteen, lower case, at least `width` of them. -/
def hex (width n : Nat) : Text :=
  let ds := (Nat.toDigits 16 n).map CodePoint.ofChar
  List.replicate (width - ds.length) (CodePoint.ofChar '0') ++ ds

/-- Digits of `n` in base ten, at least `width` of them. -/
def padded (width n : Nat) : Text :=
  let ds := ofNat n
  List.replicate (width - ds.length) (CodePoint.ofChar '0') ++ ds

def join (sep : Text) (parts : List Text) : Text := (parts.intersperse sep).flatten

/-- Pieces between the occurrences of `c`; there is always at least one. -/
def splitAt (c : CodePoint) : Text → List Text
  | [] => [[]]
  | d :: r =>
    if d = c then [] :: splitAt c r
    else match splitAt c r with
      | [] => [[d]]
      | p :: ps => (d :: p) :: ps

/-- The rest of a text after a given beginning. -/
def afterStart? : Text → Text → Option Text
  | [], t => some t
  | _ :: _, [] => none
  | a :: p, b :: t => if a = b then afterStart? p t else none

def startsWith (p t : Text) : Bool := (afterStart? p t).isSome

def endsWith (s t : Text) : Bool := startsWith s.reverse t.reverse

/-- Removes a beginning once, where it is there. -/
def dropStart (p t : Text) : Text := (afterStart? p t).getD t

def hasInfix (p : Text) : Text → Bool
  | [] => p.isEmpty
  | c :: r => startsWith p (c :: r) || hasInfix p r

/-- Replaces every occurrence of a nonempty `p`, from the left. -/
def replace (p q : Text) (t : Text) : Text :=
  match t with
  | [] => []
  | c :: r =>
    match p, afterStart? p (c :: r) with
    | _ :: _, some _ => q ++ replace p q (r.drop (p.length - 1))
    | _, _ => c :: replace p q r
termination_by t.length
decreasing_by all_goals simp; try omega

/-- Drops a trailing run of code points that satisfy `f`. -/
def trimEnd (f : CodePoint → Bool) (t : Text) : Text := (t.reverse.dropWhile f).reverse

def trim (f : CodePoint → Bool) (t : Text) : Text := trimEnd f (t.dropWhile f)

def asciiLower (t : Text) : Text :=
  t.map fun c => if c.isUpper then CodePoint.ofNat (c.val + 32) else c

/-- Reads carriage returns, alone or before a line feed, as line feeds; `cr` tells that a carriage
return came right before. -/
def unifyNewlinesFrom (cr : Bool) : Text → Text
  | [] => []
  | c :: r =>
    if c.val = 13 then 10 :: unifyNewlinesFrom true r
    else if c.val = 10 && cr then unifyNewlinesFrom false r
    else c :: unifyNewlinesFrom false r

def unifyNewlines (t : Text) : Text := unifyNewlinesFrom false t

def digits? (base : Nat) (t : Text) : Option Nat :=
  if t.isEmpty then none
  else t.foldl (fun acc c => do return (← acc) * base + (← c.digit? base)) (some 0)

/-- Order by code point, a beginning before what it begins. -/
def less : Text → Text → Bool
  | [], [] => false
  | [], _ :: _ => true
  | _ :: _, [] => false
  | a :: r, b :: s => if a.val < b.val then true else if b.val < a.val then false else less r s

/-- Whether a text can be read by position as decimal digits only. -/
def allDigits (t : Text) : Bool := !t.isEmpty && t.all (·.isDigit)

/-! ## UTF-16 units -/

/-- The units of one code point: a supplementary one takes two surrogates. -/
def unitsOf (c : CodePoint) : List Nat :=
  if c.val < 0x10000 then [c.val]
  else [0xD800 + (c.val - 0x10000) / 0x400, 0xDC00 + (c.val - 0x10000) % 0x400]

def units16 (t : Text) : List Nat := t.flatMap unitsOf

/-- Joins each high surrogate with a low one right after it. -/
def joinSurrogates : Text → Text
  | [] => []
  | [c] => [c]
  | c :: d :: r =>
    if c.isHighSurrogate && d.isLowSurrogate then
      CodePoint.ofSurrogates c d :: joinSurrogates r
    else c :: joinSurrogates (d :: r)

def ofUnits16 (us : List Nat) : Text := joinSurrogates (us.map CodePoint.ofNat)

end Text
end ConfigLoader
