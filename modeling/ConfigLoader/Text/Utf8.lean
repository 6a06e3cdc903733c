import ConfigLoader.Text

/-! # UTF-8

Reading bytes one character at a time. A fault names the bytes that cannot begin or continue a
character; strict reading stops there, lenient reading puts the replacement character.
-/
namespace ConfigLoader.Text.Utf8

inductive Reason
  | startByte
  | continuationByte
  | endOfData
  deriving DecidableEq, Repr

def Reason.message : Reason → String
  | .startByte => "invalid start byte"
  | .continuationByte => "invalid continuation byte"
  | .endOfData => "unexpected end of data"

structure Fault where
  start : Nat
  count : Nat
  reason : Reason
  byte : UInt8
  deriving DecidableEq, Repr

inductive Step
  | char (c : CodePoint) (length : Nat)
  | bad (count : Nat) (reason : Reason)
  deriving DecidableEq, Repr

def isTail (b : UInt8) : Bool := 0x80 ≤ b.toNat && b.toNat ≤ 0xBF

/-- The least and the greatest second byte after a first byte of three or four bytes. -/
def secondRange (b : UInt8) : Nat × Nat :=
  match b.toNat with
  | 0xE0 => (0xA0, 0xBF)
  | 0xED => (0x80, 0x9F)
  | 0xF0 => (0x90, 0xBF)
  | 0xF4 => (0x80, 0x8F)
  | _ => (0x80, 0xBF)

def isSecond (first second : UInt8) : Bool :=
  (secondRange first).1 ≤ second.toNat && second.toNat ≤ (secondRange first).2

def low (b : UInt8) : Nat := b.toNat % 0x40

/-- The first character of a byte list that starts with `b`. -/
def step (b : UInt8) (r : List UInt8) : Step :=
  let n := b.toNat
  if n < 0x80 then .char (.ofNat n) 1
  else if n < 0xC2 || 0xF4 < n then .bad 1 .startByte
  else if n < 0xE0 then
    match r with
    | [] => .bad 1 .endOfData
    | c :: _ =>
      if isTail c then .char (.ofNat (n % 0x20 * 0x40 + low c)) 2 else .bad 1 .continuationByte
  else if n < 0xF0 then
    match r with
    | [] => .bad 1 .endOfData
    | c :: r =>
      if !isSecond b c then .bad 1 .continuationByte
      else match r with
        | [] => .bad 2 .endOfData
        | d :: _ =>
          if isTail d then .char (.ofNat (n % 0x10 * 0x1000 + low c * 0x40 + low d)) 3
          else .bad 2 .continuationByte
  else
    match r with
    | [] => .bad 1 .endOfData
    | c :: r =>
      if !isSecond b c then .bad 1 .continuationByte
      else match r with
        | [] => .bad 2 .endOfData
        | d :: r =>
          if !isTail d then .bad 2 .continuationByte
          else match r with
            | [] => .bad 3 .endOfData
            | e :: _ =>
              if isTail e then
                .char (.ofNat (n % 8 * 0x40000 + low c * 0x1000 + low d * 0x40 + low e)) 4
              else .bad 3 .continuationByte

/-- Strict reading, from byte position `at` on, after the text `acc` in reverse. -/
def decodeFrom (start : Nat) (acc : List CodePoint) (bytes : List UInt8) : Except Fault Text :=
  match bytes with
  | [] => .ok acc.reverse
  | b :: r =>
    match step b r with
    | .char c n => decodeFrom (start + n) (c :: acc) (r.drop (n - 1))
    | .bad n why => .error ⟨start, n, why, b⟩
termination_by bytes.length
decreasing_by simp only [List.length_drop, List.length_cons]; omega

def decode (bytes : List UInt8) : Except Fault Text := decodeFrom 0 [] bytes

def decodeLenientFrom (acc : List CodePoint) (bytes : List UInt8) : Text :=
  match bytes with
  | [] => acc.reverse
  | b :: r =>
    match step b r with
    | .char c n => decodeLenientFrom (c :: acc) (r.drop (n - 1))
    | .bad n _ => decodeLenientFrom (0xFFFD :: acc) (r.drop (n - 1))
termination_by bytes.length
decreasing_by all_goals simp only [List.length_drop, List.length_cons]; omega

/-- Reading that puts the replacement character for what is no character. -/
def decodeLenient (bytes : List UInt8) : Text := decodeLenientFrom [] bytes

def Fault.message (f : Fault) : Text :=
  let place : Text :=
    if f.count = 1 then
      "byte 0x" ++ Text.hex 2 f.byte.toNat ++ " in position " ++ Text.ofNat f.start
    else
      "bytes in position " ++ Text.ofNat f.start ++ "-" ++ Text.ofNat (f.start + f.count - 1)
  "'utf-8' codec can't decode " ++ place ++ ": " ++ f.reason.message

def encodeOne (c : CodePoint) : List UInt8 :=
  let n := c.val
  let tail (k : Nat) : UInt8 := UInt8.ofNat (0x80 + n / 0x40 ^ k % 0x40)
  if n < 0x80 then [UInt8.ofNat n]
  else if n < 0x800 then [UInt8.ofNat (0xC0 + n / 0x40), tail 0]
  else if n < 0x10000 then [UInt8.ofNat (0xE0 + n / 0x1000), tail 1, tail 0]
  else [UInt8.ofNat (0xF0 + n / 0x40000), tail 2, tail 1, tail 0]

/-- Writing; a surrogate takes three bytes like its neighbours. -/
def encode (t : Text) : List UInt8 := t.flatMap encodeOne

end ConfigLoader.Text.Utf8
