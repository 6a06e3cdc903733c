import ConfigLoader.Json.Reader
import ConfigLoader.Json.Strict.Error

/-! # Reading strict JSON

A strict reader: only what the standard allows, and every number is one of 64 bits. A repeated name
keeps its first place and its last value.
-/
namespace ConfigLoader.Json.Strict

def stop {α : Type} (p : Place) (e : Problem) : Except Error α := .error ⟨e, p.index⟩

/-- The fault of a character that cannot start a value or go on with a word. -/
def unexpected {α : Type} (p : Place) : Except Error α :=
  stop p (match p.rest with
    | [] => .unexpectedEnd
    | c :: _ =>
      if c = '"' then .unexpectedText
      else if c = '-' || c.isDigit then .unexpectedNumber
      else .unexpectedCharacter)

def isHead (c : Char) (p : Place) : Bool := p.rest.head? = some (CodePoint.ofChar c)

def readHex (p : Place) : Nat → Nat → Except Error (Nat × Place)
  | 0, acc => .ok (acc, p)
  | n + 1, acc =>
    match p.rest.head?.bind (·.digit? 16) with
    | some d => readHex (p.skip 1) n (acc * 16 + d)
    | none => stop p .badUnicodeEscape

/-- The text of a string after its opening quote; `acc` holds what was read, in reverse. -/
def readString : Nat → Text → Place → Except Error (Text × Place)
  | 0, _, p => stop p .unterminatedText
  | fuel + 1, acc, p =>
    match p.rest with
    | [] => stop p .unterminatedText
    | c :: r =>
      if c = '"' then .ok (Text.joinSurrogates acc.reverse, p.skip 1)
      else if c = '\\' then
        match r with
        | [] => unexpected (p.skip 1)
        | e :: _ =>
          if e = 'u' then do
            let (n, q) ← readHex (p.skip 2) 4 0
            readString fuel (.ofNat n :: acc) q
          else match simpleEscape? e with
            | some d => readString fuel (d :: acc) (p.skip 2)
            | none =>
              if 0xFF < e.val then unexpected (p.skip 1) else stop (p.skip 1) .badEscape
      else if c.val < 32 then stop p .controlCharacter
      else readString fuel (c :: acc) (p.skip 1)

def readText (p : Place) : Except Error (Text × Place) :=
  readString (p.rest.length + 1) [] (p.skip 1)

def digitRun (p : Place) : Nat := (p.rest.takeWhile (·.isDigit)).length

/-- The place after the whole digits of a number: a zero stands alone. -/
def skipWhole (negative : Bool) (p : Place) : Except Error Place :=
  match digitRun p with
  | 0 => if negative then stop p .missingDigits else unexpected p
  | n + 1 =>
    if isHead '0' p then if n = 0 then .ok (p.skip 1) else stop (p.skip 1) .unexpectedNumber
    else .ok (p.skip (n + 1))

def skipFraction (p : Place) : Except Error Place :=
  if isHead '.' p then
    let q := p.skip 1
    if digitRun q = 0 then stop q .missingFraction else .ok (q.skip (digitRun q))
  else .ok p

def skipExponent (p : Place) : Except Error Place :=
  if isHead 'e' p || isHead 'E' p then
    let q := p.skip 1
    let q := if isHead '+' q || isHead '-' q then q.skip 1 else q
    if digitRun q = 0 then stop q .missingExponent else .ok (q.skip (digitRun q))
  else .ok p

def readNumber (p : Place) : Except Error (Value × Place) := do
  let negative := isHead '-' p
  let q ← skipWhole negative (if negative then p.skip 1 else p)
  let q ← skipExponent (← skipFraction q)
  let text := p.rest.take (q.index - p.index)
  match number? text with
  | some n => return (.float n.float, q)
  | none => unexpected p

def readWord (word : Text) (v : Value) (p : Place) : Except Error (Value × Place) :=
  let shared := (List.zip word p.rest).takeWhile (fun c => c.1 == c.2) |>.length
  if shared = word.length then .ok (v, p.skip shared) else unexpected (p.skip shared)

mutual

def readValue : Nat → Place → Except Error (Value × Place)
  | 0, p => unexpected p
  | fuel + 1, p =>
    match p.rest with
    | [] => unexpected p
    | c :: _ =>
      if c = '"' then (readText p).map fun (t, q) => (.text t, q)
      else if c = '[' then
        let q := skipSpace (p.skip 1)
        if isHead ']' q then .ok (.list [], q.skip 1)
        else (readItems fuel [] q).map fun (vs, q) => (.list vs, q)
      else if c = '\x7b' then
        let q := skipSpace (p.skip 1)
        if isHead '\x7d' q then .ok (.mapping [], q.skip 1)
        else (readMembers fuel .expectedNameOrBrace [] q).map fun (es, q) => (.mapping es, q)
      else if c = 't' then readWord "true" (.bool true) p
      else if c = 'f' then readWord "false" (.bool false) p
      else if c = 'n' then readWord "null" .null p
      else if c = '-' || c.isDigit then readNumber p
      else unexpected p

/-- The items of a list up to its closing bracket; `acc` holds those before, in reverse. -/
def readItems : Nat → List Value → Place → Except Error (List Value × Place)
  | 0, _, p => unexpected p
  | fuel + 1, acc, p => do
    let (v, q) ← readValue fuel p
    let q := skipSpace q
    if isHead ',' q then readItems fuel (v :: acc) (skipSpace (q.skip 1))
    else if isHead ']' q then .ok ((v :: acc).reverse, q.skip 1)
    else stop q .expectedCommaOrBracket

/-- The members of a mapping up to its closing brace, after those in `es`; a name that is missing
is the given problem. -/
def readMembers : Nat → Problem → Entries → Place → Except Error (Entries × Place)
  | 0, _, _, p => unexpected p
  | fuel + 1, missing, es, p =>
    if isHead '"' p then do
      let (name, q) ← readText p
      let q := skipSpace q
      if isHead ':' q then
        let (v, q) ← readValue fuel (skipSpace (q.skip 1))
        let q := skipSpace q
        let es := es.put (.text name) v
        if isHead ',' q then readMembers fuel .expectedName es (skipSpace (q.skip 1))
        else if isHead '\x7d' q then .ok (es, q.skip 1)
        else stop q .expectedCommaOrBrace
      else stop q .expectedColon
    else stop p missing

end

def parse (t : Text) : Except Error Value := do
  let (v, p) ← readValue (2 * t.length + 2) (skipSpace ⟨0, t⟩)
  let p := skipSpace p
  if p.rest.isEmpty then .ok v else stop p .extraText

def parse? (t : Text) : Option Value := (parse t).toOption

end ConfigLoader.Json.Strict
