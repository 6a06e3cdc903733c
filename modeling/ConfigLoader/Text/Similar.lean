import ConfigLoader.Text

/-! # Similar texts

Two texts are alike as far as they share runs: the longest run that stands in both, and further runs
before it and after it. A text is close to another when the shared part makes up six tenths of both.
-/
namespace ConfigLoader.Text

/-- The length of the common beginning of two texts. -/
def sharedStart : Text → Text → Nat
  | a :: r, b :: s => if a = b then sharedStart r s + 1 else 0
  | _, _ => 0

/-- A run that stands in two texts, at a place in each. -/
structure Run where
  left : Nat
  right : Nat
  size : Nat
  deriving DecidableEq, Repr

/-- The longest run; of several, the one that is first in the left text, and then in the right. -/
def longestRun (s t : Text) : Run :=
  (List.range s.length).foldl (fun best i =>
    (List.range t.length).foldl (fun best j =>
      let n := sharedStart (s.drop i) (t.drop j)
      if best.size < n then ⟨i, j, n⟩ else best) best) ⟨0, 0, 0⟩

/-- The number of characters in shared runs, over at most `fuel` levels. -/
def sharedSize : Nat → Text → Text → Nat
  | 0, _, _ => 0
  | fuel + 1, s, t =>
    let r := longestRun s t
    if r.size = 0 then 0
    else
      r.size + sharedSize fuel (s.take r.left) (t.take r.right) +
        sharedSize fuel (s.drop (r.left + r.size)) (t.drop (r.right + r.size))

structure Likeness where
  text : Text
  shared : Nat
  total : Nat

def likeness (word t : Text) : Likeness :=
  ⟨t, sharedSize t.length t word, t.length + word.length⟩

def Likeness.isClose (l : Likeness) : Bool := 3 * l.total ≤ 10 * l.shared

/-- Whether a text is more like the word than another is; of equals, the later text. -/
def Likeness.exceeds (a b : Likeness) : Bool :=
  let m := a.shared * b.total
  let n := b.shared * a.total
  if m = n then Text.less b.text a.text else n < m

def offerLimit : Nat := 3

def closeTo (word : Text) (ts : List Text) : List Text :=
  let close := (ts.map (likeness word)).filter Likeness.isClose
  let best := (close.mergeSort fun a b => a.exceeds b).take offerLimit
  (best.map (·.text)).mergeSort fun a b => !Text.less b a

end ConfigLoader.Text
