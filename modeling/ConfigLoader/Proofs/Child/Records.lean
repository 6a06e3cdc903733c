import ConfigLoader.Child

/-! # Records of processes

Much of what is done with a process is made of actions on it alone, and respects every relation between
worlds that these respect. The same processes can be run with records of what was done: a trace of all
events, a ledger of what each process took and gave, and annals of all actions with how they ended.
-/
namespace ConfigLoader.Child

/-! ## Traces

For traced processes one such relation is that only actions on the process were added to the trace.
-/

section
variable {W : Type}

/-- A preorder on worlds that every action on a process respects. -/
structure Respected (ops : ChildOps W) (h : Handle) (R : W → W → Prop) : Prop where
  refl : ∀ w, R w w
  trans : ∀ {u v w}, R u v → R v w → R u w
  act : ∀ a w, R w (ops.act h a w).2

def Event.IsOn (h : Handle) : Event → Prop
  | .start _ => False
  | .act k _ => k = h

namespace Traced

def Adds (p : Event → Prop) (t u : Traced W) : Prop :=
  ∃ es, u.events = es ++ t.events ∧ ∀ e ∈ es, p e

theorem Adds.refl (p : Event → Prop) (t : Traced W) : Adds p t t := ⟨[], rfl, by simp⟩

theorem Adds.trans {p : Event → Prop} {t u v : Traced W} (htu : Adds p t u) (huv : Adds p u v) :
    Adds p t v := by
  obtain ⟨es, he, hp⟩ := htu
  obtain ⟨fs, hf, hq⟩ := huv
  refine ⟨fs ++ es, by rw [hf, he, List.append_assoc], ?_⟩
  intro e hm
  rcases List.mem_append.mp hm with hm | hm
  · exact hq e hm
  · exact hp e hm

theorem act_adds (ops : ChildOps W) (h : Handle) (a : Action) (t : Traced W) :
    Adds (Event.IsOn h) t ((traced ops).act h a t).2 := by
  refine ⟨[.act h a], rfl, ?_⟩
  intro e he
  rw [List.mem_singleton.mp he]
  rfl

theorem adds_respected (ops : ChildOps W) (h : Handle) :
    Respected (traced ops) h (Adds (Event.IsOn h)) where
  refl := Adds.refl _
  trans := Adds.trans
  act a t := act_adds ops h a t

@[simp] theorem start_events (ops : ChildOps W) (c : Command) (t : Traced W) :
    ((traced ops).start c t).2.events = .start c :: t.events := rfl

end Traced

end

/-! ## Ledgers

A ledger has a book for each process that was started: the frames that the process took, and the
lines that it gave. A frame whose writing failed was not taken, and a line whose reading failed was
not given. Processes are known by their books, so that no two of them share a handle.
-/

structure Book where
  handle : Handle
  /-- The last frame first. -/
  taken : List Text
  /-- The last line first. -/
  given : List Text

/-- Enters an action that succeeded with a line. -/
def Book.enter (a : Action) (line : Text) (b : Book) : Book :=
  match a with
  | .write text => { b with taken := text :: b.taken }
  | .readLine => { b with given := line :: b.given }
  | _ => b

structure Ledger (W : Type) where
  world : W
  books : List Book

def ledger {W : Type} (ops : ChildOps W) : ChildOps (Ledger W) where
  limits := ops.limits
  start c t :=
    match ops.start c t.world with
    | (.ok h, w) => (.ok t.books.length, ⟨w, t.books ++ [⟨h, [], []⟩]⟩)
    | (.error f, w) => (.error f, ⟨w, t.books⟩)
  act k a t :=
    match t.books[k]? with
    | none => (.ok [], t)
    | some b =>
      match ops.act b.handle a t.world with
      | (.ok line, w) => (.ok line, ⟨w, t.books.set k (b.enter a line)⟩)
      | (.error f, w) => (.error f, ⟨w, t.books⟩)
  hasInput k t := t.books[k]?.any fun b => ops.hasInput b.handle t.world
  hasOutput k t := t.books[k]?.any fun b => ops.hasOutput b.handle t.world
  isRunning k t := t.books[k]?.any fun b => ops.isRunning b.handle t.world
  exitCode k t := t.books[k]?.bind fun b => ops.exitCode b.handle t.world
  number k t := (t.books[k]?.map fun b => ops.number b.handle t.world).getD 0

namespace Ledger
variable {W : Type} {ops : ChildOps W} {h k : Handle} {t u : Ledger W}

/-- A process that was started gets an empty book, behind all others. -/
theorem start_ok {c : Command} (hs : (ledger ops).start c t = (.ok k, u)) :
    k = t.books.length ∧ ∃ g, u.books = t.books ++ [⟨g, [], []⟩] := by
  simp only [ledger] at hs
  rcases e : ops.start c t.world with ⟨r, w⟩
  rw [e] at hs
  cases r <;> cases hs
  exact ⟨rfl, _, rfl⟩

theorem start_error {c : Command} {f : Fault} (hs : (ledger ops).start c t = (.error f, u)) :
    u.books = t.books := by
  simp only [ledger] at hs
  rcases e : ops.start c t.world with ⟨r, w⟩
  rw [e] at hs
  cases r <;> cases hs
  rfl

theorem act_ok {a : Action} {line : Text} {b : Book} (hb : t.books[k]? = some b)
    (ha : (ledger ops).act k a t = (.ok line, u)) : u.books[k]? = some (b.enter a line) := by
  simp only [ledger, hb] at ha
  rcases e : ops.act b.handle a t.world with ⟨r, w⟩
  rw [e] at ha
  cases r <;> cases ha
  exact List.getElem?_set_self (List.getElem?_eq_some_iff.mp hb).1

theorem act_error {a : Action} {f : Fault} (ha : (ledger ops).act k a t = (.error f, u)) :
    u.books = t.books := by
  simp only [ledger] at ha
  cases hb : t.books[k]? with
  | none => rw [hb] at ha; cases ha
  | some b =>
    rw [hb] at ha
    rcases e : ops.act b.handle a t.world with ⟨r, w⟩
    simp only [e] at ha
    cases r <;> cases ha
    rfl

theorem book_respected (ops : ChildOps W) (hk : h ≠ k) :
    Respected (ledger ops) k fun t u => u.books[h]? = t.books[h]? where
  refl _ := rfl
  trans htu huv := huv.trans htu
  act a t := by
    rcases e : (ledger ops).act k a t with ⟨r, u⟩
    cases r with
    | error f => rw [act_error e]
    | ok line =>
      simp only [ledger] at e
      cases hb : t.books[k]? with
      | none => rw [hb] at e; cases e; rfl
      | some b =>
        rw [hb] at e
        rcases e' : ops.act b.handle a t.world with ⟨r, w⟩
        simp only [e'] at e
        cases r <;> cases e
        exact List.getElem?_set_ne (Ne.symm hk)

end Ledger

/-! ## Annals

Annals keep every action on a process, with how it ended. Processes are known by the order in which
they were started, so that no two of them share a handle.
-/

structure Deed where
  action : Action
  result : Except Fault Text
  /-- Whether the process had an input before it. -/
  input : Bool
  /-- Whether the process had an output after it. -/
  output : Bool

structure Annals (W : Type) where
  world : W
  /-- The handles of the processes that were started, in order. -/
  handles : List Handle
  /-- Each with the place of its process; the last one first. -/
  deeds : List (Handle × Deed)

def Annals.hasInput {W : Type} (ops : ChildOps W) (k : Handle) (t : Annals W) : Bool :=
  t.handles[k]?.any fun h => ops.hasInput h t.world

def Annals.hasOutput {W : Type} (ops : ChildOps W) (k : Handle) (t : Annals W) : Bool :=
  t.handles[k]?.any fun h => ops.hasOutput h t.world

/-- The same processes, with annals. -/
def annals {W : Type} (ops : ChildOps W) : ChildOps (Annals W) where
  limits := ops.limits
  start c t :=
    match ops.start c t.world with
    | (.ok h, w) => (.ok t.handles.length, { t with world := w, handles := t.handles ++ [h] })
    | (.error f, w) => (.error f, { t with world := w })
  act k a t :=
    let (r, w) := match t.handles[k]? with
      | some h => ops.act h a t.world
      | none => (.ok [], t.world)
    let u := { t with world := w }
    (r, { u with deeds := (k, ⟨a, r, t.hasInput ops k, u.hasOutput ops k⟩) :: t.deeds })
  hasInput := Annals.hasInput ops
  hasOutput := Annals.hasOutput ops
  isRunning k t := t.handles[k]?.any fun h => ops.isRunning h t.world
  exitCode k t := t.handles[k]?.bind fun h => ops.exitCode h t.world
  number k t := (t.handles[k]?.map fun h => ops.number h t.world).getD 0

namespace Annals
variable {W : Type} {ops : ChildOps W} {j k : Handle} {t u v : Annals W} {es fs : List Deed}

/-- What was done with a process, in order. -/
def course (k : Handle) (t : Annals W) : List Deed :=
  (t.deeds.reverse.filter fun e => e.1 == k).map Prod.snd

theorem course_self (h : u.deeds = (es.map (Prod.mk k)).reverse ++ t.deeds) :
    u.course k = t.course k ++ es := by
  have hk : (es.map (Prod.mk k)).filter (fun e => e.1 == k) = es.map (Prod.mk k) := by
    rw [List.filter_eq_self]
    intro e he
    obtain ⟨d, -, rfl⟩ := List.mem_map.mp he
    exact beq_self_eq_true k
  have hid : (es.map (Prod.mk k)).map Prod.snd = es := by
    rw [List.map_map]
    exact List.map_id es
  rw [course, h, List.reverse_append, List.reverse_reverse, List.filter_append, hk,
    List.map_append, hid]
  rfl

theorem course_other (h : u.deeds = (es.map (Prod.mk k)).reverse ++ t.deeds) (hj : j ≠ k) :
    u.course j = t.course j := by
  have hk : (es.map (Prod.mk k)).filter (fun e => e.1 == j) = [] := by
    rw [List.filter_eq_nil_iff]
    intro e he
    obtain ⟨d, -, rfl⟩ := List.mem_map.mp he
    simpa using Ne.symm hj
  rw [course, h, List.reverse_append, List.reverse_reverse, List.filter_append, hk,
    List.append_nil]
  rfl

theorem course_congr (h : u.deeds = t.deeds) : u.course k = t.course k := by
  rw [course, course, h]

/-- Between two annals some things were done with a process, and no process was started. -/
structure Did (k : Handle) (es : List Deed) (t u : Annals W) : Prop where
  deeds : u.deeds = (es.map (Prod.mk k)).reverse ++ t.deeds
  handles : u.handles = t.handles

theorem Did.refl (k : Handle) (t : Annals W) : Did k [] t t := ⟨rfl, rfl⟩

theorem Did.trans (htu : Did k es t u) (huv : Did k fs u v) : Did k (es ++ fs) t v where
  deeds := by
    rw [huv.deeds, htu.deeds, List.map_append, List.reverse_append, List.append_assoc]
  handles := huv.handles.trans htu.handles

theorem act_did (ops : ChildOps W) (k : Handle) (a : Action) (t : Annals W) :
    Did k [⟨a, ((annals ops).act k a t).1, (annals ops).hasInput k t,
      (annals ops).hasOutput k ((annals ops).act k a t).2⟩] t ((annals ops).act k a t).2 :=
  ⟨rfl, rfl⟩

/-- Between two annals a process was started, behind all others, and some things were done with it. -/
structure Began (es : List Deed) (t u : Annals W) : Prop where
  deeds : u.deeds = (es.map (Prod.mk t.handles.length)).reverse ++ t.deeds
  handles : u.handles.length = t.handles.length + 1

theorem Began.trans (htu : Began es t u) (huv : Did t.handles.length fs u v) :
    Began (es ++ fs) t v where
  deeds := by
    rw [huv.deeds, htu.deeds, List.map_append, List.reverse_append, List.append_assoc]
  handles := by rw [huv.handles, htu.handles]

theorem start_ok {c : Command} (hs : (annals ops).start c t = (.ok k, u)) :
    k = t.handles.length ∧ Began [] t u := by
  simp only [annals] at hs
  rcases e : ops.start c t.world with ⟨r, w⟩
  rw [e] at hs
  cases r <;> cases hs
  exact ⟨rfl, rfl, List.length_append⟩

theorem start_error {c : Command} {f : Fault} (hs : (annals ops).start c t = (.error f, u)) :
    u.deeds = t.deeds ∧ u.handles = t.handles := by
  simp only [annals] at hs
  rcases e : ops.start c t.world with ⟨r, w⟩
  rw [e] at hs
  cases r <;> cases hs
  exact ⟨rfl, rfl⟩

end Annals

end ConfigLoader.Child
