import ConfigLoader.Proofs.Json.Lines
import ConfigLoader.Worker

/-! # Input in pieces

A worker gets its input in pieces that need not end where lines do. It reads the same lines however
the input is cut, and what it writes does not depend on the cuts, unless its handshake fails: such a
worker ends with the piece that the settings come in.
-/
namespace ConfigLoader
open Json (OneLine)

/-! ## Lines of texts -/

/-- A text without carriage returns, so that no end of a line can be cut in two. -/
def Text.NoReturn (t : Text) : Prop := ∀ c ∈ t, c.val ≠ 13

namespace Text

theorem NoReturn.tail {c : CodePoint} {t : Text} (h : NoReturn (c :: t)) : NoReturn t :=
  fun d hd => h d (List.mem_cons_of_mem _ hd)

theorem NoReturn.left {s t : Text} (h : NoReturn (s ++ t)) : NoReturn s :=
  fun c hc => h c (List.mem_append_left _ hc)

theorem NoReturn.right {s t : Text} (h : NoReturn (s ++ t)) : NoReturn t :=
  fun c hc => h c (List.mem_append_right _ hc)

theorem splitLines_cons {c : CodePoint} {t : Text} (h : NoReturn (c :: t)) (line : Text) :
    splitLines line (c :: t) =
      if c.val = 10 then (line.reverse :: (splitLines [] t).1, (splitLines [] t).2)
      else splitLines (c :: line) t := by
  have hc : c.val ≠ 13 := h c (List.mem_cons_self ..)
  cases t with
  | nil =>
    rw [splitLines]
    by_cases h10 : c.val = 10
    · simp only [h10, decide_true, Bool.true_or, if_true, splitLines, List.reverse_nil]
    · simp only [h10, hc, decide_false, Bool.or_self, Bool.false_eq_true, if_false, splitLines]
  | cons d t =>
    rw [splitLines]
    by_cases h10 : c.val = 10
    · have h13 : ¬(10 = 13) := by decide
      simp only [h10, h13, decide_false, Bool.false_and, Bool.false_eq_true, if_false, decide_true,
        Bool.true_or, if_true]
    · simp only [h10, hc, decide_false, Bool.false_and, Bool.or_self, Bool.false_eq_true, if_false]

/-- The lines of two texts are those of the first, and those of the second with what no end followed
in the first before it. -/
theorem splitLines_append {s t : Text} (h : NoReturn (s ++ t)) (line : Text) :
    splitLines line (s ++ t) =
      ((splitLines line s).1 ++ (splitLines (splitLines line s).2.reverse t).1,
        (splitLines (splitLines line s).2.reverse t).2) := by
  induction s generalizing line with
  | nil => simp only [List.nil_append, splitLines, List.reverse_reverse]
  | cons c s ih =>
    have hs : NoReturn (c :: s) := NoReturn.left (t := t) h
    rw [List.cons_append, splitLines_cons hs]
    rw [List.cons_append] at h
    rw [splitLines_cons h]
    by_cases h10 : c.val = 10
    · simp only [h10, if_true, ih h.tail, List.cons_append]
    · simp only [h10, if_false, ih h.tail]

def ofLines (lines : List Text) : Text := lines.flatMap fun l => l ++ [10]

theorem noReturn_ofLines {lines : List Text} (h : ∀ l ∈ lines, OneLine l) :
    NoReturn (ofLines lines) := by
  intro c hc
  obtain ⟨l, hl, hcl⟩ := List.mem_flatMap.mp hc
  rcases List.mem_append.mp hcl with hcl | hcl
  · exact (h l hl c hcl).2
  · rw [List.mem_singleton.mp hcl]
    decide

theorem splitLines_ofLines {lines : List Text} (h : ∀ l ∈ lines, OneLine l) :
    splitLines [] (ofLines lines) = (lines, []) := by
  induction lines with
  | nil => rfl
  | cons l ls ih =>
    have hls : ∀ x ∈ ls, OneLine x := fun x hx => h x (List.mem_cons_of_mem _ hx)
    have hn := noReturn_ofLines h
    rw [ofLines, List.flatMap_cons] at hn ⊢
    rw [splitLines_append hn, Json.splitLines_oneLine (h l (List.mem_cons_self ..))]
    have hi := ih hls
    rw [ofLines] at hi
    simp only [List.reverse_nil, hi, List.nil_append, List.singleton_append]

end Text

namespace Worker

/-! ## Lines -/

variable {site : Site} {w : Worker}

theorem greet_pending (settings : Value) (rest : Text) :
    greet site settings { w with pending := rest } =
      ((greet site settings w).1, { (greet site settings w).2 with pending := rest }) := by
  unfold greet
  dsimp only
  rcases runLoad (plainSurroundings site (site.compiler w.here)) settings
    (givenDirectory w.here settings) w.state with ⟨r, s⟩
  cases r with
  | ok exported =>
    dsimp only
    cases readyFrame site.engine s exported <;> rfl
  | error e =>
    cases e with
    | exited code => rfl
    | found es => rfl
    | raised v =>
      dsimp only
      cases refusal site.engine s settings v <;> rfl

theorem handle_pending (c : Modules.Surroundings) (session : Session) (request : Value)
    (rest : Text) :
    handle site c session request { w with pending := rest } =
      ((handle site c session request w).1,
        { (handle site c session request w).2 with pending := rest }) := by
  have hfile : requestFile? { w with pending := rest } session.directory request =
      requestFile? w session.directory request := rfl
  unfold handle
  rw [hfile]
  cases requestFile? w session.directory request with
  | none => rfl
  | some file =>
    dsimp only
    rcases evaluate c session.pipeline site.script file (sourceOf (site.compiler w.here) request)
      w.state with ⟨r, s⟩
    dsimp only
    split <;> rfl

theorem readLine_pending (line rest : Text) :
    readLine site line { w with pending := rest } =
      ((w.readLine site line).1, { (w.readLine site line).2 with pending := rest }) := by
  rcases w with ⟨here, phase, state, p⟩
  unfold readLine
  by_cases hb : line.isBlank = true
  · simp only [hb, if_true]
  · simp only [hb, Bool.false_eq_true, if_false]
    cases phase with
    | ended code => rfl
    | waiting =>
      cases Json.Strict.parse line with
      | error e => rfl
      | ok v =>
        by_cases ho : isObject v = true
        · simp only [ho, if_true]
          exact greet_pending (w := ⟨here, .waiting, state, p⟩) v rest
        · simp only [ho, Bool.false_eq_true, if_false]
          rfl
    | ready session =>
      cases Json.Strict.parse line with
      | error e => rfl
      | ok v => exact handle_pending (w := ⟨here, .ready session, state, p⟩) _ session v rest
    | failed session =>
      cases Json.Strict.parse line with
      | error e => rfl
      | ok v => exact handle_pending (w := ⟨here, .failed session, state, p⟩) _ session v rest

theorem readLines_pending (lines : List Text) (rest : Text) :
    readLines site { w with pending := rest } lines =
      ((w.readLines site lines).1, { (w.readLines site lines).2 with pending := rest }) := by
  induction lines generalizing w with
  | nil => rfl
  | cons l ls ih => simp only [readLines, readLine_pending, ih]

theorem readLines_append (ls ls' : List Text) :
    w.readLines site (ls ++ ls') =
      ((w.readLines site ls).1 ++ ((w.readLines site ls).2.readLines site ls').1,
        ((w.readLines site ls).2.readLines site ls').2) := by
  induction ls generalizing w with
  | nil => rfl
  | cons l ls ih => simp only [List.cons_append, readLines, ih, List.append_assoc]

@[simp] theorem readLines_filter (lines : List Text) :
    w.readLines site (lines.filter fun l => !l.isBlank) = w.readLines site lines := by
  induction lines generalizing w with
  | nil => rfl
  | cons l ls ih =>
    cases hb : l.isBlank with
    | true =>
      have hskip : w.readLine site l = ([], w) := by simp only [readLine, hb, if_true]
      simp only [List.filter_cons, hb, Bool.not_true, Bool.false_eq_true, if_false, readLines,
        hskip, List.nil_append, ih]
    | false =>
      simp only [List.filter_cons, hb, Bool.not_false, if_true, readLines, ih]

/-! ## Ended workers -/

section Ended
variable {code : Nat}

theorem readLine_ended (hw : w.phase = .ended code) (line : Text) :
    w.readLine site line = ([], w) := by
  unfold readLine
  rw [hw]
  split <;> rfl

theorem readLines_ended (hw : w.phase = .ended code) (lines : List Text) :
    w.readLines site lines = ([], w) := by
  induction lines with
  | nil => rfl
  | cons l ls ih => simp only [readLines, readLine_ended hw, ih, List.nil_append]

theorem receive_ended (site : Site) (hw : w.phase = .ended code) (piece : Text) :
    ∃ rest, w.receive site piece = ([], { w with pending := rest }) := by
  rcases hp : Text.splitLines w.pending.reverse piece with ⟨lines, rest⟩
  have hread : readLines site { w with pending := rest } lines =
      ([], { w with pending := rest }) :=
    readLines_ended (w := { w with pending := rest }) hw lines
  refine ⟨rest, ?_⟩
  simp only [receive, hp, hread, settle]
  rw [hw]

theorem finish_ended (site : Site) (hw : w.phase = .ended code) :
    (w.finish site).1 = [] ∧ (w.finish site).2.exitCode? = some code := by
  simp only [finish, readLine_ended hw, ite_self, hw, exitCode?, and_self]

end Ended

/-! ## Pieces -/

theorem settle_pending (rest : Text) :
    settle { w with pending := rest } = { w.settle with pending := rest } := by
  rcases w with ⟨here, phase, state, p⟩
  cases phase <;> rfl

/-- The first piece that a worker takes: its lines but for the blank ones are read, and what no end
follows is left over. -/
theorem receive_start (site : Site) (here : Location) {piece rest : Text} {lines : List Text}
    (hp : Text.splitLines [] piece = (lines, rest)) :
    (start site.script here).receive site piece =
      (((start site.script here).readLines site (lines.filter fun l => !l.isBlank)).1,
        { ((start site.script here).readLines site (lines.filter fun l => !l.isBlank)).2.settle with
          pending := rest }) := by
  have hpending : (start site.script here).pending = [] := rfl
  simp only [receive, hpending, List.reverse_nil, hp, readLines_pending, settle_pending,
    readLines_filter]

def receiveAll (site : Site) (w : Worker) : List Text → List Text × Worker
  | [] => ([], w)
  | p :: ps =>
    let (fs, w) := w.receive site p
    let (gs, w) := receiveAll site w ps
    (fs ++ gs, w)

/-- All that a worker that is started in a directory writes, and the code that it ends with, when
its input comes in pieces and ends after them. -/
def converse (site : Site) (here : Location) (pieces : List Text) : List Text × Option Nat :=
  let (fs, w) := receiveAll site (start site.script here) pieces
  let (gs, w) := w.finish site
  (fs ++ gs, w.exitCode?)

theorem receiveAll_ended (site : Site) {code : Nat} (hw : w.phase = .ended code)
    (pieces : List Text) :
    ∃ rest, receiveAll site w pieces = ([], { w with pending := rest }) := by
  induction pieces generalizing w with
  | nil => exact ⟨w.pending, rfl⟩
  | cons p ps ih =>
    obtain ⟨rest, hp⟩ := receive_ended site hw p
    obtain ⟨last, hps⟩ := ih (w := { w with pending := rest }) hw
    exact ⟨last, by simp only [receiveAll, hp, hps, List.nil_append]⟩

theorem converse_ended {here : Location} {piece : Text} {fs : List Text} {code : Nat}
    (hr : (start site.script here).receive site piece = (fs, w)) (hw : w.phase = .ended code)
    (later : List Text) :
    converse site here (piece :: later) = (fs, some code) ∧
      (receiveAll site (start site.script here) (piece :: later)).2.state = w.state := by
  obtain ⟨rest, hlater⟩ := receiveAll_ended site hw later
  have hall : receiveAll site (start site.script here) (piece :: later) =
      (fs, { w with pending := rest }) := by
    simp only [receiveAll, hr, hlater, List.append_nil]
  obtain ⟨h1, h2⟩ := finish_ended site (w := { w with pending := rest }) hw
  exact ⟨by simp only [converse, hall, h1, h2, List.append_nil], by rw [hall]⟩

/-- A worker that has nothing to settle wherever a piece may end. -/
def Settled (site : Site) (w : Worker) (lines : List Text) : Prop :=
  ∀ ls, ls <+: lines → (w.readLines site ls).2.settle = (w.readLines site ls).2

theorem Settled.drop {ls ls' : List Text} (h : Settled site w (ls ++ ls')) :
    Settled site (w.readLines site ls).2 ls' := by
  intro ms hms
  have hs := h (ls ++ ms) ((List.prefix_append_right_inj ls).mpr hms)
  rw [readLines_append] at hs
  exact hs

/-- However the input is cut, a worker that has nothing to settle reads its lines. By induction on
the pieces; what is left over of one is the beginning of the next one's first line. -/
theorem receiveAll_eq {pieces : List Text} (hn : Text.NoReturn pieces.flatten)
    (hs : Settled site w (Text.splitLines w.pending.reverse pieces.flatten).1) :
    receiveAll site w pieces =
      ((w.readLines site (Text.splitLines w.pending.reverse pieces.flatten).1).1,
        { (w.readLines site (Text.splitLines w.pending.reverse pieces.flatten).1).2 with
          pending := (Text.splitLines w.pending.reverse pieces.flatten).2 }) := by
  induction pieces generalizing w with
  | nil =>
    simp only [receiveAll, List.flatten_nil, Text.splitLines, List.reverse_reverse, readLines]
  | cons p ps ih =>
    rw [List.flatten_cons] at hn hs ⊢
    rw [Text.splitLines_append hn] at hs ⊢
    rcases hp : Text.splitLines w.pending.reverse p with ⟨ls, rest⟩
    rw [hp] at hs
    dsimp only at hs ⊢
    have hsettled : (w.readLines site ls).2.settle = (w.readLines site ls).2 :=
      hs ls (List.prefix_append ..)
    have hreceive : w.receive site p =
        ((w.readLines site ls).1, { (w.readLines site ls).2 with pending := rest }) := by
      simp only [receive, hp, readLines_pending, settle_pending, hsettled]
    have hnext : Settled site { (w.readLines site ls).2 with pending := rest }
        (Text.splitLines rest.reverse ps.flatten).1 := by
      intro ms hms
      rw [readLines_pending]
      rw [settle_pending, hs.drop ms hms]
    simp only [receiveAll, hreceive, ih hn.right hnext, readLines_append, readLines_pending]

theorem converse_eq {here : Location} {lines pieces : List Text} {fs : List Text}
    (ho : ∀ l ∈ lines, OneLine l) (hp : pieces.flatten = Text.ofLines lines)
    (hs : Settled site (start site.script here) lines)
    (hr : (start site.script here).readLines site lines = (fs, w)) :
    converse site here pieces = (fs ++ (w.finish site).1, (w.finish site).2.exitCode?) := by
  have hn : Text.NoReturn pieces.flatten := by
    rw [hp]
    exact Text.noReturn_ofLines ho
  have hlines : Text.splitLines (start site.script here).pending.reverse pieces.flatten =
      (lines, []) := by
    rw [hp]
    exact Text.splitLines_ofLines ho
  have hall := receiveAll_eq hn (by rw [hlines]; exact hs)
  have hpending : { w with pending := [] } = w := by
    have h := @readLines_pending site (start site.script here) lines []
    have h := congrArg Prod.snd (hr.symm.trans h)
    rw [hr] at h
    exact h.symm
  rw [hlines, hr] at hall
  simp only [converse, hall, hpending]

end Worker
end ConfigLoader
