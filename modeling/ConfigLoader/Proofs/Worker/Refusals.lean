import ConfigLoader.Proofs.Worker.Protocol

/-! # Failed handshakes

A worker that meets an error when it loads its compiler package says so in one frame and ends with 1.
It ends only after the piece of input that the line of its settings ends in: requests that follow in
this piece are still answered, each by the error of using a compiler that is not there, up to the
first line that is no request, or whose answer there is no room for. They are neither compiled nor
evaluated, and later pieces are not read. If the settings are the last line and nothing ends it, the
worker ends with 0.
-/
namespace ConfigLoader.Worker
open Json.Canonical (levels)
open Modules (State Surroundings)
open Script (Item)

/-! ## The frame of an error -/

def cannotLoad (package message : Text) : Text :=
  "Cannot load TypeScript module '" ++ package ++ "': " ++ message

/-- The frame that tells of an error by its message, unless this has no text or the settings name the
package by what has none. -/
def errorFrame? (e : Engine) (s : State) (settings : Value) (message : Item) : Option Text :=
  match shown? e s message, shown? e s (fieldItem settings "typescript") with
  | some message, some package => some (frameLine (refused (cannotLoad package message)))
  | _, _ => none

/-- A line of settings with which the package is not loaded because of an error with a message. -/
structure Fails (site : Site) (here : Location) (line : Text) (settings : Value) (message : Item)
    (s : State) : Prop where
  not_blank : line.isBlank = false
  parsed : Json.Strict.parse line = .ok settings
  object : isObject settings = true
  raised : ∃ v name own fields,
    runLoad (plainSurroundings site (site.compiler here)) settings (givenDirectory here settings)
      (startState site.script) = (.error (.raised v), s) ∧
    s.heap.look v = .object (.error name own) fields ∧
    message = given "message" (.text own) fields

theorem refusal_error {e : Engine} {s : State} {v : Item} {name message : Text}
    {fields : List (Text × Item)} (h : s.heap.look v = .object (.error name message) fields)
    (settings : Value) :
    refusal e s settings v = errorFrame? e s settings (given "message" (.text message) fields) := by
  simp only [refusal, messageOf?, h, errorFrame?]
  cases shown? e s (given "message" (.text message) fields) with
  | none => rfl
  | some m => cases shown? e s (fieldItem settings "typescript") <;> rfl

/-- The worker that an error in its handshake leaves, until its piece of input is read. -/
def failing (here : Location) (settings : Value) (s : State) : Worker where
  here := here
  phase := .failed (sessionOf here settings (givenDirectory here settings) (.error noCompiler))
  state := s
  pending := []

theorem Fails.readLine {site : Site} {here : Location} {line : Text} {settings : Value}
    {message : Item} {s : State} (h : Fails site here line settings message s) :
    (start site.script here).readLine site line =
      match errorFrame? site.engine s settings message with
      | some frame => ([frame], failing here settings s)
      | none => ([], { start site.script here with phase := .ended 1, state := s }) := by
  obtain ⟨v, name, own, fields, hload, herror, rfl⟩ := h.raised
  have hstart : runLoad (plainSurroundings site (site.compiler (start site.script here).here))
      settings (givenDirectory (start site.script here).here settings)
      (start site.script here).state = (.error (.raised v), s) := hload
  rw [readLine_settings rfl h.not_blank h.parsed h.object, greet, hstart]
  dsimp only
  rw [refusal_error herror]
  cases errorFrame? site.engine s settings (given "message" (.text own) fields) <;> rfl

/-! ## Requests after it -/

def namesFile (directory request : Value) : Bool :=
  match (field? request "path").bind Value.text? with
  | some path => Path.isAbsolute path || directory.text?.isSome
  | none => false

def unserved (request : Value) : Value :=
  answer (field? request "id") "error" [("name", .text noCompiler.name),
    ("message", .text noCompiler.message),
    ("stack", .text (Item.errorText noCompiler.name noCompiler.message))]

/-- Whether a request names a file and there is room for its answer, which has its number. -/
def isServed (e : Engine) (directory request : Value) : Bool :=
  namesFile directory request && levels (unserved request) ≤ e.frames

/-- The requests of lines up to the first line that is none. -/
def asked (e : Engine) (directory : Value) : List Text → List Value
  | [] => []
  | l :: ls =>
    match Json.Strict.parse l with
    | .ok v => if isServed e directory v then v :: asked e directory ls else []
    | .error _ => []

def Asks (e : Engine) (directory : Value) (line : Text) : Prop :=
  ∃ v, Json.Strict.parse line = .ok v ∧ isServed e directory v = true

theorem asked_eq_nil {e : Engine} {directory : Value} {lines : List Text} :
    asked e directory lines = [] ↔ ∀ l ∈ lines.head?, ¬ Asks e directory l := by
  cases lines with
  | nil => exact ⟨nofun, fun _ => rfl⟩
  | cons l ls =>
    simp only [asked, Asks, List.head?_cons, Option.mem_def, Option.some.injEq, forall_eq']
    cases Json.Strict.parse l with
    | error e => exact ⟨nofun, fun _ => rfl⟩
    | ok v => cases hn : isServed e directory v <;> simp [hn]

theorem requestFile_isSome (w : Worker) (directory request : Value) :
    (requestFile? w directory request).isSome = namesFile directory request := by
  unfold requestFile? namesFile
  cases (field? request "path").bind Value.text? with
  | none => rfl
  | some path =>
    by_cases ha : Path.isAbsolute path = true
    · simp [ha]
    · cases directory.text? <;> simp [ha]

section Unserved
variable {site : Site} {w : Worker} {session : Session} {request : Value}

theorem answer_unserved (e : Engine) (ts : TypeScript) (s : State) (directory : Value) :
    answer? e ts s directory (field? request "id")
      (.error (.raised (Modules.errorItem noCompiler))) = some (unserved request) := rfl

/-- Without a compiler a request for a file is answered by an error, and the worker is left as it was,
or it ends where there is no room for the answer. -/
theorem handle_unserved (hc : session.pipeline.compiler = .error noCompiler)
    (hf : namesFile session.directory request = true) (c : Surroundings) :
    handle site c session request w = if levels (unserved request) ≤ c.engine.frames then
      ([frameLine (unserved request)], w) else ([], { w with phase := .ended 1 }) := by
  obtain ⟨file, hfile⟩ := Option.isSome_iff_exists.mp
    ((requestFile_isSome w session.directory request).trans hf)
  have hcompile : session.pipeline.compile c.tree file (sourceOf (site.compiler w.here) request)
      w.state.projects = (.error (.failed noCompiler), w.state.projects) := by
    simp only [TypeScript.Pipeline.compile, hc]
  simp only [handle, hfile, evaluate_rejected hcompile rfl site.script, Modules.sweep_same,
    answer_unserved, Option.bind_some, frame?]
  by_cases hl : levels (unserved request) ≤ c.engine.frames
  · rw [if_pos hl, if_pos hl]
  · rw [if_neg hl, if_neg hl]
    rfl

theorem handle_nameless (hf : namesFile session.directory request = false) (c : Surroundings) :
    handle site c session request w = ([], w.crash []) := by
  have hfile : requestFile? w session.directory request = none := by
    rw [← Option.isNone_iff_eq_none, ← Option.not_isSome, requestFile_isSome, hf, Bool.not_false]
  simp only [handle, hfile]

/-- A worker whose handshake failed answers a request for a file and is left as it was; any other
line ends it. -/
theorem readLine_failed (site : Site) (hw : w.phase = .failed session)
    (hc : session.pipeline.compiler = .error noCompiler) {line : Text}
    (hb : line.isBlank = false) :
    (∃ v, Json.Strict.parse line = .ok v ∧ isServed site.engine session.directory v = true ∧
      w.readLine site line = ([frameLine (unserved v)], w)) ∨
    (¬ Asks site.engine session.directory line ∧ ∃ notes, w.readLine site line =
      ([], { w with phase := .ended 1, state := { w.state with notes := notes } })) := by
  unfold readLine
  rw [hw]
  simp only [hb, Bool.false_eq_true, if_false]
  cases hp : Json.Strict.parse line with
  | error e =>
    refine .inr ⟨?_, _, rfl⟩
    rintro ⟨v, hv, -⟩
    rw [hp] at hv
    cases hv
  | ok v =>
    have hasks : isServed site.engine session.directory v = false →
        ¬ Asks site.engine session.directory line := by
      rintro hserved ⟨u, hu, hasks⟩
      obtain rfl : v = u := Except.ok.inj (hp.symm.trans hu)
      rw [hserved] at hasks
      cases hasks
    cases hn : namesFile session.directory v with
    | true =>
      have hhandle : handle site (plainSurroundings site (site.compiler w.here)) session v w = _ :=
        handle_unserved hc hn _
      have hengine : (plainSurroundings site (site.compiler w.here)).engine = site.engine := rfl
      rw [hengine] at hhandle
      by_cases hl : levels (unserved v) ≤ site.engine.frames
      · rw [if_pos hl] at hhandle
        exact .inl ⟨v, rfl, by simp [isServed, hn, hl], hhandle⟩
      · rw [if_neg hl] at hhandle
        exact .inr ⟨hasks (by simp [isServed, hl]), w.state.notes, hhandle⟩
    | false => exact .inr ⟨hasks (by simp [isServed, hn]), _, handle_nameless hn _⟩

/-- A worker whose handshake failed answers requests up to the first line that is none, and ends with
no more of them than notes. By induction on the lines: a request leaves the worker as it was. -/
theorem readLines_failed (site : Site) (hw : w.phase = .failed session)
    (hc : session.pipeline.compiler = .error noCompiler) {lines : List Text}
    (hb : ∀ l ∈ lines, l.isBlank = false) :
    (w.readLines site lines).1 =
        (asked site.engine session.directory lines).map (fun v => frameLine (unserved v)) ∧
      ∃ notes, (w.readLines site lines).2.settle =
        { w with phase := .ended 1, state := { w.state with notes := notes } } := by
  induction lines with
  | nil => exact ⟨rfl, w.state.notes, by simp only [readLines, settle, hw]⟩
  | cons l ls ih =>
    obtain ⟨hl, hls⟩ := List.forall_mem_cons.mp hb
    rcases readLine_failed site hw hc hl with ⟨v, hp, hn, hread⟩ | ⟨hasks, notes, hread⟩
    · obtain ⟨h1, h2⟩ := ih hls
      simp only [readLines, hread, h1, asked, hp, hn, if_true, List.map_cons, List.singleton_append]
      exact ⟨trivial, h2⟩
    · have hasked : asked site.engine session.directory (l :: ls) = [] :=
        asked_eq_nil.mpr fun m hm => Option.some.inj hm ▸ hasks
      have hended : ({ w with phase := .ended 1, state := { w.state with notes := notes } } :
          Worker).phase = .ended 1 := rfl
      simp only [readLines, hread, hasked, readLines_ended hended]
      exact ⟨rfl, notes, rfl⟩

end Unserved

/-! ## The piece of the settings -/

section Piece
variable {site : Site} {here : Location} {line : Text} {settings : Value} {message : Item}
  {s : State}

/-- What is written when settings fail: the frame of the error with answers behind it, if there is
such a frame. -/
def written (frame? : Option Text) (answers : List Text) : List Text :=
  frame?.elim [] (· :: answers)

theorem written_one_iff {frame? : Option Text} {answers : List Text} :
    (∃ frame, frame? = some frame ∧ written frame? answers = [frame]) ↔
      frame?.isSome = true ∧ answers = [] := by
  cases frame? with
  | none => exact ⟨nofun, nofun⟩
  | some frame =>
    constructor
    · rintro ⟨_, -, hone⟩
      exact ⟨rfl, (List.cons.inj hone).2⟩
    · rintro ⟨-, rfl⟩
      exact ⟨frame, rfl, rfl⟩

theorem Fails.receive (h : Fails site here line settings message s) {piece : Text}
    {further : List Text}
    (hlines : (Text.splitLines [] piece).1.filter (fun l => !l.isBlank) = line :: further) :
    ∃ notes rest, (start site.script here).receive site piece =
      (written (errorFrame? site.engine s settings message)
          ((asked site.engine (givenDirectory here settings) further).map fun v =>
            frameLine (unserved v)),
        ⟨here, .ended 1, { s with notes := notes }, rest⟩) := by
  rcases hp : Text.splitLines [] piece with ⟨lines, rest⟩
  rw [hp] at hlines
  have hfurther : ∀ l ∈ further, l.isBlank = false := by
    intro l hl
    have hmem : l ∈ lines.filter fun l => !l.isBlank := hlines ▸ List.mem_cons_of_mem _ hl
    simpa using (List.mem_filter.mp hmem).2
  rw [receive_start site here hp, hlines]
  have hread := h.readLine
  cases hf : errorFrame? site.engine s settings message with
  | some frame =>
    obtain ⟨h1, notes, h2⟩ :=
      readLines_failed site (w := failing here settings s) rfl rfl hfurther
    refine ⟨notes, rest, ?_⟩
    rw [hf] at hread
    simp only [readLines, hread, h1, h2]
    rfl
  | none =>
    have hended : ({ start site.script here with phase := .ended 1, state := s } : Worker).phase =
        .ended 1 := rfl
    refine ⟨s.notes, rest, ?_⟩
    rw [hf] at hread
    simp only [readLines, hread, readLines_ended hended]
    rfl

theorem Fails.converse_piece (h : Fails site here line settings message s) {piece : Text}
    {further : List Text}
    (hlines : (Text.splitLines [] piece).1.filter (fun l => !l.isBlank) = line :: further)
    (later : List Text) :
    converse site here (piece :: later) =
        (written (errorFrame? site.engine s settings message)
          ((asked site.engine (givenDirectory here settings) further).map fun v =>
            frameLine (unserved v)), some 1) ∧
      ∃ notes, (receiveAll site (start site.script here) (piece :: later)).2.state =
        { s with notes := notes } := by
  obtain ⟨notes, rest, hreceive⟩ := h.receive hlines
  obtain ⟨hall, hstate⟩ := converse_ended hreceive rfl later
  exact ⟨hall, notes, hstate⟩

/-- Where nothing but the end of the input follows the settings, this end is taken first. -/
theorem Fails.converse_unended (h : Fails site here line settings message s) {piece : Text}
    {blanks : List Text} (hlines : Text.splitLines [] piece = (blanks, line))
    (hblanks : ∀ l ∈ blanks, l.isBlank = true) :
    converse site here [piece] = (errorFrame? site.engine s settings message).elim ([], some 1)
      fun frame => ([frame], some 0) := by
  have hfilter : blanks.filter (fun l => !l.isBlank) = [] :=
    List.filter_eq_nil_iff.mpr fun l hl => by simp [hblanks l hl]
  have hreceive : (start site.script here).receive site piece =
      ([], { start site.script here with pending := line }) := by
    rw [receive_start site here hlines, hfilter]
    rfl
  have hnonempty : line.isEmpty = false := by
    cases hl : line with
    | nil => exact absurd (hl ▸ h.not_blank) (by decide)
    | cons c t => rfl
  have hread := @readLine_pending site (start site.script here) line line
  rw [h.readLine] at hread
  simp only [converse, receiveAll, hreceive, finish, hnonempty, Bool.false_eq_true, if_false, hread,
    List.nil_append]
  cases errorFrame? site.engine s settings message <;> rfl

/-- If the first line that is not blank holds settings with which loading the package raises an error,
then whatever lines follow it in its piece of input and whatever pieces come later, the worker ends
with 1. It writes the frame of the error and then, for the further lines of this piece up to the first
that is no request for a file with room for its answer, the error of using a compiler that is not there;
if the message of the error or the name of the package has no text it writes nothing. No further line
changes more of its state than the notes. So it writes this one frame and ends with 1 if and only if
there is such a frame and the first further line, if there is one, is no such request. Settings that
nothing but the input's end follows are answered by the same frame, but the worker ends with 0 then.
What it wrote arrives for certain as far as the pipe has room for it. -/
theorem converse_refused (h : Fails site here line settings message s) :
    let directory := givenDirectory here settings
    let frame? := errorFrame? site.engine s settings message
    (∀ piece further later,
      (Text.splitLines [] piece).1.filter (fun l => !l.isBlank) = line :: further →
      (∀ frame, frame? = some frame → converse site here (piece :: later) =
        (frame :: (asked site.engine directory further).map (fun v => frameLine (unserved v)),
          some 1)) ∧
      (frame? = none → converse site here (piece :: later) = ([], some 1)) ∧
      ((∃ frame, frame? = some frame ∧ converse site here (piece :: later) = ([frame], some 1)) ↔
        frame?.isSome = true ∧ ∀ l ∈ further.head?, ¬ Asks site.engine directory l) ∧
      (∃ notes, (receiveAll site (start site.script here) (piece :: later)).2.state =
        { s with notes := notes }) ∧
      ∀ room, ((∀ arrived, Arrives room (converse site here (piece :: later)).1 arrived →
          arrived = bytesOf (converse site here (piece :: later)).1) ↔
            (bytesOf (converse site here (piece :: later)).1).length ≤ room) ∧
        ∀ n arrived, Arrives room (converse site here (piece :: later)).1 arrived →
          (bytesOf ((converse site here (piece :: later)).1.take n)).length ≤ room →
            bytesOf ((converse site here (piece :: later)).1.take n) <+: arrived) ∧
    ∀ piece blanks, Text.splitLines [] piece = (blanks, line) →
      (∀ l ∈ blanks, l.isBlank = true) →
      (∀ frame, frame? = some frame → converse site here [piece] = ([frame], some 0)) ∧
      (frame? = none → converse site here [piece] = ([], some 1)) := by
  intro directory frame?
  refine ⟨fun piece further later hlines => ?_, fun piece blanks hlines hblanks => ?_⟩
  · obtain ⟨hall, hstate⟩ := h.converse_piece hlines later
    change _ = (written frame? ((asked site.engine directory further).map _), some 1) at hall
    refine ⟨fun frame hf => ?_, fun hf => ?_, ?_, hstate,
      fun room => ⟨arrives_iff, fun n arrived h hn => h.take hn⟩⟩
    · rw [hall, hf]
      rfl
    · rw [hall, hf]
      rfl
    · rw [← asked_eq_nil, ← List.map_eq_nil_iff (f := fun v => frameLine (unserved v)), hall,
        ← written_one_iff]
      simp only [Prod.mk.injEq, and_true]
  · have hall := h.converse_unended hlines hblanks
    change _ = frame?.elim ([], some 1) fun frame => ([frame], some 0) at hall
    refine ⟨fun frame hf => ?_, fun hf => ?_⟩
    · rw [hall, hf, Option.elim_some]
    · rw [hall, hf, Option.elim_none]

end Piece

/-! ## A directory without a package -/

def bare : Site := { shop with tree := { entries := [(["w"], .directory)], cwd := ["w"] } }

def bareFrame : Text :=
  frameLine (refused (cannotLoad "typescript" ("Cannot find module 'typescript'\n" ++
    "Require stack:\n- /w/__ts_config_loader__.js")))

theorem bare_fails : ∃ s message,
    Fails bare ["w"] (Json.Canonical.print shopSettings) shopSettings message s ∧
    errorFrame? bare.engine s shopSettings message = some bareFrame := by
  refine ⟨_, _, ⟨?_, parse_shopSettings, rfl, _, _, _, _, rfl, rfl, rfl⟩, ?_⟩
  · decide +kernel
  · decide +kernel

/-- A request right after the settings is answered. One behind a line that is no document is not, and
one of a later piece is not. -/
theorem converse_refused_bare : ∃ s message,
    Fails bare ["w"] (Json.Canonical.print shopSettings) shopSettings message s ∧
    converse bare ["w"] [Text.ofLines [[], Json.Canonical.print shopSettings, asks 1 [], "?",
        asks 2 []], Text.ofLines [asks 3 []]] =
      ([bareFrame, frameLine (unserved (.mapping [("id", .int 1)]))], some 1) ∧
    converse bare ["w"] [Text.ofLines [Json.Canonical.print shopSettings, "?", asks 1 []]] =
      ([bareFrame], some 1) ∧
    converse bare ["w"] [Json.Canonical.print shopSettings] = ([bareFrame], some 0) := by
  obtain ⟨s, message, hfails, hframe⟩ := bare_fails
  obtain ⟨hended, hunended⟩ := converse_refused hfails
  refine ⟨s, message, hfails, ?_, ?_, ?_⟩
  · have hasked : (asked bare.engine (givenDirectory ["w"] shopSettings) [asks 1 [], "?", asks 2 []]).map
        (fun v => frameLine (unserved v)) =
        [frameLine (unserved (.mapping [("id", .int 1)]))] := by
      decide +kernel
    rw [← hasked]
    exact (hended _ _ _ (by decide +kernel)).1 bareFrame hframe
  · have hasked : asked bare.engine (givenDirectory ["w"] shopSettings) ["?", asks 1 []] = [] := rfl
    have hlines : (Text.splitLines []
          (Text.ofLines [Json.Canonical.print shopSettings, "?", asks 1 []])).1.filter
        (fun l => !l.isBlank) = [Json.Canonical.print shopSettings, "?", asks 1 []] := by
      decide +kernel
    obtain ⟨frame, hf, hone⟩ := (hended _ _ [] hlines).2.2.1.mpr
      ⟨by rw [hframe]; rfl, asked_eq_nil.mp hasked⟩
    rwa [← Option.some.inj (hf.symm.trans hframe)]
  · exact (hunended _ [] (by decide +kernel) nofun).1 bareFrame hframe

/-- The refused settings and one request in a piece: the request is answered as well. -/
theorem converse_refused_answered :
    (∃ s message,
      Fails bare ["w"] (Json.Canonical.print shopSettings) shopSettings message s) ∧
    converse bare ["w"] [Text.ofLines [Json.Canonical.print shopSettings, asks 1 []]] =
      ([bareFrame, frameLine (answer (some (.int 1)) "error" [("name", "TypeError"),
        ("message", "Cannot read properties of null (reading 'convertCompilerOptionsFromJson')"),
        ("stack", .text ("TypeError: Cannot read properties of null " ++
          "(reading 'convertCompilerOptionsFromJson')"))])], some 1) := by
  obtain ⟨s, message, hfails, -⟩ := bare_fails
  refine ⟨⟨s, message, hfails⟩, ?_⟩
  decide +kernel

end ConfigLoader.Worker
