import ConfigLoader.Proofs.Compiler.Discipline
import ConfigLoader.Proofs.Json.Overflow
import ConfigLoader.Proofs.Worker.Frames
import ConfigLoader.Proofs.Worker.Requests

/-! # Frames in both directions

What a compiler writes for a request is one line of printable characters, from which a worker has the
number, the path and the source. Both streams are split into the frames that were sent, wherever they
are cut.
-/
namespace ConfigLoader

/-! ## Lines that come in pieces -/

def Text.splitPieces (line : Text) : List Text → List Text × Text
  | [] => ([], line.reverse)
  | p :: ps =>
    let (ls, rest) := splitLines line p
    let (ms, rest) := splitPieces rest.reverse ps
    (ls ++ ms, rest)

theorem Text.splitPieces_flatten {pieces : List Text} (h : NoReturn pieces.flatten) (line : Text) :
    splitPieces line pieces = splitLines line pieces.flatten := by
  induction pieces generalizing line with
  | nil => rfl
  | cons p ps ih =>
    rw [List.flatten_cons] at h ⊢
    rw [splitLines_append h]
    simp only [splitPieces, ih h.right]

/-- However lines that hold no end of a line are cut, they are read as they were sent. -/
theorem Text.splitPieces_ofLines {lines pieces : List Text} (h : ∀ l ∈ lines, Json.OneLine l)
    (hp : pieces.flatten = ofLines lines) : splitPieces [] pieces = (lines, []) := by
  have hn : NoReturn pieces.flatten := hp ▸ noReturn_ofLines h
  rw [splitPieces_flatten hn, hp, splitLines_ofLines h]

theorem Text.splitLines_unended {t : Text} (h : Json.OneLine t) (line : Text) :
    splitLines line t = ([], line.reverse ++ t) := by
  induction t generalizing line with
  | nil => rw [splitLines, List.append_nil]
  | cons c t ih =>
    have hn : NoReturn (c :: t) := fun d hd => (h d hd).2
    have hc : c.val ≠ 10 := (h c (List.mem_cons_self ..)).1
    rw [splitLines_cons hn, if_neg hc, ih (fun d hd => h d (List.mem_cons_of_mem _ hd)),
      List.reverse_cons, List.append_assoc, List.singleton_append]

/-- Of lines whose end is cut off, the first ones are read as they were sent, and what is left is the
beginning of the next one. -/
theorem Text.splitLines_beginning {lines : List Text} {t : Text} (h : ∀ l ∈ lines, Json.OneLine l)
    (ht : t <+: ofLines lines) :
    ∃ n rest, splitLines [] t = (lines.take n, rest) ∧ t = ofLines (lines.take n) ++ rest ∧
      ∀ l, lines[n]? = some l → rest <+: l := by
  induction lines generalizing t with
  | nil =>
    obtain rfl : t = [] := List.prefix_nil.mp ht
    exact ⟨0, [], rfl, rfl, nofun⟩
  | cons l ls ih =>
    have hl := h l (List.mem_cons_self ..)
    have hlines : ofLines (l :: ls) = (l ++ [10]) ++ ofLines ls := rfl
    by_cases hshort : t.length ≤ l.length
    · -- The end of the first line is not there.
      have hpre : t <+: l := by
        refine List.prefix_of_prefix_length_le ht ?_ hshort
        rw [hlines, List.append_assoc]
        exact List.prefix_append ..
      refine ⟨0, t, splitLines_unended (hl.of_mem fun c hc => hpre.subset hc) [], rfl, ?_⟩
      intro m hm
      obtain rfl : l = m := Option.some.inj hm
      exact hpre
    · have hwhole : l ++ [10] <+: t := by
        refine List.prefix_of_prefix_length_le (hlines ▸ List.prefix_append ..) ht ?_
        rw [List.length_append, List.length_singleton]
        omega
      obtain ⟨u, rfl⟩ := hwhole
      have hu : u <+: ofLines ls := (List.prefix_append_right_inj _).mp ht
      obtain ⟨n, rest, hsplit, hparts, hnext⟩ := ih (fun m hm => h m (List.mem_cons_of_mem _ hm)) hu
      have hreturn : NoReturn (l ++ [10] ++ u) :=
        fun c hc => noReturn_ofLines h c (ht.subset hc)
      refine ⟨n + 1, rest, ?_, ?_, hnext⟩
      · rw [splitLines_append hreturn, Json.splitLines_oneLine hl]
        simp only [List.reverse_nil, hsplit, List.nil_append, List.singleton_append,
          List.take_succ_cons]
      · rw [List.take_succ_cons, hparts]
        exact (List.append_assoc ..).symm

/-! ## Printable characters -/

namespace Json

def Plain (t : Text) : Prop := ∀ c ∈ t, 32 ≤ c.val ∧ c.val < 127

theorem Plain.append {s t : Text} (hs : Plain s) (ht : Plain t) : Plain (s ++ t) := by
  intro c hc
  rcases List.mem_append.mp hc with hc | hc
  · exact hs c hc
  · exact ht c hc

theorem Plain.of_all {t : Text} (h : t.all (fun c => 32 ≤ c.val && c.val < 127) = true) :
    Plain t := by
  intro c hc
  have hx := List.all_eq_true.mp h c hc
  simpa only [Bool.and_eq_true, decide_eq_true_eq] using hx

theorem Plain.of_digits {t : Text} (h : ∀ c ∈ t, c.isDigit = true) : Plain t := by
  intro c hc
  have hd := h c hc
  simp only [CodePoint.isDigit, Bool.and_eq_true, decide_eq_true_eq] at hd
  omega

theorem Plain.oneLine {t : Text} (h : Plain t) : OneLine t := by
  intro c hc
  have hx := h c hc
  omega

theorem val_hexDigit : ∀ d : Fin 16, 32 ≤ (CodePoint.ofChar (Nat.digitChar d.val)).val ∧
    (CodePoint.ofChar (Nat.digitChar d.val)).val < 127 := by decide

theorem toDigits_plain (n : Nat) : Plain ((Nat.toDigits 16 n).map CodePoint.ofChar) := by
  have hone : ∀ d : Fin 16, Plain [CodePoint.ofChar (Nat.digitChar d.val)] := by
    intro d c hc
    rw [List.mem_singleton.mp hc]
    exact val_hexDigit d
  induction n using Nat.strongRecOn with
  | ind n ih =>
    by_cases hn : n < 16
    · rw [Nat.toDigits_of_lt_base hn]
      exact hone ⟨n, hn⟩
    · rw [Nat.toDigits_of_base_le (by omega) (by omega), List.map_append]
      exact (ih (n / 16) (by omega)).append (hone ⟨n % 16, Nat.mod_lt n (by omega)⟩)

theorem unicodeEscape_plain (n : Nat) : Plain (unicodeEscape n) := by
  have hzeros : ∀ k, Plain (List.replicate k (CodePoint.ofChar '0')) := by
    intro k c hc
    rw [List.eq_of_mem_replicate hc]
    decide
  have hmark : Plain [CodePoint.ofChar '\\', CodePoint.ofChar 'u'] := .of_all (by decide)
  exact hmark.append ((hzeros _).append (toDigits_plain n))

theorem simpleEscape?_plain {c e : CodePoint} (h : simpleEscape? e = some c) : Plain [e] := by
  intro d hd
  rw [List.mem_singleton.mp hd]
  by_contra hout
  have hno : ∀ a : Char, 32 ≤ (CodePoint.ofChar a).val ∧ (CodePoint.ofChar a).val < 127 →
      e ≠ CodePoint.ofChar a := by
    rintro a ha rfl
    exact hout ha
  have hnone : simpleEscape? e = none := by
    simp only [simpleEscape?, hno '"' (by decide), hno '\\' (by decide), hno '/' (by decide),
      hno 'b' (by decide), hno 'f' (by decide), hno 'n' (by decide), hno 'r' (by decide),
      hno 't' (by decide), decide_false, Bool.or_self, Bool.false_eq_true, if_false]
  rw [hnone] at h
  cases h

theorem escapeOne_plain (c : CodePoint) : Plain (escapeOne true c) := by
  by_cases hc : c.val < 127
  · have hw : Written c (escapeOne true c) := escapeOne_written (.inl (by omega))
    revert hw
    generalize escapeOne true c = w
    intro hw
    cases hw with
    | plain _ _ h32 =>
      intro d hd
      rw [List.mem_singleton.mp hd]
      exact ⟨h32, hc⟩
    | short he =>
      have hslash : Plain [CodePoint.ofChar '\\'] := .of_all (by decide)
      exact hslash.append (simpleEscape?_plain he)
    | unicode _ => exact unicodeEscape_plain _
  · rw [escapeOne_of_le (Nat.not_lt.mp hc), Bool.not_true, if_neg Bool.false_ne_true]
    split
    · exact unicodeEscape_plain _
    · exact (unicodeEscape_plain _).append (unicodeEscape_plain _)

theorem quote_plain (t : Text) : Plain (quote true t) := by
  have h : Plain (t.flatMap (escapeOne true)) := by
    intro c hc
    obtain ⟨d, -, hd⟩ := List.mem_flatMap.mp hc
    exact escapeOne_plain d c hd
  exact ((Plain.of_all (by decide)).append h).append (.of_all (by decide))

end Json

namespace Compiler
open Json (Plain OneLine)
open Child (Handle Annals Deed annals)
open Child.Annals (Did)
open Discipline (Session perform run Effect)

/-! ## The line of a request -/

/-- A worker has of a line the request that it was written for: the path and the source in units, and
the number as far as there is such a number of 64 bits. -/
structure Carries (line : Text) (id : Nat) (path source : Text) : Prop where
  plain : Plain line
  notBlank : line.isBlank = false
  read : ∃ p s, Json.Strict.parse line = .ok (.mapping
    [("id", .float (Binary64.ofInt id)), ("path", .text p), ("source", .text s)]) ∧
      p.units16 = path.units16 ∧ s.units16 = source.units16
  number : (Binary64.ofInt id).toInt? = some (id : Int) ↔ ∃ x : Binary64, x.toInt? = some (id : Int)
  small : id ≤ 2 ^ 53 → (Binary64.ofInt id).toInt? = some (id : Int)

theorem requestLine_plain (id : Nat) (path source : Text) : Plain (requestLine id path source) := by
  have hid : Plain (Text.ofNat id) := .of_digits fun _ hc => Text.isDigit_of_mem_ofNat hc
  exact (Plain.of_all (by decide)).append (hid.append ((Plain.of_all (by decide)).append
    ((Json.quote_plain path).append ((Plain.of_all (by decide)).append
      ((Json.quote_plain source).append (.of_all (by decide)))))))

theorem toInt?_ofInt_le {n : Nat} (hn : n ≤ 2 ^ 53) :
    (Binary64.ofInt n).toInt? = some (n : Int) := by
  rcases Nat.lt_or_eq_of_le hn with h | rfl
  · exact Binary64.toInt?_ofInt (by omega)
  · decide +kernel

theorem requestLine_carries {id : Nat} (hid : 0 < id) (path source : Text) :
    Carries (requestLine id path source) id path source where
  plain := requestLine_plain id path source
  notBlank := rfl
  read := ⟨_, _, Json.Strict.parse_request hid path source, Text.units16_joinSurrogates path,
    Text.units16_joinSurrogates source⟩
  number := by
    refine ⟨fun h => ⟨_, h⟩, fun ⟨x, hx⟩ => ?_⟩
    rw [Binary64.ofInt_of_toInt hx (by omega)]
    exact hx
  small := toInt?_ofInt_le

/-! ## What is written -/

variable {W : Type}

def written (d : Deed) : Option Text :=
  match d.action with
  | .write text => some text
  | _ => none

def writes (k : Handle) (t : Annals W) : List Text := (t.course k).filterMap written

theorem writes_did {k : Handle} {es : List Deed} {t u : Annals W} (h : Did k es t u) :
    writes k u = writes k t ++ es.filterMap written := by
  rw [writes, Child.Annals.course_self h.deeds, List.filterMap_append, writes]

theorem shuts_writes {es : List Deed} {r : Except Fault Unit} (h : Shuts es r) :
    es.filterMap written = [] := by
  have hi : ∀ {fs q}, ClosesInput fs q → fs.filterMap written = [] := by
    intro fs q hf
    cases hf <;> rfl
  have ha : ∀ {fs q}, Awaits fs q → fs.filterMap written = [] := by
    intro fs q hf
    cases hf <;> rfl
  have ho : ∀ {fs q}, ClosesOutput fs q → fs.filterMap written = [] := by
    intro fs q hf
    cases hf <;> rfl
  cases h with
  | «open» h1 => exact hi h1
  | unended h1 h2 _ => rw [List.filterMap_append, hi h1, ha h2]; rfl
  | whole h1 h2 h3 _ _ => rw [List.filterMap_append, List.filterMap_append, hi h1, ha h2, ho h3]; rfl

theorem exchanges_writes {limits : Limits} {m : Value} {es : List Deed} (h : Exchanges limits m es) :
    es.filterMap written = [] ∨
      ∃ text, frame limits m = .ok text ∧ es.filterMap written = [text] := by
  cases h with
  | unsent => exact .inl rfl
  | unwritten hm | unflushed hm | unread hm | read hm => exact .inr ⟨_, hm, rfl⟩

@[simp] theorem receive_writes (ops : ChildOps W) (k : Handle) (t : Annals W) :
    writes k (receive (annals ops) k t).2 = writes k t := by
  unfold receive
  split
  · have hread := writes_did (Child.Annals.act_did ops k .readLine t)
    rcases e : (annals ops).act k .readLine t with ⟨r, u⟩
    rw [e] at hread
    cases r <;> exact hread.trans (List.append_nil _)
  · rfl

/-- A message that has a form is written whole, and once, to a process that has an input. -/
theorem exchange_writes {ops : ChildOps W} {k : Handle} {t : Annals W} {m : Value} {text : Text}
    (hi : (annals ops).hasInput k t = true) (hm : frame (annals ops).limits m = .ok text) :
    writes k (exchange (annals ops) k m t).2 = writes k t ++ [text] := by
  have hwrite := writes_did (Child.Annals.act_did ops k (.write text) t)
  rcases e1 : (annals ops).act k (.write text) t with ⟨r1, t1⟩
  rw [e1] at hwrite
  have hwrite : writes k t1 = writes k t ++ [text] := hwrite
  cases r1 with
  | error f =>
    simp only [exchange, send, hi, hm, e1, if_true]
    exact hwrite
  | ok s =>
    have hflush := writes_did (Child.Annals.act_did ops k .flush t1)
    rcases e2 : (annals ops).act k .flush t1 with ⟨r2, t2⟩
    rw [e2] at hflush
    have h2 : writes k t2 = writes k t ++ [text] :=
      (hflush.trans (List.append_nil _)).trans hwrite
    rw [exchange, send_written hi hm e1, e2]
    cases r2 with
    | error f => exact h2
    | ok s' => exact (receive_writes ops k t2).trans h2

@[simp] theorem shutdown_writes (ops : ChildOps W) (k : Handle) (t : Annals W) :
    writes k (shutdown (annals ops) k t).2 = writes k t := by
  obtain ⟨fs, hfs, hsh⟩ := shutdown_did ops k t
  rw [writes_did hfs, shuts_writes hsh, List.append_nil]

section
variable (ops : ChildOps W) (site : Site) (x : Session W) {k : Handle} (path source : Text)

theorem compile_exchange_writes (hk : x.compiler.process = some k) :
    writes k (perform ops site x (.compile (.text path) (.text source))).state.world =
      writes k (exchange (annals ops) k (request (x.compiler.lastId + 1)
        (.text (Path.absolute site.directory path)) (.text source)) x.state.world).2 := by
  have hx := compile_exchanged (annals ops) site (.text path) (.text source) x.state hk
  rcases e : compile (annals ops) site (.text path) (.text source) x.compiler x.state with ⟨r, c, l⟩
  rw [e] at hx
  simp only [perform, e]
  rcases hx with ⟨f, hf, -⟩ | ⟨p, hp, hx⟩
  · cases hf
  · cases hp
    rcases hx with ⟨-, hl⟩ | ⟨-, hl⟩
    · rw [← show l.world = _ from hl]
    · rw [show l.world = _ from hl, shutdown_writes]

theorem compile_writes (hk : x.compiler.process = some k)
    (hi : (annals ops).hasInput k x.state.world = true)
    (hn : Json.isLong (x.compiler.lastId + 1 : Nat) = false) :
    writes k (perform ops site x (.compile (.text path) (.text source))).state.world =
      writes k x.state.world ++ [requestLine (x.compiler.lastId + 1)
        (Path.absolute site.directory path) source ++ [10]] := by
  rw [compile_exchange_writes ops site x path source hk]
  refine exchange_writes hi ?_
  rcases frame_texts ops.limits (x.compiler.lastId + 1) (Path.absolute site.directory path) source with
    ⟨f, hf, -⟩ | ⟨-, -, hframe⟩
  · rw [Json.intText, hn] at hf
    cases hf
  · exact hframe

/-- Nothing is written of a request whose number has too many digits. -/
theorem compile_unwritten (hk : x.compiler.process = some k)
    (hn : Json.isLong (x.compiler.lastId + 1 : Nat) = true) :
    writes k (perform ops site x (.compile (.text path) (.text source))).state.world =
      writes k x.state.world := by
  obtain ⟨es, hes, he⟩ := exchange_did ops k (request (x.compiler.lastId + 1)
    (.text (Path.absolute site.directory path)) (.text source)) x.state.world
  rw [compile_exchange_writes ops site x path source hk, writes_did hes]
  rcases exchanges_writes he with h | ⟨text, hm, -⟩
  · rw [h, List.append_nil]
  · rcases frame_texts ops.limits (x.compiler.lastId + 1) (Path.absolute site.directory path) source with
      ⟨f, -, hframe⟩ | ⟨⟨n, hint⟩, -, -⟩
    · rw [hm] at hframe
      cases hframe
    · rw [Json.intText, hn] at hint
      cases hint

end

/-! ## The stream to a process -/

def AreLines (ts : List Text) : Prop :=
  ∃ lines : List Text, ts = lines.map (· ++ [10]) ∧ ∀ l ∈ lines, OneLine l ∧ l.isBlank = false

theorem AreLines.nil : AreLines [] := ⟨[], rfl, by simp⟩

theorem AreLines.append {ts us : List Text} (ht : AreLines ts) (hu : AreLines us) :
    AreLines (ts ++ us) := by
  obtain ⟨ls, rfl, hls⟩ := ht
  obtain ⟨ms, rfl, hms⟩ := hu
  refine ⟨ls ++ ms, List.map_append.symm, fun l hl => ?_⟩
  rcases List.mem_append.mp hl with hl | hl
  · exact hls l hl
  · exact hms l hl

theorem frame_mapping {limits : Limits} {es : Entries} {text : Text}
    (h : frame limits (.mapping es) = .ok text) : AreLines [text] := by
  obtain ⟨line, rfl, ho⟩ := frame_line h
  refine ⟨[line], rfl, fun l hl => ?_⟩
  rw [List.mem_singleton.mp hl]
  refine ⟨ho, ?_⟩
  unfold frame Json.dump at h
  rw [Json.print, Json.within_of_lt levels_frameLayout.1, Nat.zero_add] at h
  cases hms : Json.printMembers (Json.frameLayout limits) 1 es with
  | error f => rw [hms] at h; cases h
  | ok ms =>
    rw [hms] at h
    have hline := List.append_cancel_right (Except.ok.inj h)
    rw [← hline]
    cases ms <;> rfl

theorem exchanges_lines {limits : Limits} {es : Entries} {ds : List Deed}
    (h : Exchanges limits (.mapping es) ds) :
    AreLines (ds.filterMap written) := by
  rcases exchanges_writes h with h | ⟨text, hm, h⟩
  · rw [h]
    exact .nil
  · rw [h]
    exact frame_mapping hm

theorem talked_lines {limits : Limits} {site : Site} {s : Settings} {es : List Deed}
    (h : Discipline.Talked limits site s es) : AreLines (es.filterMap written) := by
  obtain ⟨hello, requests, rfl, hh, hr⟩ := h
  rw [List.filterMap_append]
  refine (exchanges_lines hh).append ?_
  induction requests with
  | nil => exact .nil
  | cons rs requests ih =>
    obtain ⟨id, p, src, hrs⟩ := hr rs (List.mem_cons_self ..)
    rw [List.flatten_cons, List.filterMap_append]
    exact (exchanges_lines hrs).append (ih fun x hx => hr x (List.mem_cons_of_mem _ hx))

theorem run_lines (ops : ChildOps W) (site : Site) (s : Settings) (w : W)
    (cs : List (Matching.Call W)) (k : Handle) :
    AreLines (writes k (run ops site cs (.start s w)).state.world) := by
  have hx := Discipline.run_kept ops cs (Discipline.Kept.start ops.limits site s w)
  unfold writes
  by_cases hk : k < (run ops site cs (.start s w)).state.world.handles.length
  · rcases hx.courses k hk with h | ⟨talk, ending, r, he, h, hsh⟩
    · exact talked_lines h
    · rw [he, List.filterMap_append, shuts_writes hsh, List.append_nil]
      exact talked_lines h
  · rw [hx.unstarted k (Nat.not_lt.mp hk)]
    exact .nil

theorem AreLines.split {ts pieces : List Text} (h : AreLines ts) (hp : pieces.flatten = ts.flatten) :
    ∃ lines : List Text, ts = lines.map (· ++ [10]) ∧ (∀ l ∈ lines, l.isBlank = false) ∧
      Text.splitPieces [] pieces = (lines, []) := by
  obtain ⟨lines, rfl, hl⟩ := h
  refine ⟨lines, rfl, fun l hm => (hl l hm).2, ?_⟩
  refine Text.splitPieces_ofLines (fun l hm => (hl l hm).1) ?_
  rw [hp, Text.ofLines, List.flatMap_def]

/-! ## Both directions -/

/-- A request is written as one line that carries it, or not at all if its number cannot be written.
Whatever a compiler was called for, the stream to a process is split into the lines that were written
to it. Whatever a worker reads, the stream from it is split into the frames that it wrote, or into the
first of them if it is cut short; and each frame conveys its value to a reader with room for the nesting
of it. -/
theorem frames_round_trip (ops : ChildOps W) (site : Site) (x : Session W) {k : Handle}
    (path source : Text) (hk : x.compiler.process = some k)
    (hi : (annals ops).hasInput k x.state.world = true) :
    (∃ line, Carries line (x.compiler.lastId + 1) (Path.absolute site.directory path) source ∧
      Text.splitLines [] (line ++ [10]) = ([line], []) ∧
      writes k (perform ops site x (.compile (.text path) (.text source))).state.world =
        writes k x.state.world ++
          if Json.isLong (x.compiler.lastId + 1 : Nat) then [] else [line ++ [10]]) ∧
    (∀ (s : Settings) (w : W) (cs : List (Matching.Call W)) (j : Handle) (pieces : List Text),
      let ts := writes j (run ops site cs (.start s w)).state.world
      pieces.flatten = ts.flatten →
      ∃ lines : List Text, ts = lines.map (· ++ [10]) ∧ (∀ l ∈ lines, l.isBlank = false) ∧
        Text.splitPieces [] pieces = (lines, [])) ∧
    ∀ (machine : Worker.Site) (here : Location) (input : List Text),
      let fs := (Worker.converse machine here input).1
      ∃ vs : List Value, fs = vs.map Worker.frameLine ∧
        (∀ pieces : List Text, pieces.flatten = fs.flatten →
          Text.splitPieces [] pieces = (vs.map Json.Canonical.print, [])) ∧
        (∀ pieces : List Text, pieces.flatten <+: fs.flatten → ∃ n rest,
          Text.splitPieces [] pieces = ((vs.take n).map Json.Canonical.print, rest) ∧
            pieces.flatten = (fs.take n).flatten ++ rest ∧
            ∀ v, vs[n]? = some v → rest <+: Json.Canonical.print v) ∧
        ∀ v ∈ vs, ∀ room,
          (Json.Canonical.levels v ≤ room → ∃ u, Json.load room (Worker.frameLine v) = .ok u ∧
            Json.Canonical.Conveys v u) ∧
          (room < Json.Canonical.levels v → ∃ f,
            Json.load room (Worker.frameLine v) = .error f ∧ f.kind = .recursionError) := by
  refine ⟨⟨requestLine (x.compiler.lastId + 1) (Path.absolute site.directory path) source,
    requestLine_carries (Nat.succ_pos _) _ _,
    Json.splitLines_oneLine (requestLine_plain _ _ _).oneLine [], ?_⟩, ?_, ?_⟩
  · cases hn : Json.isLong (x.compiler.lastId + 1 : Nat) with
    | true =>
      rw [compile_unwritten ops site x path source hk hn, if_pos rfl, List.append_nil]
    | false =>
      rw [compile_writes ops site x path source hk hi hn, if_neg Bool.false_ne_true]
  · intro s w cs j pieces ts hp
    exact (run_lines ops site s w cs j).split hp
  · intro machine here input fs
    obtain ⟨vs, hvs⟩ : Worker.AreFrames fs := Worker.converse_frames here input
    have hlines : ∀ l ∈ vs.map Json.Canonical.print, Json.OneLine l := by
      intro l hl
      obtain ⟨v, -, rfl⟩ := List.mem_map.mp hl
      exact Json.Canonical.print_oneLine v
    have hflat : fs.flatten = Text.ofLines (vs.map Json.Canonical.print) := by
      rw [hvs, Worker.ofLines_frames]
    refine ⟨vs, hvs, fun pieces hp => Text.splitPieces_ofLines hlines (hp.trans hflat), ?_, ?_⟩
    · intro pieces hp
      rw [hflat] at hp
      obtain ⟨n, rest, hsplit, hparts, hnext⟩ := Text.splitLines_beginning hlines hp
      refine ⟨n, rest, ?_, ?_, ?_⟩
      · rw [Text.splitPieces_flatten fun c hc => Text.noReturn_ofLines hlines c (hp.subset hc),
          hsplit, List.map_take]
      · rw [hparts, hvs, ← List.map_take, ← List.map_take, Worker.ofLines_frames]
      · intro v hv
        exact hnext _ (by rw [List.getElem?_map, hv, Option.map_some])
    · intro v _ room
      exact ⟨fun h => ⟨_, Json.Canonical.load_line h, Json.Canonical.conveys_received v⟩,
        fun h => Json.load_overflows (Json.Canonical.print_overflows v h)⟩

/-- Processes that take all that is written to them and say nothing. -/
def silent : ChildOps Unit where
  limits := .usual
  start _ w := (.ok 0, w)
  act _ _ w := (.ok [], w)
  hasInput _ _ := true
  hasOutput _ _ := true
  isRunning _ _ := true
  exitCode _ _ := none
  number _ _ := 1

def silentSession (requests : Nat) : Session Unit :=
  ⟨⟨.default, some 0, requests, .null⟩, .start ⟨(), [0], []⟩, [0], []⟩

/-- A line separator, a surrogate on its own, and an end of a line. -/
def oddSource : Text := [0x2028, 0xD800, 10, 13]

theorem frames_round_trip_odd :
    let y := perform silent ⟨"/w", "/s.js"⟩ (silentSession 6) (.compile (.text "a.ts") (.text oddSource))
    ∃ line, Carries line 7 "/w/a.ts" oddSource ∧ writes 0 y.state.world = [line ++ [10]] := by
  obtain ⟨⟨line, hcarries, -, hwrites⟩, -⟩ := frames_round_trip silent ⟨"/w", "/s.js"⟩
    (silentSession 6) (k := 0) "a.ts" oddSource rfl rfl
  have hpath : Path.absolute "/w" "a.ts" = "/w/a.ts" := by decide
  have hshort : Json.isLong (7 : Nat) = false := by decide
  refine ⟨line, ?_, ?_⟩
  · rw [← hpath]
    exact hcarries
  · rw [hwrites]
    change [] ++ (if Json.isLong (7 : Nat) then [] else [line ++ [10]]) = _
    rw [hshort]
    rfl

def nestedLists : Nat → Value
  | 0 => .list []
  | n + 1 => .list [nestedLists n]

@[simp] theorem levels_nestedLists (n : Nat) : Json.Canonical.levels (nestedLists n) = n + 1 := by
  induction n with
  | zero => rfl
  | succ n ih =>
    rw [nestedLists, Json.Canonical.levels, Json.Canonical.itemLevels, ih]
    simp [Json.Canonical.itemLevels]

/-- The answer to a first request whose value is lists within each other. -/
def nestedAnswer (n : Nat) : Value :=
  Worker.answer (some (.int 1)) "ok" [("value", nestedLists n)]

@[simp] theorem levels_nestedAnswer (n : Nat) : Json.Canonical.levels (nestedAnswer n) = n + 2 := by
  simp [nestedAnswer, Worker.answer, Worker.idField, Json.Canonical.levels,
    Json.Canonical.memberLevels, levels_nestedLists]

/-- The number after `2 ^ 53` requests is no number of 64 bits, and the worker has the one before; and there
are answers that a worker writes, but nobody with the usual room reads. -/
theorem frames_not_conveyed :
    (let y := perform silent ⟨"/w", "/s.js"⟩ (silentSession (2 ^ 53)) (.compile (.text "a.ts") (.text []))
    ∃ line v x, writes 0 y.state.world = [line ++ [10]] ∧ Json.Strict.parse line = .ok v ∧
      Worker.field? v "id" = some (.float x) ∧ x.toInt? = some (2 ^ 53) ∧
      x.toInt? ≠ some (y.compiler.lastId : Int)) ∧
    Worker.frame? .plain (nestedAnswer 1000) = some (Worker.frameLine (nestedAnswer 1000)) ∧
    ∃ f, Json.load Limits.usual.reading (Worker.frameLine (nestedAnswer 1000)) = .error f ∧
      f.kind = .recursionError := by
  refine ⟨?_, ?_, ?_⟩
  · have hwrites := compile_writes silent ⟨"/w", "/s.js"⟩ (silentSession (2 ^ 53)) (k := 0) "a.ts" []
      rfl rfl (by decide +kernel)
    have hx : (Binary64.ofInt ((2 ^ 53 + 1 : Nat) : Int)).toInt? = some (2 ^ 53) := by
      decide +kernel
    refine ⟨_, _, Binary64.ofInt ((2 ^ 53 + 1 : Nat) : Int), hwrites,
      Json.Strict.parse_request (Nat.succ_pos _) _ _, rfl, hx, ?_⟩
    rw [hx]
    decide +kernel
  · have hroom : Json.Canonical.levels (nestedAnswer 1000) ≤ Engine.plain.frames := by
      rw [levels_nestedAnswer]
      exact show 1002 ≤ 4000 by decide
    rw [Worker.frame?, if_pos hroom]
  · refine Json.load_overflows (Json.Canonical.print_overflows _ ?_)
    rw [levels_nestedAnswer]
    exact show 990 < 1002 by decide

end Compiler
end ConfigLoader
