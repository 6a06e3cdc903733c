import ConfigLoader.Proofs.ConfigFile.Opening

/-! # Which reader loads a file

The reader of a file is the last one in the table whose extension is that of the place which the path
leads to. It is called once, with what the file holds, and what comes of the call is what comes of
loading. All else ends before the call.
-/
namespace ConfigLoader

namespace FileTree
variable {t : FileTree} {p : Text} {b : List UInt8}

/-- The system takes the path, and a regular file with these bytes is there. -/
def HoldsFile (t : FileTree) (p : Text) (b : List UInt8) : Prop :=
  holdsNull p = false ∧ t.stat p = .ok (.file b)

/-- The system does not look at the path: it is too long, or a name on the way is. -/
def Refuses (t : FileTree) (p : Text) : Prop :=
  holdsNull p = false ∧ t.stat p = .error .nameTooLong

theorem HoldsFile.isFile (h : t.HoldsFile p b) : t.isFile p = .ok true := by
  unfold FileTree.isFile test
  rw [h.1, h.2]
  rfl

theorem HoldsFile.bytes (h : t.HoldsFile p b) : t.bytes p = .ok b := by
  unfold FileTree.bytes
  rw [h.2]
  rfl

theorem Refuses.isFile (h : t.Refuses p) : t.isFile p = .error (LookupError.nameTooLong.fault p) := by
  unfold FileTree.isFile test
  rw [h.1, h.2]
  rfl

theorem Refuses.not_holds (h : t.Refuses p) : ¬ t.HoldsFile p b := by
  intro hfile
  have := hfile.2
  rw [h.2] at this
  cases this

theorem stat_tooLong {n : Text} {rest : List Text} (t : FileTree) (hroot : Path.isAbsolute p = true)
    (hnames : Path.names p = n :: rest) (hup : n ≠ Text.ofString "..") (hlong : tooLong n = true) :
    t.stat p = .error .nameTooLong := by
  have hp : p.isEmpty = false := by
    cases p with
    | nil => cases hroot
    | cons => rfl
  have hfuel : t.walkFuel (n :: rest) ≠ 0 := by simp [walkFuel]
  obtain ⟨fuel, hfuel⟩ := Nat.exists_eq_succ_of_ne_zero hfuel
  have hwalk : t.walk (fuel + 1) linkLimit [] (n :: rest) = .error .nameTooLong := by
    simp only [walk, at?, ne_eq, not_true_eq_false, if_false, beq_iff_eq, hup, hlong, if_true]
  have hlocate : t.locate p = .error .nameTooLong := by
    cases hwhole : longPath p with
    | true => simp only [locate, locateFrom, refusal?, hwhole, if_true]
    | false =>
      simp only [locate, locateFrom, refusal?, hwhole, hp, hroot, hnames, hfuel, Nat.succ_eq_add_one,
        hwalk, Bool.false_eq_true, if_false, if_true]
  simp only [stat, hlocate, bind, Except.bind]

theorem isFile_cases (t : FileTree) (p : Text) :
    (∃ b, t.HoldsFile p b) ∨ t.Refuses p ∨
      (∀ b, ¬ t.HoldsFile p b) ∧ ¬ t.Refuses p ∧ t.isFile p = .ok false := by
  cases hnull : holdsNull p with
  | true =>
    refine .inr (.inr ⟨fun b h => ?_, fun h => ?_, ?_⟩)
    · cases hnull.symm.trans h.1
    · cases hnull.symm.trans h.1
    · unfold FileTree.isFile test
      rw [hnull]
      rfl
  | false =>
    cases hstat : t.stat p with
    | ok e =>
      cases e with
      | file b => exact .inl ⟨b, hnull, hstat⟩
      | directory | link target =>
        refine .inr (.inr ⟨fun b h => ?_, fun h => ?_, ?_⟩)
        · cases hstat.symm.trans h.2
        · cases hstat.symm.trans h.2
        · unfold FileTree.isFile test
          rw [hnull, hstat]
          rfl
    | error e =>
      cases e with
      | nameTooLong => exact .inr (.inl ⟨hnull, hstat⟩)
      | missing | notDirectory | isDirectory | loop =>
        refine .inr (.inr ⟨fun b h => ?_, fun h => ?_, ?_⟩)
        · cases hstat.symm.trans h.2
        · cases hstat.symm.trans h.2
        · unfold FileTree.isFile test
          rw [hnull, hstat]
          rfl

end FileTree

namespace ConfigFile
open FileTree (HoldsFile Refuses)
variable {R σ : Type} {table : Table R} {t : FileTree} {path extension : Text} {l : Location}

def Last (table : Table R) (extension : Text) (e : Text × R) : Prop :=
  ∃ before after, table = before ++ e :: after ∧ e.1.lower = extension.lower ∧
    ∀ x ∈ after, x.1.lower ≠ extension.lower

def Unlisted (table : Table R) (extension : Text) : Prop :=
  ∀ e ∈ table, e.1.lower ≠ extension.lower

theorem Table.find?_unlisted (h : Unlisted table extension) : table.find? extension = none := by
  unfold Table.find?
  rw [Option.map_eq_none_iff, List.find?_eq_none]
  intro e he
  simpa using h e (List.mem_reverse.mp he)

theorem Table.find?_last {e : Text × R} (h : Last table extension e) :
    table.find? extension = some e.2 := by
  obtain ⟨before, after, rfl, hsame, hlast⟩ := h
  have hafter : ((List.reverse after).find? fun x => x.1.lower == extension.lower) = none := by
    rw [List.find?_eq_none]
    intro x hx
    simpa using hlast x (List.mem_reverse.mp hx)
  have hself : (e.1.lower == extension.lower) = true := beq_iff_eq.mpr hsame
  unfold Table.find?
  simp only [List.reverse_append, List.reverse_cons, List.append_assoc, List.find?_append, hafter,
    Option.none_or, List.cons_append, List.nil_append, List.find?_cons, hself, Option.map_some]

theorem listed_or_not (table : Table R) (extension : Text) :
    Unlisted table extension ∨ ∃ e, Last table extension e := by
  induction table with
  | nil => exact .inl fun e he => nomatch he
  | cons e rest ih =>
    rcases ih with hrest | ⟨x, before, after, rfl, hsame, hlast⟩
    · by_cases hsame : e.1.lower = extension.lower
      · exact .inr ⟨e, [], rest, rfl, hsame, hrest⟩
      · exact .inl (List.forall_mem_cons.mpr ⟨hsame, hrest⟩)
    · exact .inr ⟨x, e :: before, after, rfl, hsame, hlast⟩

theorem Last.not_unlisted {e : Text × R} (h : Last table extension e) :
    ¬ Unlisted table extension := by
  obtain ⟨before, after, rfl, hsame, -⟩ := h
  exact fun hall => hall e (List.mem_append_cons_self) hsame

theorem open?_unlisted (h : t.resolve (Path.tidy path) = .ok l)
    (hnone : Unlisted table (Path.suffix l.text)) :
    open? table t path = .error (unsupported l.text) := by
  simp only [open?, h, Table.find?_unlisted hnone, bind, Except.bind, throw, throwThe,
    MonadExceptOf.throw]

structure Call (R : Type) where
  reader : R
  path : Text
  content : Text

def noting (read : R → Text → Text → σ → Except Fault Value × σ) (reader : R) (path content : Text)
    (s : List (Call R) × σ) : Except Fault Value × (List (Call R) × σ) :=
  let (r, s') := read reader path content s.2
  (r, s.1 ++ [⟨reader, path, content⟩], s')

/-- Loads a file with the calls of readers noted. -/
def loadNoting (table : Table R) (record : LogRecord → σ → σ)
    (read : R → Text → Text → σ → Except Fault Value × σ) (t : FileTree) (path : Text) (s : σ) :
    Except Fault Loaded × (List (Call R) × σ) :=
  load table (fun r s => (s.1, record r s.2)) (noting read) t path ([], s)

theorem load_eq_loadNoting (table : Table R) (record : LogRecord → σ → σ)
    (read : R → Text → Text → σ → Except Fault Value × σ) (t : FileTree) (path : Text) (s : σ) :
    load table record read t path s =
      ((loadNoting table record read t path s).1, (loadNoting table record read t path s).2.2) := by
  unfold loadNoting load
  cases open? table t path with
  | error f => rfl
  | ok q => rfl

/-- How the loading of a place ends, with the calls that were made and the state that is left. -/
structure Dispatched (table : Table R) (record : LogRecord → σ → σ)
    (read : R → Text → Text → σ → Except Fault Value × σ) (t : FileTree) (l : Location) (s : σ)
    (r : Except Fault Loaded × (List (Call R) × σ)) : Prop where
  unsupported : r.1 = .error (unsupported l.text) ∧ r.2.1.length = 0 ↔
    Unlisted table (Path.suffix l.text)
  missing : r.1 = .error (missing l.text) ∧ r.2.1.length = 0 ↔
    ¬ Unlisted table (Path.suffix l.text) ∧ (∀ b, ¬ t.HoldsFile l.text b) ∧ ¬ t.Refuses l.text
  refused : r.1 = .error (LookupError.nameTooLong.fault l.text) ∧ r.2.1.length = 0 ↔
    ¬ Unlisted table (Path.suffix l.text) ∧ t.Refuses l.text
  called : ∀ e b u, Last table (Path.suffix l.text) e → t.HoldsFile l.text b →
    Text.Utf8.decode b = .ok u →
    let content := Text.unifyNewlines u
    let (v, s') := read e.2 l.text content (record (loadingRecord l.text content) s)
    r = (v.map (Loaded.mk l.text), [⟨e.2, l.text, content⟩], s')
  uncalled : r.2.1.length = 0 → r.2.2 = s

section
variable {record : LogRecord → σ → σ}
  {read : R → Text → Text → σ → Except Fault Value × σ} {s : σ}

theorem loadNoting_fails {f : Fault} (h : open? table t path = .error f) :
    loadNoting table record read t path s = (.error f, [], s) := by
  simp only [loadNoting, load, h]

theorem loadNoting_reads {q : Request R} (h : open? table t path = .ok q) :
    loadNoting table record read t path s =
      let (v, s') := read q.reader q.path q.content (record (loadingRecord q.path q.content) s)
      (v.map (Loaded.mk q.path), [⟨q.reader, q.path, q.content⟩], s') := by
  simp only [loadNoting, load, h, noting, List.nil_append]

theorem ne_of_kind {f g : Fault} (h : f.kind ≠ g.kind) : f ≠ g :=
  fun hsame => h (congrArg Fault.kind hsame)

theorem dispatched_stops {f : Fault}
    (hunsupported : f = unsupported l.text ↔ Unlisted table (Path.suffix l.text))
    (hmissing : f = missing l.text ↔ ¬ Unlisted table (Path.suffix l.text) ∧
      (∀ b, ¬ t.HoldsFile l.text b) ∧ ¬ t.Refuses l.text)
    (hrefused : f = LookupError.nameTooLong.fault l.text ↔
      ¬ Unlisted table (Path.suffix l.text) ∧ t.Refuses l.text)
    (huncalled : ∀ e b u, Last table (Path.suffix l.text) e → t.HoldsFile l.text b →
      Text.Utf8.decode b ≠ .ok u) :
    Dispatched table record read t l s (.error f, [], s) where
  unsupported := by simpa using hunsupported
  missing := by simpa using hmissing
  refused := by simpa using hrefused
  called e b u hlast hholds hu := absurd hu (huncalled e b u hlast hholds)
  uncalled _ := rfl

theorem dispatched_unlisted (hnone : Unlisted table (Path.suffix l.text)) :
    Dispatched table record read t l s (.error (unsupported l.text), [], s) :=
  dispatched_stops ⟨fun _ => hnone, fun _ => rfl⟩
    ⟨fun h => absurd h (ne_of_kind nofun), fun h => absurd hnone h.1⟩
    ⟨fun h => absurd h (ne_of_kind nofun), fun h => absurd hnone h.1⟩
    fun _ _ _ hlast => absurd hnone hlast.not_unlisted

theorem dispatched_missing {e : Text × R} (hlast : Last table (Path.suffix l.text) e)
    (hnot : ∀ b, ¬ t.HoldsFile l.text b) (hseen : ¬ t.Refuses l.text) :
    Dispatched table record read t l s (.error (missing l.text), [], s) :=
  dispatched_stops ⟨fun h => absurd h (ne_of_kind nofun), fun h => absurd h hlast.not_unlisted⟩
    ⟨fun _ => ⟨hlast.not_unlisted, hnot, hseen⟩, fun _ => rfl⟩
    ⟨fun h => absurd h (ne_of_kind nofun), fun h => absurd h.2 hseen⟩
    fun _ b _ _ hholds => absurd hholds (hnot b)

theorem dispatched_refused {e : Text × R} (hlast : Last table (Path.suffix l.text) e)
    (hrefused : t.Refuses l.text) :
    Dispatched table record read t l s (.error (LookupError.nameTooLong.fault l.text), [], s) :=
  dispatched_stops ⟨fun h => absurd h (ne_of_kind nofun), fun h => absurd h hlast.not_unlisted⟩
    ⟨fun h => absurd h (ne_of_kind nofun), fun h => absurd hrefused h.2.2⟩
    ⟨fun _ => ⟨hlast.not_unlisted, hrefused⟩, fun _ => rfl⟩
    fun _ _ _ _ hholds => absurd hholds hrefused.not_holds

theorem dispatched_undecoded {e : Text × R} {b : List UInt8} {f : Fault}
    (hlast : Last table (Path.suffix l.text) e) (hholds : t.HoldsFile l.text b)
    (hf : f.kind = .unicodeDecodeError) (hbytes : ∀ u, Text.Utf8.decode b ≠ .ok u) :
    Dispatched table record read t l s (.error f, [], s) := by
  have hother : ∀ g : Fault, g.kind ≠ .unicodeDecodeError → f ≠ g := fun g hg =>
    ne_of_kind (hf ▸ hg.symm)
  refine dispatched_stops ⟨fun h => absurd h (hother _ nofun), fun h => absurd h hlast.not_unlisted⟩
    ⟨fun h => absurd h (hother _ nofun), fun h => absurd hholds (h.2.1 b)⟩
    ⟨fun h => absurd h (hother _ nofun), fun h => absurd hholds h.2.not_holds⟩ ?_
  intro _ b' u _ hholds'
  cases hholds.2.symm.trans hholds'.2
  exact hbytes u

theorem Last.unique {e e' : Text × R} (h : Last table extension e) (h' : Last table extension e') :
    e.2 = e'.2 :=
  Option.some.inj ((Table.find?_last h).symm.trans (Table.find?_last h'))

theorem dispatched_called {e : Text × R} {b : List UInt8} {u : Text}
    (hlast : Last table (Path.suffix l.text) e) (hholds : t.HoldsFile l.text b)
    (hu : Text.Utf8.decode b = .ok u) :
    Dispatched table record read t l s
      (let content := Text.unifyNewlines u
        let (v, s') := read e.2 l.text content (record (loadingRecord l.text content) s)
        (v.map (Loaded.mk l.text), [⟨e.2, l.text, content⟩], s')) where
  unsupported := ⟨nofun, fun h => absurd h hlast.not_unlisted⟩
  missing := ⟨nofun, fun h => absurd hholds (h.2.1 b)⟩
  refused := ⟨nofun, fun h => absurd hholds h.2.not_holds⟩
  called e' b' u' hlast' hholds' hu' := by
    cases hholds.2.symm.trans hholds'.2
    cases hu.symm.trans hu'
    rw [hlast.unique hlast']
  uncalled := nofun

end

theorem loadNoting_dispatched (record : LogRecord → σ → σ)
    (read : R → Text → Text → σ → Except Fault Value × σ) (s : σ)
    (hl : t.resolve (Path.tidy path) = .ok l) :
    Dispatched table record read t l s (loadNoting table record read t path s) := by
  rcases listed_or_not table (Path.suffix l.text) with hnone | ⟨e, hlast⟩
  · rw [loadNoting_fails (open?_unlisted hl hnone)]
    exact dispatched_unlisted hnone
  have hreader := Table.find?_last hlast
  rcases t.isFile_cases l.text with ⟨b, hholds⟩ | hrefused | ⟨hnot, hseen, hfile⟩
  · cases hu : Text.Utf8.decode b with
    | ok u =>
      have htext : t.readText l.text = .ok (Text.unifyNewlines u) := by
        simp only [FileTree.readText, hholds.bytes, hu]
      rw [loadNoting_reads (open?_read hl hreader hholds.isFile htext)]
      exact dispatched_called hlast hholds hu
    | error f =>
      have htext : t.readText l.text = .error (.ofUtf8 f.start f.count b f.reason.message) := by
        simp only [FileTree.readText, hholds.bytes, hu]
      rw [loadNoting_fails (open?_unreadable hl hreader hholds.isFile htext)]
      refine dispatched_undecoded hlast hholds rfl fun u h => ?_
      cases hu.symm.trans h
  · rw [loadNoting_fails (open?_unseen hl hreader hrefused.isFile)]
    exact dispatched_refused hlast hrefused
  · rw [loadNoting_fails (open?_missing hl hreader hfile)]
    exact dispatched_missing hlast hnot hseen

theorem open?_congr {path' : Text} (hl : t.resolve (Path.tidy path) = .ok l)
    (hl' : t.resolve (Path.tidy path') = .ok l) : open? table t path' = open? table t path := by
  unfold open?
  rw [hl, hl']

/-- A file, and a link to it whose name has another extension. -/
def linkedTree : FileTree :=
  ⟨[(["w"], .directory), (["w", "a.JSON"], .file (Text.Utf8.encode "1\r\n")),
    (["w", "b.ts"], .link "a.JSON")], ["w"]⟩

/-- Two extensions that differ in case only. -/
def collidingTable : Table Nat := [(".json", 1), (".Json", 2), (".ts", 3)]

def failing (reader : Nat) (_ _ : Text) (calls : Nat) : Except Fault Value × Nat :=
  (.error (Fault.valueError (Text.ofNat reader)), calls + 1)

def longName : Text := List.replicate 256 (CodePoint.ofChar 'a') ++ Text.ofString ".json"

end ConfigFile
end ConfigLoader
