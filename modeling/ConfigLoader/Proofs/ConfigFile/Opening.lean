import ConfigLoader.ConfigFile
import ConfigLoader.Proofs.FileTree.Reading

/-! # Opening configuration files

A file is opened in steps, each of which has a fault of its own: the path is resolved, a reader is found,
the file is seen and then read.
-/
namespace ConfigLoader.ConfigFile
variable {R : Type} {table : Table R} {t : FileTree} {path : Text}

def missing (path : Text) : Fault := .of .fileNotFoundError ("Config file not found: " ++ path)

inductive Opens (table : Table R) (t : FileTree) (path : Text) : Except Fault (Request R) → Prop
  | unresolved {f : Fault} (h : t.resolve (Path.tidy path) = .error f) : Opens table t path (.error f)
  | unsupported {l : Location} (h : t.resolve (Path.tidy path) = .ok l)
      (hr : table.find? (Path.suffix l.text) = none) :
      Opens table t path (.error (unsupported l.text))
  | unseen {l : Location} {reader : R} {f : Fault} (h : t.resolve (Path.tidy path) = .ok l)
      (hr : table.find? (Path.suffix l.text) = some reader) (hf : t.isFile l.text = .error f) :
      Opens table t path (.error f)
  | missing {l : Location} {reader : R} (h : t.resolve (Path.tidy path) = .ok l)
      (hr : table.find? (Path.suffix l.text) = some reader) (hf : t.isFile l.text = .ok false) :
      Opens table t path (.error (missing l.text))
  | unreadable {l : Location} {reader : R} {f : Fault} (h : t.resolve (Path.tidy path) = .ok l)
      (hr : table.find? (Path.suffix l.text) = some reader) (hf : t.isFile l.text = .ok true)
      (ht : t.readText l.text = .error f) : Opens table t path (.error f)
  | read {l : Location} {reader : R} {text : Text} (h : t.resolve (Path.tidy path) = .ok l)
      (hr : table.find? (Path.suffix l.text) = some reader) (hf : t.isFile l.text = .ok true)
      (ht : t.readText l.text = .ok text) : Opens table t path (.ok ⟨l.text, text, reader⟩)

theorem open?_opens (table : Table R) (t : FileTree) (path : Text) :
    Opens table t path (open? table t path) := by
  unfold open?
  cases h : t.resolve (Path.tidy path) with
  | error f => exact .unresolved h
  | ok l =>
    simp only [bind, Except.bind]
    cases hr : table.find? (Path.suffix l.text) with
    | none => exact .unsupported h hr
    | some reader =>
      cases hf : t.isFile l.text with
      | error f => exact .unseen h hr hf
      | ok found =>
        cases found with
        | false => exact .missing h hr hf
        | true =>
          cases ht : t.readText l.text with
          | error f => exact .unreadable h hr hf ht
          | ok text => exact .read h hr hf ht

theorem open?_ok {q : Request R} (h : open? table t path = .ok q) :
    ∃ l, t.resolve (Path.tidy path) = .ok l ∧ table.find? (Path.suffix l.text) = some q.reader ∧
      t.isFile l.text = .ok true := by
  have hopens := open?_opens table t path
  rw [h] at hopens
  cases hopens with
  | read hl hr hf => exact ⟨_, hl, hr, hf⟩

theorem open?_unresolved {f : Fault} (h : t.resolve (Path.tidy path) = .error f) :
    open? table t path = .error f := by
  simp only [open?, h, bind, Except.bind]

theorem open?_unseen {l : Location} {reader : R} {f : Fault}
    (h : t.resolve (Path.tidy path) = .ok l) (hr : table.find? (Path.suffix l.text) = some reader)
    (hf : t.isFile l.text = .error f) : open? table t path = .error f := by
  simp only [open?, h, hr, hf, bind, Except.bind]

theorem open?_missing {reader : R} (h : t.resolve (Path.tidy path) = .ok l)
    (hr : table.find? (Path.suffix l.text) = some reader) (hf : t.isFile l.text = .ok false) :
    open? table t path = .error (missing l.text) := by
  simp only [open?, h, hr, hf, bind, Except.bind]
  rfl

theorem open?_unreadable {reader : R} {f : Fault} (h : t.resolve (Path.tidy path) = .ok l)
    (hr : table.find? (Path.suffix l.text) = some reader) (hf : t.isFile l.text = .ok true)
    (ht : t.readText l.text = .error f) : open? table t path = .error f := by
  simp only [open?, h, hr, hf, ht, bind, Except.bind]
  rfl

theorem open?_read {reader : R} {text : Text} (h : t.resolve (Path.tidy path) = .ok l)
    (hr : table.find? (Path.suffix l.text) = some reader) (hf : t.isFile l.text = .ok true)
    (ht : t.readText l.text = .ok text) : open? table t path = .ok ⟨l.text, text, reader⟩ := by
  simp only [open?, h, hr, hf, ht, bind, Except.bind]
  rfl

theorem find?_typescript {extension : Text}
    (h : standardTable.find? extension = some .typescript) :
    extension.lower ∈ [Text.ofString ".ts", ".mts", ".cts"] := by
  obtain ⟨e, he, hreader⟩ := Option.map_eq_some_iff.mp h
  have hfound : (e.1.lower == extension.lower) = true := List.find?_some
    (p := fun e : Text × Reader => e.1.lower == extension.lower) he
  have hsame : e.1.lower = extension.lower := eq_of_beq hfound
  have hmem : e ∈ standardTable := List.mem_reverse.mp (List.mem_of_find?_eq_some he)
  have hall : ∀ e ∈ standardTable, e.2 = .typescript →
      e.1.lower ∈ [Text.ofString ".ts", ".mts", ".cts"] := by decide
  exact hsame ▸ hall e hmem hreader

end ConfigLoader.ConfigFile
