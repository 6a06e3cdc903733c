import ConfigLoader.Proofs.FileTree.Outline

/-! # Files that are not there

A tree with and without the file at a place: a name reads the same in both unless it leads to that
place. Without links only the names of the place itself lead to it.
-/
namespace ConfigLoader

def Entry.isFile : Entry → Bool
  | .file _ => true
  | _ => false

namespace FileTree

def without (t : FileTree) (l : Location) : FileTree :=
  { t with entries := t.entries.filter fun e => e.1 != l }

def FileAt (t : FileTree) (l : Location) : Prop := ∀ e ∈ t.entries, e.1 = l → e.2.isFile = true

instance (t : FileTree) (l : Location) : Decidable (t.FileAt l) := List.decidableBAll _ _

variable {t : FileTree} {l : Location}

theorem at?_without_other {d : Location} (h : d ≠ l) : (t.without l).at? d = t.at? d := by
  cases d with
  | nil => rfl
  | cons n r =>
    simp only [at?, without]
    congr 1
    induction t.entries with
    | nil => rfl
    | cons e es ih =>
      rw [List.filter_cons, List.find?_cons]
      by_cases he : e.1 = n :: r
      · have hne : (e.1 != l) = true := by simpa [he] using h
        rw [hne, if_pos rfl, List.find?_cons]
        simp [he]
      · have hb : (e.1 == n :: r) = false := by simpa using he
        rw [hb]
        split
        · rw [List.find?_cons, hb]
          exact ih
        · exact ih

theorem at?_without_self (h : l ≠ []) : (t.without l).at? l = none := by
  cases l with
  | nil => exact absurd rfl h
  | cons n r =>
    simp only [at?, without, Option.map_eq_none_iff, List.find?_eq_none]
    intro e he
    have hne := (List.mem_filter.mp he).2
    simpa using hne

theorem FileAt.at? (hf : t.FileAt l) (h : l ≠ []) {e : Entry} (he : t.at? l = some e) :
    ∃ b, e = .file b := by
  cases l with
  | nil => exact absurd rfl h
  | cons n r =>
    obtain ⟨x, hx, rfl⟩ := Option.map_eq_some_iff.mp he
    have hl : x.1 = n :: r := by simpa using List.find?_some hx
    have hfile := hf x (List.mem_of_find?_eq_some hx) hl
    cases hv : x.2 with
    | file b => exact ⟨b, rfl⟩
    | directory | link target =>
      rw [hv] at hfile
      cases hfile

theorem linkFree_without (ht : t.LinkFree) (l : Location) : (t.without l).LinkFree :=
  fun e he => ht e (List.mem_filter.mp he).1

theorem linkFree_of_without (hf : t.FileAt l) (h : (t.without l).LinkFree) : t.LinkFree := by
  intro e he
  by_cases hl : e.1 = l
  · have hfile := hf e he hl
    rcases e with ⟨d, _ | _ | _⟩
    · rfl
    · cases hfile
    · cases hfile
  · exact h e (List.mem_filter.mpr ⟨he, by simpa using hl⟩)

def linkSteps (n : Nat) (e : Location × Entry) : Nat :=
  match e.2 with
  | .link target => n + target.length
  | _ => n

theorem walkFuel_eq (t : FileTree) (ns : List Text) :
    t.walkFuel ns = (t.entries.foldl linkSteps 0 + ns.length + 1) * (linkLimit + 2) := rfl

/-- A file adds nothing to the steps that links take. -/
theorem walkFuel_without (hf : t.FileAt l) (ns : List Text) :
    (t.without l).walkFuel ns = t.walkFuel ns := by
  have hfold : ∀ (es : List (Location × Entry)) (n : Nat),
      (∀ e ∈ es, e.1 = l → e.2.isFile = true) →
      (es.filter fun e => e.1 != l).foldl linkSteps n = es.foldl linkSteps n := by
    intro es
    induction es with
    | nil => exact fun _ _ => rfl
    | cons e es ih =>
      intro n h
      have hes := fun n => ih n fun x hx => h x (List.mem_cons_of_mem _ hx)
      rw [List.filter_cons, List.foldl_cons]
      split
      · rw [List.foldl_cons, hes]
      · next hl =>
        have hl : e.1 = l := by simpa using hl
        have hfile := h e (List.mem_cons_self ..) hl
        rw [hes]
        rcases e with ⟨d, _ | _ | _⟩
        · rfl
        · cases hfile
        · cases hfile
  rw [walkFuel_eq, walkFuel_eq, ← hfold t.entries 0 hf]
  rfl

/-! ## Walks -/

/-- A walk goes the same way without the file, unless it comes to where the file stands: there it
ends, and without the file it fails. -/
theorem walk_without (hf : t.FileAt l) (h : l ≠ []) (fuel links : Nat) (here : Location)
    (rest : List Text) :
    (t.without l).walk fuel links here rest = t.walk fuel links here rest ∨
      (∃ e, (t.without l).walk fuel links here rest = .error e) ∧
        (t.walk fuel links here rest = .ok l ∨ ∃ e, t.walk fuel links here rest = .error e) := by
  induction fuel generalizing links here rest with
  | zero => exact .inl rfl
  | succ fuel ih =>
    cases rest with
    | nil => exact .inl rfl
    | cons n rest =>
      by_cases hhere : here = l
      · subst hhere
        have hdir : t.at? here ≠ some .directory := by
          intro hd
          obtain ⟨b, hb⟩ := hf.at? h hd
          cases hb
        right
        simp only [walk, at?_without_self h, ne_eq, hdir, not_false_eq_true, if_true, reduceCtorEq]
        exact ⟨⟨_, rfl⟩, .inr ⟨_, rfl⟩⟩
      · simp only [walk, at?_without_other hhere]
        split
        · exact .inl rfl
        · split
          · exact ih ..
          · split
            · exact .inl rfl
            · by_cases hnext : here ++ [n] = l
              · rw [hnext, at?_without_self h]
                right
                refine ⟨⟨_, rfl⟩, ?_⟩
                cases he : t.at? l with
                | none => exact .inr ⟨_, rfl⟩
                | some e =>
                  obtain ⟨b, rfl⟩ := hf.at? h he
                  dsimp only
                  -- the walk stands at the file: no name leads on from there
                  cases fuel with
                  | zero => exact .inr ⟨_, rfl⟩
                  | succ fuel =>
                    cases rest with
                    | nil => exact .inl rfl
                    | cons m rest =>
                      right
                      simp only [walk, he, ne_eq, Option.some.injEq, reduceCtorEq,
                        not_false_eq_true, if_true]
                      exact ⟨_, rfl⟩
              · rw [at?_without_other hnext]
                split
                · exact .inl rfl
                · split
                  · exact .inl rfl
                  · exact ih ..
                · exact ih ..

theorem locate_eq (t : FileTree) (p : Text) : t.locate p =
    match refusal? p with
    | some e => .error e
    | none => match t.walk (t.walkFuel (Path.names p)) linkLimit
        (if Path.isAbsolute p then [] else t.cwd) (Path.names p) with
      | .error e => .error e
      | .ok q => t.arrive p q := rfl

theorem directory_without (hf : t.FileAt l) (h : l ≠ []) (d : Location) :
    (t.without l).at? d = some .directory ↔ t.at? d = some .directory := by
  by_cases hd : d = l
  · subst hd
    rw [at?_without_self h]
    refine ⟨fun h => (nomatch h), fun hdir => ?_⟩
    obtain ⟨b, hb⟩ := hf.at? h hdir
    cases hb
  · rw [at?_without_other hd]

theorem arrive_without (hf : t.FileAt l) (h : l ≠ []) (p : Text) (q : Location) :
    (t.without l).arrive p q = t.arrive p q := by
  simp only [arrive, ne_eq, directory_without hf h]

/-- A name leads to the same place without the file, unless it leads to the file: then it leads
nowhere. -/
theorem locate_without (hf : t.FileAt l) (h : l ≠ []) (p : Text) :
    (t.without l).locate p = t.locate p ∨ (∃ e, (t.without l).locate p = .error e) ∧
      (t.locate p = .ok l ∨ ∃ e, t.locate p = .error e) := by
  have hcwd : (t.without l).cwd = t.cwd := rfl
  rw [locate_eq, locate_eq, hcwd, walkFuel_without hf]
  split
  · exact .inl rfl
  · rcases walk_without hf h (t.walkFuel (Path.names p)) linkLimit
      (if Path.isAbsolute p then [] else t.cwd) (Path.names p) with hw | ⟨⟨e, he⟩, hw⟩
    · rw [hw]
      simp only [arrive_without hf h]
      exact .inl trivial
    · rw [he]
      refine .inr ⟨⟨e, rfl⟩, ?_⟩
      rcases hw with hw | ⟨e, hw⟩
      · rw [hw]
        dsimp only [arrive]
        split
        · exact .inr ⟨_, rfl⟩
        · exact .inl rfl
      · rw [hw]
        exact .inr ⟨e, rfl⟩

theorem bytes_without (hf : t.FileAt l) (h : l ≠ []) {p : Text} (hp : t.locate p ≠ .ok l) :
    ((t.without l).bytes p).toOption = (t.bytes p).toOption := by
  rw [bytes_eq, bytes_eq]
  rcases locate_without hf h p with hl | ⟨⟨e, he⟩, hl | ⟨e', hl⟩⟩
  · rw [hl]
    cases hq : t.locate p with
    | error e => rfl
    | ok q =>
      have hne : q ≠ l := fun hql => hp (hql ▸ hq)
      simp only [entryAt, at?_without_other hne]
  · exact absurd hl hp
  · rw [he, hl]
    rfl

theorem text?_without (hf : t.FileAt l) (h : l ≠ []) {p : Text} (hp : t.locate p ≠ .ok l) :
    (t.without l).text? p = t.text? p := by
  rw [text?, text?, bytes_without hf h hp]

theorem hasFile_without (hf : t.FileAt l) (h : l ≠ []) {p : Text} (hp : t.locate p ≠ .ok l) :
    (t.without l).hasFile p = t.hasFile p := by
  rw [hasFile_eq, hasFile_eq, text?_without hf h hp]

theorem hasFile_iff (t : FileTree) (p : Text) :
    t.hasFile p = true ↔ ∃ q b, t.locate p = .ok q ∧ t.at? q = some (.file b) := by
  rw [hasFile, stat_eq]
  cases t.locate p with
  | error e => simp [entryAt]
  | ok q =>
    simp only [entryAt, Except.ok.injEq, exists_and_left, exists_eq_left']
    rcases t.at? q with _ | _ | _ | _ <;> simp

theorem hasFile_of_without (hf : t.FileAt l) (h : l ≠ []) {p : Text}
    (hp : (t.without l).hasFile p = true) : t.hasFile p = true := by
  obtain ⟨q, b, hq, hb⟩ := (hasFile_iff _ p).mp hp
  have hne : q ≠ l := by
    rintro rfl
    rw [at?_without_self h] at hb
    cases hb
  rcases locate_without hf h p with hl | ⟨⟨e, he⟩, -⟩
  · rw [at?_without_other hne] at hb
    exact (hasFile_iff t p).mpr ⟨q, b, hl ▸ hq, hb⟩
  · rw [he] at hq
    cases hq

theorem hasDirectory_without (hf : t.FileAt l) (h : l ≠ []) (p : Text) :
    (t.without l).hasDirectory p = t.hasDirectory p := by
  have hdir : ∀ t : FileTree, t.hasDirectory p =
      (t.locate p).toOption.any fun q => t.at? q == some .directory := by
    intro t
    rw [hasDirectory, stat_eq]
    cases t.locate p with
    | error e => rfl
    | ok q =>
      simp only [entryAt, Except.toOption, Option.any_some]
      rcases t.at? q with _ | _ | _ | _ <;> rfl
  have hat : ∀ q, ((t.without l).at? q == some .directory) = (t.at? q == some .directory) :=
    fun q => Bool.eq_iff_iff.mpr (by simp only [beq_iff_eq, directory_without hf h])
  rw [hdir, hdir]
  simp only [hat]
  rcases locate_without hf h p with hl | ⟨⟨e, he⟩, hl | ⟨e', hl⟩⟩
  · rw [hl]
  · have hdir : (t.at? l == some .directory) = false := by
      cases ha : t.at? l with
      | none => rfl
      | some x =>
        obtain ⟨b, rfl⟩ := hf.at? h ha
        rfl
    rw [he, hl]
    exact hdir.symm
  · rw [he, hl]
    rfl

/-! ## Places that walks come to -/

theorem walk_within {fuel links : Nat} {here q : Location} {rest : List Text}
    (hw : t.walk fuel links here rest = .ok q)
    (hhere : ∀ d, d <+: here → d ≠ here → t.at? d = some .directory) :
    ∀ d, d <+: q → d ≠ q → t.at? d = some .directory := by
  induction fuel generalizing links here rest with
  | zero => cases hw
  | succ fuel ih =>
    cases rest with
    | nil =>
      cases hw
      exact hhere
    | cons n rest =>
      unfold walk at hw
      split at hw
      · cases hw
      · next hdir =>
        have hdir : t.at? here = some .directory := by simpa using hdir
        have hall : ∀ d, d <+: here → t.at? d = some .directory := by
          intro d hd
          by_cases he : d = here
          · rw [he]
            exact hdir
          · exact hhere d hd he
        have hnext : ∀ d, d <+: here ++ [n] → d ≠ here ++ [n] → t.at? d = some .directory := by
          intro d hd hne
          rcases List.prefix_concat_iff.mp hd with he | hd
          · exact absurd he hne
          · exact hall d hd
        split at hw
        · exact ih hw fun d hd _ => hall d (hd.trans (List.dropLast_prefix here))
        · split at hw
          · cases hw
          · split at hw
            · cases hw
            · split at hw
              · cases hw
              · refine ih hw fun d hd hne => ?_
                split at hd
                · next habs =>
                  rw [if_pos habs] at hne
                  exact absurd (List.prefix_nil.mp hd) hne
                · exact hall d hd
            · exact ih hw hnext

theorem FileAt.not_above (hf : t.FileAt l) (h : l ≠ []) {p : Text} {q : Location}
    (hq : t.locate p = .ok q) (hp : Path.isAbsolute p = true) (hl : l <+: q) : q = l := by
  rw [locate_eq, if_pos hp] at hq
  split at hq
  · cases hq
  · split at hq
    · cases hq
    · next r hw =>
      obtain rfl := arrive_eq_ok hq
      refine Decidable.byContradiction fun hne => ?_
      have hdir := walk_within hw (fun d hd hne => absurd (List.prefix_nil.mp hd) hne) l hl
        (Ne.symm hne)
      obtain ⟨b, hb⟩ := hf.at? h hdir
      cases hb

/-! ## Trees without links -/

theorem takeName_parent {here : Location} (h : ∀ n ∈ here, n ≠ Text.ofString "..") :
    Path.takeName true here.reverse (Text.ofString "..") = here.parent.reverse := by
  rw [Location.parent, ← List.tail_reverse]
  cases hr : here.reverse with
  | nil => rfl
  | cons m r =>
    have hm : (m == Text.ofString "..") = false := by
      simpa using h m (List.mem_reverse.mp (hr ▸ List.mem_cons_self ..))
    simp only [Path.takeName, beq_self_eq_true, if_true, hm, Bool.false_eq_true, if_false,
      List.tail_cons]

theorem walk_collapse (ht : t.LinkFree) {fuel links : Nat} {here q : Location} {rest : List Text}
    (hhere : ∀ n ∈ here, n ≠ Text.ofString "..") (hw : t.walk fuel links here rest = .ok q) :
    q = (rest.foldl (Path.takeName true) here.reverse).reverse := by
  induction fuel generalizing here rest with
  | zero => cases hw
  | succ fuel ih =>
    cases rest with
    | nil =>
      cases hw
      simp
    | cons n rest =>
      unfold walk at hw
      split at hw
      · cases hw
      · split at hw
        · next hn =>
          obtain rfl : n = Text.ofString ".." := by simpa using hn
          rw [List.foldl_cons, takeName_parent hhere]
          exact ih (fun m hm => hhere m (List.dropLast_subset here hm)) hw
        · next hn =>
          have hn : n ≠ Text.ofString ".." := by simpa using hn
          split at hw
          · cases hw
          · split at hw
            · cases hw
            · rename_i target hl
              exact absurd hl (ht.at?_ne _ _)
            · have hnext : ∀ m ∈ here ++ [n], m ≠ Text.ofString ".." := by
                intro m hm
                rcases List.mem_append.mp hm with hm | hm
                · exact hhere m hm
                · rw [List.mem_singleton.mp hm]
                  exact hn
              rw [ih hnext hw, List.foldl_cons, Path.takeName_name _ _ hn]
              simp

theorem locate_absolute (ht : t.LinkFree) {p : Text} (hp : Path.isAbsolute p = true) {q : Location}
    (hq : t.locate p = .ok q) : q = Path.toLocation p := by
  rw [locate_eq, if_pos hp] at hq
  split at hq
  · cases hq
  · split at hq
    · cases hq
    · next hw =>
      obtain rfl := arrive_eq_ok hq
      exact walk_collapse ht (by simp) hw

theorem locate_resolve (ht : t.LinkFree) (hcwd : Path.AreProper t.cwd) {p : Text} {q : Location}
    (hq : t.locate p = .ok q) : q = Path.resolve t.cwd p := by
  unfold Path.resolve
  split
  · next hp => exact locate_absolute ht hp hq
  · next hp =>
    rw [locate_eq, if_neg hp] at hq
    split at hq
    · cases hq
    · split at hq
      · cases hq
      · next hw =>
        have hdots : ∀ n ∈ t.cwd, n ≠ Text.ofString ".." := fun n hn => (hcwd n hn).noDots
        obtain rfl := arrive_eq_ok hq
        rw [Path.collapse, List.foldl_append, Path.foldl_takeName_names hdots, List.append_nil]
        exact walk_collapse ht hdots hw

theorem walk_apart {fuel links : Nat} {here : Location} {rest : List Text} (ht : t.LinkFree)
    (hrest : ∀ n ∈ rest, n ≠ Text.ofString "..") (hl : ∀ d, d <+: here ++ rest → d ≠ l) :
    (t.without l).walk fuel links here rest = t.walk fuel links here rest := by
  induction fuel generalizing here rest with
  | zero => rfl
  | succ fuel ih =>
    cases rest with
    | nil => rfl
    | cons n rest =>
      have hn : (n == Text.ofString "..") = false := by simpa using hrest n (List.mem_cons_self ..)
      have hnext : here ++ [n] ++ rest = here ++ n :: rest := by simp
      have hih := ih (fun m hm => hrest m (List.mem_cons_of_mem _ hm)) (hnext ▸ hl)
      have h1 : (t.without l).at? here = t.at? here :=
        at?_without_other (hl here (List.prefix_append ..))
      have h2 : (t.without l).at? (here ++ [n]) = t.at? (here ++ [n]) :=
        at?_without_other (hl _ (hnext ▸ List.prefix_append ..))
      simp only [walk, h1, h2, hn, Bool.false_eq_true, if_false, hih]
      cases hl : t.at? (here ++ [n]) with
      | none => rfl
      | some e =>
        cases e with
        | link target => exact absurd hl (ht.at?_ne _ _)
        | _ => rfl

theorem bytes_apart (ht : t.LinkFree) (hf : t.FileAt l) (h : l ≠ []) {q : Location}
    (hq : Path.AreProper q) (hl : ¬ l <+: q) : (t.without l).bytes q.text = t.bytes q.text := by
  have habs := Path.isAbsolute_text q
  have hlocate : (t.without l).locate q.text = t.locate q.text := by
    have hpre : ∀ d, d <+: [] ++ q → d ≠ l := by
      rintro d hd rfl
      exact hl hd
    rw [locate_eq, locate_eq, walkFuel_without hf, if_pos habs, if_pos habs, Path.names_proper hq,
      walk_apart ht (fun n hn => (hq n hn).noDots) hpre]
    simp only [arrive_without hf h]
  rw [bytes_eq, bytes_eq, hlocate]
  cases hp : t.locate q.text with
  | error e => rfl
  | ok r =>
    have hr : r ≠ l := by
      rintro rfl
      have hr := locate_absolute ht habs hp
      rw [Path.toLocation_text hq] at hr
      exact hl (hr ▸ List.prefix_rfl)
    simp only [entryAt, at?_without_other hr]

end FileTree
end ConfigLoader
