import ConfigLoader.Proofs.Modules.Memory
import ConfigLoader.Proofs.Script.Places

/-! # Closed states

In every state that an evaluation passes, objects and remembered modules lead to places of the heap
alone, and the heap never gets shorter. So what a request adds to the heap and nothing remembered
leads to can be given back after it.
-/
namespace ConfigLoader.Modules
open Script (Item Heap Failure Code Statement)
open Script.Item (Grows isBelow_mono ofValue_isBelow putField_below areBelow_iff
  areFieldsBelow_iff build_grows)

/-- Objects and modules lead to places of the heap alone. -/
structure Closed (s : State) : Prop where
  heap : Heap.IsClosed s.heap
  cache : ∀ e ∈ s.cache, e.2 < s.heap.length

/-- From closed states with at least `n` places a run leaves closed ones with no fewer places, and
what it ends with has a property for their number. -/
def Keeps {α : Type} (n : Nat) (V : Nat → α → Prop) (r : Run α) : Prop :=
  ∀ s, Closed s → n ≤ s.heap.length → Closed (r.run.run s).2 ∧
    s.heap.length ≤ (r.run.run s).2.heap.length ∧
    ∀ a, (r.run.run s).1 = .ok a → V (r.run.run s).2.heap.length a

/-- Nothing is said of what a run ends with. -/
abbrev Any {α : Type} (_ : Nat) (_ : α) : Prop := True

abbrev Below (n : Nat) (v : Item) : Prop := v.isBelow n = true

namespace Keeps
variable {α β : Type} {n : Nat} {V : Nat → α → Prop} {W : Nat → β → Prop}

theorem pure {a : α} (hv : ∀ m, n ≤ m → V m a) : Keeps n V (pure a) := by
  intro s hs hn
  refine ⟨hs, Nat.le_refl _, ?_⟩
  intro b hb
  cases hb
  exact hv _ hn

theorem throw (e : Stop) : Keeps n V (throw e) :=
  fun _ hs _ => ⟨hs, Nat.le_refl _, fun _ h => by cases h⟩

theorem raise (name : String) (message : Text) : Keeps n V (raise name message) := throw _

theorem lift (r : Except Failure α) (hv : ∀ a, r = .ok a → ∀ m, n ≤ m → V m a) :
    Keeps n V (lift r) := by
  cases r with
  | ok a => exact pure (hv a rfl)
  | error f => exact throw _

theorem bind {r : Run α} {f : α → Run β} (hr : Keeps n V r)
    (hf : ∀ m a, n ≤ m → V m a → Keeps m W (f a)) : Keeps n W (r >>= f) := by
  intro s hs hn
  obtain ⟨h1, h2, h3⟩ := hr s hs hn
  rw [run_bind r f s]
  cases ha : (r.run.run s).1 with
  | error e => exact ⟨h1, h2, fun _ h => by cases h⟩
  | ok a =>
    obtain ⟨h4, h5, h6⟩ := hf _ a (Nat.le_trans hn h2) (h3 a ha) _ h1 (Nat.le_refl _)
    exact ⟨h4, Nat.le_trans h2 h5, h6⟩

theorem get_bind {f : State → Run α} (hf : ∀ s, Closed s → n ≤ s.heap.length →
    Closed ((f s).run.run s).2 ∧ s.heap.length ≤ ((f s).run.run s).2.heap.length ∧
      ∀ a, ((f s).run.run s).1 = .ok a → V ((f s).run.run s).2.heap.length a) :
    Keeps n V (get >>= f) := hf

theorem mono {r : Run α} {m : Nat} (hnm : n ≤ m) (hr : Keeps n V r) : Keeps m V r :=
  fun s hs hm => hr s hs (Nat.le_trans hnm hm)

theorem onHeap {r : Run α} (f : Heap → Except Stop α × Heap)
    (hr : ∀ s, r.run.run s = ((f s.heap).1, { s with heap := (f s.heap).2 }))
    (hf : ∀ h, Heap.IsClosed h → n ≤ h.length → Heap.IsClosed (f h).2 ∧
      h.length ≤ (f h).2.length ∧ ∀ a, (f h).1 = .ok a → V (f h).2.length a) : Keeps n V r := by
  intro s hs hn
  obtain ⟨h1, h2, h3⟩ := hf s.heap hs.heap hn
  rw [hr s]
  exact ⟨⟨h1, fun e he => Nat.lt_of_lt_of_le (hs.cache e he) h2⟩, h2, h3⟩

theorem setPlace (place : Nat) {v : Item} (hv : v.isBelow n = true) :
    Keeps n Any (setPlace place v) :=
  onHeap (fun h => (.ok (), h.set place v)) (fun _ => rfl) fun _ hh hn =>
    ⟨hh.set place (isBelow_mono hn v hv), by simp, fun _ _ => trivial⟩

theorem hold {v : Item} (hv : v.isBelow n = true) : Keeps n Below (hold v) := by
  refine onHeap (fun h => (.ok (h.hold v).1, (h.hold v).2)) (fun _ => rfl) fun h hh hn => ?_
  have hb := isBelow_mono hn v hv
  have hplain : h.hold v = (v, h) → Heap.IsClosed (h.hold v).2 ∧
      h.length ≤ (h.hold v).2.length ∧
      ∀ a, (Except.ok (h.hold v).1 : Except Stop Item) = .ok a → Below (h.hold v).2.length a := by
    intro he
    rw [he]
    refine ⟨hh, Nat.le_refl _, fun a ha => ?_⟩
    cases ha
    exact hb
  cases v with
  | object shape fields =>
    refine ⟨hh.add (isBelow_mono (Nat.le_succ _) _ hb), by simp [Heap.hold], fun a ha => ?_⟩
    cases ha
    simp [Heap.hold, Below, Item.isBelow]
  | _ => exact hplain rfl

theorem newPlace : Keeps n Any newPlace := by
  refine onHeap (fun h => (.ok (h.length + 1), h ++ [Item.emptyObject, .cell h.length]))
    (fun _ => rfl) fun h hh _ => ⟨?_, by simp, fun _ _ => trivial⟩
  have h1 := @Heap.IsClosed.add _ hh Item.emptyObject rfl
  have h2 := @Heap.IsClosed.add _ h1 (.cell h.length) (by
    simp only [Item.isBelow, List.length_append, List.length_singleton, decide_eq_true_eq]
    omega)
  simpa using h2

theorem setExports (m : Module) {v : Item} (hv : v.isBelow n = true) :
    Keeps n Any (setExports m v) :=
  (hold hv).bind fun _ _ _ hw => setPlace m.place hw

theorem build (v : Option Value) : Keeps n Below (build v) := by
  cases v with
  | none => exact pure fun _ _ => rfl
  | some v =>
    refine onHeap (fun h => match Item.build h v with
      | .ok (item, h) => (.ok item, h)
      | .error f => (.error (.raised (errorItem f)), h)) ?_ ?_
    · intro s
      have hread : (Modules.build (some v)).run.run s =
          ((Modules.lift (Item.build s.heap v) >>= fun p => do
            set { s with heap := p.2 }
            return p.1 : Run Item)).run.run s := rfl
      rw [hread]
      cases Item.build s.heap v <;> rfl
    · intro h hh _
      cases hb : Item.build h v with
      | error f => exact ⟨hh, Nat.le_refl _, fun _ h => by cases h⟩
      | ok p =>
        obtain ⟨h1, h2, h3⟩ := build_grows hh v hb
        refine ⟨h2, h1, fun a ha => ?_⟩
        cases ha
        exact h3

/-! ## Setting fields -/

theorem putItem_below {vs : List Item} {m : Nat} {v : Item} (k : Nat) (hv : v.isBelow m = true)
    (hvs : Item.areBelow m vs = true) : Item.areBelow m (putItem vs k v) = true := by
  refine areBelow_iff.mpr fun w hw => ?_
  unfold putItem at hw
  split at hw
  · rcases List.mem_or_eq_of_mem_set hw with hw | rfl
    · exact areBelow_iff.mp hvs w hw
    · exact hv
  · simp only [List.mem_append, List.mem_singleton] at hw
    rcases hw with (hw | hw) | rfl
    · exact areBelow_iff.mp hvs w hw
    · rw [List.eq_of_mem_replicate hw]
      rfl
    · exact hv

theorem withField_below {m : Nat} (name : Text) {v w : Item} (hv : v.isBelow m = true)
    (hw : w.isBelow m = true) : (withField name v w).isBelow m = true := by
  have hput : ∀ shape fields, (Item.object shape fields).isBelow m = true →
      (Item.object shape (Item.putField name v fields)).isBelow m = true := by
    intro shape fields hb
    simp only [Item.isBelow, Bool.and_eq_true] at hb ⊢
    exact ⟨hb.1, putField_below name hv hb.2⟩
  unfold withField
  split
  · rename_i vs fields
    split
    · simp only [Item.isBelow, Item.Shape.isBelow, Bool.and_eq_true] at hw ⊢
      exact ⟨putItem_below _ hv hw.1, hw.2⟩
    · exact hput _ _ hw
  · exact hput _ _ hw
  · exact hw

theorem setFieldAt (k : Nat) (name : Text) {v : Item} (hv : v.isBelow n = true) :
    Keeps n Any (setFieldAt k name v) := by
  refine get_bind fun s hs hn => ?_
  split
  · exact raise _ _ s hs hn
  · have hb := withField_below name (isBelow_mono hn v hv) (hs.heap.get k)
    exact setPlace k hb s hs (Nat.le_refl _)

theorem setField (m : Module) (name : Text) {v : Item} (hv : v.isBelow n = true) :
    Keeps n Any (setField m name v) := by
  refine get_bind fun s hs hn => ?_
  dsimp only [State.exportsOf]
  cases s.heap.get m.place with
  | cell k => exact setFieldAt k name hv s hs hn
  | _ => exact raise _ _ s hs hn

theorem withFields (v : Item) (fields : List (Text × Option Value)) :
    Keeps n Any (withFields v fields) := by
  induction fields generalizing n v with
  | nil => exact pure fun _ _ => trivial
  | cons field fields ih => exact (build field.2).bind fun _ _ _ _ => ih _

/-! ## Programs -/

variable {require : Option Value → Run Item}

theorem perform (hr : ∀ id, Keeps 0 Below (require id)) (code : Code) (m : Module)
    (st : Statement) : Keeps 0 Any (perform require code m st) := by
  cases st with
  | setDefault v => exact (build v).bind fun _ a _ ha => setField m _ ha
  | setExports v => exact (build v).bind fun _ a _ ha => setExports m ha
  | setField name v => exact (build v).bind fun _ a _ ha => setField m name ha
  | require id as => exact (hr id).bind fun _ a _ ha => setField m as ha
  | handOn id => exact (hr _).bind fun _ a _ ha => setExports m ha
  | options as => exact setField m as (ofValue_isBelow _ _)
  | emitName as => exact setField m as (by simp only [Item.isBelow])
  | touched as => exact setField m as (ofValue_isBelow _ _)
  | filename as => exact setField m as (by simp only [Item.isBelow])
  | count as =>
    intro s hs hn
    have hv : (Item.number (Binary64.ofInt (s.count + 1 : Nat))).isBelow 0 = true := by
      simp only [Item.isBelow]
    exact setField m as hv { s with count := s.count + 1 } ⟨hs.heap, hs.cache⟩ hn
  | log text => exact fun s hs _ => ⟨⟨hs.heap, hs.cache⟩, Nat.le_refl _, fun _ _ => trivial⟩
  | exit code => exact (lift (V := Any) _ fun _ _ _ _ => trivial).bind fun _ _ _ _ => throw _
  | throw v => exact (build v).bind fun _ _ _ _ => throw _
  | «throwError» constructor message name fields =>
    exact (lift (V := Any) _ fun _ _ _ _ => trivial).bind fun _ _ _ _ =>
      (withFields _ fields).bind fun _ _ _ _ => throw _

theorem performAll (hr : ∀ id, Keeps 0 Below (require id)) (code : Code) (m : Module)
    (sts : List Statement) : Keeps 0 Any (performAll require code m sts) := by
  induction sts with
  | nil => exact pure fun _ _ => trivial
  | cons st sts ih => exact (perform hr code m st).bind fun _ _ h _ => ih.mono h

theorem readFile (t : FileTree) (file : Text) : Keeps n Any (readFile t file) :=
  lift _ fun _ _ _ _ => trivial

theorem runDocument (t : FileTree) (m : Module) : Keeps n Any (runDocument t m) := by
  refine (readFile t m.file).bind fun k text _ _ => ?_
  dsimp only
  cases Json.Strict.parse (withoutMark text) with
  | ok v => exact setExports m (ofValue_isBelow _ _)
  | error e => exact raise _ _

/-! ## Modules -/

variable {c : Surroundings}

theorem script (text : Text) : Keeps n Any (script text) := by
  unfold Modules.script
  cases Code.ofFileText? (withoutMark text) with
  | some code => exact pure fun _ _ => trivial
  | none => exact raise _ _

theorem find {α : Type} {V : α → Prop} {f : Find α}
    (hf : ∀ m a, (f.run.run m).1 = .ok a → V a) : Keeps n (fun _ => V) (find f) := fun s hs hn =>
  lift _ (fun a ha _ _ => hf s.memory a ha) _
    (⟨hs.heap, hs.cache⟩ : Closed { s with memory := (f.run.run s.memory).2 }) hn

theorem importModule_placeFree {e : Engine} {file text : Text} {m : Memory} {r : Completion}
    (h : ((importModule e file text).run.run m).1 = .ok r) : r.isPlaceFree = true := by
  rw [importModule_run] at h
  split at h
  · exact e.placeFree file _ r h
  · exact e.placeFree file text r h

theorem openFile_placeFree {e : Engine} {t : FileTree} {file : Text} {m : Memory} {r : Completion}
    (h : ((openFile e t file).run.run m).1 = .ok (.esModule r)) : r.isPlaceFree = true := by
  rw [openFile_run] at h
  rcases hk : (kindOf t file).run.run m with ⟨f | kind, n⟩ <;> rw [hk] at h
  · cases h
  · dsimp only at h
    cases ht : textOf t file with
    | error f =>
      rw [ht] at h
      cases h
    | ok text =>
      rw [ht] at h
      dsimp only at h
      split at h
      · cases hi : ((importModule e file text).run.run n).1 with
        | error f =>
          rw [hi] at h
          cases h
        | ok r =>
          rw [hi] at h
          cases h
          exact importModule_placeFree hi
      · cases h

theorem runPlain (hr : ∀ id, Keeps 0 Below (require id)) (m : Module) :
    Keeps 0 Any (runPlain c require m) := by
  have hopened : Keeps 0 (fun _ opened => ∀ r, opened = .esModule r → r.isPlaceFree = true)
      (Modules.find (openFile c.engine c.tree m.file)) :=
    find fun _ _ h r hr => openFile_placeFree (hr ▸ h)
  refine hopened.bind fun k opened _ hfree => ?_
  cases opened with
  | script text => exact (script text).bind fun _ code _ _ =>
      (performAll hr code m _).mono (Nat.zero_le _)
  | esModule r =>
    cases r with
    | ok fields =>
      have hb : (Item.object .namespace fields).isBelow 0 = true := by
        simpa [Item.isBelow, Item.Shape.isBelow, Completion.isPlaceFree] using hfree _ rfl
      exact setPlace m.place (isBelow_mono (Nat.zero_le _) _ hb)
    | error v => exact throw _

theorem runFile (hc : ∀ f, c.compile = some f → ∀ file text, Keeps 0 Any (f file text))
    (hr : ∀ id, Keeps 0 Below (require id)) (m : Module) : Keeps 0 Any (runFile c require m) := by
  unfold Modules.runFile
  dsimp only
  split
  · exact setExports m (by simp [Item.isBelow, Item.Shape.isBelow, Item.areFieldsBelow])
  · split
    · exact runDocument c.tree m
    · split
      · exact raise _ _
      · split
        · next _ _ compile hf _ =>
          exact (readFile c.tree m.file).bind fun _ text _ _ =>
            ((hc compile hf m.file text).mono (Nat.zero_le _)).bind fun _ code _ _ =>
              (performAll hr code m _).mono (Nat.zero_le _)
        · exact runPlain hr m

theorem resolve (parents : List Text) (request : Text) : Keeps n Any (resolve c parents request) := by
  refine (find (V := fun _ => True) fun _ _ _ => trivial).bind fun _ file _ _ => ?_
  cases file with
  | none => exact raise _ _
  | some file => exact pure fun _ _ => trivial

theorem exportsOf (place : Nat) : Keeps n Below (do return (← get).exportsOf place : Run Item) :=
  fun s hs _ => ⟨hs, Nat.le_refl _, fun a ha => by cases ha; exact hs.heap.get place⟩

theorem enter (file : Text) {evaluate : Nat → Run Unit} (he : ∀ k, Keeps 0 Any (evaluate k)) :
    Keeps n Below (enter file evaluate) := by
  intro s hs hn
  have hrun : (Modules.enter file evaluate).run.run s =
      (Modules.whenStopped (Modules.forget file) (evaluate (s.heap.length + 1)) >>= fun _ => do
        return (← get).exportsOf (s.heap.length + 1) : Run Item).run.run
          { (Modules.newPlace.run.run s).2 with
            cache := s.cache ++ [(file, s.heap.length + 1)] } := rfl
  have hstop : Keeps 0 Any (Modules.whenStopped (Modules.forget file)
      (evaluate (s.heap.length + 1))) := by
    intro s hs hn
    obtain ⟨h1, h2, -⟩ := he _ s hs hn
    rw [run_whenStopped]
    cases ((evaluate _).run.run s).1 with
    | ok a => exact ⟨h1, h2, fun _ _ => trivial⟩
    | error e =>
      exact ⟨⟨h1.heap, fun e he => h1.cache e (List.mem_filter.mp he).1⟩, h2, fun _ h => by cases h⟩
  obtain ⟨h1, h2, -⟩ := newPlace (n := n) s hs hn
  have hlen : (Modules.newPlace.run.run s).2.heap.length = s.heap.length + 2 := by
    show (s.heap ++ [Item.emptyObject, .cell s.heap.length]).length = _
    simp
  have hnew : Closed { (Modules.newPlace.run.run s).2 with
      cache := s.cache ++ [(file, s.heap.length + 1)] } := by
    refine ⟨h1.heap, ?_⟩
    intro e he
    dsimp only
    rw [hlen]
    rcases List.mem_append.mp he with he | he
    · have := hs.cache e he
      omega
    · rw [List.mem_singleton.mp he]
      omega
  rw [hrun]
  obtain ⟨h3, h4, h5⟩ := (hstop.bind fun _ _ _ _ => exportsOf (s.heap.length + 1)) _ hnew
    (Nat.zero_le _)
  exact ⟨h3, Nat.le_trans h2 h4, h5⟩

theorem load (file : Text) {evaluate : Nat → Run Unit} (he : ∀ k, Keeps 0 Any (evaluate k)) :
    Keeps n Below (load file evaluate) := by
  refine get_bind fun s hs hn => ?_
  cases assoc? file s.cache with
  | some place => exact exportsOf place s hs hn
  | none => exact enter file he s hs hn

theorem requires (hc : ∀ f, c.compile = some f → ∀ file text, Keeps 0 Any (f file text))
    (depth : Nat) : ∀ parents id, Keeps 0 Below (Modules.require c depth parents id) := by
  induction depth with
  | zero => exact fun _ _ => throw _
  | succ depth ih =>
    intro parents id
    refine (lift (V := Any) _ fun _ _ _ _ => trivial).bind fun _ request _ _ =>
      (resolve parents request).bind fun _ file _ _ => ?_
    exact load file fun k => runFile hc (ih (file :: parents)) ⟨file, k, parents⟩

end Keeps

/-! ## Places that are given back -/

/-- When an evaluation changed none of the objects that were there and left no new module, all that
it added to the heap is given back. -/
theorem sweep_heap {s t : State} (hs : Closed s) (hc : t.cache = s.cache)
    (hh : t.heap.take s.heap.length = s.heap) : (sweep s t).heap = s.heap := by
  have hcache : t.cache.all (fun e => decide (e.2 < s.heap.length)) = true := by
    rw [hc]
    exact List.all_eq_true.mpr fun e he => decide_eq_true (hs.cache e he)
  have hbelow : Item.areBelow s.heap.length s.heap = true := hs.heap
  simp only [sweep, hh, hcache, hbelow, Bool.and_self, if_true]

theorem sweep_frame (s t : State) : (sweep s t).cache = t.cache ∧ (sweep s t).count = t.count ∧
    (sweep s t).memory = t.memory ∧ (sweep s t).projects = t.projects := by
  unfold sweep
  dsimp only
  split <;> exact ⟨rfl, rfl, rfl, rfl⟩

/-! ## Evaluations that add nothing -/

theorem assoc?_isSome {e : Text × Nat} {cache : List (Text × Nat)} (h : e ∈ cache) :
    (assoc? e.1 cache).isSome = true := by
  rw [assoc?, Option.isSome_map, List.find?_isSome]
  exact ⟨e, h, beq_self_eq_true e.1⟩

theorem forgetNew_same {s t : State} (h : t.cache = s.cache) : forgetNew s t = t := by
  have hfilter : (t.cache.filter fun e => (assoc? e.1 s.cache).isSome || isPackageFile e.1) =
      t.cache := by
    rw [List.filter_eq_self]
    intro e he
    rw [assoc?_isSome (h ▸ he), Bool.true_or]
  rw [forgetNew, hfilter]

theorem sweep_same {s t : State} (h : t.heap = s.heap) : sweep s t = t := by
  have htake : t.heap.take s.heap.length = t.heap := by rw [← h, List.take_length]
  unfold sweep
  dsimp only
  rw [htake]
  split <;> rfl

end ConfigLoader.Modules
