import ConfigLoader.Json.Printer
import ConfigLoader.Json.Reader

/-! # How reading and printing fail

A text that is no document is a fault of its value. A value without a form is one of its type, unless
it is too large a number or part of itself. Both end with a fault of their own where there is no room
for what lies within.
-/
namespace ConfigLoader.Json

theorem load_fault {levels : Nat} {t : Text} {f : Fault} (h : load levels t = .error f) :
    f.kind.isA .valueError = true ∨ f.kind = .recursionError := by
  unfold load at h
  cases hp : parse levels t with
  | ok v =>
    rw [hp] at h
    cases h
  | error e =>
    rw [hp] at h
    obtain rfl : e.fault t = f := Except.error.inj h
    unfold Error.fault
    cases e.problem with
    | tooDeep => exact .inr rfl
    | _ => exact .inl rfl

def IsPrintFault (f : Fault) : Prop :=
  f.kind = .valueError ∨ f.kind = .typeError ∨ f.kind = .recursionError

theorem intText_fault {n : Int} {f : Fault} (h : intText n = .error f) : IsPrintFault f := by
  unfold intText at h
  split at h
  · cases h
    exact .inl rfl
  · cases h

theorem nameText_fault {l : Layout} {k : Value} {f : Fault} (h : nameText l k = .error f) :
    IsPrintFault f := by
  cases k with
  | null | bool b | float x | text t => cases h
  | int n => exact intText_fault h
  | _ =>
    cases h
    exact .inr (.inl rfl)

theorem map_error {α β : Type} {g : α → β} {r : Except Fault α} {f : Fault}
    (h : r.map g = .error f) : r = .error f := by
  cases r with
  | ok a => cases h
  | error e =>
    cases h
    rfl

theorem map_ok {α β : Type} {g : α → β} {r : Except Fault α} {b : β} (h : r.map g = .ok b) :
    ∃ a, r = .ok a ∧ g a = b := by
  cases r with
  | ok a => exact ⟨a, rfl, Except.ok.inj h⟩
  | error e => cases h

/-- What stands for values without a form fails as printing does. -/
def Layout.FailsInPrint (l : Layout) : Prop :=
  ∀ ⦃g v f⦄, l.fallback = some g → g v = .error f → IsPrintFault f

theorem frameLayout_fails (limits : Limits) : (frameLayout limits).FailsInPrint := nofun

mutual

theorem flaw?_isPrintFault {f : Fault} : (levels : Nat) → (v : Value) →
    flaw? levels v = some f → IsPrintFault f
  | 0, _, h => by
    rw [flaw?] at h
    cases h
    exact .inr (.inr rfl)
  | _ + 1, .int n, h => by
    rw [flaw?] at h
    split at h
    · cases h
      exact .inl rfl
    · cases h
  | levels + 1, .list vs, h | levels + 1, .tuple vs, h => itemFlaw?_isPrintFault levels vs h
  | levels + 1, .set vs, h => by
    rw [flaw?] at h
    split at h
    · cases h
    · exact itemFlaw?_isPrintFault _ vs h
  | levels + 1, .mapping es, h => entryFlaw?_isPrintFault levels es h

theorem itemFlaw?_isPrintFault {f : Fault} : (levels : Nat) → (vs : List Value) →
    itemFlaw? levels vs = some f → IsPrintFault f
  | levels, v :: vs, h => by
    rw [itemFlaw?, Option.or_eq_some_iff] at h
    rcases h with h | ⟨-, h⟩
    · exact flaw?_isPrintFault levels v h
    · exact itemFlaw?_isPrintFault levels vs h

theorem entryFlaw?_isPrintFault {f : Fault} : (levels : Nat) → (es : List (Value × Value)) →
    entryFlaw? levels es = some f → IsPrintFault f
  | levels, (k, v) :: es, h => by
    rw [entryFlaw?, Option.or_eq_some_iff, Option.or_eq_some_iff] at h
    rcases h with (h | ⟨-, h⟩) | ⟨-, h⟩
    · exact flaw?_isPrintFault levels k h
    · exact flaw?_isPrintFault levels v h
    · exact entryFlaw?_isPrintFault levels es h

end

theorem shownAs_fault {text : Value → Text} {limits : Limits} {v : Value} {f : Fault}
    (h : shownAs text limits v = .error f) : IsPrintFault f := by
  unfold shownAs at h
  split at h
  · next hf =>
    cases h
    exact flaw?_isPrintFault _ v hf
  · cases h

theorem resultLayout_fails (limits : Limits) : (resultLayout limits).FailsInPrint := by
  rintro g v f ⟨⟩ hf
  exact shownAs_fault hf

variable {l : Layout}

theorem fallback_fault {v : Value} {f : Fault} (hl : l.FailsInPrint)
    (h : (match l.fallback with
      | some g => (g v).map (quote l.ascii)
      | none => .error (Fault.typeError
          ("Object of type " ++ v.typeName ++ " is not JSON serializable"))) = .error f) :
    IsPrintFault f := by
  split at h
  · next g hg => exact hl hg (map_error h)
  · cases h
    exact .inr (.inl rfl)

theorem within_fault {α : Type} {depth : Nat} {items : Except Fault α} {f : Fault}
    (h : within l depth items = .error f) : f.kind = .recursionError ∨ items = .error f := by
  unfold within at h
  split at h
  · exact .inr h
  · cases h
    exact .inl rfl

mutual

theorem print_fault (hl : l.FailsInPrint) (depth : Nat) :
    (v : Value) → {f : Fault} → print l depth v = .error f → IsPrintFault f
  | .null, _, h | .bool _, _, h | .float _, _, h | .text _, _, h => by cases h
  | .int _, _, h => intText_fault h
  | .list vs, _, h | .tuple vs, _, h =>
    (within_fault (map_error h)).elim (fun hk => .inr (.inr hk))
      (printItems_fault hl (depth + 1) vs)
  | .mapping es, _, h =>
    (within_fault (map_error h)).elim (fun hk => .inr (.inr hk))
      (printMembers_fault hl (depth + 1) es)
  | .cycle _, _, h => by
    rcases within_fault h with hk | hk
    · exact .inr (.inr hk)
    · cases hk
      exact .inl rfl
  | .bytes _, _, h | .date _, _, h | .dateTime _, _, h | .set _, _, h => fallback_fault hl h

theorem printItems_fault (hl : l.FailsInPrint) (depth : Nat) :
    (vs : List Value) → {f : Fault} → printItems l depth vs = .error f → IsPrintFault f
  | [], _, h => by cases h
  | v :: vs, f, h => by
    rw [printItems] at h
    cases hv : print l depth v with
    | error g =>
      rw [hv] at h
      cases h
      exact print_fault hl depth v hv
    | ok t =>
      cases hvs : printItems l depth vs with
      | error g =>
        rw [hv, hvs] at h
        cases h
        exact printItems_fault hl depth vs hvs
      | ok ts =>
        rw [hv, hvs] at h
        cases h

theorem printMembers_fault (hl : l.FailsInPrint) (depth : Nat) :
    (es : List (Value × Value)) → {f : Fault} →
      printMembers l depth es = .error f → IsPrintFault f
  | [], _, h => by cases h
  | (k, v) :: es, f, h => by
    rw [printMembers] at h
    cases hk : nameText l k with
    | error g =>
      rw [hk] at h
      cases h
      exact nameText_fault hk
    | ok name =>
      cases hv : print l depth v with
      | error g =>
        rw [hk, hv] at h
        cases h
        exact print_fault hl depth v hv
      | ok t =>
        cases hes : printMembers l depth es with
        | error g =>
          rw [hk, hv, hes] at h
          cases h
          exact printMembers_fault hl depth es hes
        | ok ts =>
          rw [hk, hv, hes] at h
          cases h

end

end ConfigLoader.Json
