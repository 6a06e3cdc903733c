import ConfigLoader.Fault

/-! # Results and faults of a computation

Either way of ending is stated at once: what holds of a result, and what holds of a fault.
-/
namespace ConfigLoader.Fault

variable {α β ε : Type} {P P' : α → Prop} {Q : ε → Prop} {R : β → Prop}

/-- A computation gives a result of one kind or ends with a fault of another. -/
def Ends (P : α → Prop) (Q : ε → Prop) : Except ε α → Prop
  | .ok a => P a
  | .error e => Q e

namespace Ends

theorem mono {r : Except ε α} (h : Ends P Q r) {Q' : ε → Prop} (hP : ∀ a, P a → P' a)
    (hQ : ∀ e, Q e → Q' e) : Ends P' Q' r := by
  cases r with
  | ok a => exact hP a h
  | error e => exact hQ e h

theorem bind {r : Except ε α} {f : α → Except ε β} (h : Ends P Q r)
    (hf : ∀ a, P a → Ends R Q (f a)) : Ends R Q (r >>= f) := by
  cases r with
  | ok a => exact hf a h
  | error e => exact h

theorem map {r : Except ε α} {f : α → β} (h : Ends P Q r) (hf : ∀ a, P a → R (f a)) :
    Ends R Q (r.map f) := by
  cases r with
  | ok a => exact hf a h
  | error e => exact h

theorem mapM {f : α → Except ε β} (h : ∀ a, Ends R Q (f a)) (as : List α) :
    Ends (fun _ => True) Q (as.mapM f) := by
  induction as with
  | nil => exact trivial
  | cons a as ih =>
    rw [List.mapM_cons]
    exact (h a).bind fun b _ => ih.bind fun bs _ => trivial

theorem foldlM {f : β → α → Except ε β} (h : ∀ b, R b → ∀ a, Ends R Q (f b a)) (as : List α) :
    ∀ b, R b → Ends R Q (as.foldlM f b) := by
  induction as with
  | nil => exact fun b hb => hb
  | cons a as ih =>
    intro b hb
    rw [List.foldlM_cons]
    exact (h b hb a).bind ih

theorem forM {f : α → Except ε PUnit} (h : ∀ a, Ends (fun _ => True) Q (f a)) (as : List α) :
    Ends (fun _ => True) Q (as.forM f) := by
  induction as with
  | nil => exact trivial
  | cons a as ih => exact (h a).bind fun _ _ => ih

theorem of_ok {r : Except ε α} (h : Ends P Q r) {a : α} (hr : r = .ok a) : P a := by
  rw [hr] at h
  exact h

theorem of_error {r : Except ε α} (h : Ends P Q r) {e : ε} (hr : r = .error e) : Q e := by
  rw [hr] at h
  exact h

end Ends

section Gives
variable {r : Except ε α}

/-- A result came out with a property. -/
def Gives (P : α → Prop) (r : Except ε α) : Prop := ∃ a, r = .ok a ∧ P a

theorem gives_ok {a : α} : Gives P (.ok a : Except ε α) ↔ P a := by
  constructor
  · rintro ⟨b, hb, h⟩
    cases hb
    exact h
  · exact fun h => ⟨a, rfl, h⟩

theorem not_gives_error {e : ε} : ¬ Gives P (.error e) := by
  rintro ⟨a, ha, -⟩
  cases ha

theorem gives_bind {g : α → Except ε β} :
    Gives R (r >>= g) ↔ Gives (fun a => Gives R (g a)) r := by
  cases r with
  | error e => exact iff_of_false not_gives_error not_gives_error
  | ok a => exact (gives_ok (P := fun a => Gives R (g a))).symm

theorem gives_map {g : α → β} : Gives R (r.map g) ↔ Gives (fun a => R (g a)) r := by
  cases r with
  | error e => exact iff_of_false not_gives_error not_gives_error
  | ok a => exact gives_ok.trans (gives_ok (P := fun a => R (g a))).symm

theorem gives_congr (h : ∀ a, P a ↔ P' a) : Gives P r ↔ Gives P' r :=
  exists_congr fun a => and_congr_right fun _ => h a

theorem gives_and {q : Prop} : Gives (fun a => P a ∧ q) r ↔ Gives P r ∧ q := by
  simp only [Gives, ← and_assoc, exists_and_right]

end Gives
end ConfigLoader.Fault
