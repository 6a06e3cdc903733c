import ConfigLoader.Proofs.Fault.Ends
import ConfigLoader.Proofs.Value.Cells
import ConfigLoader.Yaml.Scalar

/-! # What reading a scalar ends with

A scalar becomes a value that stands in a slot itself, or is refused with a fault of the value or one of
a few other kinds.
-/
namespace ConfigLoader
open Fault (Ends)

namespace Number

theorem integer_ends (base : Nat) (t : Text) :
    Ends (fun _ => True) (fun f => f.kind = .valueError) (integer base t) := by
  unfold integer
  dsimp only
  split
  · exact rfl
  · split
    · exact rfl
    · exact trivial

theorem float_ends (t : Text) :
    Ends (fun _ => True) (fun f => f.kind = .valueError) (float t) := by
  unfold float
  dsimp only
  split
  · exact trivial
  · split
    · exact trivial
    · split
      · exact trivial
      · exact rfl

end Number

namespace Yaml.Scalar

/-- The kinds of fault that scalars of an explicit type are refused with and that are no faults of a value
or a document. -/
def strayKinds : List Fault.Kind := [.keyError, .indexError, .attributeError, .overflowError]

def IsRefusal (f : Fault) : Prop := f.kind = .valueError ∨ f.kind ∈ strayKinds

theorem isRefusal_of_value (f : Fault) (h : f.kind = .valueError) : IsRefusal f := .inl h

theorem integer_refusal (base : Nat) (t : Text) :
    Ends (fun _ => True) IsRefusal (Number.integer base t) :=
  (Number.integer_ends base t).mono (fun _ h => h) isRefusal_of_value

theorem float_refusal (t : Text) : Ends (fun _ => True) IsRefusal (Number.float t) :=
  (Number.float_ends t).mono (fun _ h => h) isRefusal_of_value

theorem boolean_ends (t : Text) : Ends Value.IsLeaf IsRefusal (boolean t) := by
  unfold boolean
  dsimp only
  split
  · exact trivial
  · split
    · exact trivial
    · exact .inr (.head _)

theorem signed_ends (t : Text) : Ends (fun _ => True) IsRefusal (signed t) := by
  unfold signed
  split
  · exact .inr (.tail _ (.head _))
  · exact trivial

theorem integer_ends (t : Text) : Ends Value.IsLeaf IsRefusal (integer t) := by
  unfold integer
  refine (signed_ends _).bind fun sr _ => ?_
  obtain ⟨negative, r⟩ := sr
  dsimp only
  split
  · exact trivial
  · split
    · exact (integer_refusal 2 _).bind fun _ _ => trivial
    · exact (integer_refusal 16 _).bind fun _ _ => trivial
    · split
      · exact .inr (.tail _ (.head _))
      · split
        · exact (integer_refusal 8 _).bind fun _ _ => trivial
        · split
          · exact (Ends.mapM (integer_refusal 10) _).bind fun _ _ => trivial
          · exact (integer_refusal 10 _).bind fun _ _ => trivial

theorem sexagesimalFloat_ends (ps : List Binary64) :
    ∀ power sum, Ends (fun _ => True) IsRefusal (sexagesimalFloat ps power sum) := by
  induction ps with
  | nil => exact fun _ _ => trivial
  | cons p ps ih =>
    intro power sum
    have hadd : Ends (fun _ => True) IsRefusal (addPlace sum power p) := by
      unfold addPlace
      dsimp only
      split
      · exact trivial
      · exact .inr (by decide)
    exact hadd.bind fun sum _ => ih _ sum

theorem float_ends (t : Text) : Ends Value.IsLeaf IsRefusal (float t) := by
  unfold float
  refine (signed_ends _).bind fun sr _ => ?_
  obtain ⟨negative, r⟩ := sr
  dsimp only
  split
  · exact trivial
  · split
    · exact trivial
    · split
      · exact (Ends.mapM float_refusal _).bind fun xs _ =>
          (sexagesimalFloat_ends _ _ _).bind fun _ _ => trivial
      · exact (float_refusal _).bind fun _ _ => trivial

theorem checkDate_ends (d : Date) : Ends (fun _ => True) IsRefusal (checkDate d) := by
  unfold checkDate
  split
  · exact .inl rfl
  · split
    · exact .inl rfl
    · split
      · exact .inl rfl
      · exact trivial

theorem offset_ends (negative : Bool) (hours minutes : Text) :
    Ends (fun _ => True) IsRefusal (offset negative hours minutes) := by
  unfold offset
  dsimp only
  split
  all_goals
    split
    · exact trivial
    · exact .inl rfl

theorem checkTime_ends (hour minute second : Nat) :
    Ends (fun _ => True) IsRefusal (checkTime hour minute second) := by
  unfold checkTime
  split
  · exact .inl rfl
  · split
    · exact .inl rfl
    · split
      · exact .inl rfl
      · exact trivial

theorem zoneOffset_ends : ∀ zone, Ends (fun _ => True) IsRefusal (zoneOffset zone)
  | none | some none => trivial
  | some (some (negative, hours, minutes)) => (offset_ends negative hours minutes).map fun _ h => h

theorem timestamp_ends (t : Text) : Ends Value.IsLeaf IsRefusal (timestamp t) := by
  unfold timestamp
  split
  · exact .inr (by decide)
  · dsimp only
    split
    · exact (checkDate_ends _).bind fun _ _ => trivial
    · exact (zoneOffset_ends _).bind fun _ _ => (checkDate_ends _).bind fun _ _ =>
        (checkTime_ends _ _ _).bind fun _ _ => trivial

end Yaml.Scalar
end ConfigLoader
