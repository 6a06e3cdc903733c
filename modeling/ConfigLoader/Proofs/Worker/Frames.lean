import ConfigLoader.Proofs.Json.Conveyed
import ConfigLoader.Proofs.Worker.Input

/-! # What workers write

All that a worker writes is frames, whatever it is given to read. A frame is one line for its reader,
who has the value that was sent. Frames go through a pipe: when the worker ends, what there was no room
for yet is lost.
-/
namespace ConfigLoader.Worker
open Json (OneLine)
open Json.Canonical (Conveys print received)
variable {site : Site} {w : Worker} {fs gs : List Text}

def AreFrames (fs : List Text) : Prop := ∃ vs : List Value, fs = vs.map frameLine

theorem AreFrames.nil : AreFrames [] := ⟨[], rfl⟩

theorem AreFrames.one (v : Value) : AreFrames [frameLine v] := ⟨[v], rfl⟩

theorem AreFrames.append (hf : AreFrames fs) (hg : AreFrames gs) : AreFrames (fs ++ gs) := by
  obtain ⟨vs, rfl⟩ := hf
  obtain ⟨us, rfl⟩ := hg
  exact ⟨vs ++ us, List.map_append.symm⟩

theorem refusal_frame {e : Engine} {s : Modules.State} {settings : Value} {v : Script.Item}
    {frame : Text} (h : refusal e s settings v = some frame) : AreFrames [frame] := by
  simp only [refusal, bind, Option.bind_eq_some_iff, pure, Option.some.injEq] at h
  obtain ⟨message, -, name, -, rfl⟩ := h
  exact .one _

theorem frame?_frame {e : Engine} {v : Value} {frame : Text} (h : frame? e v = some frame) :
    AreFrames [frame] := by
  unfold frame? at h
  split at h
  · cases h
    exact .one _
  · cases h

theorem readyFrame_frame {e : Engine} {s : Modules.State} {exported : Script.Item} {frame : Text}
    (h : readyFrame e s exported = some frame) : AreFrames [frame] := by
  unfold readyFrame at h
  split at h
  · cases h
  · cases h
  · obtain ⟨version, -, h⟩ := Option.bind_eq_some_iff.mp h
    exact frame?_frame h

theorem greet_frames (settings : Value) : AreFrames (greet site settings w).1 := by
  unfold greet
  dsimp only
  split
  · exact .nil
  · exact .nil
  · split
    · next frame h => exact refusal_frame h
    · exact .nil
  · split
    · next frame h => exact readyFrame_frame h
    · exact .nil

theorem handle_frames (c : Modules.Surroundings) (session : Session) (request : Value) :
    AreFrames (handle site c session request w).1 := by
  unfold handle
  split
  · exact .nil
  · dsimp only
    split
    · next frame h =>
      obtain ⟨d, -, h⟩ := Option.bind_eq_some_iff.mp h
      exact frame?_frame h
    · exact .nil

theorem readLine_frames (line : Text) : AreFrames (w.readLine site line).1 := by
  unfold readLine
  split
  · exact .nil
  · split
    · exact .nil
    · split
      · exact .nil
      · dsimp only
        split
        · exact handle_frames ..
        · exact handle_frames ..
        · split
          · exact greet_frames _
          · exact .nil

theorem readLines_frames (lines : List Text) : AreFrames (w.readLines site lines).1 := by
  induction lines generalizing w with
  | nil => exact .nil
  | cons l ls ih => exact (readLine_frames l).append ih

theorem receiveAll_frames (pieces : List Text) : AreFrames (receiveAll site w pieces).1 := by
  induction pieces generalizing w with
  | nil => exact .nil
  | cons p ps ih => exact (readLines_frames _).append ih

theorem finish_frames : AreFrames (w.finish site).1 := by
  unfold finish
  by_cases hp : w.pending.isEmpty = true
  · simp only [hp, if_true]
    split <;> exact .nil
  · simp only [hp, Bool.false_eq_true, if_false]
    split <;> exact readLine_frames _

theorem converse_frames (here : Location) (pieces : List Text) :
    AreFrames (converse site here pieces).1 :=
  (receiveAll_frames pieces).append finish_frames

theorem ofLines_frames (vs : List Value) :
    (vs.map frameLine).flatten = Text.ofLines (vs.map print) := by
  rw [Text.ofLines, List.flatMap_def, List.map_map]
  rfl

/-! ## Pipes -/

def bytesOf (frames : List Text) : List UInt8 := Text.Utf8.encode frames.flatten

/-- What a reader has of the frames of a worker that has ended: their first bytes, and as many as the pipe
has room for. The reader may have taken more in time. -/
structure Arrives (room : Nat) (frames : List Text) (arrived : List UInt8) : Prop where
  beginning : arrived <+: bytesOf frames
  sure : min room (bytesOf frames).length ≤ arrived.length

theorem bytesOf_take (frames : List Text) (n : Nat) : bytesOf (frames.take n) <+: bytesOf frames := by
  refine ⟨bytesOf (frames.drop n), ?_⟩
  rw [bytesOf, bytesOf, Text.Utf8.encode, Text.Utf8.encode, ← List.flatMap_append,
    ← List.flatten_append, List.take_append_drop]
  rfl

theorem Arrives.take {room : Nat} {arrived : List UInt8} (h : Arrives room fs arrived) {n : Nat}
    (hn : (bytesOf (fs.take n)).length ≤ room) : bytesOf (fs.take n) <+: arrived := by
  have hle := (bytesOf_take fs n).length_le
  have hsure := h.sure
  exact List.prefix_of_prefix_length_le (bytesOf_take fs n) h.beginning (by omega)

theorem arrives_iff {room : Nat} :
    (∀ arrived, Arrives room fs arrived → arrived = bytesOf fs) ↔ (bytesOf fs).length ≤ room := by
  constructor
  · intro h
    have hcut : Arrives room fs ((bytesOf fs).take room) :=
      ⟨List.take_prefix .., by rw [List.length_take]⟩
    have hlength := congrArg List.length (h _ hcut)
    rw [List.length_take] at hlength
    omega
  · intro hroom arrived h
    have hsure := h.sure
    exact h.beginning.eq_of_length_le (by omega)

end ConfigLoader.Worker
