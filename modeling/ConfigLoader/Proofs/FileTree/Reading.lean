import ConfigLoader.FileTree

/-! # How looking at files fails

A look-up fails with a fault of the system. A name that is too long is a fault even where something that
is missing is none, and what is seen to be a file is read unless its bytes are no text.
-/
namespace ConfigLoader

namespace FileTree
variable {t : FileTree} {p : Text} {f : Fault}

theorem resolve_fault (h : t.resolve p = .error f) :
    f.kind = .valueError ∨ f.kind = .runtimeError := by
  unfold resolve at h
  split at h
  · cases h
    exact .inl rfl
  · dsimp only at h
    split at h
    · cases h
      exact .inr rfl
    · cases h

theorem test_fault {g : Entry → Bool} (h : t.test p g = .error f) :
    f = LookupError.nameTooLong.fault p := by
  unfold test at h
  split at h
  · cases h
  · split at h
    · cases h
    · exact (Except.error.inj h).symm
    · cases h

theorem bytes_of_isFile (h : t.isFile p = .ok true) : ∃ b, t.bytes p = .ok b := by
  unfold isFile test at h
  split at h
  · cases h
  · split at h
    · next e he =>
      cases e with
      | file b =>
        refine ⟨b, ?_⟩
        unfold bytes
        rw [he]
        rfl
      | directory | link target => cases h
    · cases h
    · cases h

theorem readText_fault_of_isFile (hfile : t.isFile p = .ok true) (h : t.readText p = .error f) :
    f.kind = .unicodeDecodeError := by
  obtain ⟨b, hb⟩ := bytes_of_isFile hfile
  unfold readText at h
  rw [hb] at h
  dsimp only at h
  split at h
  · cases h
    rfl
  · cases h

end FileTree
end ConfigLoader
