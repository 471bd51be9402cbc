import Tftp.Directory
import Tftp.Storage.Scripted

/-!
# What storages answer

One lemma for each operation of a scripted storage, of an open file and of a directory. It says how
the operation fails, what becomes of the state, and what there is to report. What is known of a
storage as a whole, such as the codes of its failures or that it sends nothing, follows from these.
-/

namespace Tftp

/-! ## Scripted storages -/

namespace Scripted

variable (script : Scripted)

theorem read_answers (n : Nat) (file : Unit × Reader) :
    script.read n file = .fail script.failure file ∨
      ∃ bytes file', script.read n file = .pure bytes file' := by
  unfold read
  dsimp only
  split
  next => exact .inr ⟨_, _, rfl⟩
  next =>
    split
    · exact .inl rfl
    · exact .inr ⟨_, _, rfl⟩

theorem write_answers (bytes : Bytes) (file : Unit × Writer) :
    script.write bytes file =
        { result := .error script.failure, state := file, events := [.notWritten] } ∨
      ∃ file', script.write bytes file =
        { result := .ok (), state := file', events := [.written bytes] } := by
  unfold write
  dsimp only
  split
  · exact .inl rfl
  · exact .inr ⟨_, rfl⟩

theorem finish_answers (file : Unit × Writer) :
    script.finish file = .pure () file ∧ script.writesOnly = true ∨
      script.finish file =
        { result := .error script.failure, state := file, events := [.notFinished] } ∨
      script.finish file = { result := .ok (), state := file, events := [.finished] } := by
  unfold finish
  split
  next hw => exact .inl ⟨rfl, hw⟩
  next =>
    split
    · exact .inr (.inl rfl)
    · exact .inr (.inr rfl)

end Scripted

/-! ## Open files -/

/-- The file is only looked at, and nothing is reported. -/
theorem FileReader.read_answers (n : Nat) (file : FileTree × FileReader) :
    (∃ reader, read n file = .fail (.other (ascii "Failed to read data from file")) (file.1, reader)) ∨
      ∃ bytes reader, read n file = .pure bytes (file.1, reader) := by
  unfold read
  dsimp only
  split
  · exact .inl ⟨_, rfl⟩
  · exact .inr ⟨_, _, rfl⟩
  · split
    · exact .inr ⟨_, _, rfl⟩
    · split
      · exact .inl ⟨_, rfl⟩
      · exact .inr ⟨_, _, rfl⟩

namespace FileWriter

theorem outcome_answers (file : FileTree × FileWriter) :
    outcome file = .fail (.transfer .diskFull) file ∨ outcome file = .pure () file := by
  unfold outcome
  split
  · exact .inl rfl
  · exact .inr rfl

/-- A file is closed before it is removed, and it can be given up even if it cannot be removed. -/
theorem abort_answers (file : FileTree × FileWriter) :
    let closed := close file.1 file.2
    (∃ tree, closed.1.remove closed.2.path = .ok tree ∧ abort file =
      { result := .ok (), state := (tree, closed.2)
        events := [.logged (.discarding closed.2.path)] }) ∨
    (∃ errno, closed.1.remove closed.2.path = .error errno) ∧ abort file =
      { result := .ok (), state := closed
        events := [.logged (.discarding closed.2.path), .logged (.notDiscarded closed.2.path)] } := by
  unfold abort
  dsimp only
  split
  next tree hr => exact .inl ⟨tree, hr, rfl⟩
  next errno hr => exact .inr ⟨⟨errno, hr⟩, rfl⟩

theorem abort_of_removed {file : FileTree × FileWriter} {tree : FileTree}
    (h : (close file.1 file.2).1.remove (close file.1 file.2).2.path = .ok tree) :
    (abort file).state.1 = tree := by
  rcases abort_answers file with ⟨tree', hr, ha⟩ | ⟨⟨errno, hr⟩, -⟩
  · cases h.symm.trans hr
    rw [ha]
  · cases h.symm.trans hr

end FileWriter

/-! ## Directories -/

namespace Directory

variable {directory : Directory} {filename : Bytes} {tree : FileTree}

theorem locate_eq_error {f : Failure} (h : directory.locate filename tree = .error f) :
    f = .transfer .accessViolation := by
  unfold locate at h
  dsimp only at h
  split at h
  · exact (Except.error.inj h).symm
  · split at h
    · exact (Except.error.inj h).symm
    · cases h

theorem openForReading_answers (directory : Directory) (peer : Address) (filename : Bytes)
    (disk : Disk) :
    (∃ r ∈ [Report.readingNotAllowed, .accessViolation, .fileNotFound],
      directory.openForReading peer filename disk = .fail (.transfer r) disk) ∨
    ∃ path id, directory.locate filename disk.tree = .ok path ∧ disk.tree.file? path = some id ∧
      directory.openForReading peer filename disk =
        { result := .ok ({ id := some id }, some (UInt64.ofNat (disk.tree.content id).length))
          state := disk
          events := [.logged (.opening peer path)] } := by
  unfold openForReading
  split
  · exact .inl ⟨_, by simp, rfl⟩
  · cases hl : directory.locate filename disk.tree with
    | error f =>
        obtain rfl := locate_eq_error hl
        exact .inl ⟨_, by simp, rfl⟩
    | ok path =>
        dsimp only
        cases hfile : disk.tree.file? path with
        | none => exact .inl ⟨_, by simp, rfl⟩
        | some id => exact .inr ⟨path, id, rfl, hfile, rfl⟩

/-- Once the checks are passed a file is made, and that may fail as well. -/
theorem openForWriting_answers (directory : Directory) (peer : Address) (filename : Bytes)
    (declared : Option UInt64) (disk : Disk) :
    (∃ r ∈ [Report.writingNotAllowed, .accessViolation, .fileExists, .diskFull],
      directory.openForWriting peer filename declared disk = .fail (.transfer r) disk) ∨
    ∃ path, directory.locate filename disk.tree = .ok path ∧ disk.tree.isThere path = false ∧
      directory.openForWriting peer filename declared disk =
        { Disk.onTree (FileWriter.make path) disk with
          events := [.logged (.opening peer path)] } := by
  unfold openForWriting
  split
  · exact .inl ⟨_, by simp, rfl⟩
  · cases hl : directory.locate filename disk.tree with
    | error f =>
        obtain rfl := locate_eq_error hl
        exact .inl ⟨_, by simp, rfl⟩
    | ok path =>
        dsimp only
        split
        · exact .inl ⟨_, by simp, rfl⟩
        next hthere =>
          split
          · exact .inl ⟨_, by simp, rfl⟩
          · exact .inr ⟨path, rfl, Bool.eq_false_iff.2 hthere, rfl⟩

end Directory

end Tftp
