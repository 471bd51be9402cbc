import Tftp.Proofs.Filing

/-!
# Uploads that fail

A file that a client sends is made when its transfer begins, under the path of its name, and when
the transfer fails it is removed under that path. In between only the entry of the file has been
added to the tree (`FileWriter.Draft`), so afterwards the tree is what it was.

This is so because both ends of a transfer lead to the same location. They do not if the last name in
the path is that of a link to something missing: the link is followed when the file is made, but it is
the link that is removed (`leaves_partial_file`).

A disk may fail whenever something is stored. `Directory.strained` is a directory on such a disk.
-/

namespace Tftp

open Transfer

/-! ## Where something is missing -/

namespace FileTree

variable {tree tree' : FileTree} {location : Location} {id : Nat}

section

variable {path : Bytes}

/-- Where something is missing, it is so whether links are followed or not. -/
theorem resolve_of_missing (hm : tree.resolve true path = .missing location)
    (hd : ¬ tree.Dangles path) : tree.resolve false path = .missing location := by
  have h0 := not_mem_beforeNul path
  rw [Dangles, ← resolve_beforeNul tree false, ← resolve_beforeNul tree true] at hd
  rw [← resolve_beforeNul] at hm ⊢
  obtain ⟨front, last, left, mid, h⟩ := lacks_of_missing h0 hm
  have hloc := h.location_eq h0 fun l target hl => hd ⟨⟨l, target, hl⟩, location, hm⟩
  rw [h.resolve h0 rfl fun _ _ => id, ← hloc, entryAt?_of_missing h.missing]

/-- When something has been put where a path has led to nothing, the path leads to it. -/
theorem resolve_of_added (h : tree.resolve false path = .missing location)
    (hs : tree'.start = tree.start)
    (keeps : ∀ l entry, tree.entryAt? l = some entry → tree'.entryAt? l = some entry)
    (added : tree'.entryAt? location = some (.file id)) :
    tree'.resolve false path = .found location (.file id) := by
  have h0 := not_mem_beforeNul path
  rw [← resolve_beforeNul] at h ⊢
  obtain ⟨front, last, left, mid, hl⟩ := lacks_of_missing h0 h
  obtain rfl := hl.location_eq h0 fun l target hf => by
    rw [h] at hf
    cases hf
  rw [hl.resolve h0 hs keeps, added]

end

end FileTree

/-! ## Files that are not complete -/

namespace FileWriter

open FileTree

variable {tree : FileTree} {location : Location} {path : Bytes} {file : FileTree × FileWriter}

/-- A file that is being received: its entry is all that has been added to a tree. -/
structure Draft (tree : FileTree) (location : Location) (path : Bytes)
    (file : FileTree × FileWriter) : Prop extends Writes tree location path file where
  entry : file.1.entryAt? location = some (.file file.2.id)

theorem Draft.put (h : Draft tree location path file) (offset : Nat) (bytes : Bytes) :
    Draft tree location path (file.1.write file.2.id offset bytes, file.2) where
  kept := h.kept.write h.fresh _ _
  fresh := h.fresh
  path := h.path
  entry := (entryAt?_write ..).trans h.entry

/-- What is noted of an open file is of no concern to the tree. -/
theorem Draft.noting (h : Draft tree location path file) {writer : FileWriter}
    (hid : writer.id = file.2.id) (hpath : writer.path = file.2.path) :
    Draft tree location path (file.1, writer) where
  kept := h.kept
  fresh := hid ▸ h.fresh
  path := hpath.trans h.path
  entry := hid ▸ h.entry

theorem Draft.flush (h : Draft tree location path file) (bytes : Bytes) :
    Draft tree location path (flush file.1 file.2 bytes) :=
  (h.put _ _).noting rfl rfl

theorem Draft.close (h : Draft tree location path file) :
    Draft tree location path (close file.1 file.2) := by
  unfold FileWriter.close
  split
  · exact (h.flush []).noting rfl rfl
  · exact h.noting rfl rfl

theorem Draft.write (h : Draft tree location path file) (bytes : Bytes) :
    Draft tree location path (FileWriter.write bytes file).state := by
  obtain ⟨tree', writer⟩ := file
  rw [FileWriter.write, outcome_state]
  split
  · dsimp only
    split
    · exact h.flush bytes
    · exact h.noting rfl rfl
  · split
    · exact h
    · exact h.noting rfl rfl
  · exact h

theorem Draft.finish (h : Draft tree location path file) :
    Draft tree location path (FileWriter.finish file).state := by
  unfold FileWriter.finish
  rw [outcome_state]
  exact h.close

/-- **A file that is given up leaves nothing behind**, if there was nothing where its path leads. -/
theorem Draft.abort (h : Draft tree location path file)
    (missing : tree.resolve false path = .missing location) (l : Location) :
    (FileWriter.abort file).state.1.node? l = tree.node? l := by
  have hc := h.close
  have hnone : tree.entryAt? location = none := entryAt?_of_missing (walk_of_missing missing).2.2
  have hfound : (FileWriter.close file.1 file.2).1.resolve false path =
      .found location (.file (FileWriter.close file.1 file.2).2.id) := by
    refine resolve_of_added missing hc.kept.start (fun l entry he => ?_) hc.entry
    rw [hc.kept.entry l fun hl => by simp [hl, hnone] at he]
    exact he
  have hremoved : (FileWriter.close file.1 file.2).1.remove (FileWriter.close file.1 file.2).2.path =
      .ok ((FileWriter.close file.1 file.2).1.erase location) := by
    rw [hc.path, FileTree.remove, hfound]
  rw [abort_of_removed hremoved]
  by_cases hl : l = location
  · subst hl
    have hstart : l.isPrefixOf (FileWriter.close file.1 file.2).1.start = false := by
      rw [hc.kept.start]
      exact isPrefixOf_start_of_none hnone
    rw [FileTree.node?, FileTree.node?, entryAt?_erase_self _ hstart, hnone]
    rfl
  · exact hc.kept.erase.node? hl

end FileWriter

/-! ## Disks that fail -/

/-- What becomes of storing something on a disk that fails: some bytes reach the file, and that is
all. -/
structure DiskFault where
  reached : Bytes
  failure : Failure

namespace Directory

/-- An operation that stores something, on a disk that may fail. -/
def strain (fault? : Disk × FileWriter → Option DiskFault) (effect : Effect (Disk × FileWriter) Unit) :
    Effect (Disk × FileWriter) Unit := fun (disk, writer) =>
  match fault? (disk, writer) with
  | none => effect (disk, writer)
  | some fault =>
    .fail fault.failure
      ({ disk with tree := disk.tree.write writer.id writer.offset fault.reached },
        { writer with pending := [], state := .broken })

/-- A directory on a disk that may fail whenever a block is stored or a file is finished. -/
def strained (directory : Directory) (fault? : Disk × FileWriter → Option Bytes → Option DiskFault) :
    Storage :=
  { directory.storage with
    write := fun bytes => strain (fault? · (some bytes)) (directory.storage.write bytes)
    finish := strain (fault? · none) directory.storage.finish }

/-- A directory on a disk that never fails. -/
theorem strained_none (directory : Directory) :
    directory.strained (fun _ _ => none) = directory.storage := rfl

variable {directory : Directory} {fault? : Disk × FileWriter → Option Bytes → Option DiskFault}
  {start : FileTree} {location : Location} {path : Bytes} {file : Disk × FileWriter}

open FileTree FileWriter

theorem draft_strain {fault? : Disk × FileWriter → Option DiskFault}
    {effect : Effect (Disk × FileWriter) Unit} (h : Draft start location path (file.1.tree, file.2))
    (he : Draft start location path ((effect file).state.1.tree, (effect file).state.2)) :
    Draft start location path
      ((strain fault? effect file).state.1.tree, (strain fault? effect file).state.2) := by
  obtain ⟨disk, writer⟩ := file
  cases hf : fault? (disk, writer) with
  | none => simpa only [strain, hf] using he
  | some fault =>
      simp only [strain, hf]
      exact (h.put _ _).noting rfl rfl

theorem draft_finish (h : Draft start location path (file.1.tree, file.2)) :
    let file' := ((directory.strained fault?).finish file).state
    Draft start location path (file'.1.tree, file'.2) :=
  draft_strain h h.finish

theorem draft_put (h : Draft start location path (file.1.tree, file.2)) (payload : Bytes) :
    let file' := ((directory.strained fault?).put payload file).state
    Draft start location path (file'.1.tree, file'.2) := by
  intro file'
  unfold file' Storage.put
  split
  · exact draft_strain h (h.write payload)
  · exact h

/-- However much of a block could be stored. -/
theorem draft_keep (h : Draft start location path (file.1.tree, file.2)) (payload : Bytes)
    (isLast : Bool) :
    let file' := ((directory.strained fault?).keep payload isLast file).state
    Draft start location path (file'.1.tree, file'.2) := by
  intro file'
  have hput := @draft_put directory fault? _ _ _ _ h payload
  unfold file' Storage.keep Effect.andThen
  split
  · cases isLast with
    | true => exact draft_finish hput
    | false => exact hput
  · exact hput

/-- A file that is opened for writing is a draft, and if none is opened, nothing happens. -/
theorem openForWriting_draft (directory : Directory) (disk : Disk) (peer : Address)
    {filename : Bytes} (declared : Option UInt64)
    (hd : ¬ disk.tree.Dangles (Path.join directory.root filename)) :
    let answer := directory.storage.openForWriting peer filename declared disk
    ((∀ writer, answer.result ≠ .ok (some writer)) → answer.state.tree = disk.tree) ∧
      ∀ writer, answer.result = .ok (some writer) → ∃ location path,
        disk.tree.resolve false path = .missing location ∧
        Draft disk.tree location path (answer.state.tree, writer) := by
  intro answer
  have hresult : answer.result =
      (directory.openForWriting peer filename declared disk).result.map some := rfl
  have hstate : answer.state = (directory.openForWriting peer filename declared disk).state := rfl
  rw [hresult, hstate]
  rcases directory.openForWriting_cases disk peer filename declared with
    ⟨f, hr, hs⟩ | ⟨path, location, hlocate, hm, hr, htree⟩
  · rw [hs, hr]
    exact ⟨fun _ => rfl, fun writer hw => nomatch hw⟩
  · rw [hr, htree]
    refine ⟨fun h => absurd rfl (h _), fun writer hw => ?_⟩
    obtain rfl := Option.some.inj (Except.ok.inj hw)
    obtain rfl := (locate_eq_ok hlocate).1
    have hnone := entryAt?_of_missing (walk_of_missing hm).2.2
    refine ⟨location, _, resolve_of_missing hm hd, ⟨?_, Nat.le_refl _, rfl⟩, ?_⟩
    · exact (Kept.extend disk.tree location).insert _ disk.tree.lt_extend
    · exact entryAt?_insert_self disk.tree.extend (isPrefixOf_start_of_none hnone) _ disk.tree.lt_extend

/-! ## Transfers that fail -/

/-- What a transfer that receives a file has made of the tree that there was at its beginning. -/
inductive Provisional (start : FileTree) (v : View (directory.strained fault?)) : Prop
  | fresh (size : Nat) : Write.Fresh size v → v.store.tree = start →
      ¬ start.Dangles (Path.join directory.root v.self.request.filename) → Provisional start v
  | draft (size n : Nat) (writer : FileWriter) (location : Location) (path : Bytes) :
      Write.Receiving size n v.self → v.self.writer = some writer →
      start.resolve false path = .missing location →
      Draft start location path (v.store.tree, writer) → Provisional start v
  | withdrawn : v.self.phase = .failed → (∀ l, v.store.tree.node? l = start.node? l) →
      Provisional start v
  | complete : v.self.phase = .writeEnd → Provisional start v

variable {v v' w : View (directory.strained fault?)} {writer : FileWriter} {size n : Nat}

/-- A transfer that fails before it has made a file. -/
theorem Provisional.of_none (hw : v.self.writer = none) (hs : v.store.tree = start) :
    Provisional start v.givenUp := by
  refine .withdrawn (View.givenUp_self v).2.2 fun l => ?_
  rw [View.givenUp_of_none hw, ← hs]
  rfl

/-- A transfer that fails and gives its file up. -/
theorem Provisional.of_some (hw : v.self.writer = some writer)
    (missing : start.resolve false path = .missing location)
    (h : Draft start location path (v.store.tree, writer)) : Provisional start v.givenUp := by
  refine .withdrawn (View.givenUp_self v).2.2 fun l => ?_
  rw [View.givenUp_of_some hw]
  exact h.abort missing l

theorem Provisional.of_ends (hr : Write.Receiving size n w.self) (hw : w.self.writer = some writer)
    (missing : start.resolve false path = .missing location)
    (h : Draft start location path (w.store.tree, writer)) (he : w.Ends v') :
    Provisional start v' := by
  rcases he with rfl | rfl
  · exact .draft size n writer location path hr hw missing h
  · exact .of_some hw missing h

/-- The first turn makes a file where its path leads to nothing, or it changes nothing. -/
theorem Provisional.begins (hw : v.self.writer = none)
    (dangles : ¬ v.store.tree.Dangles (Path.join directory.root v.self.request.filename))
    (hb : Write.Begins size v v') : Provisional v.store.tree v' := by
  have opening (terms : Terms) := directory.openForWriting_draft v.store v.self.peer
    terms.transferSize dangles
  cases hb with
  | refused hv =>
      subst hv
      exact .of_none hw rfl
  | unopened terms hno hv =>
      subst hv
      exact .of_none rfl ((opening terms).1 hno)
  | stuck terms file ho hv =>
      subst hv
      obtain ⟨location, path, missing, h⟩ := (opening terms).2 file ho
      exact .of_some rfl missing h
  | begins terms file k w ho said hr he =>
      obtain ⟨location, path, missing, h⟩ := (opening terms).2 file ho
      refine .of_ends hr said.writer missing ?_ he
      rwa [said.store]

/-- Whatever a later turn comes to, it adds nothing but to the file. -/
theorem Provisional.resumes {reception : Reception} (hw : v.self.writer = some writer)
    (missing : start.resolve false path = .missing location)
    (h : Draft start location path (v.store.tree, writer))
    (ho : Write.Outcome size n v reception v') : Provisional start v' := by
  cases ho with
  | waits k w _ said hr he =>
      refine .of_ends hr (said.writer.trans hw) missing ?_ he
      rwa [said.store]
  | refused payload _ _ hv =>
      subst hv
      exact .of_some hw missing h
  | stuck payload writer' _ _ hw' hv =>
      subst hv
      obtain rfl := Option.some.inj (hw.symm.trans hw')
      exact .of_some rfl missing (draft_keep h _ _)
  | takes payload writer' k w _ _ hw' _ said hr he =>
      obtain rfl := Option.some.inj (hw.symm.trans hw')
      refine .of_ends hr said.writer missing ?_ he
      rw [said.store]
      exact draft_keep h _ _
  | ends payload writer' _ _ _ _ _ hp => exact .complete hp

/-- However a history has gone, what has been made of the tree can be taken back. -/
theorem Provisional.history {s₀ s : Scene (directory.strained fault?)} {history : List Occurrence}
    (h₀ : Provisional start s₀.view) (h : History s₀ history s) : Provisional start s.view := by
  -- In each turn it is known how far the upload has come, and a transfer that waits has a draft.
  induction h with
  | start => exact h₀
  | @turn history s s' reception events h turn ih =>
      cases turn with
      | begins hi =>
          have hi : s.view.self.phase = .initial := hi
          cases ih with
          | fresh size hf he dangles =>
              rw [← he] at dangles ⊢
              exact .begins hf.writer dangles
                (Write.begins_begin hf.direction hf.writer hf.agreed).after
          | draft size n writer location path hr => cases hr.phase.symm.trans hi
          | withdrawn hp => cases hp.symm.trans hi
          | complete hp => cases hp.symm.trans hi
      | resumes reception hwaits =>
          have hwaits : s.view.self.isWaiting = true := hwaits
          cases ih with
          | fresh size hf => exact absurd hwaits (not_isWaiting hf.phase (.inl rfl))
          | draft size n writer location path hr hw missing h =>
              exact .resumes hw missing h (Write.outcome_resume hr reception).after
          | withdrawn hp => exact absurd hwaits (not_isWaiting hp (.inr rfl))
          | complete hp => exact absurd hwaits (not_isWaiting hp (.inr rfl))
      | meanwhile world hstore =>
          have hs : (Scene.view { s with world }).store = s.view.store := hstore
          cases ih with
          | fresh size hf he dangles => exact .fresh size { hf with } (hs ▸ he) dangles
          | draft size n writer location path hr hw missing h =>
              exact .draft size n writer location path hr hw missing (hs ▸ h)
          | withdrawn hp hn => exact .withdrawn hp (hs ▸ hn)
          | complete hp => exact .complete hp

/-- **A failed upload leaves the directory as it was.** When a transfer that receives a file has
failed, whatever it has taken in and however little of that could be stored, everything in the tree
is seen as before, unless the path of its name is that of a link to something missing. -/
theorem failed_upload_leaves_no_trace {request : Request} {peer : Address} {socket : Socket}
    {config : Config} {heedsStop : Bool} {world : World (directory.strained fault?)}
    (dangles : ¬ world.store.tree.Dangles (Path.join directory.root request.filename))
    {history : List Occurrence} {s : Scene (directory.strained fault?)}
    (h : History ⟨.new _ .write request peer socket config heedsStop, world⟩ history s)
    (failed : s.self.phase = .failed) (l : Location) :
    s.world.store.tree.node? l = world.store.tree.node? l := by
  have provisional : Provisional world.store.tree s.view := by
    refine .history ?_ h
    exact .fresh _ ⟨rfl, rfl, rfl, rfl⟩ rfl dangles
  have failed : s.view.self.phase = .failed := failed
  cases provisional with
  | fresh size hf => cases hf.phase.symm.trans failed
  | draft size n writer location path hr => cases hr.phase.symm.trans failed
  | withdrawn _ hn => exact hn l
  | complete hp => cases hp.symm.trans failed

/-- A directory with a link in it that leads to something missing in the same directory. -/
def dangling : Disk where
  tree := { entries := [([ascii "r"], .directory), ([ascii "r", ascii "esc"], .link (ascii "new"))] }
  space := none

/-- A client that sends a file in blocks of eight bytes. -/
def uploading (filename : Bytes) : Scene (Directory.storage ⟨ascii "r", .readWrite⟩) where
  self := .new _ .write ⟨filename, .octet, { blockSize := some 8 }⟩ ⟨⟨10, 0, 0, 1⟩, 5000⟩
    ⟨⟨⟨10, 0, 0, 2⟩, 40000⟩⟩ {} true
  world := { store := dangling }

/-- The first block of a file. -/
def firstBlock : Reception :=
  .datagram ⟨⟨10, 0, 0, 1⟩, 5000⟩ (Packet.data 1 (ascii "01234567")).encode

/-- The client wants no more. -/
def cancellation : Reception :=
  .datagram ⟨⟨10, 0, 0, 1⟩, 5000⟩ (Packet.error .notDefined (ascii "stop")).encode

/-- After the first block nothing is left of a file whose name stands for nothing. -/
theorem failed_upload_leaves_no_trace_uploading : ∃ history s,
    History (uploading (ascii "other")) history s ∧ s.self.phase = .failed ∧
    ((uploading (ascii "other")).after begin).world.store.tree.node? [ascii "r", ascii "other"] =
      some (.file []) ∧
    ∀ l, s.world.store.tree.node? l = dangling.tree.node? l := by
  have h₁ : History (uploading (ascii "other")) _ _ := .turn .start (.begins rfl)
  have h₂ := h₁.turn (.resumes firstBlock (by decide +kernel))
  have h₃ := h₂.turn (.resumes cancellation (by decide +kernel))
  have failed : (((((uploading (ascii "other")).after begin).after (resume firstBlock)).after
      (resume cancellation))).self.phase = .failed := by decide +kernel
  refine ⟨_, _, h₃, failed, by decide +kernel, fun l => ?_⟩
  have missing : dangling.tree.resolve false (Path.join (ascii "r") (ascii "other")) =
      .missing [ascii "r", ascii "other"] := by decide +kernel
  exact @failed_upload_leaves_no_trace ⟨ascii "r", .readWrite⟩ (fun _ _ => none) _ _ _ _ _ _
    (fun ⟨⟨l, target, hf⟩, _⟩ => nomatch missing.symm.trans hf) _ _ h₃ failed l

/-- **A partial file is left and a link is lost** when the name is that of a link to something missing:
the file is made where the link leads, but it is the link that is removed. -/
theorem leaves_partial_file : ∃ history s, History (uploading (ascii "esc")) history s ∧
    s.self.phase = .failed ∧
    dangling.tree.node? [ascii "r", ascii "esc"] = some (.link (ascii "new")) ∧
    s.world.store.tree.node? [ascii "r", ascii "esc"] = none ∧
    dangling.tree.node? [ascii "r", ascii "new"] = none ∧
    s.world.store.tree.node? [ascii "r", ascii "new"] = some (.file (ascii "01234567")) := by
  have h₁ : History (uploading (ascii "esc")) _ _ := .turn .start (.begins rfl)
  have h₂ := h₁.turn (.resumes firstBlock (by decide +kernel))
  have h₃ := h₂.turn (.resumes cancellation (by decide +kernel))
  refine ⟨_, _, h₃, ?_, ?_, ?_, ?_, ?_⟩ <;> decide +kernel

end Directory

end Tftp
