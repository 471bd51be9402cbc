import Tftp.Proofs.Fetching
import Tftp.Proofs.Finding

/-!
# The files of a directory

What a file that is open holds. `FileReader.Rest` says what is still to come from a file being read
whose content does not change, so that a directory is a source (`Directory.source`).
`FileWriter.Holds` says of a file being written what has been written so far: part of it has reached
the file, and the rest waits in the buffer. The path under which the file was made leads to it all
the time. Every operation on it spares all other files, and after the last of them everything that
has been written is in the file.

So does every turn of a transfer (`Directory.Leaves`): it spares all files but the one that it has
open for writing, if it has one, and that file holds the payloads of the blocks that it has taken.
-/

namespace Tftp

open FileTree Transfer

/-! ## Files being read -/

namespace FileReader

/-- What is still to come from a file with the given content. -/
inductive Rest (content : Bytes) (reader : FileReader) : Bytes → Prop
  | good : reader.state = .good →
      Rest content reader (reader.buffer ++ content.drop reader.offset)
  | ended : reader.state = .ended → Rest content reader []

variable {tree : FileTree} {reader : FileReader} {n id : Nat}

/-- How many bytes are asked for when some are missing. -/
def wanted (n missing : Nat) : Nat := if streamBuffer < n then missing else streamBuffer

theorem read_buffered (hs : reader.state = .good) (hn : n ≤ reader.buffer.length) :
    read n (tree, reader) =
      .pure (reader.buffer.take n) (tree, { reader with buffer := reader.buffer.drop n }) := by
  have hl : (reader.buffer.take n).length = n := by
    rw [List.length_take]
    omega
  simp only [read, hs, if_pos hl]

theorem read_fetched (hs : reader.state = .good) (hid : reader.id = some id)
    (hn : reader.buffer.length < n) :
    let missing := n - reader.buffer.length
    let fetched := tree.slice id reader.offset (wanted n missing)
    read n (tree, reader) = .pure (reader.buffer ++ fetched.take missing) (tree,
      { reader with
        offset := reader.offset + fetched.length
        buffer := fetched.drop missing
        state := if fetched.length < missing then .ended else .good }) := by
  have hall : reader.buffer.take n = reader.buffer := List.take_of_length_le (Nat.le_of_lt hn)
  simp only [read, hs, hall, if_neg (Nat.ne_of_lt hn), hid]
  rfl

/-- What is fetched and what comes after it is what was to come. -/
theorem fetched_append (source : Bytes) (n missing : Nat) :
    (source.take n).take missing ++
      ((source.take n).drop missing ++ source.drop (source.take n).length) = source := by
  have hrest : source.drop (source.take n).length = source.drop n := by
    rw [List.length_take]
    rcases Nat.le_total n source.length with hw | hw
    · rw [Nat.min_eq_left hw]
    · rw [Nat.min_eq_right hw, List.drop_length, List.drop_of_length_le hw]
  rw [hrest, ← List.append_assoc, List.take_append_drop, List.take_append_drop]

/-- A read takes something off what is still to come, unless there is nothing. -/
theorem Rest.read {content rest : Bytes} (h : reader.Rest content rest)
    (hid : reader.id = some id) (hcontent : tree.content id = content) (n : Nat) :
    ∃ bytes rest' reader', FileReader.read n (tree, reader) = .pure bytes (tree, reader') ∧
      reader'.id = some id ∧ rest = bytes ++ rest' ∧ bytes.length ≤ n ∧
      (bytes = [] → n = 0 ∨ rest = []) ∧ reader'.Rest content rest' := by
  cases h with
  | ended hs =>
      refine ⟨[], [], reader, ?_, hid, rfl, Nat.zero_le _, fun _ => .inr rfl, .ended hs⟩
      simp only [FileReader.read, hs]
  | good hs =>
      rcases Nat.lt_or_ge reader.buffer.length n with hn | hn
      · have hr := @read_fetched tree _ _ _ hs hid hn
        have hw : n - reader.buffer.length ≤ wanted n (n - reader.buffer.length) := by
          unfold wanted
          split <;> omega
        have hpos : 0 < n - reader.buffer.length := Nat.sub_pos_of_lt hn
        dsimp only at hr
        rw [FileTree.slice, hcontent] at hr
        generalize hm : n - reader.buffer.length = missing at hr hw hpos
        have hsplit := fetched_append (content.drop reader.offset) (wanted n missing) missing
        rw [List.drop_drop] at hsplit
        refine ⟨_, ((content.drop reader.offset).take (wanted n missing)).drop missing ++
          content.drop (reader.offset +
            ((content.drop reader.offset).take (wanted n missing)).length), _, hr, hid, ?_, ?_,
          fun hnil => .inr ?_, ?_⟩
        · rw [List.append_assoc, hsplit]
        · rw [List.length_append, List.length_take]
          omega
        · -- Nothing is fetched only where nothing is left.
          obtain ⟨hb, hf⟩ := List.append_eq_nil_iff.1 hnil
          have hf := (List.take_eq_nil_iff.1 hf).resolve_left (by omega)
          rw [hb, (List.take_eq_nil_iff.1 hf).resolve_left (by omega)]
          rfl
        · by_cases hlast :
              ((content.drop reader.offset).take (wanted n missing)).length < missing
          · -- Less than what was asked for has come, so that was all.
            have hall : content.length ≤ reader.offset +
                ((content.drop reader.offset).take (wanted n missing)).length := by
              rw [List.length_take, List.length_drop] at hlast ⊢
              omega
            rw [List.drop_of_length_le (Nat.le_of_lt hlast), List.drop_of_length_le hall]
            exact .ended (if_pos hlast)
          · exact .good (if_neg hlast)
      · refine ⟨_, _, _, read_buffered hs hn, hid, ?_, ?_, fun hnil => .inl ?_, .good hs⟩
        · rw [← List.append_assoc, List.take_append_drop]
        · exact List.length_take_le n _
        · have hl := congrArg List.length hnil
          rw [List.length_take, List.length_nil] at hl
          omega

end FileReader

namespace Directory

/-- How a directory hands out a file whose content stays as it is. -/
structure Hands (id : Nat) (content : Bytes) (disk : Disk) (reader : FileReader) (rest : Bytes) :
    Prop where
  same : disk.tree.content id = content
  id : reader.id = some id
  rest : reader.Rest content rest

/-- A directory is a source of any of its files whose content stays as it is. -/
def source (directory : Directory) (id : Nat) (content : Bytes) : directory.storage.Source where
  Holds disk reader rest := Hands id content disk reader rest
  plain := by
    intro disk reader rest n h e he
    obtain ⟨_, _, reader', hr, -⟩ := h.rest.read h.id h.same n
    have hevents : (directory.storage.read n (disk, reader)).events =
        (FileReader.read n (disk.tree, reader)).events := rfl
    rw [hevents, hr] at he
    cases he
  read := by
    intro disk reader rest n bytes h hb
    obtain ⟨bytes', rest', reader', hr, hid, hs, hl, hn, hrest⟩ := h.rest.read h.id h.same n
    have hs' : directory.storage.read n (disk, reader) =
        { result := .ok bytes', state := ({ disk with tree := disk.tree }, reader') } := by
      show Answer.mk (FileReader.read n (disk.tree, reader)).result
        ({ disk with tree := (FileReader.read n (disk.tree, reader)).state.1 },
          (FileReader.read n (disk.tree, reader)).state.2)
        (FileReader.read n (disk.tree, reader)).events = _
      rw [hr]
      rfl
    rw [hs'] at hb ⊢
    obtain rfl := Except.ok.inj hb
    exact ⟨rest', hs, hl, hn, h.same, hid, hrest⟩

variable {directory : Directory} {disk : Disk} {id : Nat}

/-- A file that is opened for reading is the one that its path leads to, and its size is told. -/
theorem openForReading_file {peer : Address} {filename : Bytes} {reader : FileReader}
    {size : Option UInt64} (hfile : disk.tree.file? (Path.join directory.root filename) = some id)
    (h : (directory.openForReading peer filename disk).result = .ok (reader, size)) :
    reader = { id := some id } ∧
      size = some (UInt64.ofNat (disk.tree.content id).length) := by
  rcases directory.openForReading_answers peer filename disk with
    ⟨_, -, ha⟩ | ⟨path, id', hl, hfile', ha⟩ <;> rw [ha] at h <;> cases h
  obtain ⟨rfl, -, -⟩ := locate_eq_ok hl
  cases hfile.symm.trans hfile'
  exact ⟨rfl, rfl⟩

/-- Opening a file for reading changes nothing. -/
theorem openForReading_state (directory : Directory) (peer : Address) (filename : Bytes)
    (disk : Disk) : (directory.openForReading peer filename disk).state = disk := by
  rcases directory.openForReading_answers peer filename disk with ⟨_, -, h⟩ | ⟨_, _, -, -, h⟩
  · rw [h]
    rfl
  · rw [h]

theorem openForReading_plain (directory : Directory) (peer : Address) (filename : Bytes)
    (disk : Disk) : ∀ e ∈ (directory.openForReading peer filename disk).events,
      e.isPlain = true := by
  rcases directory.openForReading_answers peer filename disk with
    ⟨_, -, h⟩ | ⟨_, _, -, -, h⟩ <;> rw [h]
  · exact List.forall_mem_nil _
  · exact List.forall_mem_singleton.2 rfl

theorem read_state (directory : Directory) (n : Nat) (disk : Disk) (reader : FileReader) :
    (directory.storage.read n (disk, reader)).state.1 = disk ∧
      (directory.storage.read n (disk, reader)).events = [] := by
  have hr : (FileReader.read n (disk.tree, reader)).state.1 = disk.tree ∧
      (FileReader.read n (disk.tree, reader)).events = [] := by
    rcases FileReader.read_answers n (disk.tree, reader) with ⟨_, h⟩ | ⟨_, _, h⟩ <;>
      exact h ▸ ⟨rfl, rfl⟩
  refine ⟨?_, hr.2⟩
  show ({ disk with tree := (FileReader.read n (disk.tree, reader)).state.1 } : Disk) = disk
  rw [hr.1]

/-- Reading the files of a directory changes nothing. -/
theorem lends (directory : Directory) : directory.storage.Lends where
  opening := directory.openForReading_state
  openingPlain := directory.openForReading_plain
  read n file := (directory.read_state n file.1 file.2).1
  readPlain n file := by
    rw [Plain, (directory.read_state n file.1 file.2).2]
    exact List.forall_mem_nil _

/-- A file is there to be read under the names whose paths lead to it. -/
theorem offers (peer : Address) {filename : Bytes}
    (hfile : disk.tree.file? (Path.join directory.root filename) = some id) :
    (directory.source id (disk.tree.content id)).Offers disk peer filename
      (disk.tree.content id) where
  plain := directory.openForReading_plain peer filename disk
  opens reader size hr := by
    have hr : (directory.openForReading peer filename disk).result.map some =
      .ok (some (reader, size)) := hr
    cases ho : (directory.openForReading peer filename disk).result with
    | error f =>
        rw [ho] at hr
        cases hr
    | ok opened =>
        rw [ho] at hr
        cases hr
        obtain ⟨rfl, -⟩ := openForReading_file hfile ho
        have hstate : (directory.storage.openForReading peer filename disk).state = disk :=
          directory.openForReading_state peer filename disk
        rw [hstate]
        exact ⟨rfl, rfl, .good rfl⟩

end Directory

/-! ## Files being written -/

namespace FileWriter

/-- What has been written to an open file. -/
structure Holds (tree : FileTree) (writer : FileWriter) (written : Bytes) : Prop where
  state : writer.state = .good
  found : tree.file? writer.path = some writer.id
  reached : (tree.content writer.id).length = writer.offset
  written : tree.content writer.id ++ writer.pending = written

/-- Between two states only the file that is open has changed, and its path still leads to it. -/
structure Moves (file file' : FileTree × FileWriter) : Prop where
  id : file'.2.id = file.2.id
  path : file'.2.path = file.2.path
  spares : file.1.Spares file.2.id file'.1
  found : file.1.file? file.2.path = some file.2.id → file'.1.file? file.2.path = some file.2.id

variable {tree : FileTree} {writer : FileWriter} {written : Bytes} {file file' : FileTree × FileWriter}

theorem Moves.refl (tree : FileTree) (writer writer' : FileWriter) (hid : writer'.id = writer.id)
    (hpath : writer'.path = writer.path) : Moves (tree, writer) (tree, writer') :=
  ⟨hid, hpath, .refl _ _, fun h => h⟩

theorem Moves.trans {file'' : FileTree × FileWriter} (h : Moves file file')
    (h' : Moves file' file'') : Moves file file'' where
  id := h'.id.trans h.id
  path := h'.path.trans h.path
  spares := h.spares.trans (h.id ▸ h'.spares)
  found hf := by
    have hf' := h'.found (by rw [h.id, h.path]; exact h.found hf)
    rwa [h.id, h.path] at hf'

theorem moves_flush (file : FileTree × FileWriter) (bytes : Bytes) :
    Moves file (flush file.1 file.2 bytes) :=
  ⟨rfl, rfl, file.1.spares_write _ _ _, file.1.file?_write _ _⟩

theorem moves_close (file : FileTree × FileWriter) : Moves file (close file.1 file.2) := by
  unfold close
  split
  · have h := moves_flush file []
    exact ⟨h.id, h.path, h.spares, h.found⟩
  · exact .refl _ _ _ rfl rfl

theorem Holds.flush (h : Holds tree writer written) (bytes : Bytes) :
    Holds (flush tree writer bytes).1 (flush tree writer bytes).2 (written ++ bytes) where
  state := h.state
  found := (moves_flush (tree, writer) bytes).found h.found
  reached := by
    show (FileTree.content (tree.write writer.id writer.offset _) writer.id).length =
      writer.offset + (writer.pending ++ bytes).length
    rw [← h.reached, content_write (lt_of_file? h.found), List.length_append]
  written := by
    show FileTree.content (tree.write writer.id writer.offset _) writer.id ++ [] = _
    rw [← h.reached, content_write (lt_of_file? h.found), List.append_nil, ← List.append_assoc,
      h.written]

/-- What is written is added to what has been written. -/
theorem Holds.write (h : Holds tree writer written) (bytes : Bytes) :
    let answer := FileWriter.write bytes (tree, writer)
    answer.result = .ok () ∧ Moves (tree, writer) answer.state ∧
      Holds answer.state.1 answer.state.2 (written ++ bytes) := by
  simp only [FileWriter.write, h.state]
  split
  · have hf := h.flush bytes
    refine ⟨?_, ?_, ?_⟩
    · rw [outcome, if_neg (by simp [hf.state])]
      rfl
    · rw [outcome_state]
      exact moves_flush (tree, writer) bytes
    · rwa [outcome_state]
  · refine ⟨?_, ?_, ?_⟩
    · rw [outcome, if_neg (by simp)]
      rfl
    · rw [outcome_state]
      exact .refl _ _ _ rfl rfl
    · rw [outcome_state]
      exact ⟨rfl, h.found, h.reached, by rw [← List.append_assoc, h.written]⟩

/-- **When a file is finished, everything that has been written is in it.** -/
theorem Holds.finish (h : Holds tree writer written) :
    let answer := FileWriter.finish (tree, writer)
    answer.result = .ok () ∧ Moves (tree, writer) answer.state ∧
      answer.state.1.content writer.id = written := by
  have hf := h.flush []
  rw [List.append_nil] at hf
  have hpending : (FileWriter.flush tree writer []).2.pending = [] := rfl
  have hw := hf.written
  rw [hpending, List.append_nil] at hw
  simp only [FileWriter.finish, outcome_state]
  refine ⟨?_, moves_close (tree, writer), ?_⟩
  · rw [outcome, if_neg]
    · rfl
    · simp [close, h.state]
  · simp only [close, h.state]
    exact hw

theorem abort_path (tree : FileTree) (writer : FileWriter) :
    (FileWriter.abort (tree, writer)).state.2.path = writer.path := by
  have hc := (moves_close (tree, writer)).path
  rcases abort_answers (tree, writer) with ⟨_, -, h⟩ | ⟨-, h⟩ <;> rw [h] <;> exact hc

/-- A file that is given up is removed, and no other. -/
theorem abort_spares (h : tree.file? writer.path = some writer.id) :
    tree.Spares writer.id (FileWriter.abort (tree, writer)).state.1 := by
  have hc := moves_close (tree, writer)
  obtain ⟨removed, hr, hs⟩ := remove_spares (hc.found h)
  have hpath : (close tree writer).2.path = writer.path := hc.path
  rw [abort_of_removed (hpath ▸ hr)]
  exact hc.spares.trans hs

end FileWriter

namespace Directory

variable {directory : Directory} {disk : Disk} {writer : FileWriter} {written : Bytes}

/-- The payload of a block is added to what has been written. -/
theorem put_holds (h : writer.Holds disk.tree written) (payload : Bytes) :
    let answer := directory.storage.put payload (disk, writer)
    answer.result = .ok () ∧
      FileWriter.Moves (disk.tree, writer) (answer.state.1.tree, answer.state.2) ∧
      FileWriter.Holds answer.state.1.tree answer.state.2 (written ++ payload) := by
  by_cases hp : payload = []
  · subst hp
    refine ⟨rfl, .refl _ _ _ rfl rfl, ?_⟩
    rw [List.append_nil]
    exact h
  · rw [Storage.put, if_pos hp]
    exact h.write payload

/-- A block that is kept is added to what has been written. -/
theorem keep_holds (h : writer.Holds disk.tree written) (payload : Bytes) :
    let answer := directory.storage.keep payload false (disk, writer)
    answer.result = .ok () ∧
      FileWriter.Moves (disk.tree, writer) (answer.state.1.tree, answer.state.2) ∧
      FileWriter.Holds answer.state.1.tree answer.state.2 (written ++ payload) := by
  have hput := @put_holds directory _ _ _ h payload
  dsimp only at hput ⊢
  unfold Storage.keep Effect.andThen
  simp only [hput.1]
  exact ⟨rfl, hput.2⟩

/-- When the last block is kept, everything that has been written is in the file. -/
theorem keep_finishes (h : writer.Holds disk.tree written) (payload : Bytes) :
    let answer := directory.storage.keep payload true (disk, writer)
    answer.result = .ok () ∧
      FileWriter.Moves (disk.tree, writer) (answer.state.1.tree, answer.state.2) ∧
      answer.state.1.tree.content writer.id = written ++ payload := by
  obtain ⟨hr, hm, hh⟩ := @put_holds directory _ _ _ h payload
  obtain ⟨hr', hm', hc⟩ := hh.finish
  dsimp only
  unfold Storage.keep Effect.andThen
  simp only [hr]
  refine ⟨hr', hm.trans hm', ?_⟩
  rw [show writer.id = _ from hm.id.symm]
  exact hc

/-- However much of a block could be kept, no other file is touched. -/
theorem keep_moves (h : writer.Holds disk.tree written) (payload : Bytes) (isLast : Bool) :
    let answer := directory.storage.keep payload isLast (disk, writer)
    FileWriter.Moves (disk.tree, writer) (answer.state.1.tree, answer.state.2) := by
  cases isLast with
  | false => exact (keep_holds h payload).2.1
  | true => exact (keep_finishes h payload).2.1

/-- A file that is opened for writing is new and empty, and where its path leads to there was nothing.
If it is not opened, nothing happens. -/
theorem openForWriting_new (directory : Directory) (disk : Disk) (peer : Address) (filename : Bytes)
    (declared : Option UInt64) :
    let answer := directory.storage.openForWriting peer filename declared disk
    disk.tree.Spares disk.tree.contents.length answer.state.tree ∧
      ∀ writer, answer.result = .ok (some writer) →
        writer.id = disk.tree.contents.length ∧
        writer.path = Path.join directory.root filename ∧
        disk.tree.isThere writer.path = false ∧ writer.Holds answer.state.tree [] := by
  intro answer
  have hresult : answer.result =
      (directory.openForWriting peer filename declared disk).result.map some := rfl
  have hstate : answer.state = (directory.openForWriting peer filename declared disk).state := rfl
  rw [hresult, hstate]
  rcases directory.openForWriting_cases disk peer filename declared with
    ⟨f, hr, hs⟩ | ⟨path, location, hlocate, hm, hr, htree⟩
  · rw [hs, hr]
    exact ⟨.refl _ _, fun writer hw => nomatch hw⟩
  · rw [hr, htree]
    refine ⟨spares_insert hm, fun writer hw => ?_⟩
    obtain rfl := Option.some.inj (Except.ok.inj hw)
    obtain ⟨hfound, hempty⟩ := file?_insert hm
    refine ⟨rfl, (locate_eq_ok hlocate).1, isThere_of_missing hm, rfl, hfound, ?_, ?_⟩
    · rw [hempty]
      rfl
    · rw [hempty]
      rfl

end Directory

/-! ## Turns -/

/-- The payload of the block that a receive brings to a transfer, if that is the one that is to
come. -/
def Transfer.brought {S : Storage} (t : Transfer S) (reception : Reception) : Bytes :=
  match reception.packetFrom t.peer with
  | some (.data block payload) => if block = t.block then payload else []
  | _ => []

namespace Directory

variable (directory : Directory)

/-- What a transfer that waits has to do with the files of its directory. -/
inductive Tended (disk : Disk) (written : Bytes) (t : Transfer directory.storage) : Prop
  /-- It sends a file. -/
  | reads : Read.Fetching t → t.isOver = false → Tended disk written t
  /-- It receives a file, and holds it open. -/
  | writes (size n : Nat) (writer : FileWriter) : Write.Receiving size n t →
      t.writer = some writer → writer.path = Path.join directory.root t.request.filename →
      writer.Holds disk.tree written → Tended disk written t

/-- What a turn of a transfer does to the files of its directory: it concerns one file at most. If
the transfer waits then, it has no other file open for writing, and if it has received everything,
that is in this file. -/
structure Turns (id : Nat) (written : Bytes) (v v' : View directory.storage) : Prop where
  spares : v.store.tree.Spares id v'.store.tree
  waits : v'.self.isOver = false → directory.Tended v'.store written v'.self ∧
    ∀ writer, v'.self.writer = some writer → FileWriter.id writer = id
  ends : v'.self.phase = .writeEnd → ∃ writer : FileWriter, v'.self.writer = some writer ∧
    writer.id = id ∧
    v'.store.tree.file? (Path.join directory.root v'.self.request.filename) = some id ∧
    v'.store.tree.content id = written

variable {directory} {disk : Disk} {id : Nat} {written : Bytes} {v v' w : View directory.storage}

/-- Giving up concerns the file that is open for writing, if there is one. -/
theorem Turns.givenUp (hs : v.store.tree.Spares id w.store.tree)
    (hw : ∀ writer : FileWriter, w.self.writer = some writer → writer.id = id ∧
      w.store.tree.file? writer.path = some id) :
    directory.Turns id written v w.givenUp := by
  have hphase := (View.givenUp_self w).2.2
  refine ⟨hs.trans ?_, fun ho => ?_, fun he => ?_⟩
  · cases hwriter : w.self.writer with
    | none =>
        rw [View.givenUp_of_none hwriter]
        exact .refl _ _
    | some writer =>
        obtain ⟨hid, hfile⟩ := hw writer hwriter
        rw [View.givenUp_of_some hwriter]
        exact hid ▸ FileWriter.abort_spares (hid ▸ hfile)
  · exact absurd hphase (phase_ne_of_live ho rfl)
  · cases hphase.symm.trans he

/-- The path of the file that is open stays the same when it is given up. -/
theorem path_of_givenUp {writer : FileWriter} (h : w.givenUp.self.writer = some writer) :
    ∃ writer' : FileWriter, w.self.writer = some writer' ∧ writer.path = writer'.path := by
  cases hw : w.self.writer with
  | none =>
      rw [View.givenUp_of_none hw] at h
      cases hw.symm.trans h
  | some writer' =>
      rw [View.givenUp_of_some hw] at h
      obtain rfl := Option.some.inj h
      exact ⟨writer', rfl, FileWriter.abort_path _ _⟩

/-- A transfer that sends a file does nothing to any file. -/
theorem Turns.of_fetches {terms : Terms} (h : Read.Fetches v terms v') :
    directory.Turns id written v v' where
  spares := by
    rw [h.store]
    exact .refl _ _
  waits ho := by
    refine ⟨.reads h.fetching ho, fun writer hw => ?_⟩
    rw [h.writer] at hw
    cases hw
  ends he := absurd he h.phase.1

section

variable {size n : Nat} {writer : FileWriter} {reception : Reception}

open Write

theorem brought_of_takes {payload : Bytes} (h : Receiving size n v.self)
    (ht : Takes v n payload reception) : v.self.brought reception = payload := by
  unfold Transfer.brought
  rw [show reception.packetFrom v.self.peer = _ from ht]
  exact if_pos h.block.symm

theorem brought_of_not_takes (h : Receiving size n v.self)
    (ht : ∀ payload, ¬ Takes v n payload reception) : v.self.brought reception = [] := by
  unfold Transfer.brought
  split
  next block payload hp =>
    refine if_neg fun hb => ht payload ?_
    rw [Takes, hp, hb, h.block]
  next => rfl

/-- A transfer that goes on holding its file open, or gives it up. -/
theorem Turns.of_ends (hs : v.store.tree.Spares id w.store.tree)
    (hr : Receiving size n w.self) (hw : w.self.writer = some writer) (hid : writer.id = id)
    (hpath : writer.path = Path.join directory.root v'.self.request.filename)
    (hh : writer.Holds w.store.tree written) (he : w.Ends v') :
    directory.Turns id written v v' := by
  rcases he with rfl | rfl
  · refine ⟨hs, fun _ => ⟨.writes size n writer hr hw hpath hh, fun writer' hw' => ?_⟩, fun he => ?_⟩
    · obtain rfl := Option.some.inj (hw.symm.trans hw')
      exact hid
    · cases hr.phase.symm.trans he
  · refine .givenUp hs fun writer' hw' => ?_
    obtain rfl := Option.some.inj (hw.symm.trans hw')
    exact ⟨hid, hid ▸ hh.found⟩

/-- **A turn of a transfer that receives** adds the block that it takes to its file. -/
theorem Turns.of_outcome (hr : Receiving size n v.self) (hw : v.self.writer = some writer)
    (hpath : writer.path = Path.join directory.root v'.self.request.filename)
    (hh : writer.Holds v.store.tree written) (ho : Outcome size n v reception v') :
    directory.Turns writer.id (written ++ v.self.brought reception) v v' := by
  -- In each case the payload that is kept, if any, is added to what the file holds.
  cases ho with
  | waits k w hno said hrec hends =>
      rw [brought_of_not_takes hr hno, List.append_nil]
      refine .of_ends ?_ hrec (said.writer.trans hw) rfl hpath ?_ hends
      · rw [said.store]
        exact .refl _ _
      · rwa [said.store]
  | refused payload ht hl hv =>
      subst hv
      refine .givenUp (.refl _ _) fun writer' hw' => ?_
      obtain rfl := Option.some.inj (hw.symm.trans hw')
      exact ⟨rfl, hh.found⟩
  | stuck payload writer' ht hl hw' hv =>
      subst hv
      obtain rfl := Option.some.inj (hw.symm.trans hw')
      have hm := @keep_moves directory _ _ _ hh payload (decide (payload.length < size))
      refine .givenUp hm.spares fun writer' hw' => ?_
      obtain rfl := Option.some.inj hw'
      refine ⟨hm.id, ?_⟩
      rw [hm.path]
      exact hm.found hh.found
  | takes payload writer' k w ht hl hw' hkeep said hrec hends =>
      obtain rfl := Option.some.inj (hw.symm.trans hw')
      rw [brought_of_takes hr ht]
      obtain ⟨-, hm, hh'⟩ := @keep_holds directory _ _ _ hh payload
      refine .of_ends ?_ hrec said.writer hm.id (hm.path.trans hpath) ?_ hends
      · rw [said.store]
        exact hm.spares
      · rw [said.store]
        exact hh'
  | ends payload writer' ht hl hw' hkeep said hphase =>
      obtain rfl := Option.some.inj (hw.symm.trans hw')
      rw [brought_of_takes hr ht]
      obtain ⟨-, hm, hc⟩ := @keep_finishes directory _ _ _ hh payload
      refine ⟨?_, fun ho => ?_, fun _ => ⟨_, said.writer, hm.id, ?_, ?_⟩⟩
      · rw [said.store]
        exact hm.spares
      · exact absurd hphase (phase_ne_of_live ho rfl)
      · rw [said.store, ← hpath]
        exact hm.found hh.found
      · rw [said.store]
        exact hc

/-- **The first turn of a transfer that receives** makes a new file, if any, and it does so where its
path leads to nothing. -/
theorem Turns.of_begins (hw : v.self.writer = none) (hrequest : v'.self.request = v.self.request)
    (hb : Begins size v v') :
    directory.Turns v.store.tree.contents.length [] v v' ∧
      ∀ writer : FileWriter, v'.self.writer = some writer →
        writer.path = Path.join directory.root v.self.request.filename ∧
        v.store.tree.isThere writer.path = false := by
  have hnew := fun terms : Terms => directory.openForWriting_new v.store v.self.peer
    v.self.request.filename terms.transferSize
  cases hb with
  | refused hv =>
      subst hv
      refine ⟨.givenUp (.refl _ _) fun writer h => ?_, fun writer h => ?_⟩
      · cases hw.symm.trans h
      · obtain ⟨writer', h', -⟩ := path_of_givenUp h
        cases hw.symm.trans h'
  | unopened terms _ hv =>
      subst hv
      refine ⟨.givenUp (hnew terms).1 fun writer h => ?_, fun writer h => ?_⟩
      · cases h
      · obtain ⟨writer', h', -⟩ := path_of_givenUp h
        cases h'
  | stuck terms file hopen hv =>
      subst hv
      obtain ⟨hid, hpath, hthere, hh⟩ := (hnew terms).2 file hopen
      refine ⟨.givenUp (hnew terms).1 fun writer h => ?_, fun writer h => ?_⟩
      · obtain rfl := Option.some.inj h
        exact ⟨hid, hid ▸ hh.found⟩
      · obtain ⟨writer', h', hp⟩ := path_of_givenUp h
        obtain rfl := Option.some.inj h'
        rw [hp]
        exact ⟨hpath, hthere⟩
  | begins terms file k w hopen said hrec hends =>
      obtain ⟨hid, hpath, hthere, hh⟩ := (hnew terms).2 file hopen
      have hwriter : w.self.writer = some file := said.writer
      refine ⟨.of_ends ?_ hrec hwriter hid (hrequest ▸ hpath) ?_ hends, fun writer h => ?_⟩
      · rw [said.store]
        exact (hnew terms).1
      · rw [said.store]
        exact hh
      -- Settling may give the file up, but that does not change its path.
      · have hp : writer.path = file.path := by
          rcases hends with rfl | rfl
          · obtain rfl := Option.some.inj (hwriter.symm.trans h)
            rfl
          · obtain ⟨writer', h', hp⟩ := path_of_givenUp h
            obtain rfl := Option.some.inj (hwriter.symm.trans h')
            exact hp
        rw [hp]
        exact ⟨hpath, hthere⟩

end

end Directory

end Tftp
