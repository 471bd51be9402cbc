import Tftp.Proofs.Answers
import Tftp.Proofs.Contracts
import Tftp.Proofs.Walking

/-!
# Staying below the root

A `Directory` gives clients access to what is below its root. Before it opens a file, it compares
two locations: that of its root, and that of the path it is going to open, which is followed as far
as there is something. But then it opens the path itself, and what that leads to is looked up again.
This module says where both end up.

A file that is read is found by the same look-up that is checked, so it lies below the root. A file
that is written is missing, and then the path is checked as if its last name stood for nothing at
all. So it does, unless it stands for a symbolic link that leads to something missing: such a link is
followed when the file is made, and only then, so the file is made wherever the link points
(`made_outside`). In every other case the file is made below the root, and nothing outside is ever
changed by writing, finishing or giving it up.
-/

namespace Tftp

namespace FileTree

/-- Whether a path stands for a link to something missing. -/
def Dangles (tree : FileTree) (path : Bytes) : Prop :=
  (∃ l target, tree.resolve false path = .found l (.link target)) ∧
    ∃ location, tree.resolve true path = .missing location

/-! ## Trees that differ at one location -/

theorem lt_of_entryAt? {tree : FileTree} {location : Location} {id : Nat}
    (h : tree.entryAt? location = some (.file id)) : id < tree.contents.length := by
  unfold entryAt? at h
  split at h
  · cases h
  · obtain ⟨before, after, he, -⟩ := List.lookup_eq_some_iff.1 h
    exact tree.filed (location, .file id) (by simp [he]) id rfl

/-- Where there is nothing, there is not the directory in which paths start either. -/
theorem isPrefixOf_start_of_none {tree : FileTree} {location : Location}
    (h : tree.entryAt? location = none) : location.isPrefixOf tree.start = false := by
  cases hp : location.isPrefixOf tree.start with
  | false => rfl
  | true => simp [entryAt?, hp] at h

theorem lt_extend (tree : FileTree) (id : Nat) (he : Entry.file tree.contents.length = .file id) :
    id < tree.extend.contents.length := by
  obtain rfl := Entry.file.inj he
  show _ < (tree.contents ++ [[]]).length
  rw [List.length_append]
  exact Nat.lt_succ_self _

/-- Only what is found is removed. -/
theorem remove_eq_ok {tree tree' : FileTree} {path : Bytes} (h : tree.remove path = .ok tree') :
    ∃ location entry, tree.resolve false path = .found location entry ∧
      tree' = tree.erase location := by
  unfold remove at h
  split at h
  next location hr =>
    split at h <;> cases h
    exact ⟨location, _, hr, rfl⟩
  next location entry _ hr =>
    cases h
    exact ⟨location, entry, hr, rfl⟩
  · cases h
  · cases h

/-- Everything that there was in a tree is as it was, but for the entry at one location. Files that
there were not may have any content. -/
structure Kept (tree : FileTree) (location : Location) (tree' : FileTree) : Prop where
  start : tree'.start = tree.start
  entry : ∀ l, l ≠ location → tree'.entryAt? l = tree.entryAt? l
  content : ∀ id < tree.contents.length, tree'.content id = tree.content id

variable {tree tree' : FileTree} {location : Location}

/-- What can be seen elsewhere is as it was. -/
theorem Kept.node? (h : tree.Kept location tree') {l : Location} (hl : l ≠ location) :
    tree'.node? l = tree.node? l := by
  unfold FileTree.node?
  rw [h.entry l hl]
  cases he : tree.entryAt? l with
  | none => rfl
  | some entry =>
      cases entry with
      | file id =>
          simp only [Option.map_some]
          rw [h.content id (lt_of_entryAt? he)]
      | _ => rfl

theorem Kept.erase (h : tree.Kept location tree') : tree.Kept location (tree'.erase location) where
  start := h.start
  entry l hl := (tree'.entryAt?_erase_of_ne hl).trans (h.entry l hl)
  content := h.content

theorem Kept.insert (h : tree.Kept location tree') (entry : Entry)
    (he : ∀ id, entry = .file id → id < tree'.contents.length) :
    tree.Kept location (tree'.insert location entry he) where
  start := h.start
  entry l hl := (tree'.entryAt?_insert_of_ne hl entry he).trans (h.entry l hl)
  content := h.content

theorem Kept.extend (tree : FileTree) (location : Location) : tree.Kept location tree.extend where
  start := rfl
  entry _ _ := rfl
  content id hid := by
    simp only [FileTree.content, FileTree.extend, List.getD_eq_getElem?_getD,
      List.getElem?_append_left hid]

/-- Writing to a file that there was not changes nothing that there was. -/
theorem Kept.write (h : tree.Kept location tree') {id : Nat} (hid : tree.contents.length ≤ id)
    (offset : Nat) (bytes : Bytes) : tree.Kept location (tree'.write id offset bytes) := by
  unfold FileTree.write
  split
  · exact h
  · refine ⟨h.start, h.entry, fun other ho => ?_⟩
    rw [← h.content other ho]
    simp only [FileTree.content, setContent, List.getD_eq_getElem?_getD]
    rw [List.getElem?_set_ne (by omega)]

end FileTree

/-! ## A file being written -/

namespace FileWriter

open FileTree

variable {tree : FileTree} {location : Location} {path : Bytes} {file : FileTree × FileWriter}

/-- A file that there was not is being written, and so far only its own entry has changed. -/
structure Writes (tree : FileTree) (location : Location) (path : Bytes)
    (file : FileTree × FileWriter) : Prop where
  kept : tree.Kept location file.1
  fresh : tree.contents.length ≤ file.2.id
  path : file.2.path = path

@[simp] theorem outcome_state (file : FileTree × FileWriter) : (outcome file).state = file := by
  rcases outcome_answers file with h | h <;> rw [h] <;> rfl

theorem Writes.flush (h : Writes tree location path file) (bytes : Bytes) :
    Writes tree location path (flush file.1 file.2 bytes) :=
  ⟨h.kept.write h.fresh _ _, h.fresh, h.path⟩

theorem Writes.close (h : Writes tree location path file) :
    Writes tree location path (close file.1 file.2) := by
  unfold FileWriter.close
  split
  · have hf := h.flush []
    exact ⟨hf.kept, hf.fresh, hf.path⟩
  · exact ⟨h.kept, h.fresh, h.path⟩

theorem Writes.write (h : Writes tree location path file) (bytes : Bytes) :
    Writes tree location path (FileWriter.write bytes file).state := by
  obtain ⟨tree', writer⟩ := file
  rw [FileWriter.write, outcome_state]
  split
  · dsimp only
    split
    · exact h.flush bytes
    · exact ⟨h.kept, h.fresh, h.path⟩
  · split
    · exact h
    · exact ⟨h.kept, h.fresh, h.path⟩
  · exact h

theorem Writes.finish (h : Writes tree location path file) :
    Writes tree location path (FileWriter.finish file).state := by
  unfold FileWriter.finish
  rw [outcome_state]
  exact h.close

/-- A file that is given up is removed from where its path leads, which is its own location. -/
theorem Writes.abort (h : Writes tree location path file)
    (leads : ∀ tree', tree.Kept location tree' → tree'.resolve false path = .missing location ∨
      ∃ entry, tree'.resolve false path = .found location entry) :
    Writes tree location path (FileWriter.abort file).state := by
  have hc := h.close
  rcases abort_answers file with ⟨removed, hr, ha⟩ | ⟨-, ha⟩ <;> rw [ha]
  · refine ⟨?_, hc.fresh, hc.path⟩
    rw [hc.path] at hr
    obtain ⟨l, entry, hfound, rfl⟩ := remove_eq_ok hr
    rcases leads _ hc.kept with hm | ⟨entry', hf⟩
    · cases hfound.symm.trans hm
    · cases hfound.symm.trans hf
      exact hc.kept.erase
  · exact hc

end FileWriter

namespace Directory

open FileTree

variable {directory : Directory} {disk : Disk} {root : Location} {peer : Address}
  {filename : Bytes}

/-! ## What is checked -/

/-- What a file name has to satisfy so that a path is opened. -/
theorem locate_eq_ok {tree : FileTree} {path : Bytes}
    (h : directory.locate filename tree = .ok path) :
    path = Path.join directory.root filename ∧ Path.isAbsolute filename = false ∧
      directory.contains tree path = true := by
  unfold locate at h
  simp only at h
  split at h
  · cases h
  next hf =>
    split at h
    · cases h
    next hc =>
      obtain rfl := Except.ok.inj h
      rw [not_or] at hf
      exact ⟨rfl, by simpa using hf.1, by simpa using hc⟩

theorem isThere_eq_true {tree : FileTree} {path : Bytes} {found : Location × Entry}
    (h : tree.status path = .ok (some found)) : tree.isThere path = true := by
  rw [isThere, h]

/-- The path that a file name stands for has a name more than the root, unless it stands for the root
itself. -/
theorem front_ne_nil {path : Bytes} {front : List Bytes} {last : Bytes}
    (hpath : path = Path.join directory.root filename) (hroot : directory.root ≠ [])
    (hf : Path.isAbsolute filename = false) (hr : Path.isAbsolute path = false)
    (hs : Path.endsInSlash path = false) (hn : Path.names path = front ++ [last]) :
    front ≠ [] := by
  subst hpath
  rw [Path.isAbsolute_join hf] at hr
  rw [Path.names_join hf] at hn
  have hroot' : Path.names directory.root ≠ [] := fun h =>
    hroot (Path.eq_nil_of_names_eq_nil h hr)
  have hfile : Path.names filename ≠ [] := by
    intro h
    obtain rfl := Path.eq_nil_of_names_eq_nil h hf
    unfold Path.join at hs
    have ha : Path.isAbsolute [] = false := rfl
    simp only [hroot, ha, or_self, Bool.false_eq_true, if_false, List.append_nil] at hs
    split at hs
    next he => exact absurd he (by simp [hs])
    next => simp [Path.endsInSlash] at hs
  rintro rfl
  have hlen := congrArg List.length hn
  have := List.length_pos_iff.2 hroot'
  have := List.length_pos_iff.2 hfile
  simp only [List.length_append, List.nil_append, List.length_singleton] at hlen
  omega

/-- What passes the check has a location below that of the root. -/
theorem prefix_of_contains {tree : FileTree} {path : Bytes} {location : Location}
    (hroot : tree.status directory.root = .ok (some (root, .directory)))
    (h : directory.contains tree path = true)
    (hc : ∀ elements, tree.canonical path = .ok elements → elements = [Path.slash] :: location) :
    root <+: location := by
  rw [contains, canonical_of_status hroot] at h
  cases hcan : tree.canonical path with
  | error errno => simp [hcan] at h
  | ok elements =>
      simp only [hcan, isWithin, hc elements hcan, List.isPrefixOf_iff_prefix] at h
      exact (List.prefix_cons_inj _).1 h

/-! ## What is opened -/

theorem root_ne_nil {tree : FileTree} (h : tree.status directory.root = .ok (some (root, .directory))) :
    directory.root ≠ [] := by
  intro he
  rw [he, status] at h
  cases h

/-- The path of something that is missing has no NUL: before it there would be the root. -/
theorem not_mem_of_missing {tree : FileTree} {location : Location}
    (hroot : tree.status directory.root = .ok (some (root, .directory))) (h0 : 0 ∉ filename)
    (hf : Path.isAbsolute filename = false)
    (hm : tree.resolve true (Path.join directory.root filename) = .missing location) :
    0 ∉ Path.join directory.root filename := by
  have hne := root_ne_nil hroot
  obtain ⟨rest, hj, hrest⟩ : ∃ rest, Path.join directory.root filename = directory.root ++ rest ∧
      0 ∉ rest := by
    have : (0 : UInt8) ≠ Path.slash := by decide
    simp only [Path.join, hne, hf, Bool.false_eq_true, or_self, if_false]
    split
    · exact ⟨filename, rfl, h0⟩
    · exact ⟨Path.slash :: filename, rfl, by simp [h0, this]⟩
  rw [hj] at hm ⊢
  intro hz
  have hz : 0 ∈ directory.root := (List.mem_append.1 hz).resolve_right hrest
  rw [resolve, beforeNul_append hz] at hm
  rw [status, resolve] at hroot
  rw [hm] at hroot
  cases hroot

/-- **A missing file** that a client may write lies below the root, unless its path dangles. As long
as no other entry changes, its path leads to it or to nothing. -/
theorem missing_within {tree : FileTree} {path : Bytes} {location : Location}
    (hstart : ∀ name ∈ tree.start, Path.IsName name)
    (hroot : tree.status directory.root = .ok (some (root, .directory))) (h0 : 0 ∉ filename)
    (hlocate : directory.locate filename tree = .ok path) (hd : ¬ tree.Dangles path)
    (hm : tree.resolve true path = .missing location) :
    root <+: location ∧ tree.entryAt? location = none ∧
      ∀ tree', tree.Kept location tree' → tree'.resolve false path = .missing location ∨
        ∃ entry, tree'.resolve false path = .found location entry := by
  obtain ⟨rfl, hf, hc⟩ := locate_eq_ok hlocate
  have h0' := not_mem_of_missing hroot h0 hf hm
  obtain ⟨front, last, left, mid, h⟩ := lacks_of_missing h0' hm
  obtain rfl := h.location_eq h0' fun l target hl => hd ⟨⟨l, target, hl⟩, location, hm⟩
  have hnone := entryAt?_of_missing h.missing
  refine ⟨?_, hnone, fun tree' hk => ?_⟩
  · have hfront := fun ha => front_ne_nil rfl (root_ne_nil hroot) hf ha h.endsInName h.names
    exact prefix_of_contains hroot hc fun _ => h.canonical_eq h0' hstart hfront
  · have keeps (l : Location) (entry : Entry) (he : tree.entryAt? l = some entry) :
        tree'.entryAt? l = some entry := by
      rw [hk.entry l fun hl => by simp [hl, hnone] at he]
      exact he
    rw [h.resolve h0' hk.start keeps]
    cases tree'.entryAt? (mid ++ [last]) with
    | none => exact .inl rfl
    | some entry => exact .inr ⟨entry, rfl⟩

/-- A file is opened for writing where the path of its name leads to nothing, and it is made there. If
it is not opened, nothing happens. -/
theorem openForWriting_cases (directory : Directory) (disk : Disk) (peer : Address)
    (filename : Bytes) (declared : Option UInt64) :
    let answer := directory.openForWriting peer filename declared disk
    (∃ f, answer.result = .error f ∧ answer.state = disk) ∨
    ∃ path location, directory.locate filename disk.tree = .ok path ∧
      disk.tree.resolve true path = .missing location ∧
      answer.result = .ok { path, id := disk.tree.contents.length } ∧
      answer.state.tree = disk.tree.extend.insert location (.file disk.tree.contents.length)
        disk.tree.lt_extend := by
  rcases directory.openForWriting_answers peer filename declared disk with
    ⟨r, -, h⟩ | ⟨path, hl, hthere, h⟩ <;> rw [h]
  · exact .inl ⟨_, rfl, rfl⟩
  simp only [Disk.onTree, FileWriter.make, FileTree.create]
  cases hr : disk.tree.resolve true path with
  | found location entry =>
      refine absurd (@isThere_eq_true _ _ (location, entry) ?_) (Bool.eq_false_iff.1 hthere)
      rw [status, hr]
  | failed errno => exact .inl ⟨_, rfl, rfl⟩
  | missing location => exact .inr ⟨path, location, hl, hr, rfl, rfl⟩

/-- A file is opened for reading where its look-up finds it, and that is what is checked. -/
theorem openForReading_within {reader : FileReader} {size : Option UInt64}
    (hroot : disk.tree.status directory.root = .ok (some (root, .directory)))
    (h : (directory.openForReading peer filename disk).result = .ok (reader, size)) :
    ∃ location id, reader.id = some id ∧ root <+: location ∧
      disk.tree.resolve true (Path.join directory.root filename) = .found location (.file id) := by
  rcases directory.openForReading_answers peer filename disk with
    ⟨_, -, ha⟩ | ⟨path, id, hl, hfile, ha⟩ <;> rw [ha] at h <;> cases h
  obtain ⟨rfl, -, hc⟩ := locate_eq_ok hl
  obtain ⟨location, hr⟩ := file?_eq_some_iff.1 hfile
  have hcan := canonical_of_status (status_eq_some_iff.2 hr)
  refine ⟨location, id, rfl, prefix_of_contains hroot hc fun elements he => ?_, hr⟩
  exact Except.ok.inj (he.symm.trans hcan)

/-- A file that a client writes, from when it has been made. -/
theorem after_writes {tree : FileTree} {location : Location} {path : Bytes}
    (leads : ∀ tree', tree.Kept location tree' → tree'.resolve false path = .missing location ∨
      ∃ entry, tree'.resolve false path = .found location entry)
    (calls : List Storage.Call) (file : Disk × FileWriter)
    (h : FileWriter.Writes tree location path (file.1.tree, file.2)) :
    FileWriter.Writes tree location path ((directory.storage.after calls file).1.tree,
      (directory.storage.after calls file).2) := by
  induction calls generalizing file with
  | nil => exact h
  | cons call calls ih =>
      apply ih (call.effect (S := directory.storage) file).state
      cases call with
      | write bytes => exact h.write bytes
      | finish => exact h.finish
      | abort => exact h.abort leads

/-- **Clients stay below the root.** What is read is a file whose location, after all links, lies
below the root. A path that does not dangle is written below the root: opening it makes an entry
there, if anything, and whatever is called for the open file afterwards, everything outside the root
is seen as before. -/
theorem stays_within (peer : Address) (hstart : ∀ name ∈ disk.tree.start, Path.IsName name)
    (hroot : disk.tree.status directory.root = .ok (some (root, .directory)))
    (h0 : 0 ∉ filename) :
    (∀ reader size, (directory.openForReading peer filename disk).result = .ok (reader, size) →
      ∃ location id, reader.id = some id ∧ root <+: location ∧
        disk.tree.resolve true (Path.join directory.root filename) =
          .found location (.file id)) ∧
    ∀ declared, ¬ disk.tree.Dangles (Path.join directory.root filename) →
      let answer := directory.openForWriting peer filename declared disk
      (∀ l, ¬ root <+: l → answer.state.tree.node? l = disk.tree.node? l) ∧
      ∀ writer, answer.result = .ok writer →
        (∃ location, root <+: location ∧
          answer.state.tree.entryAt? location = some (.file writer.id)) ∧
        ∀ (calls : List Storage.Call) (l : Location), ¬ root <+: l →
          (directory.storage.after calls (answer.state, writer)).1.tree.node? l =
            disk.tree.node? l := by
  refine ⟨fun _ _ => openForReading_within hroot, fun declared hd => ?_⟩
  intro answer
  rcases directory.openForWriting_cases disk peer filename declared with
    ⟨f, hr, hs⟩ | ⟨path, location, hlocate, hm, hr, htree⟩
  · have hs : answer.state = disk := hs
    have hr : answer.result = .error f := hr
    exact ⟨fun l _ => by rw [hs], fun writer hw => nomatch hr.symm.trans hw⟩
  · have htree : answer.state.tree = _ := htree
    have hr : answer.result = _ := hr
    have hj := (locate_eq_ok hlocate).1
    obtain ⟨hin, hnone, leads⟩ := missing_within hstart hroot h0 hlocate (hj ▸ hd) hm
    have hstart' := isPrefixOf_start_of_none hnone
    let writer : FileWriter := { path, id := disk.tree.contents.length }
    have hw : FileWriter.Writes disk.tree location path (answer.state.tree, writer) := by
      refine ⟨?_, Nat.le_refl _, rfl⟩
      rw [htree]
      exact (Kept.extend disk.tree location).insert _ disk.tree.lt_extend
    have outside {file : FileTree × FileWriter} (hw : FileWriter.Writes disk.tree location path file)
        (l : Location) (hl : ¬ root <+: l) : file.1.node? l = disk.tree.node? l :=
      hw.kept.node? fun he => hl (he ▸ hin)
    refine ⟨outside hw, fun writer' hw' => ?_⟩
    obtain rfl : writer = writer' := Except.ok.inj (hr.symm.trans hw')
    refine ⟨⟨location, hin, ?_⟩, fun calls l hl => ?_⟩
    · rw [htree]
      exact entryAt?_insert_self disk.tree.extend hstart' _ disk.tree.lt_extend
    · exact outside (after_writes leads calls (answer.state, writer) hw) l hl

/-! ## Links to something missing -/

/-- A directory with a link in it that leads out of it, to something missing. -/
def leaky : Disk where
  tree := { entries := [([ascii "r"], .directory), ([ascii "r", ascii "esc"], .link (ascii "../out"))] }
  space := none

theorem status_leaky : leaky.tree.status (ascii "r") = .ok (some ([ascii "r"], .directory)) := by
  have hr : leaky.tree.resolve true (ascii "r") = .found [ascii "r"] .directory := by
    decide +kernel
  rw [status, hr]

/-- Beside a link that dangles a new file is made, and it stays below the root. -/
theorem stays_within_leaky :
    let directory : Directory := ⟨ascii "r", .readWrite⟩
    let answer := directory.openForWriting ⟨⟨10, 0, 0, 1⟩, 5000⟩ (ascii "new") none leaky
    (∀ name ∈ leaky.tree.start, Path.IsName name) ∧
    leaky.tree.status directory.root = .ok (some ([ascii "r"], .directory)) ∧
    (0 : UInt8) ∉ ascii "new" ∧
    ¬ leaky.tree.Dangles (Path.join directory.root (ascii "new")) ∧
    ∃ writer, answer.result = .ok writer ∧ ∀ (calls : List Storage.Call) (l : Location),
      ¬ [ascii "r"] <+: l → (directory.storage.after calls (answer.state, writer)).1.tree.node? l =
        leaky.tree.node? l := by
  have hstart : ∀ name ∈ leaky.tree.start, Path.IsName name := nofun
  have h0 : (0 : UInt8) ∉ ascii "new" := by decide
  have hnew : leaky.tree.resolve false (Path.join (ascii "r") (ascii "new")) =
      .missing [ascii "r", ascii "new"] := by decide +kernel
  have hd : ¬ leaky.tree.Dangles (Path.join (ascii "r") (ascii "new")) := by
    rintro ⟨⟨l, target, hl⟩, -⟩
    cases hnew.symm.trans hl
  have h := @stays_within ⟨ascii "r", .readWrite⟩ leaky _ _ ⟨⟨10, 0, 0, 1⟩, 5000⟩ hstart
    status_leaky h0
  have hw := (h.2 none hd).2 _ rfl
  exact ⟨hstart, status_leaky, h0, hd, _, rfl, hw.2⟩

/-- **A file is made outside the root** when its name is that of a link to something missing there. -/
theorem made_outside :
    let directory : Directory := ⟨ascii "r", .readWrite⟩
    let answer := directory.openForWriting ⟨⟨10, 0, 0, 1⟩, 5000⟩ (ascii "esc") none leaky
    leaky.tree.status directory.root = .ok (some ([ascii "r"], .directory)) ∧
    answer.result.toOption.isSome = true ∧ ¬ [ascii "r"] <+: [ascii "out"] ∧
    leaky.tree.node? [ascii "out"] = none ∧
    answer.state.tree.node? [ascii "out"] = some (.file []) := by
  refine ⟨status_leaky, ?_, ?_, ?_, ?_⟩ <;> decide +kernel

end Directory

end Tftp
