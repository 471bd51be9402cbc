import Tftp.Proofs.Finding

/-!
# Objections to an upload

There are five reasons for which a file is not opened for writing (`Directory.Objection`), and they
are tested in turn. The first one that applies is what the client is told, and then nothing has
happened (`openForWriting_decides`). If none applies, one file is made where the path of the file
name leads, and nothing else changes.

Three of the tests look at the same path, each in its own way: where it leads as far as there is
something, whether it stands for anything, and where something could be made.

The room on a disk is worked out in words of 64 bits (`Disk.hasRoom_eq_true_iff`). It never comes
out too large, but it does come out too small if there are 2⁶⁴ bytes or more, and then a small file
may be refused (`refuses_for_want_of_room`).
-/

namespace Tftp

/-! ## Trees -/

namespace FileTree

variable {tree : FileTree} {path : Bytes} {location : Location}

/-- What a path stands for is what it leads to when all links are followed. -/
theorem isThere_eq_true_iff :
    tree.isThere path = true ↔
      ∃ location entry, tree.resolve true path = .found location entry := by
  unfold isThere status
  cases tree.resolve true path with
  | found location entry => simp
  | missing location => simp
  | failed errno => by_cases h : errno = .enoent ∨ errno = .enotdir <;> simp [h]

/-- All that a tree has more than another is one file, which is empty. -/
structure Adds (tree : FileTree) (location : Location) (tree' : FileTree) : Prop
    extends Kept tree location tree' where
  absent : tree.node? location = none
  present : tree'.node? location = some (.file [])

/-- A file that is made where there was nothing is all that a tree has more than before. -/
theorem adds_insert (hm : tree.resolve true path = .missing location) :
    tree.Adds location
      (tree.extend.insert location (.file tree.contents.length) tree.lt_extend) := by
  have hnone := entryAt?_of_missing (walk_of_missing hm).2.2
  have hself := entryAt?_insert_self tree.extend (isPrefixOf_start_of_none hnone)
    (.file tree.contents.length) tree.lt_extend
  refine ⟨(Kept.extend tree location).insert _ tree.lt_extend, ?_, ?_⟩
  · rw [node?, hnone]
    rfl
  · rw [node?, hself]
    simp only [Option.map_some, (file?_insert hm).2]

end FileTree

/-! ## Room -/

/-- The bytes that can be stored on a disk. -/
def Space.free (space : Space) : Nat := space.blockSize.toNat * space.available.toNat

namespace Disk

/-- There is room for what does not exceed the free bytes, counted in a word of 64 bits. -/
theorem hasRoom_eq_true_iff {disk : Disk} {size : UInt64} :
    disk.hasRoom size = true ↔
      ∃ space, disk.space = some space ∧ size.toNat ≤ space.free % UInt64.size := by
  unfold hasRoom
  cases disk.space with
  | none => simp
  | some space => simp [Space.free, UInt64.le_iff_toNat_le, UInt64.toNat_mul]

/-- Files are not refused for want of room as long as there is some: counting the free bytes in a
word takes nothing away that a file of the declared size would need. -/
def TellsRoom (disk : Disk) (declared : Option UInt64) : Prop :=
  ∀ size space, declared = some size → disk.space = some space →
    size.toNat ≤ space.free → size.toNat ≤ space.free % UInt64.size

theorem tellsRoom_of_lt {disk : Disk} {declared : Option UInt64}
    (h : ∀ space, disk.space = some space → space.free < UInt64.size) : disk.TellsRoom declared :=
  fun _ space _ hs hle => (Nat.mod_eq_of_lt (h space hs)).symm ▸ hle

end Disk

/-! ## Tests -/

namespace Directory

open FileTree

variable {directory : Directory} {disk : Disk} {filename : Bytes} {declared : Option UInt64}

/-- A reason for which a file is not opened for writing. -/
inductive Objection
  /-- Clients may only read. -/
  | readOnly
  /-- The file name leads out of the directory, or it cannot be told where it leads. -/
  | misplaced
  /-- There is something already. -/
  | taken
  /-- There is not enough room for as much as the client has declared, or it cannot be told. -/
  | oversized
  /-- No file can be made. -/
  | unmakeable
  deriving DecidableEq, Repr

namespace Objection

/-- What the client is told. -/
def report : Objection → Report
  | readOnly => .writingNotAllowed
  | misplaced => .accessViolation
  | taken => .fileExists
  | oversized => .diskFull
  | unmakeable => .accessViolation

/-- Whether there is this reason, for the path of a file name. -/
def Applies (directory : Directory) (disk : Disk) (filename : Bytes) (declared : Option UInt64) :
    Objection → Prop
  | readOnly => directory.access = .readOnly
  | misplaced =>
    Path.isAbsolute filename ∨ Path.above ∈ Path.names filename ∨
      ¬ ∃ root location, disk.tree.canonical directory.root = .ok root ∧
        disk.tree.canonical (Path.join directory.root filename) = .ok location ∧ root <+: location
  | taken =>
    ∃ location entry,
      disk.tree.resolve true (Path.join directory.root filename) = .found location entry
  | oversized =>
    ∃ size, declared = some size ∧ ∀ space, disk.space = some space → space.free < size.toNat
  | unmakeable =>
    ∀ location, disk.tree.resolve true (Path.join directory.root filename) ≠ .missing location

/-- Which test comes when. -/
def turn : Objection → Nat
  | readOnly => 0
  | misplaced => 1
  | taken => 2
  | oversized => 3
  | unmakeable => 4

theorem turn_inj {objection other : Objection} (h : objection.turn = other.turn) :
    objection = other := by
  revert h
  cases objection <;> cases other <;> decide

/-- So many tests raise no objection. -/
def Passes (directory : Directory) (disk : Disk) (filename : Bytes) (declared : Option UInt64)
    (tests : Nat) : Prop :=
  ∀ objection : Objection, objection.turn < tests →
    ¬ objection.Applies directory disk filename declared

/-- There is this reason, and none that is tested before. -/
def Decides (directory : Directory) (disk : Disk) (filename : Bytes) (declared : Option UInt64)
    (objection : Objection) : Prop :=
  Passes directory disk filename declared objection.turn ∧
    objection.Applies directory disk filename declared

theorem Passes.succ {objection : Objection}
    (h : Passes directory disk filename declared objection.turn)
    (ho : ¬ objection.Applies directory disk filename declared) :
    Passes directory disk filename declared (objection.turn + 1) := by
  intro earlier ht
  rcases Nat.lt_succ_iff_lt_or_eq.1 ht with hlt | heq
  · exact h earlier hlt
  · exact turn_inj heq ▸ ho

/-- No two objections decide. -/
theorem Decides.unique {objection other : Objection}
    (h : objection.Decides directory disk filename declared)
    (h' : other.Decides directory disk filename declared) : objection = other := by
  have hle : objection.turn ≤ other.turn := Nat.le_of_not_lt fun hlt => h.1 other hlt h'.2
  have hge : other.turn ≤ objection.turn := Nat.le_of_not_lt fun hlt => h'.1 objection hlt h.2
  exact turn_inj (Nat.le_antisymm hle hge)

end Objection

theorem contains_eq_true_iff {tree : FileTree} {path : Bytes} :
    directory.contains tree path = true ↔
      ∃ root location, tree.canonical directory.root = .ok root ∧
        tree.canonical path = .ok location ∧ root <+: location := by
  unfold contains isWithin
  cases tree.canonical directory.root with
  | error errno => simp
  | ok root => cases tree.canonical path <;> simp

/-- A file name is refused for where it leads, and for nothing else. -/
theorem locate_eq (directory : Directory) (disk : Disk) (filename : Bytes)
    (declared : Option UInt64) :
    Objection.misplaced.Applies directory disk filename declared ∧
        directory.locate filename disk.tree = .error (.transfer .accessViolation) ∨
      ¬ Objection.misplaced.Applies directory disk filename declared ∧
        directory.locate filename disk.tree = .ok (Path.join directory.root filename) := by
  unfold locate Objection.Applies
  rw [← contains_eq_true_iff]
  dsimp only
  by_cases hf : Path.isAbsolute filename = true ∨ Path.above ∈ Path.names filename
  · exact .inl ⟨hf.elim .inl fun h => .inr (.inl h), if_pos hf⟩
  rw [if_neg hf]
  rw [not_or] at hf
  cases hc : directory.contains disk.tree (Path.join directory.root filename) <;> simp [hf]

/-- The declared size is refused if there is not enough room for it. -/
theorem refuses_size_iff (room : disk.TellsRoom declared) :
    (declared.any fun size => !disk.hasRoom size) = true ↔
      Objection.oversized.Applies directory disk filename declared := by
  have hrefused (size : UInt64) (hd : declared = some size) :
      disk.hasRoom size = false ↔ ∀ space, disk.space = some space → space.free < size.toNat := by
    rw [← Bool.not_eq_true, Disk.hasRoom_eq_true_iff]
    constructor
    · intro hn space hs
      refine Nat.lt_of_not_le fun hle => hn ⟨space, hs, room size space hd hs hle⟩
    · rintro hlt ⟨space, hs, hle⟩
      exact absurd (hlt space hs) (Nat.not_lt.2 (Nat.le_trans hle (Nat.mod_le _ _)))
  unfold Objection.Applies
  cases declared with
  | none => simp
  | some size => simp [hrefused size rfl]

/-- The tests in turn: one of them decides, or all are passed and a file is made. -/
theorem openForWriting_tests (directory : Directory) (disk : Disk) (peer : Address)
    (filename : Bytes) (declared : Option UInt64) (room : disk.TellsRoom declared) :
    let answer := directory.openForWriting peer filename declared disk
    (∃ objection : Objection, objection.Decides directory disk filename declared ∧
      answer.result = .error (.transfer objection.report) ∧ answer.state = disk) ∨
    Objection.Passes directory disk filename declared 5 ∧
      ∃ location, disk.tree.resolve true (Path.join directory.root filename) = .missing location ∧
        answer.result =
          .ok { path := Path.join directory.root filename, id := disk.tree.contents.length } ∧
        answer.state = { disk with
          tree := disk.tree.extend.insert location (.file disk.tree.contents.length)
            disk.tree.lt_extend } := by
  unfold openForWriting
  have passed : Objection.Passes directory disk filename declared Objection.readOnly.turn :=
    fun _ h => absurd h (Nat.not_lt_zero _)
  by_cases hmode : directory.access = .readOnly
  · refine .inl ⟨.readOnly, ⟨passed, hmode⟩, ?_⟩
    rw [if_pos hmode]
    exact ⟨rfl, rfl⟩
  rw [if_neg hmode]
  have passed : Objection.Passes directory disk filename declared Objection.misplaced.turn :=
    passed.succ (show ¬ Objection.readOnly.Applies directory disk filename declared from hmode)
  rcases directory.locate_eq disk filename declared with ⟨hname, hl⟩ | ⟨hname, hl⟩
  · exact .inl ⟨.misplaced, ⟨passed, hname⟩, by simp only [hl]; exact ⟨rfl, rfl⟩⟩
  simp only [hl]
  have passed : Objection.Passes directory disk filename declared Objection.taken.turn :=
    passed.succ hname
  by_cases hthere : Objection.taken.Applies directory disk filename declared
  · refine .inl ⟨.taken, ⟨passed, hthere⟩, ?_⟩
    rw [if_pos (isThere_eq_true_iff.2 hthere)]
    exact ⟨rfl, rfl⟩
  rw [if_neg (mt isThere_eq_true_iff.1 hthere)]
  have passed : Objection.Passes directory disk filename declared Objection.oversized.turn :=
    passed.succ hthere
  by_cases hsize : Objection.oversized.Applies directory disk filename declared
  · refine .inl ⟨.oversized, ⟨passed, hsize⟩, ?_⟩
    rw [if_pos ((refuses_size_iff room).2 hsize)]
    exact ⟨rfl, rfl⟩
  rw [if_neg (mt (refuses_size_iff room).1 hsize)]
  have passed : Objection.Passes directory disk filename declared Objection.unmakeable.turn :=
    passed.succ hsize
  simp only [Disk.onTree, FileWriter.make, FileTree.create]
  cases hr : disk.tree.resolve true (Path.join directory.root filename) with
  | found location entry => exact absurd ⟨location, entry, hr⟩ hthere
  | failed errno =>
      refine .inl ⟨.unmakeable, ⟨passed, fun location hmissing => ?_⟩, rfl, rfl⟩
      rw [hr] at hmissing
      cases hmissing
  | missing location => exact .inr ⟨passed.succ fun h => h location hr, location, rfl, rfl, rfl⟩

/-- **What decides on an upload.** The first objection that applies is what the client is told, and
nothing has changed. If none applies, a file is made where its path leads, and nothing else. -/
theorem openForWriting_decides (directory : Directory) (disk : Disk) (peer : Address)
    (filename : Bytes) (declared : Option UInt64) (room : disk.TellsRoom declared) :
    let answer := directory.openForWriting peer filename declared disk
    (∀ objection : Objection, objection.Decides directory disk filename declared →
      answer.result = .error (.transfer objection.report) ∧ answer.state = disk) ∧
    ((∀ objection : Objection, ¬ objection.Applies directory disk filename declared) →
      ∃ location writer,
        disk.tree.resolve true (Path.join directory.root filename) = .missing location ∧
        answer.result = .ok writer ∧ disk.tree.Adds location answer.state.tree ∧
        answer.state.tree.file? (Path.join directory.root filename) = some writer.id ∧
        answer.state.space = disk.space) := by
  intro answer
  rcases openForWriting_tests directory disk peer filename declared room with
    ⟨objection, hd, hresult, hstate⟩ | ⟨passed, location, hm, hresult, hstate⟩
  · refine ⟨fun other ho => ho.unique hd ▸ ⟨hresult, hstate⟩, fun none => ?_⟩
    exact absurd hd.2 (none objection)
  · refine ⟨fun objection ho => absurd ho.2 (passed objection ?_), fun _ => ?_⟩
    · cases objection <;> decide
    · refine ⟨location, _, hm, hresult, ?_, ?_, ?_⟩ <;> rw [hstate]
      · exact adds_insert hm
      · exact (file?_insert hm).1

/-! ## Where the free bytes do not fit into a word -/

/-- An empty directory, and nothing else. -/
def bareTree : FileTree := { entries := [([ascii "in"], .directory)] }

/-- A disk with an empty directory. -/
def bare (space : Space) : Disk := { tree := bareTree, space := some space }

theorem resolve_bareTree :
    bareTree.resolve true (Path.join (ascii "in") (ascii "new")) =
      .missing [ascii "in", ascii "new"] := by
  decide +kernel

theorem contains_bareTree :
    Directory.contains ⟨ascii "in", .readWrite⟩ bareTree (Path.join (ascii "in") (ascii "new")) =
      true := by
  decide +kernel

/-- Nothing is said against a file in an empty directory, unless it is too large. -/
theorem eq_oversized_of_applies {space : Space} {objection : Objection}
    (h : objection.Applies ⟨ascii "in", .readWrite⟩ (bare space) (ascii "new") declared) :
    objection = .oversized := by
  cases objection with
  | readOnly => cases h
  | misplaced =>
      rcases h with h | h | h
      · exact absurd h (by decide)
      · exact absurd h (by decide)
      · exact absurd (contains_eq_true_iff.1 contains_bareTree) h
  | taken =>
      obtain ⟨location, entry, h⟩ := h
      cases resolve_bareTree.symm.trans h
  | oversized => rfl
  | unmakeable => exact absurd resolve_bareTree (h _)

/-- What just fits on a disk is made, and what does not is refused. -/
theorem openForWriting_decides_bare :
    let directory : Directory := ⟨ascii "in", .readWrite⟩
    let disk := bare ⟨4096, 10⟩
    let answer (size : UInt64) :=
      directory.openForWriting ⟨⟨10, 0, 0, 1⟩, 5000⟩ (ascii "new") (some size) disk
    disk.TellsRoom (some 40960) ∧ disk.TellsRoom (some 40961) ∧
    (∃ location writer, (answer 40960).result = .ok writer ∧
      disk.tree.Adds location (answer 40960).state.tree) ∧
    (answer 40961).result = .error (.transfer .diskFull) ∧ (answer 40961).state = disk := by
  intro directory disk answer
  have room (declared : Option UInt64) : disk.TellsRoom declared :=
    Disk.tellsRoom_of_lt fun space hs => by
      obtain rfl := Option.some.inj hs
      decide
  refine ⟨room _, room _, ?_, ?_⟩
  · obtain ⟨location, writer, -, hr, ha, -⟩ := (openForWriting_decides directory disk
      ⟨⟨10, 0, 0, 1⟩, 5000⟩ (ascii "new") (some 40960) (room _)).2 fun objection ho => by
        obtain rfl := eq_oversized_of_applies ho
        obtain ⟨size, hsize, hlt⟩ := ho
        obtain rfl := Option.some.inj hsize
        exact absurd (hlt _ rfl) (by decide)
    exact ⟨location, writer, hr, ha⟩
  · refine (openForWriting_decides directory disk ⟨⟨10, 0, 0, 1⟩, 5000⟩ (ascii "new") (some 40961)
      (room _)).1 .oversized ⟨fun objection ht ho => ?_, 40961, rfl, fun space hs => ?_⟩
    · obtain rfl := eq_oversized_of_applies ho
      exact absurd ht (by decide)
    · obtain rfl := Option.some.inj hs
      decide

/-- **A file of one byte is refused** although there is room for 2⁶⁴, and nothing else is said
against it. -/
theorem refuses_for_want_of_room :
    let directory : Directory := ⟨ascii "in", .readWrite⟩
    let disk := bare ⟨4096, 4503599627370496⟩
    (∀ objection : Objection, ¬ objection.Applies directory disk (ascii "new") (some 1)) ∧
    (directory.openForWriting ⟨⟨10, 0, 0, 1⟩, 5000⟩ (ascii "new") (some 1) disk).result =
      .error (.transfer .diskFull) := by
  refine ⟨fun objection ho => ?_, ?_⟩
  · obtain rfl := eq_oversized_of_applies ho
    obtain ⟨size, hsize, hlt⟩ := ho
    obtain rfl := Option.some.inj hsize
    exact absurd (hlt _ rfl) (by decide)
  · rfl

end Directory

end Tftp
