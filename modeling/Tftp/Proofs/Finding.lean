import Tftp.Proofs.Containment

/-!
# What paths find

`FileTree.Finds` is the way from a directory along some names to a file, as `FileTree.Leads` is the
way to a directory. A way to a file ends there: nothing can be looked up beyond it
(`Finds.unique`).

The same file can have many names, by links to it and by links to the directories above it. Still,
an entry that leads to one file is on the way to no other (`Opens`), so removing it takes no other
file away. What making, writing and removing one file leave alone is `FileTree.Spares`: all other
files are still found where they were, and have the content that they had.
-/

namespace Tftp.FileTree

variable {tree tree' : FileTree} {links left : Nat} {dir location : Location} {name : Bytes}
  {names rest : List Bytes} {id : Nat}

/-! ## Ways to files -/

/-- From a directory some names lead to a file, and so many links may be followed on the way. -/
inductive Finds (tree : FileTree) : Nat → Location → List Bytes → Location → Nat → Prop
  | file {links : Nat} {dir : Location} {name : Bytes} {id : Nat} : name ≠ Path.here →
      name ≠ Path.above → name.length ≤ maxName →
      tree.entryAt? (dir ++ [name]) = some (.file id) →
      Finds tree links dir [name] (dir ++ [name]) id
  | here {links : Nat} {dir location : Location} {rest : List Bytes} {id : Nat} :
      Finds tree links dir rest location id → Finds tree links dir (Path.here :: rest) location id
  | above {links : Nat} {dir location : Location} {rest : List Bytes} {id : Nat} :
      Finds tree links dir.dropLast rest location id →
      Finds tree links dir (Path.above :: rest) location id
  | enter {links : Nat} {dir location : Location} {name : Bytes} {rest : List Bytes} {id : Nat} :
      name ≠ Path.here → name ≠ Path.above → name.length ≤ maxName →
      tree.entryAt? (dir ++ [name]) = some .directory →
      Finds tree links (dir ++ [name]) rest location id →
      Finds tree links dir (name :: rest) location id
  | jump {links : Nat} {dir location : Location} {name : Bytes} {rest : List Bytes} {id : Nat}
      (target : Bytes) : name ≠ Path.here → name ≠ Path.above → name.length ≤ maxName →
      tree.entryAt? (dir ++ [name]) = some (.link target) →
      Finds tree links (linkBase dir target) (Path.steps target ++ rest) location id →
      Finds tree (links + 1) dir (name :: rest) location id

/-- A walk that follows all links comes to a file if there is a way to it. -/
theorem Finds.walk (h : tree.Finds links dir names location id) :
    walk tree true links dir names = .found location (.file id) := by
  induction h with
  | file hh ha hl he => simp [walk_cons hh ha, Nat.not_lt.2 hl, he]
  | here _ ih => simpa using ih
  | above _ ih => simpa using ih
  | enter hh ha hl he _ ih => simpa [walk_cons hh ha, Nat.not_lt.2 hl, he] using ih
  | jump target hh ha hl he _ ih => simpa [walk_cons hh ha, Nat.not_lt.2 hl, he] using ih

/-- Where a walk comes to a file, there is a way to it. -/
theorem finds_of_walk (h : walk tree true links dir names = .found location (.file id)) :
    tree.Finds links dir names location id := by
  induction links, dir, names using walk_induction with
  | nil links dir => simp at h
  | here links dir rest ih => exact .here (ih (by simpa using h))
  | above links dir rest ih => exact .above (ih (by simpa using h))
  | cons links dir name rest hh ha enter jump =>
      rw [walk_cons hh ha] at h
      split at h
      · cases h
      next hl =>
        have hl := Nat.not_lt.1 hl
        split at h
        · split at h <;> cases h
        next he => exact .enter hh ha hl he (enter h)
        next he =>
          split at h
          next hr =>
            subst hr
            cases h
            exact .file hh ha hl he
          · cases h
        next target he =>
          rw [if_neg (by simp)] at h
          cases links with
          | zero => cases h
          | succ left => exact .jump target hh ha hl he (jump left target rfl h)

/-- There is something where a way ends. -/
theorem Finds.entry (h : tree.Finds links dir names location id) :
    tree.entryAt? location = some (.file id) := by
  induction h with
  | file _ _ _ he => exact he
  | here _ ih | above _ ih | enter _ _ _ _ _ ih | jump _ _ _ _ _ _ ih => exact ih

@[simp] theorem finds_here :
    tree.Finds links dir (Path.here :: rest) location id ↔ tree.Finds links dir rest location id := by
  refine ⟨fun h => ?_, .here⟩
  cases h with
  | here h => exact h
  | file hh | enter hh | jump _ hh => exact absurd rfl hh

@[simp] theorem finds_above :
    tree.Finds links dir (Path.above :: rest) location id ↔
      tree.Finds links dir.dropLast rest location id := by
  refine ⟨fun h => ?_, .above⟩
  cases h with
  | above h => exact h
  | file _ ha | enter _ ha | jump _ _ ha => exact absurd rfl ha

/-- What a proper name does on the way: it is the file, or it leads on. -/
theorem Finds.of_cons (h : tree.Finds links dir (name :: rest) location id) (hh : name ≠ Path.here)
    (ha : name ≠ Path.above) :
    rest = [] ∧ location = dir ++ [name] ∧ tree.entryAt? (dir ++ [name]) = some (.file id) ∨
      tree.entryAt? (dir ++ [name]) = some .directory ∧
        tree.Finds links (dir ++ [name]) rest location id ∨
      ∃ left target, tree.entryAt? (dir ++ [name]) = some (.link target) ∧
        tree.Finds left (linkBase dir target) (Path.steps target ++ rest) location id := by
  cases h with
  | file _ _ _ he => exact .inl ⟨rfl, rfl, he⟩
  | here => exact absurd rfl hh
  | above => exact absurd rfl ha
  | enter _ _ _ he h => exact .inr (.inl ⟨he, h⟩)
  | jump target _ _ _ he h => exact .inr (.inr ⟨_, target, he, h⟩)

/-- A way to a file leads nowhere else, and nothing can be looked up beyond its end. -/
theorem Finds.unique {links' : Nat} {location' : Location} {id' : Nat}
    (h : tree.Finds links dir names location id)
    (h' : tree.Finds links' dir (names ++ rest) location' id') :
    rest = [] ∧ location' = location ∧ id' = id := by
  -- What stands at the name says which of the three it is, for both ways.
  induction h generalizing links' with
  | file hh ha _ he =>
      obtain ⟨hr, hlocation, he'⟩ | ⟨he', -⟩ | ⟨_, _, he', -⟩ := h'.of_cons hh ha
      · rw [he] at he'
        exact ⟨hr, hlocation, (Entry.file.inj (Option.some.inj he')).symm⟩
      · simp [he] at he'
      · simp [he] at he'
  | here _ ih => exact ih (finds_here.1 h')
  | above _ ih => exact ih (finds_above.1 h')
  | enter hh ha _ he _ ih =>
      obtain ⟨-, -, he'⟩ | ⟨-, h'⟩ | ⟨_, _, he', -⟩ := h'.of_cons hh ha
      · simp [he] at he'
      · exact ih h'
      · simp [he] at he'
  | jump target hh ha _ he _ ih =>
      obtain ⟨-, -, he'⟩ | ⟨he', -⟩ | ⟨_, target', he', h'⟩ := h'.of_cons hh ha
      · simp [he] at he'
      · simp [he] at he'
      · rw [he] at he'
        obtain rfl := Entry.link.inj (Option.some.inj he')
        exact ih ((List.append_assoc (Path.steps target) _ rest).symm ▸ h')

/-- Where nothing is taken away, ways to files stay. -/
theorem Finds.mono (h : tree.Finds links dir names location id)
    (keeps : ∀ l entry, tree.entryAt? l = some entry → tree'.entryAt? l = some entry) :
    tree'.Finds links dir names location id := by
  induction h with
  | file hh ha hl he => exact .file hh ha hl (keeps _ _ he)
  | here _ ih => exact .here ih
  | above _ ih => exact .above ih
  | enter hh ha hl he _ ih => exact .enter hh ha hl (keeps _ _ he) ih
  | jump target hh ha hl he _ ih => exact .jump target hh ha hl (keeps _ _ he) ih

/-- A file that is made where something is missing is found there. -/
theorem finds_of_missing (h : walk tree true links dir names = .missing location)
    (keeps : ∀ l entry, tree.entryAt? l = some entry → tree'.entryAt? l = some entry)
    (made : tree'.entryAt? location = some (.file id)) :
    tree'.Finds links dir names location id := by
  induction links, dir, names using walk_induction with
  | nil links dir => simp at h
  | here links dir rest ih => exact .here (ih (by simpa using h))
  | above links dir rest ih => exact .above (ih (by simpa using h))
  | cons links dir name rest hh ha enter jump =>
      rw [walk_cons hh ha] at h
      split at h
      · cases h
      next hl =>
        have hl := Nat.not_lt.1 hl
        split at h
        · split at h
          next hr =>
            subst hr
            cases h
            exact .file hh ha hl made
          · cases h
        next he => exact .enter hh ha hl (keeps _ _ he) (enter h)
        · split at h <;> cases h
        next target he =>
          rw [if_neg (by simp)] at h
          cases links with
          | zero => cases h
          | succ left => exact .jump target hh ha hl (keeps _ _ he) (jump left target rfl h)

/-! ## Entries that lead to one file -/

/-- What stands at a location is a file, or a link that leads to it. -/
inductive Opens (tree : FileTree) (location : Location) (id : Nat) : Prop
  | file : tree.entryAt? location = some (.file id) → Opens tree location id
  | link (target : Bytes) (links : Nat) (location' : Location) :
      tree.entryAt? location = some (.link target) →
      tree.Finds links (linkBase location.dropLast target) (Path.steps target) location' id →
      Opens tree location id

/-- An entry that leads to one file is on the way to no other. -/
theorem Finds.erase {location' : Location} {other : Nat}
    (h : tree.Finds links dir names location' other) (ho : tree.Opens location id)
    (hne : other ≠ id) : (tree.erase location).Finds links dir names location' other := by
  -- The entry that is erased is not on this way, since it leads to the other file.
  induction h with
  | @file links dir name other hh ha hl he =>
      refine .file hh ha hl ((tree.entryAt?_erase_of_ne fun hloc => ?_).trans he)
      subst hloc
      cases ho with
      | file he' =>
          rw [he] at he'
          exact hne (Entry.file.inj (Option.some.inj he'))
      | link _ _ _ he' => simp [he] at he'
  | here _ ih => exact .here (ih hne)
  | above _ ih => exact .above (ih hne)
  | enter hh ha hl he _ ih =>
      refine .enter hh ha hl ((tree.entryAt?_erase_of_ne fun hloc => ?_).trans he) (ih hne)
      subst hloc
      cases ho with
      | file he' | link _ _ _ he' => simp [he] at he'
  | @jump links dir location' name rest other target hh ha hl he hf ih =>
      refine .jump target hh ha hl ((tree.entryAt?_erase_of_ne fun hloc => ?_).trans he) (ih hne)
      subst hloc
      cases ho with
      | file he' => simp [he] at he'
      | link target' _ _ he' hf' =>
          rw [he] at he'
          obtain rfl := Entry.link.inj (Option.some.inj he')
          rw [List.dropLast_concat] at hf'
          exact hne (hf'.unique hf).2.2

/-! ## Paths -/

/-- A path that leads to a file. -/
theorem resolve_eq_file_iff {path : Bytes} :
    tree.resolve true path = .found location (.file id) ↔
      beforeNul path ≠ [] ∧ (beforeNul path).length ≤ maxPath ∧
        tree.Finds maxLinks (tree.base (beforeNul path)) (Path.steps (beforeNul path)) location
          id := by
  unfold resolve
  dsimp only
  constructor
  · intro h
    split at h
    · cases h
    next hne =>
      split at h
      · cases h
      next hl => exact ⟨hne, Nat.not_lt.1 hl, finds_of_walk h⟩
  · rintro ⟨hne, hl, hf⟩
    rw [if_neg hne, if_neg (Nat.not_lt.2 hl)]
    exact hf.walk

theorem lt_of_file? {path : Bytes} (h : tree.file? path = some id) : id < tree.contents.length := by
  obtain ⟨location, hr⟩ := file?_eq_some_iff.1 h
  exact lt_of_entryAt? (resolve_eq_file_iff.1 hr).2.2.entry

/-- What holds of all ways to a file holds of the paths that lead to it. -/
theorem file?_of_finds {path : Bytes} (hs : tree'.start = tree.start)
    (hf : ∀ {links dir names location}, tree.Finds links dir names location id →
      tree'.Finds links dir names location id) (h : tree.file? path = some id) :
    tree'.file? path = some id := by
  obtain ⟨location, hr⟩ := file?_eq_some_iff.1 h
  obtain ⟨hne, hl, hfinds⟩ := resolve_eq_file_iff.1 hr
  have hb : tree'.base (beforeNul path) = tree.base (beforeNul path) := by rw [base, hs, ← base]
  exact file?_eq_some_iff.2 ⟨location, resolve_eq_file_iff.2 ⟨hne, hl, hb ▸ hf hfinds⟩⟩

/-- The last name on the way to a file stands for that file or for a link to it. -/
theorem Finds.opens_last (h : tree.Finds links dir [name] location id) :
    ∃ location entry, FileTree.walk tree false links dir [name] = .found location entry ∧
      entry ≠ .directory ∧ tree.Opens location id := by
  cases h with
  | file hh ha hl he => exact ⟨_, _, by rw [walk_last hh ha hl, he], by simp, .file he⟩
  | here h | above h | enter _ _ _ _ h => cases h
  | @jump left _ _ _ _ _ target hh ha hl he h =>
      refine ⟨_, _, by rw [walk_last hh ha hl, he], by simp, .link target left location he ?_⟩
      rw [List.dropLast_concat]
      rwa [List.append_nil] at h

/-- If a path leads to a file, its last name stands for that file or for a link to it. -/
theorem exists_opens {path : Bytes} (h : tree.file? path = some id) :
    ∃ location entry, tree.resolve false path = .found location entry ∧ entry ≠ .directory ∧
      tree.Opens location id := by
  obtain ⟨end', hr⟩ := file?_eq_some_iff.1 h
  obtain ⟨hne, hlen, hfinds⟩ := resolve_eq_file_iff.1 hr
  have hfalse : tree.resolve false path =
      walk tree false maxLinks (tree.base (beforeNul path)) (Path.steps (beforeNul path)) := by
    simp only [resolve, if_neg hne, if_neg (Nat.not_lt.2 hlen), base]
  rw [hfalse]
  have hw := hfinds.walk
  rcases List.eq_nil_or_concat (Path.steps (beforeNul path)) with hs | ⟨front, last, hs⟩
  · simp [hs] at hw
  rw [List.concat_eq_append] at hs
  rw [hs] at hw ⊢
  obtain ⟨left, mid, hleads⟩ := leads_of_walk (List.cons_ne_nil last []) fun errno => by
    rw [hw]
    simp
  rw [hleads.walk true [last] (.inl (by simp))] at hw
  rw [hleads.walk false [last] (.inl (by simp))]
  exact (finds_of_walk hw).opens_last

/-! ## What a change spares -/

/-- A change that concerns one file only: all others are found where they were, and have the content
that they had. -/
structure Spares (tree : FileTree) (id : Nat) (tree' : FileTree) : Prop where
  file? : ∀ path other, other ≠ id → tree.file? path = some other → tree'.file? path = some other
  content : ∀ other < tree.contents.length, other ≠ id → tree'.content other = tree.content other
  length : tree.contents.length ≤ tree'.contents.length

namespace Spares

variable {tree'' : FileTree}

theorem refl (tree : FileTree) (id : Nat) : tree.Spares id tree :=
  ⟨fun _ _ _ h => h, fun _ _ _ => rfl, Nat.le_refl _⟩

theorem trans (h : tree.Spares id tree') (h' : tree'.Spares id tree'') : tree.Spares id tree'' where
  file? path other hne hp := h'.file? path other hne (h.file? path other hne hp)
  content other ho hne :=
    (h'.content other (Nat.lt_of_lt_of_le ho h.length) hne).trans (h.content other ho hne)
  length := Nat.le_trans h.length h'.length

end Spares

theorem entryAt?_write (tree : FileTree) (id offset : Nat) (bytes : Bytes) (location : Location) :
    (tree.write id offset bytes).entryAt? location = tree.entryAt? location := by
  unfold FileTree.write
  split <;> rfl

/-- Writing takes no file away. -/
theorem file?_write (tree : FileTree) {id : Nat} (offset : Nat) (bytes : Bytes) {path : Bytes}
    {other : Nat} (h : tree.file? path = some other) :
    (tree.write id offset bytes).file? path = some other := by
  refine file?_of_finds ?_ (fun hf => hf.mono fun l entry he => ?_) h
  · unfold FileTree.write
    split <;> rfl
  · rwa [entryAt?_write]

theorem length_write (tree : FileTree) (id offset : Nat) (bytes : Bytes) :
    (tree.write id offset bytes).contents.length = tree.contents.length := by
  unfold FileTree.write
  split
  · rfl
  · exact List.length_set

theorem spares_write (tree : FileTree) (id offset : Nat) (bytes : Bytes) :
    tree.Spares id (tree.write id offset bytes) where
  file? path other _ := tree.file?_write offset bytes
  content other _ hne := by
    unfold FileTree.write
    split
    · rfl
    · simp only [FileTree.content, setContent, List.getD_eq_getElem?_getD]
      rw [List.getElem?_set_ne (Ne.symm hne)]
  length := Nat.le_of_eq (length_write ..).symm

/-- What is written at the end of a file comes after its content. -/
theorem content_write (h : id < tree.contents.length) (bytes : Bytes) :
    (tree.write id (tree.content id).length bytes).content id = tree.content id ++ bytes := by
  unfold FileTree.write
  split
  next hb => rw [hb, List.append_nil]
  next =>
    simp only [FileTree.content, setContent, List.getD_eq_getElem?_getD]
    rw [List.getElem?_set_self h]
    simp

/-- A file that is given up is removed, and no other. -/
theorem remove_spares {path : Bytes} (h : tree.file? path = some id) :
    ∃ removed, tree.remove path = .ok removed ∧ tree.Spares id removed := by
  obtain ⟨location, entry, hr, hd, ho⟩ := exists_opens h
  refine ⟨tree.erase location, ?_, ?_⟩
  · unfold FileTree.remove
    rw [hr]
    cases entry with
    | directory => exact absurd rfl hd
    | file | link => rfl
  · exact {
      file? := fun path other hne =>
        file?_of_finds rfl fun hf => hf.erase ho hne
      content := fun _ _ _ => rfl
      length := Nat.le_refl _ }

section

variable {path : Bytes} (hm : tree.resolve true path = .missing location)
include hm

theorem keeps_insert (l : Location) (entry : Entry) (he : tree.entryAt? l = some entry) :
    (tree.extend.insert location (.file tree.contents.length) tree.lt_extend).entryAt? l =
      some entry := by
  rw [entryAt?_insert_of_ne]
  · exact he
  · rintro rfl
    rw [entryAt?_of_missing (walk_of_missing hm).2.2] at he
    cases he

/-- A file that is made is new, and spares all others. -/
theorem spares_insert :
    tree.Spares tree.contents.length
      (tree.extend.insert location (.file tree.contents.length) tree.lt_extend) where
  file? path other _ := file?_of_finds rfl fun hf => hf.mono (keeps_insert hm)
  content other ho _ := (Kept.extend tree location).content other ho
  length := by
    show _ ≤ (tree.contents ++ [[]]).length
    rw [List.length_append]
    exact Nat.le_add_right _ _

/-- A file that is made is found, and it is empty. -/
theorem file?_insert :
    (tree.extend.insert location (.file tree.contents.length) tree.lt_extend).file? path =
        some tree.contents.length ∧
      (tree.extend.insert location (.file tree.contents.length) tree.lt_extend).content
        tree.contents.length = [] := by
  obtain ⟨hne, hl, hw⟩ := walk_of_missing hm
  have hstart := isPrefixOf_start_of_none (entryAt?_of_missing hw)
  constructor
  · refine file?_eq_some_iff.2 ⟨location, resolve_eq_file_iff.2 ⟨hne, hl, ?_⟩⟩
    exact finds_of_missing hw (keeps_insert hm) (entryAt?_insert_self tree.extend hstart _ _)
  · simp [FileTree.content, FileTree.insert, FileTree.extend]

theorem isThere_of_missing : tree.isThere path = false := by
  unfold isThere status
  rw [hm]

end

end Tftp.FileTree
