import Tftp.FileTree

/-!
# Ways through a tree

`FileTree.walk` is a function with a bound on the links that may be followed, and it fails in many
ways. What it does when it gets through is the relation `FileTree.Leads`: from a directory, along
some names and with some links left, to a directory, with fewer links left. A walk that comes to
anything at all has been led to the directory of its last name (`leads_of_walk`), and a walk that is
led somewhere goes on from there (`Leads.walk`). Ways survive every change of the tree that takes
nothing away (`Leads.mono`).

A path whose last name is missing leads to the directory where this name is looked for
(`FileTree.Lacks`). `FileTree.canonical` looks up every initial part of a path, and for such a
path it follows the same way (`existing_eq`).
-/

namespace Tftp

/-! ## Names -/

namespace Path

/-- A name that stands for an entry of its directory. -/
def IsName (name : Bytes) : Prop := name ≠ [] ∧ name ≠ here ∧ name ≠ above

theorem fields_append (a b : Bytes) :
    fields slash (a ++ slash :: b) = fields slash a ++ fields slash b := by
  induction a with
  | nil => simp [fields]
  | cons c a ih =>
      by_cases hc : c = slash
      · simp [fields, hc, ih]
      · simp only [List.cons_append, fields, if_neg hc, ih]
        cases hf : fields slash a with
        | nil =>
            exfalso
            cases a with
            | nil => simp [fields] at hf
            | cons d a =>
                rw [fields] at hf
                split at hf
                · cases hf
                · split at hf <;> cases hf
        | cons first more => rfl

theorem fields_of_not_mem {e : Bytes} (h : slash ∉ e) : fields slash e = [e] := by
  induction e with
  | nil => rfl
  | cons c e ih =>
      have hc : c ≠ slash := fun hc => h (by simp [hc])
      rw [fields, if_neg hc, ih fun he => h (List.mem_cons_of_mem _ he)]

theorem names_append (a b : Bytes) : names (a ++ slash :: b) = names a ++ names b := by
  simp [names, fields_append]

theorem names_of_not_mem {e : Bytes} (he : e ≠ []) (h : slash ∉ e) : names e = [e] := by
  simp [names, fields_of_not_mem h, he]

theorem mem_fields {separator : UInt8} {s field : Bytes} (h : field ∈ fields separator s) :
    separator ∉ field ∧ ∀ b ∈ field, b ∈ s := by
  induction s generalizing field with
  | nil => simp_all [fields]
  | cons c s ih =>
      rw [fields] at h
      split at h
      next hc =>
        rcases List.mem_cons.1 h with rfl | h
        · simp
        · exact ⟨(ih h).1, fun b hb => List.mem_cons_of_mem _ ((ih h).2 b hb)⟩
      next hc =>
        cases hf : fields separator s with
        | nil =>
            rw [hf] at h
            obtain rfl := List.mem_singleton.1 h
            simpa using Ne.symm hc
        | cons first more =>
            rw [hf] at h ih
            rcases List.mem_cons.1 h with rfl | h
            · obtain ⟨hs, hm⟩ := ih List.mem_cons_self
              exact ⟨by simp [Ne.symm hc, hs], by grind⟩
            · have hm := ih (List.mem_cons_of_mem _ h)
              exact ⟨hm.1, fun b hb => List.mem_cons_of_mem _ (hm.2 b hb)⟩

theorem mem_names {path name : Bytes} (h : name ∈ names path) :
    name ≠ [] ∧ slash ∉ name ∧ ∀ b ∈ name, b ∈ path := by
  obtain ⟨hm, hne⟩ := List.mem_filter.1 h
  exact ⟨by simpa using hne, mem_fields hm⟩

theorem ne_nil_of_mem_steps {path name : Bytes} (h : name ∈ steps path) : name ≠ [] := by
  rcases List.mem_append.1 h with h | h
  · exact (mem_names h).1
  · split at h
    · obtain rfl := List.mem_singleton.1 h
      decide
    · cases h

/-- A path without names leads nowhere from where it starts. -/
theorem eq_nil_of_names_eq_nil {path : Bytes} (h : names path = []) (ha : isAbsolute path = false) :
    path = [] := by
  cases path with
  | nil => rfl
  | cons c path =>
      have hc : c ≠ slash := by simpa [isAbsolute] using ha
      rw [names, fields, if_neg hc] at h
      cases hf : fields slash path <;> simp [hf] at h

/-- The names of a path come before those that lead on from it. -/
theorem names_join {path next : Bytes} (ha : isAbsolute next = false) :
    names (join path next) = names path ++ names next := by
  unfold join
  split
  next h =>
    rcases h with rfl | h
    · rfl
    · simp [ha] at h
  next =>
    split
    next he =>
      obtain ⟨path, rfl⟩ : ∃ front, path = front ++ [slash] := by
        have := List.getLast?_eq_some_iff.1 (by simpa [endsInSlash] using he)
        exact this
      rw [List.append_assoc, List.singleton_append, names_append, names_append]
      simp [names, fields]
    next => exact names_append path next

theorem isAbsolute_join {path next : Bytes} (ha : isAbsolute next = false) :
    isAbsolute (join path next) = isAbsolute path := by
  unfold join
  split
  next h =>
    rcases h with rfl | h
    · exact ha
    · simp [ha] at h
  next h =>
    rw [not_or] at h
    cases path with
    | nil => exact absurd rfl h.1
    | cons c path => split <;> rfl

theorem isAbsolute_eq_false {e : Bytes} (h : slash ∉ e) : isAbsolute e = false := by
  cases e with
  | nil => rfl
  | cons c e => simpa [isAbsolute] using fun hc : c = slash => h (by simp [hc])

/-- A path that is led on by a name ends in this name. -/
theorem steps_join {path e : Bytes} (he : e ≠ []) (h : slash ∉ e) :
    steps (join path e) = names path ++ [e] := by
  have hj : endsInSlash (join path e) = false := by
    obtain ⟨front, last, rfl⟩ := List.eq_nil_or_concat e |>.resolve_left he
    have hl : last ≠ slash := fun hl => h (by simp [hl])
    rw [List.concat_eq_append] at h ⊢
    obtain ⟨front', hf⟩ : ∃ front', join path (front ++ [last]) = front' ++ [last] := by
      unfold join
      split
      · exact ⟨front, rfl⟩
      · split
        · exact ⟨path ++ front, (List.append_assoc ..).symm⟩
        · exact ⟨path ++ slash :: front, by simp⟩
    simp [endsInSlash, hf, hl]
  rw [steps, hj, names_join (isAbsolute_eq_false h), names_of_not_mem he h]
  simp

/-- The elements of a location are normal. -/
theorem normalize_location {location : List Bytes} (h : ∀ name ∈ location, IsName name) :
    normalize ([slash] :: location) = [slash] :: location := by
  have pushes : ∀ stack, location.foldl pushNormal stack = location.reverse ++ stack := by
    induction location with
    | nil => simp
    | cons name location ih =>
        intro stack
        obtain ⟨hne, hh, ha⟩ := h name List.mem_cons_self
        have hp : pushNormal stack name = name :: stack := by
          rw [pushNormal.eq_def, if_neg (by simp [hne, hh]), if_neg ha]
        rw [List.foldl_cons, hp, ih fun n hn => h n (List.mem_cons_of_mem _ hn)]
        simp
  have hs : pushNormal [] [slash] = [[slash]] := by decide
  rw [normalize, List.foldl_cons, hs, pushes]
  simp

end Path

namespace FileTree

variable {tree tree' : FileTree} {follow : Bool} {links left : Nat} {dir mid : Location}
  {name : Bytes} {names rest : List Bytes}

/-! ## Single steps -/

/-- Where a path with the given first byte starts. -/
def base (tree : FileTree) (path : Bytes) : Location :=
  if Path.isAbsolute path then [] else tree.start

/-- Where a link that stands in a directory starts. -/
def linkBase (dir : Location) (target : Bytes) : Location :=
  if Path.isAbsolute target then [] else dir

@[simp] theorem walk_nil : walk tree follow links dir [] = .found dir .directory := by
  cases links <;> rfl

@[simp] theorem walk_here :
    walk tree follow links dir (Path.here :: rest) = walk tree follow links dir rest := by
  cases links <;> simp [walk, descend]

@[simp] theorem walk_above :
    walk tree follow links dir (Path.above :: rest) = walk tree follow links dir.dropLast rest := by
  have : Path.above ≠ Path.here := by decide
  cases links <;> simp [walk, descend, this]

/-- What becomes of a walk at a name that stands for an entry. -/
theorem walk_cons (hh : name ≠ Path.here) (ha : name ≠ Path.above) :
    walk tree follow links dir (name :: rest) =
      if maxName < name.length then .failed .enametoolong
      else match tree.entryAt? (dir ++ [name]) with
        | none => if rest = [] then .missing (dir ++ [name]) else .failed .enoent
        | some .directory => walk tree follow links (dir ++ [name]) rest
        | some (.file id) => if rest = [] then .found (dir ++ [name]) (.file id) else .failed .enotdir
        | some (.link target) =>
          if rest = [] ∧ !follow then .found (dir ++ [name]) (.link target)
          else match links with
            | 0 => .failed .eloop
            | links + 1 =>
              walk tree follow links (linkBase dir target) (Path.steps target ++ rest) := by
  cases links with
  | zero => exact (if_neg hh).trans (if_neg ha)
  | succ links => exact (if_neg hh).trans (if_neg ha)

/-- What becomes of a walk at its last name, if a link there is not followed. -/
theorem walk_last (hh : name ≠ Path.here) (ha : name ≠ Path.above) (hl : name.length ≤ maxName) :
    walk tree false links dir [name] =
      match tree.entryAt? (dir ++ [name]) with
      | none => .missing (dir ++ [name])
      | some entry => .found (dir ++ [name]) entry := by
  rw [walk_cons hh ha, if_neg (Nat.not_lt.2 hl)]
  cases tree.entryAt? (dir ++ [name]) with
  | none => rfl
  | some entry =>
      cases entry with
      | directory => exact walk_nil
      | file | link => rfl

/-- A walk takes a name off, or it goes on behind a link with fewer links left. -/
theorem walk_induction {motive : Nat → Location → List Bytes → Prop}
    (nil : ∀ links dir, motive links dir [])
    (here : ∀ links dir rest, motive links dir rest → motive links dir (Path.here :: rest))
    (above : ∀ links dir rest, motive links dir.dropLast rest →
      motive links dir (Path.above :: rest))
    (cons : ∀ links dir name rest, name ≠ Path.here → name ≠ Path.above →
      motive links (dir ++ [name]) rest →
      (∀ left target, links = left + 1 →
        motive left (linkBase dir target) (Path.steps target ++ rest)) →
      motive links dir (name :: rest)) (links : Nat) (dir : Location) (names : List Bytes) :
    motive links dir names := by
  induction links using Nat.strongRecOn generalizing dir names with
  | ind links ihLinks =>
      induction names generalizing dir with
      | nil => exact nil links dir
      | cons name rest ih =>
          by_cases hh : name = Path.here
          · exact hh ▸ here links dir rest (ih dir)
          by_cases ha : name = Path.above
          · exact ha ▸ above links dir rest (ih dir.dropLast)
          refine cons links dir name rest hh ha (ih _) fun left target hl => ?_
          exact ihLinks left (by omega) _ _

/-- What a walk finds missing is missing. -/
theorem entryAt?_of_missing
    (h : walk tree follow links dir names = .missing location) :
    tree.entryAt? location = none := by
  induction links, dir, names using walk_induction with
  | nil links dir => simp at h
  | here links dir rest ih => exact ih (by simpa using h)
  | above links dir rest ih => exact ih (by simpa using h)
  | cons links dir name rest hh ha enter jump =>
      rw [walk_cons hh ha] at h
      split at h
      · cases h
      split at h
      next he =>
        split at h
        · cases h
          exact he
        · cases h
      next => exact enter h
      next => split at h <;> cases h
      next target he =>
        split at h
        · cases h
        cases links with
        | zero => cases h
        | succ left => exact jump left target rfl h

/-! ## Ways -/

/-- From a directory some names lead to a directory; so many links may be followed before, and so
many are left after it. -/
inductive Leads (tree : FileTree) : Nat → Location → List Bytes → Nat → Location → Prop
  | stay (links : Nat) (dir : Location) : Leads tree links dir [] links dir
  | here {links left : Nat} {dir mid : Location} {rest : List Bytes} :
      Leads tree links dir rest left mid → Leads tree links dir (Path.here :: rest) left mid
  | above {links left : Nat} {dir mid : Location} {rest : List Bytes} :
      Leads tree links dir.dropLast rest left mid →
      Leads tree links dir (Path.above :: rest) left mid
  | enter {links left : Nat} {dir mid : Location} {name : Bytes} {rest : List Bytes} :
      name ≠ Path.here → name ≠ Path.above → name.length ≤ maxName →
      tree.entryAt? (dir ++ [name]) = some .directory →
      Leads tree links (dir ++ [name]) rest left mid → Leads tree links dir (name :: rest) left mid
  | jump {links left : Nat} {dir mid : Location} {name : Bytes} {rest : List Bytes}
      (target : Bytes) : name ≠ Path.here → name ≠ Path.above → name.length ≤ maxName →
      tree.entryAt? (dir ++ [name]) = some (.link target) →
      Leads tree links (linkBase dir target) (Path.steps target ++ rest) left mid →
      Leads tree (links + 1) dir (name :: rest) left mid

/-- A walk goes on from where it is led. Only a link at its end is not followed. -/
theorem Leads.walk (h : tree.Leads links dir names left mid) (follow : Bool) (next : List Bytes)
    (hn : next ≠ [] ∨ follow = true) :
    walk tree follow links dir (names ++ next) = walk tree follow left mid next := by
  induction h with
  | stay => rfl
  | here _ ih => simpa using ih
  | above _ ih => simpa using ih
  | enter hh ha hl he _ ih => simpa [walk_cons hh ha, Nat.not_lt.2 hl, he] using ih
  | @jump links left dir mid name rest target hh ha hl he _ ih =>
      have hf : ¬ (rest ++ next = [] ∧ (!follow) = true) := by
        rcases hn with hn | hn <;> simp [hn]
      rw [List.cons_append, walk_cons hh ha, if_neg (Nat.not_lt.2 hl), he]
      simp only [if_neg hf, ← List.append_assoc]
      exact ih

/-- A walk that comes to anything has been led to the directory of what it comes to. -/
theorem leads_of_walk {next : List Bytes} (hn : next ≠ [])
    (h : ∀ errno, walk tree follow links dir (names ++ next) ≠ .failed errno) :
    ∃ left mid, tree.Leads links dir names left mid := by
  induction links using Nat.strongRecOn generalizing dir names with
  | ind links ihLinks =>
      induction names generalizing dir with
      | nil => exact ⟨links, dir, .stay links dir⟩
      | cons name rest ih =>
          rw [List.cons_append] at h
          by_cases hh : name = Path.here
          · subst hh
            obtain ⟨left, mid, hl⟩ := ih (by simpa using h)
            exact ⟨left, mid, .here hl⟩
          by_cases ha : name = Path.above
          · subst ha
            obtain ⟨left, mid, hl⟩ := ih (by simpa using h)
            exact ⟨left, mid, .above hl⟩
          have hr : rest ++ next ≠ [] := by simp [hn]
          rw [walk_cons hh ha] at h
          by_cases hlen : maxName < name.length
          · exact absurd (if_pos hlen) (h _)
          rw [if_neg hlen] at h
          -- Only a directory or a link leads on.
          match he : tree.entryAt? (dir ++ [name]) with
          | none => exact absurd (by simp [he, hr]) (h .enoent)
          | some (.file id) => exact absurd (by simp [he, hr]) (h .enotdir)
          | some .directory =>
              rw [he] at h
              obtain ⟨left, mid, hl⟩ := ih h
              exact ⟨left, mid, .enter hh ha (Nat.not_lt.1 hlen) he hl⟩
          | some (.link target) =>
              cases links with
              | zero => exact absurd (by simp [he, hr]) (h .eloop)
              | succ links =>
                  simp only [he, hr, false_and, if_false, ← List.append_assoc] at h
                  obtain ⟨left, mid, hl⟩ := ihLinks links (Nat.lt_succ_self _) h
                  exact ⟨left, mid, .jump target hh ha (Nat.not_lt.1 hlen) he hl⟩

/-- A way that is led on is two ways, one after the other. -/
theorem Leads.split {next : List Bytes} (h : tree.Leads links dir (names ++ next) left mid) :
    ∃ between dir', tree.Leads links dir names between dir' ∧
      tree.Leads between dir' next left mid := by
  generalize hw : names ++ next = whole at h
  -- Along the way: the first of the two ends where its names are used up.
  induction h generalizing names with
  | stay links dir =>
      obtain ⟨rfl, rfl⟩ := List.append_eq_nil_iff.1 hw
      exact ⟨_, _, .stay links dir, .stay links dir⟩
  | @here links left dir mid rest hr ih =>
      cases names with
      | nil => exact ⟨_, _, .stay _ _, (show next = _ from hw) ▸ .here hr⟩
      | cons name names =>
          obtain ⟨rfl, rfl⟩ := List.cons.inj hw
          obtain ⟨b, d, h, h'⟩ := ih rfl
          exact ⟨b, d, .here h, h'⟩
  | @above links left dir mid rest hr ih =>
      cases names with
      | nil => exact ⟨_, _, .stay _ _, (show next = _ from hw) ▸ .above hr⟩
      | cons name names =>
          obtain ⟨rfl, rfl⟩ := List.cons.inj hw
          obtain ⟨b, d, h, h'⟩ := ih rfl
          exact ⟨b, d, .above h, h'⟩
  | @enter links left dir mid name rest hh ha hl he hr ih =>
      cases names with
      | nil => exact ⟨_, _, .stay _ _, (show next = _ from hw) ▸ .enter hh ha hl he hr⟩
      | cons name names =>
          obtain ⟨rfl, rfl⟩ := List.cons.inj hw
          obtain ⟨b, d, h, h'⟩ := ih rfl
          exact ⟨b, d, .enter hh ha hl he h, h'⟩
  | @jump links left dir mid name rest target hh ha hl he hr ih =>
      cases names with
      | nil => exact ⟨_, _, .stay _ _, (show next = _ from hw) ▸ .jump target hh ha hl he hr⟩
      | cons name names =>
          obtain ⟨rfl, rfl⟩ := List.cons.inj hw
          obtain ⟨b, d, h, h'⟩ := ih (List.append_assoc ..)
          exact ⟨b, d, .jump target hh ha hl he h, h'⟩

/-- Where nothing is taken away, ways stay. -/
theorem Leads.mono (h : tree.Leads links dir names left mid)
    (keeps : ∀ location entry, tree.entryAt? location = some entry →
      tree'.entryAt? location = some entry) :
    tree'.Leads links dir names left mid := by
  induction h with
  | stay links dir => exact .stay links dir
  | here _ ih => exact .here ih
  | above _ ih => exact .above ih
  | enter hh ha hl he _ ih => exact .enter hh ha hl (keeps _ _ he) ih
  | jump target hh ha hl he _ ih => exact .jump target hh ha hl (keeps _ _ he) ih

/-- Ways lead to locations. -/
theorem Leads.isName (h : tree.Leads links dir names left mid)
    (hd : ∀ name ∈ dir, Path.IsName name) (hn : ∀ name ∈ names, name ≠ []) :
    ∀ name ∈ mid, Path.IsName name := by
  induction h with
  | stay => exact hd
  | here _ ih => exact ih hd fun n h => hn n (List.mem_cons_of_mem _ h)
  | above _ ih =>
      exact ih (fun n h => hd n (List.dropLast_subset _ h)) fun n h =>
        hn n (List.mem_cons_of_mem _ h)
  | enter hh ha _ _ _ ih =>
      refine ih (fun n h => ?_) fun n h => hn n (List.mem_cons_of_mem _ h)
      rcases List.mem_append.1 h with h | h
      · exact hd n h
      · obtain rfl := List.mem_singleton.1 h
        exact ⟨hn n List.mem_cons_self, hh, ha⟩
  | jump target _ _ _ _ _ ih =>
      refine ih (fun n h => ?_) fun n h => ?_
      · rw [linkBase] at h
        split at h
        · cases h
        · exact hd n h
      · rcases List.mem_append.1 h with h | h
        · exact Path.ne_nil_of_mem_steps h
        · exact hn n (List.mem_cons_of_mem _ h)

/-! ## Paths -/

theorem resolve_eq {path : Bytes} (h0 : 0 ∉ path) (hne : path ≠ []) (hl : path.length ≤ maxPath) :
    tree.resolve follow path = walk tree follow maxLinks (tree.base path) (Path.steps path) := by
  simp only [resolve, beforeNul_of_not_mem h0, if_neg hne, if_neg (Nat.not_lt.2 hl), base]

/-- A path that comes to anything is short enough. -/
theorem resolve_eq_of_ne_failed {path : Bytes} (h0 : 0 ∉ path)
    (h : ∀ errno, tree.resolve follow path ≠ .failed errno) :
    path ≠ [] ∧ path.length ≤ maxPath ∧
      tree.resolve follow path = walk tree follow maxLinks (tree.base path) (Path.steps path) := by
  by_cases hne : path = []
  · exact absurd (by simp [resolve, hne, beforeNul]) (h .enoent)
  by_cases hl : path.length ≤ maxPath
  · exact ⟨hne, hl, resolve_eq h0 hne hl⟩
  · refine absurd ?_ (h .enametoolong)
    simp [resolve, beforeNul_of_not_mem h0, hne, Nat.not_le.1 hl]

/-- What comes after a NUL is not looked up. -/
theorem resolve_beforeNul (tree : FileTree) (follow : Bool) (path : Bytes) :
    tree.resolve follow (beforeNul path) = tree.resolve follow path := by
  simp only [resolve, beforeNul_of_not_mem (not_mem_beforeNul path)]

theorem status_eq_some_iff {path : Bytes} {location : Location} {entry : Entry} :
    tree.status path = .ok (some (location, entry)) ↔
      tree.resolve true path = .found location entry := by
  unfold status
  cases tree.resolve true path with
  | found => simp
  | missing => simp
  | failed errno => by_cases h : errno = .enoent ∨ errno = .enotdir <;> simp [h]

theorem file?_eq_some_iff {path : Bytes} {id : Nat} :
    tree.file? path = some id ↔ ∃ location, tree.resolve true path = .found location (.file id) := by
  unfold file? status
  cases tree.resolve true path with
  | found location entry => cases entry <;> simp
  | missing location => simp
  | failed errno => by_cases h : errno = .enoent ∨ errno = .enotdir <;> simp [h]

/-- What can be looked up is at a location, and that is what is checked. -/
theorem canonical_of_status {path : Bytes} {location : Location} {entry : Entry}
    (h : tree.status path = .ok (some (location, entry))) :
    tree.canonical path = .ok ([Path.slash] :: location) := by
  rw [canonical, h]
  rfl

/-- The root of the tree. -/
theorem status_slash : tree.status [Path.slash] = .ok (some ([], .directory)) := by
  have hs : Path.steps [Path.slash] = [Path.here] := by decide
  rw [status_eq_some_iff, resolve_eq (by decide) (by decide) (by decide), hs, walk_here, walk_nil]
  rfl

/-- What is missing can be looked up as far as to its last name. -/
theorem walk_of_missing {path : Bytes}
    (hm : tree.resolve follow path = .missing location) :
    beforeNul path ≠ [] ∧ (beforeNul path).length ≤ maxPath ∧
      walk tree follow maxLinks (tree.base (beforeNul path)) (Path.steps (beforeNul path)) =
        .missing location := by
  unfold resolve at hm
  dsimp only at hm
  split at hm
  · cases hm
  next hne =>
    split at hm
    · cases hm
    next hl => exact ⟨hne, Nat.not_lt.1 hl, hm⟩

/-- A path that leads to a directory in which its last name is looked for, and from there on something
is missing. -/
structure Lacks (tree : FileTree) (follow : Bool) (path : Bytes) (front : List Bytes) (last : Bytes)
    (left : Nat) (mid location : Location) : Prop where
  names : Path.names path = front ++ [last]
  isName : Path.IsName last
  short : last.length ≤ maxName
  endsInName : Path.endsInSlash path = false
  length : path.length ≤ maxPath
  leads : tree.Leads maxLinks (tree.base path) front left mid
  missing : walk tree follow left mid [last] = .missing location

/-- A path whose last name is missing leads to the directory where this name is looked for. -/
theorem lacks_of_missing {path : Bytes} {location : Location} (h0 : 0 ∉ path)
    (h : tree.resolve follow path = .missing location) :
    ∃ front last left mid, tree.Lacks follow path front last left mid location := by
  obtain ⟨hne, hl, hw⟩ := resolve_eq_of_ne_failed h0 fun errno => by
    rw [h]
    exact nofun
  rw [h] at hw
  rcases List.eq_nil_or_concat (Path.steps path) with hs | ⟨front, last, hs⟩
  · simp [hs] at hw
  rw [List.concat_eq_append] at hs
  rw [hs] at hw
  obtain ⟨left, mid, hl'⟩ := leads_of_walk (List.cons_ne_nil last []) fun errno => by
    rw [← hw]
    exact nofun
  have hlast := hw.trans (hl'.walk follow [last] (.inl (by simp)))
  -- The last step cannot be one that every directory has.
  have hh : last ≠ Path.here := by
    rintro rfl
    simp at hlast
  have ha : last ≠ Path.above := by
    rintro rfl
    simp at hlast
  have hlen : last.length ≤ maxName := by
    rcases Nat.lt_or_ge maxName last.length with hlen | hlen
    · rw [walk_cons hh ha, if_pos hlen] at hlast
      cases hlast
    · exact hlen
  have hslash : Path.endsInSlash path = false := by
    cases hslash : Path.endsInSlash path with
    | false => rfl
    | true =>
        rw [Path.steps, if_pos hslash] at hs
        exact absurd (List.append_inj_right' hs rfl) (by simpa using Ne.symm hh)
  have hmem : last ∈ Path.steps path := by simp [hs]
  have hne' := Path.ne_nil_of_mem_steps hmem
  rw [Path.steps, hslash] at hs
  exact ⟨front, last, left, mid, by simpa using hs, ⟨hne', hh, ha⟩, hlen, hslash, hl, hl',
    hlast.symm⟩

/-- A path that can be looked up is short enough. -/
theorem length_le_of_status {path : Bytes} {result : Option (Location × Entry)} (h0 : 0 ∉ path)
    (h : tree.status path = .ok result) : path.length ≤ maxPath := by
  rcases Nat.lt_or_ge maxPath path.length with hl | hl
  · have hne : path ≠ [] := by
      rintro rfl
      cases hl
    have hr : tree.resolve true path = .failed .enametoolong := by
      simp only [resolve, beforeNul_of_not_mem h0, if_neg hne, if_pos hl]
    have : ¬ (Errno.enametoolong = .enoent ∨ Errno.enametoolong = .enotdir) := by decide
    rw [status, hr] at h
    simp [this] at h
  · exact hl

/-- What is looked up after a path is this path with one more name. -/
theorem status_join {path e : Bytes} {there : Option (Location × Entry)} (h0 : 0 ∉ path)
    (he : e ≠ [] ∧ Path.slash ∉ e ∧ 0 ∉ e) (h : tree.status (Path.join path e) = .ok there) :
    0 ∉ Path.join path e ∧ tree.base (Path.join path e) = tree.base path ∧
      Path.names (Path.join path e) = Path.names path ++ [e] ∧
      match walk tree true maxLinks (tree.base path) (Path.names path ++ [e]) with
      | .found location entry => there = some (location, entry)
      | .missing _ => there = none
      | .failed _ => there = none := by
  obtain ⟨hne, hs, hz⟩ := he
  have ha := Path.isAbsolute_eq_false hs
  have hnames : Path.names (Path.join path e) = Path.names path ++ [e] := by
    rw [Path.names_join ha, Path.names_of_not_mem hne hs]
  have hb : tree.base (Path.join path e) = tree.base path := by
    simp only [base, Path.isAbsolute_join ha]
  have hj0 : 0 ∉ Path.join path e := by
    have : (0 : UInt8) ≠ Path.slash := by decide
    unfold Path.join
    split
    · exact hz
    · split <;> simp [h0, hz, this]
  have hjne : Path.join path e ≠ [] := by
    intro hj
    simp [hj, Path.names, fields] at hnames
  refine ⟨hj0, hb, hnames, ?_⟩
  rw [status, resolve_eq hj0 hjne (length_le_of_status hj0 h), hb, Path.steps_join hne hs] at h
  cases hw : walk tree true maxLinks (tree.base path) (Path.names path ++ [e]) with
  | found location entry =>
      rw [hw] at h
      exact (Except.ok.inj h).symm
  | missing location =>
      rw [hw] at h
      exact (Except.ok.inj h).symm
  | failed errno =>
      rw [hw] at h
      dsimp only at h
      split at h
      · exact (Except.ok.inj h).symm
      · cases h

/-- **A path whose last name is missing** is followed to the directory where this name is looked
for, one name after the other. -/
theorem existing_eq (path : Bytes) {last : Bytes} {known front result : List Bytes} {location : Location}
    (h0 : 0 ∉ path) (hn : ∀ e ∈ front ++ [last], e ≠ [] ∧ Path.slash ∉ e ∧ 0 ∉ e)
    (hl : tree.Leads maxLinks (tree.base path) (Path.names path ++ front) left mid)
    (hm : walk tree true left mid [last] = .missing location)
    (hk : front = [] → known = [Path.slash] :: mid)
    (h : canonical.existing tree path known (front ++ [last]) = .ok result) :
    result = Path.normalize ([Path.slash] :: (mid ++ [last])) := by
  -- Each name of the front is found, so it is added to the path and the next one is looked at.
  induction front generalizing path known with
  | nil =>
      rw [List.nil_append, canonical.existing] at h
      cases hst : tree.status (Path.join path last) with
      | error errno =>
          rw [hst] at h
          cases h
      | ok there =>
          obtain ⟨-, -, -, hthere⟩ := status_join h0 (hn last (by simp)) hst
          rw [List.append_nil] at hl
          rw [hl.walk true [last] (.inl (by simp)), hm] at hthere
          rw [hst, hk rfl, hthere] at h
          exact (Except.ok.inj h).symm
  | cons e front ih =>
      rw [List.cons_append, canonical.existing] at h
      cases hst : tree.status (Path.join path e) with
      | error errno =>
          rw [hst] at h
          cases h
      | ok there =>
          obtain ⟨hz, hb, hnames, hthere⟩ := status_join h0 (hn e (by simp)) hst
          have hl' : tree.Leads maxLinks (tree.base (Path.join path e))
              (Path.names (Path.join path e) ++ front) left mid := by
            rw [hb, hnames, List.append_assoc]
            exact hl
          obtain ⟨between, dir', hfirst, hrest⟩ := hl'.split
          have hw := hfirst.walk true [] (.inr rfl)
          rw [List.append_nil, walk_nil, hb, hnames] at hw
          rw [hw] at hthere
          rw [hst, hthere] at h
          refine ih _ hz (fun e he => hn e (List.mem_cons_of_mem _ he)) hl' ?_ h
          rintro rfl
          cases hrest
          rfl

namespace Lacks

variable {path last : Bytes} {front : List Bytes} {location : Location}

section

variable (h : tree.Lacks follow path front last left mid location)
include h

theorem ne_nil : path ≠ [] := by
  rintro rfl
  simpa [Path.names, fields] using h.names

theorem steps_eq : Path.steps path = front ++ [last] := by
  simp [Path.steps, h.endsInName, h.names]

/-- Where nothing is taken away, it is the last name that matters. -/
theorem resolve (h0 : 0 ∉ path) (hs : tree'.start = tree.start)
    (keeps : ∀ l entry, tree.entryAt? l = some entry → tree'.entryAt? l = some entry) :
    tree'.resolve false path =
      match tree'.entryAt? (mid ++ [last]) with
      | none => .missing (mid ++ [last])
      | some entry => .found (mid ++ [last]) entry := by
  rw [resolve_eq h0 h.ne_nil h.length, base, hs, ← base, h.steps_eq,
    (h.leads.mono keeps).walk false [last] (.inl (by simp)),
    walk_last h.isName.2.1 h.isName.2.2 h.short]

/-- It is the last name that is missing, unless it stands for a link. -/
theorem location_eq (h0 : 0 ∉ path)
    (hlink : ∀ l target, tree.resolve false path ≠ .found l (.link target)) :
    location = mid ++ [last] := by
  have hw := h.missing
  rw [walk_cons h.isName.2.1 h.isName.2.2, if_neg (Nat.not_lt.2 h.short)] at hw
  cases he : tree.entryAt? (mid ++ [last]) with
  | none =>
      rw [he] at hw
      exact (Resolution.missing.inj hw).symm
  | some entry =>
      cases entry with
      | directory | file => simp [he] at hw
      | link target =>
          refine absurd ?_ (hlink (mid ++ [last]) target)
          rw [h.resolve h0 rfl fun _ _ => id, he]

end

variable (h : tree.Lacks true path front last left mid location)
include h

/-- Looking it up is no error. -/
theorem status_eq (h0 : 0 ∉ path) : tree.status path = .ok none := by
  rw [status, resolve_eq h0 h.ne_nil h.length, h.steps_eq,
    h.leads.walk true [last] (.inl (by simp)), h.missing]

/-- A path whose last name is missing is checked as if that name stood for nothing. -/
theorem canonical_eq (h0 : 0 ∉ path) (hstart : ∀ name ∈ tree.start, Path.IsName name)
    (hfront : Path.isAbsolute path = false → front ≠ []) {elements : List Bytes}
    (hc : tree.canonical path = .ok elements) : elements = [Path.slash] :: (mid ++ [last]) := by
  have hnames : ∀ e ∈ front ++ [last], e ≠ [] ∧ Path.slash ∉ e ∧ 0 ∉ e := by
    intro e he
    obtain ⟨hne, hs, hmem⟩ := Path.mem_names (h.names ▸ he)
    exact ⟨hne, hs, fun hz => h0 (hmem 0 hz)⟩
  have hmid : ∀ name ∈ mid, Path.IsName name := by
    refine h.leads.isName (fun n hm => ?_) fun n hm => (hnames n (by simp [hm])).1
    rw [base] at hm
    split at hm
    · cases hm
    · exact hstart n hm
  have hlocation : ∀ name ∈ mid ++ [last], Path.IsName name := fun name hm =>
    (List.mem_append.1 hm).elim (hmid name) fun hm => List.mem_singleton.1 hm ▸ h.isName
  rw [← Path.normalize_location hlocation]
  rw [FileTree.canonical, h.status_eq h0] at hc
  cases ha : Path.isAbsolute path with
  | false =>
      have he : Path.elements path = front ++ [last] := by
        simp [Path.elements, ha, h.endsInName, h.names]
      have hb : tree.base [] = tree.base path := by rw [base, base, ha]; rfl
      rw [he] at hc
      exact existing_eq [] (by simp) hnames (hb ▸ h.leads) h.missing
        (fun hf => absurd hf (hfront ha)) hc
  | true =>
      -- The first element is the root of the tree.
      have he : Path.elements path = [Path.slash] :: (front ++ [last]) := by
        simp [Path.elements, ha, h.endsInName, h.names]
      have hl := h.leads
      rw [base, if_pos ha] at hl
      have hj : Path.join [] [Path.slash] = [Path.slash] := rfl
      rw [he, canonical.existing, hj, status_slash] at hc
      refine existing_eq [Path.slash] (by decide) hnames hl h.missing ?_ hc
      rintro rfl
      cases hl
      rfl

end Lacks

end FileTree

end Tftp
