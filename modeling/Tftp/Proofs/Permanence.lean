import Tftp.Proofs.Course
import Tftp.Proofs.Filing

/-!
# Files that last

A directory is shared by all transfers of its server, and they take their turns in any order. Each
file that is being received is touched by one transfer only: it was made new where there was nothing,
and when another transfer gives up a file of its own, what is removed leads to that file alone. So a
file that has been received completely stays as it is, whatever comes after it.

`Filed` is the invariant of a course that says so. Every turn of a transfer concerns at most the file
that `Directory.touched` names (`Directory.Turns`), and that is never a file of anybody else.
-/

namespace Tftp

open Transfer

/-- What a path stands for is a file with this content. -/
def FileTree.contentAt? (tree : FileTree) (path : Bytes) : Option Bytes :=
  (tree.file? path).map tree.content

/-- The payload of the block that a transfer takes in a turn. -/
def Passage.brought {S : Storage} (p : Passage S) : Bytes :=
  (p.reception?.map p.scene.self.brought).getD []

/-- The payloads that a transfer has taken in some turns, one after the other. -/
def Server.taken {S : Storage} (turns : List (Passage S × List Event)) : Bytes :=
  turns.flatMap fun turn => turn.1.brought

theorem Server.taken_concat {S : Storage} (turns : List (Passage S × List Event)) (p : Passage S)
    (lines : List Event) : taken (turns ++ [(p, lines)]) = taken turns ++ p.brought := by
  rw [taken, List.flatMap_append, List.flatMap_singleton]
  rfl

namespace Directory

variable {directory : Directory}

/-! ## Turns at a server -/

/-- The file that a turn of a transfer may concern: the one that it has open for writing, and if it
has none, the next one that is made. -/
def touched (v : View directory.storage) : Nat :=
  (v.self.writer.map FileWriter.id).getD v.store.tree.contents.length

theorem touched_of_some {v : View directory.storage} {writer : FileWriter}
    (h : v.self.writer = some writer) : touched v = writer.id := by
  rw [touched, h]
  rfl

theorem touched_of_none {v : View directory.storage} (h : v.self.writer = none) :
    touched v = v.store.tree.contents.length := by
  rw [touched, h]
  rfl

/-- What a passage does to the files of its directory, if the transfer has written so much then. -/
def Passes (p : Passage directory.storage) (written : Bytes) : Prop :=
  directory.Turns (touched p.scene.view) written p.scene.view p.after.view

theorem request_after (p : Passage directory.storage) :
    p.after.view.self.request = p.scene.view.self.request :=
  congrArg Frame.request (frame_after (.turn p.reception?) p.scene)

/-- The first turn of a transfer. -/
theorem passes_first (server : Server directory.storage) (assignment : Assignment) (socket : Socket)
    (world : World directory.storage) :
    let p := server.firstPassage assignment socket world
    Passes p [] ∧ (p.scene.self.direction = .write → ∀ writer : FileWriter,
      p.after.self.writer = some writer →
      writer.path = Path.join directory.root p.scene.self.request.filename ∧
      p.scene.world.store.tree.isThere writer.path = false) := by
  intro p
  have hwriter : p.scene.view.self.writer = none := rfl
  have hreaction : p.reaction = begin := begin_eq.symm
  have hafter : p.after = p.scene.after begin := by rw [Passage.after, hreaction]
  rw [Passes, touched_of_none hwriter]
  cases hd : assignment.direction with
  | read =>
      obtain ⟨terms, hf, -⟩ : Read.Opening p.scene.view (p.scene.after begin).view :=
        (Read.begin_fetches directory.lends hd rfl rfl rfl).after
      rw [hafter]
      exact ⟨.of_fetches hf, fun h => nomatch h.symm.trans hd⟩
  | write =>
      have hb : Write.Begins _ p.scene.view (p.scene.after begin).view :=
        (Write.begins_begin hd rfl rfl).after
      have hr := request_after p
      rw [hafter] at hr ⊢
      obtain ⟨ht, hnew⟩ := Turns.of_begins hwriter hr hb
      exact ⟨ht, fun _ => hnew⟩

/-- A later turn of a transfer. -/
theorem passes_next {server : Server directory.storage} {task : Task directory.storage}
    {written : Bytes} (h : directory.Tended server.world.store written task.transfer)
    (reception : Reception) :
    let p := server.nextPassage task reception
    Passes p (written ++ p.brought) := by
  intro p
  have hreaction : p.reaction = resume reception := (resume_eq reception).symm
  have hafter : p.after = p.scene.after (resume reception) := by rw [Passage.after, hreaction]
  have hbrought : p.brought = task.transfer.brought reception := rfl
  rw [Passes, hbrought]
  cases h with
  | reads hf ho =>
      have hp : p.scene.view.self.phase ≠ .failed := by
        intro hp
        rw [isOver, show task.transfer.phase = .failed from hp] at ho
        cases ho
      rw [hafter]
      exact .of_fetches (Read.resume_fetches directory.lends reception (hf p.scene.view rfl) hp).after
  | writes size n writer hr hw hpath hh =>
      have hrequest := request_after p
      rw [touched_of_some (v := p.scene.view) hw]
      rw [hafter] at hrequest ⊢
      refine Turns.of_outcome (v := p.scene.view) hr hw ?_ hh
        (Write.outcome_resume hr reception).after
      rw [hrequest]
      exact hpath

end Directory

theorem FileWriter.Holds.spared {tree tree' : FileTree} {writer : FileWriter} {written : Bytes}
    {id : Nat} (h : writer.Holds tree written) (hs : tree.Spares id tree') (hne : writer.id ≠ id) :
    writer.Holds tree' written where
  state := h.state
  found := hs.file? _ _ hne h.found
  reached := by rw [hs.content _ (FileTree.lt_of_file? h.found) hne, h.reached]
  written := by rw [hs.content _ (FileTree.lt_of_file? h.found) hne, h.written]

theorem Directory.Tended.spared {directory : Directory} {disk disk' : Disk} {written : Bytes}
    {t : Transfer directory.storage} {id : Nat} (h : directory.Tended disk written t)
    (hs : disk.tree.Spares id disk'.tree)
    (hne : ∀ writer : FileWriter, t.writer = some writer → writer.id ≠ id) :
    directory.Tended disk' written t := by
  cases h with
  | reads hf ho => exact .reads hf ho
  | writes size n writer hr hw hpath hh =>
      exact .writes size n writer hr hw hpath (hh.spared hs (hne writer hw))

namespace Server

open Directory

variable {directory : Directory}

/-! ## All transfers of a server -/

/-- A file that has been received completely lasts, and nobody has it open for writing. -/
structure Lasts (server : Server directory.storage) (path : Bytes) (id : Nat) (content : Bytes) :
    Prop where
  found : server.world.store.tree.file? path = some id
  content : server.world.store.tree.content id = content
  closed : ∀ task ∈ server.tasks, ∀ writer : FileWriter, task.transfer.writer = some writer →
    writer.id ≠ id

/-- What a server has done about the files of its directory so far. -/
structure Filed (deeds : List (Deed directory.storage)) (server : Server directory.storage) :
    Prop where
  /-- A transfer that waits. -/
  tended : ∀ task ∈ server.tasks, directory.Tended server.world.store
    (taken (turnsOf task.number deeds)) task.transfer
  /-- No two transfers have the same file open for writing. -/
  apart : ∀ task ∈ server.tasks, ∀ task' ∈ server.tasks, task.number ≠ task'.number →
    ∀ writer writer' : FileWriter, task.transfer.writer = some writer →
    task'.transfer.writer = some writer' → writer.id ≠ writer'.id
  /-- A transfer that has received everything. -/
  done : ∀ n front (p : Passage directory.storage) lines back,
    turnsOf n deeds = front ++ (p, lines) :: back → p.after.self.phase = .writeEnd →
    back = [] ∧ n ∉ server.numbers ∧ ∃ writer : FileWriter, p.after.self.writer = some writer ∧
      server.Lasts (Path.join directory.root p.after.self.request.filename) writer.id
        (taken (front ++ [(p, lines)]))

variable {deeds : List (Deed directory.storage)} {server server' : Server directory.storage}

/-- What is of no concern to the files of the directory. -/
theorem Filed.idle (h : Filed deeds server) {deed? : Option (Deed directory.storage)}
    (hd : ∀ n, turnsOf n deed?.toList = []) (ht : server'.tasks = server.tasks)
    (hs : server'.world.store = server.world.store) : Filed (deeds ++ deed?.toList) server' where
  tended task hm := by
    rw [turnsOf_append, hd, List.append_nil, hs]
    exact h.tended task (ht ▸ hm)
  apart := by
    rw [ht]
    exact h.apart
  done n front p lines back he hp := by
    rw [turnsOf_append, hd, List.append_nil] at he
    obtain ⟨hb, hn, writer, hw, hl⟩ := h.done n front p lines back he hp
    refine ⟨hb, by rwa [numbers, ht], writer, hw, ?_⟩
    exact ⟨hs ▸ hl.found, hs ▸ hl.content, ht ▸ hl.closed⟩

section

variable {p : Passage directory.storage} {written : Bytes}

/-- A turn concerns no file that some other transfer has open for writing, and none that nobody has
open for writing. -/
theorem Yields.ne_touched (hy : server.Yields p server')
    (hown : p.scene.self.writer ≠ none → p.number ∈ server.numbers) {id : Nat}
    (hlt : id < server.world.store.tree.contents.length)
    (hne : ∀ task ∈ server.tasks, task.number = p.number → ∀ writer : FileWriter,
      task.transfer.writer = some writer → writer.id ≠ id) : id ≠ touched p.scene.view := by
  have hstore : p.scene.view.store = server.world.store := hy.store
  intro he
  cases hw : p.scene.view.self.writer with
  | none =>
      rw [touched_of_none hw, hstore] at he
      exact Nat.lt_irrefl _ (he ▸ hlt)
  | some writer =>
      rw [touched_of_some hw] at he
      obtain ⟨task, hm, hn⟩ := List.mem_map.1 (hown fun hnone => nomatch hnone.symm.trans hw)
      refine hne task hm hn writer ?_ he.symm
      rw [hy.before task hm hn]
      exact hw

theorem Filed.ne_touched (h : Filed deeds server) (hy : server.Yields p server')
    (hown : p.scene.self.writer ≠ none → p.number ∈ server.numbers) :
    ∀ task ∈ server.tasks, task.number ≠ p.number → ∀ writer : FileWriter,
      task.transfer.writer = some writer → writer.id ≠ touched p.scene.view := by
  intro task hm hn writer hw
  refine hy.ne_touched hown ?_ fun task' hm' hn' writer' hw' => ?_
  · cases h.tended task hm with
    | reads hf ho =>
        rw [(hf { p.scene.view with self := task.transfer } rfl).writer] at hw
        cases hw
    | writes size n writer' hr hw' hpath hh =>
        obtain rfl := Option.some.inj (hw'.symm.trans hw)
        exact FileTree.lt_of_file? hh.found
  · exact h.apart task' hm' task hm (fun he => hn (he ▸ hn')) writer' writer hw' hw

theorem Yields.spares (hy : server.Yields p server') (hp : Passes p written) :
    server.world.store.tree.Spares (touched p.scene.view) server'.world.store.tree := by
  rw [hy.store', ← hy.store]
  exact hp.spares

/-- A transfer that waits after its turn has no other file open for writing. -/
theorem Yields.waits (hy : server.Yields p server') (hp : Passes p written)
    {task : Task directory.storage} (hm : task ∈ server'.tasks) (hn : task.number = p.number) :
    directory.Tended server'.world.store written task.transfer ∧ ∀ writer : FileWriter,
      task.transfer.writer = some writer → writer.id = touched p.scene.view := by
  obtain ⟨he, ho⟩ := Passage.eq_of_left (hy.own task hm hn)
  rw [← he, hy.store']
  exact hp.waits ho

theorem Lasts.turn {path : Bytes} {id : Nat} {content : Bytes} (h : server.Lasts path id content)
    (hy : server.Yields p server') (hp : Passes p written)
    (hown : p.scene.self.writer ≠ none → p.number ∈ server.numbers) :
    server'.Lasts path id content := by
  have hlt := FileTree.lt_of_file? h.found
  have hs := hy.spares hp
  have hne := hy.ne_touched hown hlt fun task hm _ => h.closed task hm
  refine ⟨hs.file? _ _ hne h.found, ?_, fun task hm writer hw => ?_⟩
  · rw [hs.content _ hlt hne, h.content]
  · by_cases hn : task.number = p.number
    · rw [(hy.waits hp hm hn).2 writer hw]
      exact hne.symm
    · exact h.closed task (hy.others task hm hn) writer hw

/-- **A turn of one transfer leaves the files of all others alone.** -/
theorem Filed.turn (h : Filed deeds server) {lines : List Event} (hy : server.Yields p server')
    (hp : Passes p (taken (turnsOf p.number deeds ++ [(p, lines)])))
    (hown : p.scene.self.writer ≠ none → p.number ∈ server.numbers)
    (hnew : turnsOf p.number deeds ≠ [] → p.number ∈ server.numbers) :
    Filed (deeds ++ [.turns p lines]) server' := by
  have hother := h.ne_touched hy hown
  refine ⟨fun task hm => ?_, fun task hm task' hm' hne writer writer' hw hw' => ?_, ?_⟩
  · rw [turnsOf_append, turnsOf_turns]
    by_cases hn : task.number = p.number
    · rw [if_pos hn.symm, hn]
      exact (hy.waits hp hm hn).1
    · rw [if_neg (Ne.symm hn), List.append_nil]
      have hm := hy.others task hm hn
      exact (h.tended task hm).spared (hy.spares hp) (hother task hm hn)
  · by_cases hn : task.number = p.number
    · have hn' : task'.number ≠ p.number := fun hn' => hne (hn.trans hn'.symm)
      rw [(hy.waits hp hm hn).2 writer hw]
      exact (hother task' (hy.others task' hm' hn') hn' writer' hw').symm
    · have hm := hy.others task hm hn
      by_cases hn' : task'.number = p.number
      · rw [(hy.waits hp hm' hn').2 writer' hw']
        exact hother task hm hn writer hw
      · exact h.apart task hm task' (hy.others task' hm' hn') hne writer writer' hw hw'
  -- A transfer that has received its file completely did so in this turn or before.
  · intro n front q lines' back he hq
    rw [turnsOf_append, turnsOf_turns] at he
    by_cases hn : p.number = n
    · subst hn
      rw [if_pos rfl] at he
      rcases List.eq_nil_or_concat back with rfl | ⟨back, last, rfl⟩
      · -- The transfer has just received everything.
        obtain ⟨rfl, hlast⟩ := List.append_inj' he rfl
        obtain ⟨rfl, rfl⟩ := Prod.mk.inj (List.head_eq_of_cons_eq hlast)
        obtain ⟨writer, hw, hid, hfile, hcontent⟩ := hp.ends hq
        have hgone : ∀ task ∈ server'.tasks, task.number ≠ p.number := fun task hm hn =>
          phase_ne_of_live (Passage.eq_of_left (hy.own task hm hn)).2 rfl hq
        refine ⟨rfl, fun hm => ?_, writer, hw, ?_⟩
        · obtain ⟨task, hm, hn⟩ := List.mem_map.1 hm
          exact hgone task hm hn
        · rw [hid]
          refine ⟨hy.store' ▸ hfile, hy.store' ▸ hcontent, fun task hm => ?_⟩
          exact hother task (hy.others task hm (hgone task hm)) (hgone task hm)
      · -- It had done so before.
        rw [List.concat_eq_append, ← List.cons_append, ← List.append_assoc] at he
        obtain ⟨he, -⟩ := List.append_inj' he rfl
        obtain ⟨-, hnot, -⟩ := h.done _ front q lines' back he hq
        exact absurd (hnew (by simp [he])) hnot
    · rw [if_neg hn, List.append_nil] at he
      obtain ⟨hb, hnot, writer, hw, hl⟩ := h.done n front q lines' back he hq
      refine ⟨hb, fun hm => ?_, writer, hw, hl.turn hy hp hown⟩
      obtain ⟨task, ht, rfl⟩ := List.mem_map.1 hm
      exact hnot (List.mem_map_of_mem (hy.others task ht (Ne.symm hn)))

end

/-- **Files last.** Whatever a server does, each of its transfers has its own file open for writing,
and a file that has been received completely stays as it is. -/
theorem Course.filed {start a : Affairs directory.storage} (hc : start.Consistent)
    (ht : start.server.tasks = []) (h : Course start deeds a) : Filed deeds a.server := by
  induction h with
  | refl =>
      refine ⟨by simp [ht], by simp [ht], fun n front p lines back he => ?_⟩
      simp at he
  | @step deeds deed? b b' h hstep ih =>
      have hcons := h.consistent hc
      have hlives : Lives (fun _ _ => True) deeds b.server :=
        h.lives hc ht (fun _ _ _ _ _ => trivial) fun _ _ _ _ _ => trivial
      -- Only turns of transfers touch files; every other step leaves the storage as it is.
      cases hstep with
      | hears sender bytes =>
          refine ih.idle (fun n => rfl) (accept_tasks ..) ?_
          cases hr : b.server.accept sender bytes with
          | mk assignment? server' =>
              have ha := accept_answer b.server sender bytes
              rw [hr] at ha
              cases ha with
              | accepts _ _ _ hu => exact hu.store
              | ignores _ hu => exact hu.store
      | meanwhile world hw => exact ih.idle (fun n => rfl) rfl hw.store
      | lacks hs he =>
          obtain ⟨network, rfl⟩ := world_of_lacks he
          refine ih.idle (fun n => rfl) ?_ ?_
          · unfold launch
            rw [commence_of_error _ he]
            simp [dismiss]
          · unfold launch
            rw [commence_of_error _ he]
            simp [dismiss]
      | @begins before after assignment socket world hs hk =>
          have hnew : turnsOf (b.server.firstPassage assignment socket world).number deeds = [] :=
            hlives.ahead _ (Nat.le_refl _)
          refine ih.turn (yields_launch hcons.opened assignment hk) ?_ (fun h => absurd rfl h)
            fun h => absurd hnew h
          rw [hnew]
          exact (passes_first b.server assignment socket world).1
      | @resumes task reception hm =>
          have hn : (b.server.nextPassage task reception).number ∈ b.server.numbers :=
            List.mem_map_of_mem hm
          refine ih.turn (yields_resume hcons.numbers hm reception) ?_ (fun _ => hn) fun _ => hn
          rw [taken_concat]
          exact passes_next (ih.tended task hm) reception

end Server

end Tftp
