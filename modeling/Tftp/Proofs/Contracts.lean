import Tftp.Proofs.Reaction
import Tftp.Storage.Scripted

/-!
# What storages promise

What a transfer delivers or stores depends on the storage that it works with. `Storage.Source` says
how a storage hands out the content of a file, `Storage.Sink` how it takes a file in, and
`Storage.Records` that it keeps a record of the calls. All operations may fail at any time.

A scripted storage is a source, whatever its script, and it keeps records. Any storage can be made to
keep records (`Storage.recorded`). A `Shelf` is a source and a sink.
-/

namespace Tftp

/-! ## Calls -/

namespace Storage

/-- A call for a file that is being received. -/
inductive Call
  | write (bytes : Bytes)
  | finish
  | abort

variable {S : Storage}

def Call.effect : Call → Effect (S.State × S.Writer) Unit
  | write bytes => S.write bytes
  | finish => S.finish
  | abort => S.abort

/-- The storage and the file after some calls, whether they succeed or not. -/
def after (S : Storage) (calls : List Call) (file : S.State × S.Writer) : S.State × S.Writer :=
  calls.foldl (fun file call => (call.effect file).state) file

/-- What a storage may report when it is called. -/
inductive Reports (S : Storage) : List Event → Prop
  | openForReading (peer : Address) (filename : Bytes) (state : S.State) :
      Reports S (S.openForReading peer filename state).events
  | openForWriting (peer : Address) (filename : Bytes) (declared : Option UInt64)
      (state : S.State) : Reports S (S.openForWriting peer filename declared state).events
  | read (n : Nat) (file : S.State × S.Reader) : Reports S (S.read n file).events
  | call (call : Call) (file : S.State × S.Writer) : Reports S (call.effect file).events

end Storage

/-! ## Sources -/

/-- How a storage hands out the content of the files it opens for reading, in pieces that may be as
small as it likes, but not empty before the content is at its end. `Holds` says what is still to come
from an open file. -/
structure Storage.Source (S : Storage) where
  Holds : S.State → S.Reader → Bytes → Prop
  plain : ∀ {state reader rest} n, Holds state reader rest →
    ∀ e ∈ (S.read n (state, reader)).events, e.isPlain = true
  read : ∀ {state reader rest} n bytes, Holds state reader rest →
    (S.read n (state, reader)).result = .ok bytes →
    ∃ rest', rest = bytes ++ rest' ∧ bytes.length ≤ n ∧ (bytes = [] → n = 0 ∨ rest = []) ∧
      Holds (S.read n (state, reader)).state.1 (S.read n (state, reader)).state.2 rest'

/-- A file is there to be read, with the given content, unless opening it fails. -/
structure Storage.Source.Offers {S : Storage} (source : S.Source) (store : S.State)
    (peer : Address) (filename content : Bytes) : Prop where
  plain : ∀ e ∈ (S.openForReading peer filename store).events, e.isPlain = true
  opens : ∀ reader size,
    (S.openForReading peer filename store).result = .ok (some (reader, size)) →
    source.Holds (S.openForReading peer filename store).state reader content

/-- A read has failed, and this is what it has left behind. -/
def Storage.HasFailed (S : Storage) (failure : Failure) (file : S.State × S.Reader) : Prop :=
  ∃ n before, (S.read n before).result = .error failure ∧ (S.read n before).state = file

/-! ## Sinks -/

/-- How a storage takes a file in. What a call that fails leaves in the file is part of what would
be there otherwise, and giving a file up adds nothing to it. -/
structure Storage.Sink (S : Storage) where
  content : S.State × S.Writer → Bytes
  IsOpen : S.State × S.Writer → Prop
  IsFinished : S.State × S.Writer → Prop
  opening : ∀ peer filename declared state,
    ∀ e ∈ (S.openForWriting peer filename declared state).events, e.isPlain = true
  opens : ∀ peer filename declared state writer,
    (S.openForWriting peer filename declared state).result = .ok (some writer) →
    IsOpen ((S.openForWriting peer filename declared state).state, writer) ∧
    content ((S.openForWriting peer filename declared state).state, writer) = []
  write : ∀ payload file, IsOpen file →
    match (S.write payload file).result with
    | .ok () => IsOpen (S.write payload file).state ∧
      content (S.write payload file).state = content file ++ payload
    | .error _ => content (S.write payload file).state <+: content file ++ payload
  finish : ∀ file, IsOpen file →
    match (S.finish file).result with
    | .ok () => IsFinished (S.finish file).state ∧
      content (S.finish file).state = content file
    | .error _ => content (S.finish file).state <+: content file
  abort : ∀ file, content (S.abort file).state <+: content file
  silent : ∀ file, (∀ payload, ∀ e ∈ (S.write payload file).events, e.isSent = false) ∧
    (∀ e ∈ (S.finish file).events, e.isSent = false) ∧
    (∀ e ∈ (S.abort file).events, e.isSent = false)

/-! ## Records -/

/-- A storage keeps a record of every block that is written, finished or given up. -/
structure Storage.Records (S : Storage) : Prop where
  opening : ∀ peer filename declared state,
    ∀ e ∈ (S.openForWriting peer filename declared state).events, e.isPlain = true
  write : ∀ payload file, Event.unlogged (S.write payload file).events =
    match (S.write payload file).result with
    | .ok () => [.written payload]
    | .error _ => [.notWritten]
  finish : ∀ file, Event.unlogged (S.finish file).events =
    match (S.finish file).result with
    | .ok () => [.finished]
    | .error _ => [.notFinished]
  abort : ∀ file, Event.unlogged (S.abort file).events = [.aborted]

/-- A storage keeps a record of every file that it is asked to open for writing. -/
def Storage.RecordsOpening (S : Storage) : Prop :=
  ∀ peer filename declared state,
    Event.unlogged (S.openForWriting peer filename declared state).events =
      [.openedForWriting peer filename declared]

def Effect.recording {σ : Type} (effect : Effect σ Unit) (done failed : Event) : Effect σ Unit :=
  fun state =>
    let answer := effect state
    { answer with
      events := match answer.result with
        | .ok () => [done]
        | .error _ => [failed] }

/-- A storage that does what another one does and keeps a record of it. -/
def Storage.recorded (S : Storage) : Storage :=
  { S with
    openForWriting := fun peer filename declared state =>
      { S.openForWriting peer filename declared state with
        events := [.openedForWriting peer filename declared] }
    write := fun payload => (S.write payload).recording (.written payload) .notWritten
    finish := S.finish.recording .finished .notFinished
    abort := S.abort.recording .aborted .aborted }

theorem Storage.recorded_records (S : Storage) : S.recorded.Records where
  opening _ _ _ _ e he := by
    obtain rfl := List.mem_singleton.mp he
    rfl
  write payload file := by
    show Event.unlogged (match (S.write payload file).result with
      | .ok () => _ | .error _ => _) = match (S.write payload file).result with
      | .ok () => _ | .error _ => _
    split <;> rfl
  finish file := by
    show Event.unlogged (match (S.finish file).result with
      | .ok () => _ | .error _ => _) = match (S.finish file).result with
      | .ok () => _ | .error _ => _
    split <;> rfl
  abort file := by
    show Event.unlogged (match (S.abort file).result with
      | .ok () => _ | .error _ => _) = _
    split <;> rfl

theorem Storage.recorded_recordsOpening (S : Storage) : S.recorded.RecordsOpening :=
  fun _ _ _ _ => rfl

/-! ## Scripted storages -/

namespace Scripted

variable (script : Scripted)

/-- How much a read takes off at most, which is nothing only if nothing is asked for. -/
theorem chunk_le (h : script.chunk ≠ some 0) (n : Nat) :
    let m := match script.chunk with | some chunk => min n chunk | none => n
    m ≤ n ∧ (m = 0 → n = 0) := by
  intro m
  unfold m
  cases hc : script.chunk with
  | none => exact ⟨Nat.le_refl n, id⟩
  | some chunk =>
      have : chunk ≠ 0 := fun h0 => h (by rw [hc, h0])
      show min n chunk ≤ n ∧ (min n chunk = 0 → n = 0)
      omega

/-- A read fails, or it takes something off, unless it is told to take nothing. -/
theorem read_cases (h : script.chunk ≠ some 0) (n : Nat) (state : Unit) (reader : Reader) :
    (∃ f, script.read n (state, reader) = { result := .error f, state := (state, reader) }) ∨
    ∃ m position, m ≤ n ∧ (m = 0 → n = 0) ∧ script.read n (state, reader) =
      { result := .ok (reader.rest.take m), state := (state, ⟨position, reader.rest.drop m⟩) } := by
  obtain ⟨hle, hz⟩ := script.chunk_le h n
  unfold read
  dsimp only
  split
  next => exact .inr ⟨_, _, hle, hz, rfl⟩
  next k hk =>
    by_cases hp : k ≤ reader.position
    · rw [if_pos hp]
      exact .inl ⟨_, rfl⟩
    · rw [if_neg hp]
      exact .inr ⟨_, _, Nat.le_trans (Nat.min_le_left ..) hle, fun h0 => hz (by omega), rfl⟩

def source (h : script.chunk ≠ some 0) : script.storage.Source where
  Holds _ reader rest := reader.rest = rest
  plain := by
    intro state reader rest n _ e he
    rcases script.read_cases h n state reader with ⟨f, hr⟩ | ⟨m, position, -, -, hr⟩
    · rw [show script.storage.read n (state, reader) = _ from hr] at he
      cases he
    · rw [show script.storage.read n (state, reader) = _ from hr] at he
      cases he
  read := by
    rintro state reader rest n bytes rfl hb
    rcases script.read_cases h n state reader with ⟨f, hr⟩ | ⟨m, position, hle, hz, hr⟩
    · rw [show script.storage.read n (state, reader) = _ from hr] at hb
      cases hb
    · rw [show script.storage.read n (state, reader) = _ from hr] at hb ⊢
      cases hb
      refine ⟨reader.rest.drop m, (List.take_append_drop ..).symm, ?_, ?_, rfl⟩
      · rw [List.length_take]
        omega
      · intro hnil
        rcases List.take_eq_nil_iff.mp hnil with h0 | hrest
        · exact .inl (hz h0)
        · exact .inr hrest

theorem result_openForReading (peer : Address) (filename : Bytes) (store : Unit) :
    (script.storage.openForReading peer filename store).result = match script.openFailure with
      | some failure => .error failure
      | none => .ok (if script.absent then none else some (⟨0, script.content⟩, script.size)) :=
  rfl

theorem offers (h : script.chunk ≠ some 0) (store : Unit) (peer : Address) (filename : Bytes) :
    (script.source h).Offers store peer filename script.content where
  plain e he := by
    obtain rfl := List.mem_singleton.mp he
    rfl
  opens reader size hr := by
    rw [result_openForReading] at hr
    split at hr
    · cases hr
    · split at hr
      · cases hr
      · cases hr
        rfl

/-- A scripted storage keeps records, if it is not told to keep records of writes only. -/
theorem records (h : script.writesOnly = false) : script.storage.Records where
  opening _ _ _ _ e he := by
    obtain rfl := List.mem_singleton.mp he
    rfl
  write payload file := by
    obtain ⟨state, writer⟩ := file
    by_cases hw : script.failWrite = some writer.blocks
    · have hs : script.storage.write payload (state, writer) = _ := if_pos hw
      rw [hs]
      rfl
    · have hs : script.storage.write payload (state, writer) = _ := if_neg hw
      rw [hs]
      rfl
  finish file := by
    show Event.unlogged (script.finish file).events = match (script.finish file).result
      with | .ok () => _ | .error _ => _
    unfold finish
    rw [if_neg (by simp [h])]
    split <;> rfl
  abort file := by
    show Event.unlogged (if script.writesOnly then [] else [.aborted]) = _
    rw [if_neg (by simp [h])]
    rfl

theorem recordsOpening : script.storage.RecordsOpening := fun _ _ _ _ => rfl

end Scripted

/-! ## Shelves -/

structure Volume where
  content : Bytes := []
  finished : Bool := false

/-- A storage with one content to be read, which takes in any number of volumes. -/
def Storage.shelf (content : Bytes) : Storage where
  State := Unit
  Reader := Bytes
  Writer := Volume
  openForReading _ _ state := .pure (some (content, none)) state
  read n := fun (state, rest) => .pure (rest.take n) (state, rest.drop n)
  openForWriting _ _ _ state := .pure (some {}) state
  write payload := fun (state, volume) =>
    .pure () (state, { volume with content := volume.content ++ payload })
  finish := fun (state, volume) => .pure () (state, { volume with finished := true })
  abort := fun (state, volume) => .pure () (state, volume)

namespace Storage

def shelfSource (content : Bytes) : (shelf content).Source where
  Holds _ reader rest := reader = rest
  plain _ _ _ he := nomatch he
  read := by
    rintro state reader rest n bytes rfl hb
    cases hb
    refine ⟨reader.drop n, (List.take_append_drop ..).symm, ?_, ?_, rfl⟩
    · exact List.length_take_le n reader
    · intro hnil
      exact List.take_eq_nil_iff.mp hnil

theorem shelf_offers (content : Bytes) (store : Unit) (peer : Address) (filename : Bytes) :
    (shelfSource content).Offers store peer filename content where
  plain _ he := nomatch he
  opens reader size hr := by
    cases hr
    rfl

def shelfSink (content : Bytes) : (shelf content).Sink where
  content file := file.2.content
  IsOpen _ := True
  IsFinished file := file.2.finished = true
  opening _ _ _ _ _ he := nomatch he
  opens _ _ _ _ writer hr := by
    cases hr
    exact ⟨trivial, rfl⟩
  write _ _ _ := ⟨trivial, rfl⟩
  finish _ _ := ⟨rfl, rfl⟩
  abort file := List.prefix_refl file.2.content
  silent := by
    rintro ⟨state, volume⟩
    exact ⟨(fun _ _ he => nomatch he), (fun _ he => nomatch he), (fun _ he => nomatch he)⟩

end Storage

end Tftp
