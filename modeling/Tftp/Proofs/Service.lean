import Tftp.Proofs.Course

/-!
# The service of a server

A server has a dispatcher, which listens and starts transfers, and it serves in any order with them:
between two steps of the dispatcher transfers take any number of turns. The dispatcher looks whether
the server is to stop before each of its receives, and only there. Once it has seen that, it waits
for the transfers that are in progress, one after the other, and returns.

A `Service` is a `Course` together with what the dispatcher does meanwhile.
-/

namespace Tftp

variable {S : Storage}

/-! ## What matters to nobody -/

theorem World.Meanwhile.of_frame {w w' : World S} (hf : w'.frame = w.frame)
    (hs : w'.store = w.store) (ht : ∀ e ∈ w'.trace, e.isOutgoing = true → e ∈ w.trace) :
    w.Meanwhile w' where
  clock := Int.le_of_eq (congrArg World.Frame.clock hf).symm
  opened := Nat.le_of_eq (congrArg World.Frame.opened hf).symm
  store := hs
  stopping h := (congrArg World.Frame.stopping hf).trans h
  silent := ht

theorem World.Meanwhile.refl (w : World S) : w.Meanwhile w :=
  of_frame rfl rfl fun _ h _ => h

/-- What the dispatcher asks of the network changes nothing else. -/
theorem World.Meanwhile.beginReceive (w : World S) :
    match World.onNetwork (S := S) Network.beginReceive w with
    | .ok _ w' | .error _ w' => w.Meanwhile w' := by
  have hk := Keeps.onNetwork (S := S) .beginReceive
  cases hr : World.onNetwork Network.beginReceive w with
  | ok u w' =>
      have hf := hk.of_ok hr
      unfold World.onNetwork at hr
      split at hr <;> cases hr
      exact of_frame hf rfl fun _ h _ => h
  | error f w' =>
      have hf := hk.of_error hr
      unfold World.onNetwork at hr
      split at hr <;> cases hr
      exact of_frame hf rfl fun _ h _ => h

/-- A line that announces no packet is of no account. -/
theorem World.Meanwhile.log (server : Server S) {notice : Notice} (hn : Transfer.announces notice = false) :
    server.world.Meanwhile (server.log notice).world := by
  have hf : (server.log notice).world.frame = server.world.frame :=
    Server.act_frame server (.worldLog notice)
  refine of_frame hf (Server.log_store ..) fun e he ho => ?_
  rw [Server.log_world] at he
  split at he
  · rcases List.mem_cons.1 he with rfl | he
    · cases (Event.isOutgoing_logged hn).symm.trans ho
    · exact he
  · exact he

namespace Server

/-! ## Dispatchers -/

/-- Where the dispatcher of a server is. -/
inductive Post
  /-- It is about to look whether the server is to stop. -/
  | deciding
  /-- It waits in a receive on the listening socket. -/
  | listening
  /-- It waits until the transfers of these clients have ended, one after the other. -/
  | closing (peers : List Address)
  | returned
  | failed (failure : Failure)

/-- Whether a datagram has arrived on the listening socket. -/
def Deed.isHearing : Deed S → Bool
  | hears .. => true
  | _ => false

/-- One step of a server, with where its dispatcher is before and after. -/
inductive Serves : Post → Affairs S → Option (Deed S) → Post → Affairs S → Prop
  /-- The dispatcher sees that the server is to stop. The client that has been accepted first is the
  first whose transfer it waits for. -/
  | looks {a : Affairs S} : a.server.world.stopping = true →
      Serves .deciding a none (.closing a.server.registry.peers.reverse)
        { a with server := a.server.log .stopping }
  | listens {a : Affairs S} {world : World S} : a.server.world.stopping = false →
      World.onNetwork Network.beginReceive a.server.world = .ok () world →
      Serves .deciding a none .listening { a with server := { a.server with world } }
  /-- The dispatcher cannot listen any more. -/
  | breaks {a : Affairs S} {f : Failure} {world : World S} : a.server.world.stopping = false →
      World.onNetwork Network.beginReceive a.server.world = .error f world →
      Serves .deciding a none (.failed f) { a with server := { a.server with world } }
  | hears {a a' : Affairs S} {sender : Address} {bytes : Bytes} {lines : List Event} :
      Advance a (some (.hears sender bytes lines)) a' →
      Serves .listening a (some (.hears sender bytes lines)) .deciding a'
  | hearsNothing {a : Affairs S} : Serves .listening a none .deciding a
  | errs {a : Affairs S} (errno : Errno) : errno.isNothingYet = false →
      Serves .listening a none (.failed (receiveFailure errno)) a
  /-- The transfer that the dispatcher waits for has ended. -/
  | joins {a : Affairs S} {peer : Address} {peers : List Address} : peer ∉ a.peers →
      Serves (.closing (peer :: peers)) a none (.closing peers) a
  | returns {a : Affairs S} : Serves (.closing []) a none .returned a
  /-- A transfer takes a turn, or something happens to the world. -/
  | goesOn {post : Post} {a a' : Affairs S} {deed? : Option (Deed S)} : Advance a deed? a' →
      deed?.any Deed.isHearing = false → Serves post a deed? post a'

/-- What a server does from some point on, and what comes of its dispatcher. -/
inductive Service (post : Post) (start : Affairs S) : List (Deed S) → Post → Affairs S → Prop
  | refl : Service post start [] post start
  | step {deeds : List (Deed S)} {deed? : Option (Deed S)} {post' post'' : Post}
      {a a' : Affairs S} : Service post start deeds post' a → Serves post' a deed? post'' a' →
      Service post start (deeds ++ deed?.toList) post'' a'

/-! ## Services are courses -/

variable {post post' post'' : Post} {start a a' : Affairs S} {deeds deeds' : List (Deed S)}
  {deed? : Option (Deed S)}

theorem Course.ofWorld {server : Server S} {started : List Assignment} {world : World S}
    (h : server.world.Meanwhile world) :
    Course { server, started } [] { server := { server with world }, started } :=
  .of_advance (.meanwhile world h)

theorem log_eq_world (server : Server S) (notice : Notice) :
    server.log notice = { server with world := (server.log notice).world } :=
  act_eq server _

theorem Course.log (a : Affairs S) {notice : Notice} (hn : Transfer.announces notice = false) :
    Course a [] { a with server := a.server.log notice } := by
  rw [log_eq_world]
  exact ofWorld (.log a.server hn)

theorem Serves.course (h : Serves post a deed? post' a') : Course a deed?.toList a' := by
  cases h with
  | looks => exact .log a rfl
  | listens _ hr | breaks _ hr =>
      have hm := World.Meanwhile.beginReceive a.server.world
      rw [hr] at hm
      exact .ofWorld hm
  | hears h | goesOn h => exact .of_advance h
  | hearsNothing | errs | joins | returns => exact .refl

/-- A service is a course. -/
theorem Service.course (h : Service post start deeds post' a) : Course start deeds a := by
  induction h with
  | refl => exact .refl
  | step _ hs ih => exact ih.trans hs.course

theorem Service.trans (h : Service post start deeds post' a)
    (h' : Service post' a deeds' post'' a') : Service post start (deeds ++ deeds') post'' a' := by
  induction h' with
  | refl => rwa [List.append_nil]
  | step _ hs ih =>
      rw [← List.append_assoc]
      exact ih.step hs

/-! ## Services that are worked out -/

/-- Where nothing is going to fail, a receive can begin. -/
theorem beginReceive_of_faultless {world : World S} (h : world.network.faults = []) :
    World.onNetwork Network.beginReceive world = .ok () world := by
  obtain ⟨clock, ⟨faults, nextPort, opened, closed⟩, store, verbose, stopping, trace⟩ := world
  cases h
  unfold World.onNetwork
  rw [Network.beginReceive_eq]
  unfold Attempt.makeAll
  rfl

theorem Affairs.isHearing_move {move : Move} (h : ∀ sender bytes, move ≠ .hear sender bytes) :
    (a.move move).1.any Deed.isHearing = false := by
  cases move with
  | hear sender bytes => exact absurd rfl (h sender bytes)
  | begin =>
      simp only [Affairs.move]
      cases a.started with
      | nil => rfl
      | cons assignment started =>
          dsimp only
          split <;> rfl
  | resume number reception =>
      simp only [Affairs.move]
      split <;> rfl
  | stop | wait => rfl

/-- Moves without a datagram on the listening socket are none of the dispatcher's business. -/
theorem Service.moves (h : Service post start deeds post' a) (moves : List Move)
    (hm : ∀ sender bytes, .hear sender bytes ∉ moves) :
    Service post start (deeds ++ (a.moves moves).1) post' (a.moves moves).2 := by
  induction moves generalizing deeds a with
  | nil => exact (List.append_nil deeds).symm ▸ h
  | cons move moves ih =>
      have hs : Service post start (deeds ++ (a.move move).1.toList) post' (a.move move).2 := by
        rcases a.advance_move move with had | hno
        · refine h.step (.goesOn had (Affairs.isHearing_move fun sender bytes he => ?_))
          exact hm sender bytes (he ▸ List.mem_cons_self)
        · rw [hno]
          exact (List.append_nil deeds).symm ▸ h
      have hi := ih hs fun sender bytes hmem => hm sender bytes (List.mem_cons_of_mem _ hmem)
      rw [List.append_assoc] at hi
      exact hi

/-! ## Servers that are to stop -/

/-- Deciding about a datagram leaves the frame of the world alone. -/
theorem accept_frame (server : Server S) (sender : Address) (bytes : Bytes) :
    (server.accept sender bytes).2.world.frame = server.world.frame := by
  obtain ⟨registry, faults, lines, he, -⟩ := accept_noted server sender bytes
  rw [he]
  rfl

/-- A server that has been asked to stop is not asked to go on. -/
theorem Advance.stopping (h : Advance a deed? a') (hs : a.server.world.stopping = true) :
    a'.server.world.stopping = true := by
  cases h with
  | hears sender bytes => exact (congrArg World.Frame.stopping (accept_frame ..)).trans hs
  | @lacks before after assignment f world _ hk =>
      obtain ⟨network, rfl⟩ := world_of_lacks hk
      have hf : (a.server.launch assignment).world.frame =
          World.frame { a.server.world with network } := by
        unfold launch
        rw [commence_of_error _ hk]
        exact act_frame _ (.worldLog _)
      exact (congrArg World.Frame.stopping hf).trans hs
  | begins _ hk =>
      obtain ⟨network, rfl⟩ := world_of_askSocket hk
      rw [launch_of_ok _ hk]
      exact (congrArg World.Frame.stopping (dealWith_frame ..)).trans hs
  | resumes =>
      rw [resume_eq_dealWith]
      exact (congrArg World.Frame.stopping (dealWith_frame ..)).trans hs
  | meanwhile world hw => exact hw.stopping hs

theorem Course.stopping (h : Course start deeds a) (hs : start.server.world.stopping = true) :
    a.server.world.stopping = true := by
  induction h with
  | refl => exact hs
  | step _ hstep ih => exact hstep.stopping ih

/-- How many receives the dispatcher still makes, once the server is to stop. -/
def Post.receives : Post → Nat
  | listening => 1
  | _ => 0

/-- **When a server has been asked to stop, its dispatcher hears at most one datagram more**, and
that only if it is waiting for it already. -/
theorem Service.receives (h : Service post start deeds post' a)
    (hs : start.server.world.stopping = true) :
    deeds.countP Deed.isHearing + post'.receives ≤ post.receives := by
  induction h with
  | refl => simp
  | @step deeds deed? post' post'' a a' h hstep ih =>
      have hs := h.course.stopping hs
      rw [List.countP_append]
      cases hstep with
      | listens hn | breaks hn => cases hs.symm.trans hn
      | looks | hears | joins | returns => simp_all [Post.receives, Deed.isHearing]
      | hearsNothing | errs => exact Nat.le_of_succ_le ih
      | goesOn _ hne =>
          have : deed?.toList.countP Deed.isHearing = 0 := by
            cases deed? <;> simp_all
          omega

/-! ## Dispatchers that return -/

theorem Affairs.Follows.subset_of_ofTurn {peer : Address} {task? : Option (Task S)}
    (h : a.Follows (Entry.ofTurn peer task?) a') : ∀ p ∈ a'.peers, p ∈ a.peers := by
  cases task? with
  | some task => exact fun p hp => h.2.mem_iff.1 hp
  | none => exact fun p hp => h.2.mem_iff.2 (List.mem_cons_of_mem _ hp)

/-- Nobody becomes a client with a transfer but by a datagram. -/
theorem Advance.peers_subset (h : Advance a deed? a') (hc : a.Consistent)
    (hne : deed?.any Deed.isHearing = false) : ∀ p ∈ a'.peers, p ∈ a.peers := by
  cases h with
  | hears => cases hne
  | lacks hs | begins hs => exact (commences_follows hs).subset_of_ofTurn
  | resumes reception ht => exact (resumes_follows hc.numbers ht reception).subset_of_ofTurn
  | meanwhile => exact fun _ => id

/-- What the dispatcher knows of the clients with a transfer: while it waits for transfers to end,
there are no others than those it still waits for. -/
def Post.Knows : Post → List Address → Prop
  | closing peers, clients => ∀ p ∈ clients, p ∈ peers
  | returned, clients => clients = []
  | _, _ => True

theorem Serves.knows (h : Serves post a deed? post' a') (hc : a.Consistent)
    (hk : post.Knows a.peers) : post'.Knows a'.peers := by
  cases h with
  | looks =>
      intro p hm
      rw [log_eq_world] at hm
      exact List.mem_reverse.2 (hc.registered.mem_iff.2 hm)
  | joins hne =>
      intro p hm
      exact (List.mem_cons.1 (hk p hm)).resolve_left fun he => hne (he ▸ hm)
  | returns => exact List.eq_nil_iff_forall_not_mem.2 fun p hm => nomatch hk p hm
  | goesOn h hne =>
      have hs := h.peers_subset hc hne
      cases post with
      | closing peers => exact fun p hm => hk p (hs p hm)
      | returned =>
          refine List.eq_nil_iff_forall_not_mem.2 fun p hm => ?_
          have hm := hs p hm
          rw [show a.peers = [] from hk] at hm
          cases hm
      | _ => trivial
  | listens | breaks | hears | hearsNothing | errs => trivial

theorem Service.knows (h : Service .deciding start deeds post a) (hc : start.Consistent) :
    post.Knows a.peers := by
  induction h with
  | refl => trivial
  | step h hstep ih => exact hstep.knows (h.course.consistent hc) ih

/-- **When the dispatcher has returned, nothing is left.** -/
theorem Service.empty (h : Service .deciding start deeds .returned a) (hc : start.Consistent) :
    a.started = [] ∧ a.server.tasks = [] ∧ a.server.registry = .empty := by
  have hp : a.peers = [] := h.knows hc
  have hr : a.server.registry.peers = [] :=
    (hp ▸ (h.course.consistent hc).registered).eq_nil
  obtain ⟨hs, ht⟩ := List.append_eq_nil_iff.1 hp
  refine ⟨List.map_eq_nil_iff.1 hs, List.map_eq_nil_iff.1 ht, ?_⟩
  cases hreg : a.server.registry with
  | mk peers nodup =>
      rw [hreg] at hr
      cases hr
      rfl

end Server

end Tftp
