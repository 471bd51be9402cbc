import Tftp.Proofs.Timeline

/-!
# Servers that a client cannot tell apart

Two servers are `Abreast` for a client if it cannot tell them apart, but for its transfer. One that
serves this client only `Mirrors` another one that serves it among others: it has the client's transfer
or the task that is to make it, and nothing else. A step of the other server is either none of the
client's business (`Aside`), or the mirror takes the same step and the client sees the same of it
(`Twins.sights`).
-/

namespace Tftp

open Transfer

variable {S : Storage}

namespace Server

variable {apart : S.Apart} {client : Address}

/-! ## The same turn at two servers -/

/-- The same turn at two servers that the client cannot tell apart. -/
structure Twins (apart : S.Apart) (client : Address) (w v : World S) (p p' : Passage S) : Prop where
  kin : Kin apart client w v p.scene p'.scene
  reception : p'.reception? = p.reception?

namespace Twins

variable {w v : World S} {p p' : Passage S}

theorem outcome (h : Twins apart client w v p p') :
    p'.result = p.result ∧ Kin apart client w v p.after p'.after := by
  have ho := ((Kindred.pervasive _).turn p.reception? h.kin).outcome
  unfold Passage.result Passage.after Passage.reaction
  rw [h.reception]
  exact ⟨ho.1.symm, ho.2⟩

theorem phase (h : Twins apart client w v p p') : p'.after.self.phase = p.after.self.phase := by
  obtain ⟨port, he⟩ := h.outcome.2.self
  rw [he]
  rfl

theorem waits (h : Twins apart client w v p p') : p'.waits = p.waits := by
  unfold Passage.waits Transfer.isOver
  rw [h.outcome.1, h.phase]

theorem told (h : Twins apart client w v p p') : Server.told p' = Server.told p := by
  obtain ⟨hresult, hkin⟩ := h.outcome
  obtain ⟨port, he⟩ := hkin.self
  unfold Server.told
  rw [hresult, hkin.clock, he]
  rfl

/-- The client sees the same. -/
theorem sights (h : Twins apart client w v p p') (server server' : Server S) :
    Server.sights p' (v.since (server'.dealWith p').1.world) =
      Server.sights p (w.since (server.dealWith p).1.world) := by
  obtain ⟨hresult, hkin⟩ := h.outcome
  obtain ⟨new, new', hs, ht, hnew⟩ := hkin.shown
  obtain ⟨a, n, -, ha, hd⟩ := dealWith_of_faultless server p hkin.faultless
  obtain ⟨a', n', -, ha', hd'⟩ := dealWith_of_faultless server' p' hkin.faultless'
  have hpeer : p.scene.self.peer = client := h.kin.peer
  have hpeer' : p'.scene.self.peer = client := by
    obtain ⟨port, he⟩ := h.kin.self
    rw [he]
    exact hpeer
  have hafter : p.after.self.peer = client := hkin.peer
  have hafter' : p'.after.self.peer = client := by
    obtain ⟨port, he⟩ := hkin.self
    rw [he]
    exact hafter
  have hw : w.since (server.dealWith p).1.world = (a ++ new).reverse := by
    rw [hd]
    exact World.since_of_trace (by rw [hs, List.append_assoc])
  have hv : v.since (server'.dealWith p').1.world = (a' ++ new').reverse := by
    rw [hd']
    exact World.since_of_trace (by rw [ht, List.append_assoc])
  rw [hafter] at ha
  rw [hafter'] at ha'
  unfold Server.sights
  rw [hw, hv, hpeer, hpeer', h.waits, hresult, h.phase, shown_reverse, shown_reverse, shown_append,
    shown_append, ha, ha', h.told, hnew]

end Twins

/-! ## A server with one client only -/

/-- Servers that a client cannot tell apart, but for its transfer. -/
structure Abreast (apart : S.Apart) (client : Address) (server server' : Server S) : Prop where
  address : server'.address = server.address
  config : server'.config = server.config
  own : apart.Same client server.world.store server'.world.store
  clock : server'.world.clock = server.world.clock
  stopping : server'.world.stopping = server.world.stopping

/-- A server that serves one client only, as another server serves that client among others. -/
structure Mirrors (apart : S.Apart) (client : Address) (a e : Affairs S) : Prop where
  abreast : Abreast apart client a.server e.server
  /-- The task of the client's transfer is still to run. -/
  asked : ∀ x ∈ a.started, x.peer = client → e.started = [x] ∧ e.server.tasks = []
  /-- The client's transfer waits. -/
  busy : ∀ t ∈ a.server.tasks, t.transfer.peer = client → e.started = [] ∧
    ∃ u port, e.server.tasks = [u] ∧ u.transfer = t.transfer.onPort port
  /-- The client has no transfer. -/
  idle : client ∉ a.peers → e.started = [] ∧ e.server.tasks = []

/-- A step of a server that a client does not notice. -/
structure Aside (apart : S.Apart) (client : Address) (a a' : Affairs S) : Prop where
  abreast : Abreast apart client a.server a'.server
  started : ∀ x ∈ a'.started, x.peer = client → x ∈ a.started
  tasks : ∀ t ∈ a'.server.tasks, t.transfer.peer = client →
    ∃ u ∈ a.server.tasks, t.transfer = u.transfer
  peers : client ∈ a.peers → client ∈ a'.peers

section

variable {a a' e : Affairs S}

theorem Abreast.trans {server server' server'' : Server S}
    (h : Abreast apart client server server') (h' : Abreast apart client server' server'') :
    Abreast apart client server server'' where
  address := h'.address.trans h.address
  config := h'.config.trans h.config
  own := (apart.same client).trans h.own h'.own
  clock := h'.clock.trans h.clock
  stopping := h'.stopping.trans h.stopping

theorem Abreast.symm {server server' : Server S} (h : Abreast apart client server server') :
    Abreast apart client server' server where
  address := h.address.symm
  config := h.config.symm
  own := (apart.same client).symm h.own
  clock := h.clock.symm
  stopping := h.stopping.symm

theorem Mirrors.aside (h : Mirrors apart client a e) (ha : Aside apart client a a') :
    Mirrors apart client a' e where
  abreast := ha.abreast.symm.trans h.abreast
  asked x hx hp := h.asked x (ha.started x hx hp) hp
  busy t ht hp := by
    obtain ⟨u, hu, he⟩ := ha.tasks t ht hp
    rw [he] at hp ⊢
    exact h.busy u hu hp
  idle hn := h.idle fun hm => hn (ha.peers hm)

theorem Affairs.Consistent.nodup (h : a.Consistent) : a.peers.Nodup :=
  h.registered.nodup_iff.1 a.server.registry.nodup

/-- A client has one transfer at most. -/
theorem Affairs.Consistent.task_unique (h : a.Consistent) {t u : Task S}
    (ht : t ∈ a.server.tasks) (hu : u ∈ a.server.tasks)
    (he : t.transfer.peer = u.transfer.peer) : t = u :=
  List.inj_on_of_nodup_map (List.nodup_append.1 h.nodup).2.1 ht hu he

theorem Affairs.Consistent.not_started (h : a.Consistent) {t : Task S}
    (ht : t ∈ a.server.tasks) {x : Assignment} (hx : x ∈ a.started) :
    x.peer ≠ t.transfer.peer := by
  have hd := (List.nodup_append.1 h.nodup).2.2
  exact hd _ (List.mem_map_of_mem hx) _ (List.mem_map_of_mem ht)

/-- The end of another client's transfer, or any other step, leaves a client among those served. -/
theorem Affairs.Follows.mem {entry : Option Entry} (h : a.Follows entry a')
    (hne : entry ≠ some (.ended client)) (hm : client ∈ a.peers) : client ∈ a'.peers := by
  cases entry with
  | none => exact h.2.mem_iff.2 hm
  | some entry =>
      cases entry with
      | accepted peer => exact h.2.mem_iff.2 (List.mem_cons_of_mem _ hm)
      | ended peer =>
          refine (List.mem_cons.1 (h.2.mem_iff.1 hm)).resolve_left fun he => hne ?_
          rw [he]

/-! ## What others do -/

theorem dealWith_abreast {server : Server S} {p : Passage S} (h : p.Fit apart)
    (hw : ∃ network, p.scene.world = { server.world with network })
    (own : apart.Same client server.world.store p.after.world.store) :
    Abreast apart client server (server.dealWith p).1 := by
  have hstore := dealWith_store server p
  have hframe := dealWith_frame server p
  obtain ⟨lines, network, -, -, hd⟩ := dealWith_of_faultless server p h.kin.faultless
  obtain ⟨network', hw⟩ := hw
  rw [hw] at hframe
  exact ⟨by rw [hd], by rw [hd], hstore ▸ own, congrArg World.Frame.clock hframe,
    congrArg World.Frame.stopping hframe⟩

/-- Nobody but its client can tell that a transfer has taken a turn. -/
theorem dealWith_others {server : Server S} {p : Passage S} (h : p.Fit apart)
    (hw : ∃ network, p.scene.world = { server.world with network })
    (hne : p.scene.self.peer ≠ client) : Abreast apart client server (server.dealWith p).1 := by
  refine dealWith_abreast h hw ?_
  have own := h.kin.others client (Ne.symm hne)
  obtain ⟨network, hw⟩ := hw
  rwa [hw] at own

theorem launch_abreast {server server' : Server S} {x : Assignment} {socket : Socket}
    {world : World S} (hk : server'.askSocket = .ok socket world)
    (h : Abreast apart client server
      (server'.dealWith (server'.firstPassage x socket world)).1) :
    Abreast apart client server (server'.launch x) := by
  rw [launch_of_ok x hk]
  exact ⟨h.address, h.config, h.own, h.clock, h.stopping⟩

theorem resume_abreast {server server' : Server S} {task : Task S} {reception : Reception}
    (h : Abreast apart client server
      (server'.dealWith (server'.nextPassage task reception)).1) :
    Abreast apart client server (server'.resume task reception) := by
  rw [resume_eq_dealWith]
  exact ⟨h.address, h.config, h.own, h.clock, h.stopping⟩

theorem peer_of_dealWith {server : Server S} {p : Passage S} (h : p.Fit apart) {t : Task S}
    (ht : t ∈ (server.dealWith p).2) : t.transfer.peer = p.scene.self.peer := by
  rw [(dealWith_waits h t ht).2]
  exact congrArg Frame.peer p.frame

theorem ofTurn_ne_ended {peer : Address} (hne : peer ≠ client) (task? : Option (Task S)) :
    Entry.ofTurn peer task? ≠ some (.ended client) := by
  cases task? with
  | none => exact fun h => hne (Entry.ended.inj (Option.some.inj h))
  | some task => exact fun h => nomatch h

theorem aside_begins (ho : a.Orderly apart) {before after : List Assignment} {x : Assignment}
    (hs : a.started = before ++ x :: after) (hne : x.peer ≠ client) :
    Aside apart client a (a.begins x (before ++ after)).affairs := by
  have hk := askSocket_of_faultless ho.faultless
  have hfit := firstPassage_fit apart ho.faultless x hk
  refine ⟨launch_abreast hk (dealWith_others hfit (world_of_askSocket hk) hne), fun y hy _ => ?_,
    fun t ht hp => ?_, ?_⟩
  · rw [hs]
    simp only [List.mem_append, List.mem_cons]
    rcases List.mem_append.1 hy with hy | hy
    · exact .inl hy
    · exact .inr (.inr hy)
  · rcases (mem_launch hk).1 ht with ht | ht
    · exact ⟨t, ht, rfl⟩
    · exact absurd ((peer_of_dealWith hfit ht).symm.trans hp) hne
  · exact ((Step.commences hs).consistent ho.consistent).1.mem (ofTurn_ne_ended hne _)

theorem aside_resumes (ho : a.Orderly apart) {task : Task S} (hm : task ∈ a.server.tasks)
    (reception : Reception) (hne : task.transfer.peer ≠ client) :
    Aside apart client a (a.resumes task reception).affairs := by
  have hfit := nextPassage_fit ho.faultless (ho.tasks task hm) reception
  refine ⟨resume_abreast (dealWith_others hfit ⟨a.server.world.network, rfl⟩ hne), fun y hy _ => hy,
    fun t ht hp => ?_, ?_⟩
  · rcases (mem_resume hm).1 ht with ⟨ht, -⟩ | ht
    · exact ⟨t, ht, rfl⟩
    · exact absurd ((peer_of_dealWith hfit ht).symm.trans hp) hne
  · exact ((Step.resumes reception hm).consistent ho.consistent).1.mem (ofTurn_ne_ended hne _)

/-- Nobody can tell from the world that something has been decided. -/
theorem accept_abreast {server : Server S} (h : server.world.network.faults = [])
    (sender : Address) (bytes : Bytes) (client : Address) :
    Abreast apart client server (server.accept sender bytes).2 := by
  obtain ⟨registry, lines, he⟩ := accept_of_faultless h sender bytes
  rw [he]
  exact ⟨rfl, rfl, (apart.same client).refl _, rfl, rfl⟩

theorem aside_hears (ho : a.Orderly apart) {sender : Address} (bytes : Bytes)
    (hne : sender ≠ client) : Aside apart client a (a.hears sender bytes).affairs := by
  refine ⟨accept_abreast ho.faultless sender bytes client, fun x hx hp => ?_,
    fun t ht _ => ⟨t, ?_, rfl⟩, ?_⟩
  · refine (List.mem_append.1 hx).resolve_right fun hx => hne ?_
    rw [← (accept_eq_some_iff.1 (Option.mem_toList.1 hx)).1, hp]
  · rwa [← accept_tasks a.server sender bytes]
  · refine ((Step.hears sender bytes).consistent ho.consistent).1.mem ?_
    cases (a.server.accept sender bytes).1 with
    | none => exact fun h => nomatch h
    | some x => exact fun h => nomatch h

/-! ## Turns in which nothing happens -/

/-- A turn of a transfer whose deadline lies ahead, about something that it has no use for. -/
structure Vain (apart : S.Apart) (server : Server S) (task : Task S) (reception : Reception) :
    Prop where
  faultless : server.world.network.faults = []
  sound : Sound apart task
  goesOn : server.world.stopping = false
  early : server.world.clock < task.transfer.deadline
  ignored : reception.isIgnored task.transfer.peer task.transfer.direction = true

section

variable {server : Server S} {task : Task S} {reception : Reception}

theorem Vain.ignores (h : Vain apart server task reception) :
    (server.nextPassage task reception).result = .ok () ∧
    Akin task.transfer.peer [] (fun _ _ => True) (server.nextPassage task reception).scene
      (server.nextPassage task reception).after := by
  have hp : (server.nextPassage task reception).scene.view.Poised :=
    ⟨h.sound.isOver, fun hs => absurd (h.goesOn.symm.trans hs.2) (by decide), h.early⟩
  have hsteady : Network.Steadfast none 0 server.world.network :=
    ⟨by simp [h.faultless], by rw [h.faultless]; exact .free⟩
  have hsteady' : Network.Steadfast none 0 (server.world.network.afterSend Packet.turnedAway.encode) :=
    hsteady.congr (by rw [Network.afterSend_eq, h.faultless]; rfl)
  have hi := @resume_ignored _ _ none 0 _ hp h.ignored (by split <;> assumption)
  unfold Passage.result Passage.after Passage.reaction
  rw [show (server.nextPassage task reception).reception? = some reception from rfl, ← resume_eq]
  exact ⟨hi.1, hi.2.1⟩

theorem Vain.waits (h : Vain apart server task reception) :
    (server.nextPassage task reception).waits = true := by
  obtain ⟨hresult, hakin⟩ := h.ignores
  unfold Passage.waits
  rw [hresult, ← hakin.self]
  show (!task.transfer.isOver) = true
  rw [h.sound.isOver]
  rfl

/-- The client sees nothing of it. -/
theorem Vain.sights_eq (h : Vain apart server task reception) :
    sights (server.nextPassage task reception)
      (server.world.since (server.resume task reception).world) = [] := by
  obtain ⟨hresult, hakin⟩ := h.ignores
  have hfit := nextPassage_fit h.faultless h.sound reception
  obtain ⟨new, -, hnew, -, -⟩ := hfit.kin.shown
  obtain ⟨lines, network, -, hlines, hd⟩ :=
    dealWith_of_faultless server (server.nextPassage task reception) hfit.kin.faultless
  have htold := hakin.told
  have hpeer : (server.nextPassage task reception).after.self.peer = task.transfer.peer := by
    rw [← hakin.self]
    rfl
  -- Neither what the turn has put on record nor what follows it shows anything to the client.
  have hnone : shown task.transfer.peer lines = [] := by
    rw [← hpeer, hlines]
    unfold told
    rw [hresult]
  have hnone' : shown task.transfer.peer new = [] := by
    unfold World.told at htold
    rw [hnew, List.reverse_append, List.filter_append] at htold
    have hfilter : new.reverse.filter (Event.concerns task.transfer.peer) = [] := by
      simpa using htold
    rw [List.filter_reverse, List.reverse_eq_nil_iff] at hfilter
    rw [shown, hfilter]
    rfl
  have hsince : server.world.since (server.resume task reception).world = (lines ++ new).reverse := by
    rw [resume_world, hd]
    refine World.since_of_trace (w := server.world) ?_
    dsimp only
    rw [hnew, List.append_assoc]
    rfl
  unfold sights
  rw [h.waits, hsince, shown_reverse, shown_append]
  show ((shown task.transfer.peer lines ++ shown task.transfer.peer new).reverse.map _ ++ _).map _ = _
  rw [hnone, hnone']
  rfl

/-- The transfer waits again, and it is what it was. -/
theorem Vain.dealWith_eq (h : Vain apart server task reception) :
    ∃ wakes, (server.dealWith (server.nextPassage task reception)).2 =
      some ⟨task.number, task.transfer, wakes⟩ := by
  have hfit := nextPassage_fit h.faultless h.sound reception
  obtain ⟨lines, network, -, -, hd⟩ :=
    dealWith_of_faultless server (server.nextPassage task reception) hfit.kin.faultless
  rw [hd, h.waits, ← h.ignores.2.self]
  exact ⟨_, rfl⟩

theorem Vain.abreast (h : Vain apart server task reception) :
    Abreast apart client server (server.resume task reception) := by
  refine resume_abreast (dealWith_abreast (nextPassage_fit h.faultless h.sound reception)
    ⟨server.world.network, rfl⟩ ?_)
  rw [← h.ignores.2.store]
  exact (apart.same client).refl _

end

/-- Not even its own client notices such a turn. -/
theorem Vain.aside (hc : a.Consistent) {task : Task S} {reception : Reception}
    (h : Vain apart a.server task reception) (hm : task ∈ a.server.tasks) :
    Aside apart client a (a.resumes task reception).affairs := by
  obtain ⟨wakes, hd⟩ := h.dealWith_eq
  refine ⟨h.abreast, fun y hy _ => hy, fun t ht _ => ?_, ?_⟩
  · rcases (mem_resume hm).1 ht with ⟨ht, -⟩ | ht
    · exact ⟨t, ht, rfl⟩
    · obtain rfl := Option.some.inj (hd.symm.trans ht)
      exact ⟨task, hm, rfl⟩
  · refine ((Step.resumes reception hm).consistent hc).1.mem ?_
    rw [goOn_eq_dealWith, hd]
    exact fun h => nomatch h

/-! ## The transfer of the client -/

section

variable {t u : Task S} {x : Assignment} {port : UInt16}

theorem Mirrors.of_busy (hc : a.Consistent) (h : Abreast apart client a.server e.server)
    (ht : t ∈ a.server.tasks) (hp : t.transfer.peer = client) (hs : e.started = [])
    (hu : e.server.tasks = [u]) (he : u.transfer = t.transfer.onPort port) :
    Mirrors apart client a e where
  abreast := h
  asked x hx hx' := absurd (hx'.trans hp.symm) (hc.not_started ht hx)
  busy t' ht' hp' := by
    obtain rfl := hc.task_unique ht ht' (hp.trans hp'.symm)
    exact ⟨hs, u, port, hu, he⟩
  idle hn := absurd (List.mem_append_right _ (List.mem_map.2 ⟨t, ht, hp⟩)) hn

theorem Mirrors.of_asked (hc : a.Consistent) (h : Abreast apart client a.server e.server)
    (hx : x ∈ a.started) (hp : x.peer = client) (hs : e.started = [x])
    (ht : e.server.tasks = []) : Mirrors apart client a e where
  abreast := h
  asked y hy hy' := by
    have hn := (List.nodup_append.1 hc.nodup).1
    obtain rfl := List.inj_on_of_nodup_map hn hx hy (hp.trans hy'.symm)
    exact ⟨hs, ht⟩
  busy t ht hp' := absurd (hp.trans hp'.symm) (hc.not_started ht hx)
  idle hn := absurd (List.mem_append_left _ (List.mem_map.2 ⟨x, hx, hp⟩)) hn

theorem Mirrors.of_idle (h : Abreast apart client a.server e.server) (hn : client ∉ a.peers)
    (hs : e.started = []) (ht : e.server.tasks = []) : Mirrors apart client a e where
  abreast := h
  asked x hx hp := absurd (List.mem_append_left _ (List.mem_map.2 ⟨x, hx, hp⟩)) hn
  busy t ht hp := absurd (List.mem_append_right _ (List.mem_map.2 ⟨t, ht, hp⟩)) hn
  idle _ := ⟨hs, ht⟩

/-- The only transfer takes a turn. -/
theorem resume_sole {server : Server S} (h : server.tasks = [u]) (reception : Reception) :
    (server.resume u reception).tasks =
      (server.dealWith (server.nextPassage u reception)).2.toList := by
  rw [resume_eq_dealWith, h]
  simp

theorem launch_sole {server : Server S} (h : server.tasks = []) {socket : Socket}
    {world : World S} (hk : server.askSocket = .ok socket world) :
    (server.launch x).tasks =
      (server.dealWith (server.firstPassage x socket world)).2.toList := by
  rw [launch_of_ok x hk, h]
  simp

end

/-- A client whose transfer has ended is not served any more. -/
theorem Affairs.Follows.gone (h : a.Follows (some (.ended client)) a') (hc : a.Consistent) :
    client ∉ a'.peers :=
  (List.nodup_cons.1 (h.2.nodup_iff.1 hc.nodup)).1

namespace Twins

variable {w v : World S} {p p' : Passage S} {server server' : Server S}

theorem abreast (h : Twins apart client w v p p') (hs : Abreast apart client server server') :
    Abreast apart client (server.dealWith p).1 (server'.dealWith p').1 := by
  have hkin := h.outcome.2
  have hframe := dealWith_frame server p
  have hframe' := dealWith_frame server' p'
  have hstore := dealWith_store server p
  have hstore' := dealWith_store server' p'
  obtain ⟨lines, network, -, -, hd⟩ := dealWith_of_faultless server p hkin.faultless
  obtain ⟨lines', network', -, -, hd'⟩ := dealWith_of_faultless server' p' hkin.faultless'
  refine ⟨?_, ?_, ?_, ?_, ?_⟩
  · rw [hd, hd']
    exact hs.address
  · rw [hd, hd']
    exact hs.config
  · rw [hstore, hstore']
    exact hkin.own
  · exact (congrArg World.Frame.clock hframe').trans
      (h.kin.clock.trans (congrArg World.Frame.clock hframe).symm)
  · exact (congrArg World.Frame.stopping hframe').trans
      (h.kin.stopping.trans (congrArg World.Frame.stopping hframe).symm)

/-- What becomes of the transfer is the same. -/
theorem mirrors (h : Twins apart client w v p p') (server server' : Server S) (hc : a'.Consistent)
    (hs : Abreast apart client a'.server e.server) (he : e.started = [])
    (ht : e.server.tasks = (server'.dealWith p').2.toList)
    (stays : ∀ t ∈ (server.dealWith p).2, t ∈ a'.server.tasks)
    (ends : (server.dealWith p).2 = none → client ∉ a'.peers) : Mirrors apart client a' e := by
  have hkin := h.outcome.2
  obtain ⟨port, hself⟩ := hkin.self
  obtain ⟨lines, network, -, -, hd⟩ := dealWith_of_faultless server p hkin.faultless
  obtain ⟨lines', network', -, -, hd'⟩ := dealWith_of_faultless server' p' hkin.faultless'
  rw [hd] at stays ends
  rw [hd', h.waits] at ht
  cases hw : p.waits with
  | false =>
      rw [hw] at ends ht
      exact .of_idle hs (ends rfl) he ht
  | true =>
      rw [hw] at stays ht
      exact .of_busy hc hs (stays _ rfl) hkin.peer he ht hself

end Twins

/-- The transfer of the client begins. -/
theorem Mirrors.first (h : Mirrors apart client a e) (ho : a.Orderly apart)
    (ho' : e.Orderly apart) {x : Assignment} (hp : x.peer = client) {socket socket' : Socket}
    {world world' : World S} (hk : a.server.askSocket = .ok socket world)
    (hk' : e.server.askSocket = .ok socket' world') :
    Twins apart client a.server.world e.server.world (a.server.firstPassage x socket world)
      (e.server.firstPassage x socket' world') := by
  have hfit := firstPassage_fit apart ho.faultless x hk
  rw [askSocket_of_faultless ho.faultless] at hk
  rw [askSocket_of_faultless ho'.faultless] at hk'
  cases hk
  cases hk'
  refine ⟨⟨hp, ⟨e.server.world.network.nextPort, ?_⟩, hfit.owned, h.abreast.own, ?_,
    h.abreast.clock, h.abreast.stopping, ho.faultless, ho'.faultless, ⟨[], [], rfl, rfl, rfl⟩⟩, rfl⟩
  · unfold firstPassage
    rw [h.abreast.address, h.abreast.config]
    rfl
  · exact fun other _ => (apart.same other).refl _

theorem Mirrors.begins (h : Mirrors apart client a e) (ho : a.Orderly apart)
    (ho' : e.Orderly apart) {before after : List Assignment} {x : Assignment}
    (hs : a.started = before ++ x :: after) (hp : x.peer = client) :
    Mirrors apart client (a.begins x (before ++ after)).affairs (e.begins x []).affairs ∧
    (e.begins x []).seen = (a.begins x (before ++ after)).seen := by
  obtain ⟨he, ht⟩ := h.asked x (by rw [hs]; simp) hp
  obtain ⟨socket, world, hk⟩ : ∃ socket world, a.server.askSocket = .ok socket world :=
    ⟨_, _, askSocket_of_faultless ho.faultless⟩
  obtain ⟨socket', world', hk'⟩ : ∃ socket world, e.server.askSocket = .ok socket world :=
    ⟨_, _, askSocket_of_faultless ho'.faultless⟩
  obtain ⟨hfollows, hc⟩ := (Step.commences hs).consistent ho.consistent
  have htwins := h.first ho ho' hp hk hk'
  have hdealt := htwins.abreast h.abreast
  refine ⟨htwins.mirrors a.server e.server hc (launch_abreast hk' (launch_abreast hk hdealt.symm).symm) rfl
    (launch_sole ht hk') ?_ ?_, ?_⟩
  · exact fun t' ht' => (mem_launch hk).2 (.inr ht')
  · intro hn
    rw [commence_of_ok x hk, hn, hp] at hfollows
    exact hfollows.gone ho.consistent
  · unfold Affairs.begins
    rw [hk, hk']
    dsimp only
    rw [launch_world hk, launch_world hk']
    exact htwins.sights _ _

theorem Mirrors.resumes (h : Mirrors apart client a e) (ho : a.Orderly apart)
    (ho' : e.Orderly apart) {t u : Task S} (ht : t ∈ a.server.tasks) (hp : t.transfer.peer = client)
    (hu : e.server.tasks = [u]) (reception : Reception) :
    Mirrors apart client (a.resumes t reception).affairs (e.resumes u reception).affairs ∧
    (e.resumes u reception).seen = (a.resumes t reception).seen := by
  obtain ⟨he, u', port, hu', hself⟩ := h.busy t ht hp
  obtain rfl : u = u' := by simpa [hu] using hu'
  obtain ⟨hfollows, hc⟩ := (Step.resumes reception ht).consistent ho.consistent
  have htwins : Twins apart client a.server.world e.server.world
      (a.server.nextPassage t reception) (e.server.nextPassage u reception) := by
    refine ⟨⟨hp, ⟨port, hself⟩, (ho.tasks t ht).owned, h.abreast.own, ?_, h.abreast.clock,
      h.abreast.stopping, ho.faultless, ho'.faultless, ⟨[], [], rfl, rfl, rfl⟩⟩, rfl⟩
    exact fun other _ => (apart.same other).refl _
  have hdealt := htwins.abreast h.abreast
  refine ⟨htwins.mirrors a.server e.server hc (resume_abreast (resume_abreast hdealt.symm).symm) he
    (resume_sole hu reception) ?_ ?_, ?_⟩
  · exact fun t' ht' => (mem_resume ht).2 (.inr ht')
  · intro hn
    rw [goOn_eq_dealWith, hn, hp] at hfollows
    exact hfollows.gone ho.consistent
  · show sights _ _ = sights _ _
    rw [resume_world, resume_world]
    exact htwins.sights _ _

end

end Server

end Tftp
