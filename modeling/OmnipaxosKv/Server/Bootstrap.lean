import Mathlib.Data.Finset.Card
import OmnipaxosKv.Lib.Machine
import OmnipaxosKv.Server.Network

/-! # `Network::new`

Handshake tasks number the clients, hand their connections over in any order, and
`initialize_connections` returns once it holds enough of them. The start signals then
go to the ids `1..num_clients`. `every_client_started_iff` says for which orders these
ids cover the clients that the table holds.
-/

namespace OmnipaxosKv

namespace Server

namespace Network

variable {M : Type}

/-- A server's network from `Network::new` on, with nothing sent or received yet. -/
def bootstrap (M : Type) (cfg : Config) (t : Transport) : Machine (Network M) NetworkStep where
  init := fun n => n = new cfg
  guard := guard t
  update := update cfg.numClients

instance (cfg : Config) (t : Transport) (l : NetworkStep) (n : Network M) :
    Decidable ((bootstrap M cfg t).guard l n) :=
  inferInstanceAs (Decidable (guard t l n))

/-! ## What a list of connections amounts to -/

def clientId? : NewConnection → Option ClientId
  | .toPeer _ => none
  | .toClient connection => some connection.clientId

def clientIds (conns : List NewConnection) : Finset ClientId := (conns.filterMap clientId?).toFinset

/-- `num_clients` clients and all peers are among the connections. -/
def Ready (numClients : ℕ) (peers : List NodeId) (conns : List NewConnection) : Prop :=
  numClients ≤ (clientIds conns).card ∧ ∀ p ∈ peers, .toPeer ⟨p⟩ ∈ conns

/-- Connections of clients numbered above `num_clients` are handed over only behind
connections that suffice to return. -/
def ExtraClientsComeLast (numClients : ℕ) (peers : List NodeId) (conns : List NewConnection) :
    Prop :=
  ∀ earlier k later, conns = earlier ++ .toClient ⟨k⟩ :: later → numClients < k →
    earlier ≠ [] ∧ Ready numClients peers earlier

/-- The slot of a peer after these connections. -/
def slot (conns : List NewConnection) (p : NodeId) : Option PeerConnection :=
  if .toPeer ⟨p⟩ ∈ conns then some ⟨p⟩ else none

/-- The ids are those of the clients among the connections. -/
theorem mem_clientIds {conns : List NewConnection} {k : ClientId} :
    k ∈ clientIds conns ↔ .toClient ⟨k⟩ ∈ conns := by
  simp only [clientIds, List.mem_toFinset, List.mem_filterMap]
  constructor
  · rintro ⟨c | c, hmem, hk⟩
    · cases hk
    · obtain rfl : c.clientId = k := Option.some.inj hk
      exact hmem
  · exact fun hmem => ⟨_, hmem, rfl⟩

theorem Ready.mono {numClients : ℕ} {peers : List NodeId} {conns conns' : List NewConnection}
    (h : Ready numClients peers conns) (hsub : conns ⊆ conns') : Ready numClients peers conns' := by
  refine ⟨h.1.trans (Finset.card_le_card fun k hk => ?_), fun p hp => hsub (h.2 p hp)⟩
  rw [mem_clientIds] at hk ⊢
  exact hsub hk

theorem clientIds_concat_toClient (conns : List NewConnection) (k : ClientId) :
    clientIds (conns ++ [.toClient ⟨k⟩]) = insert k (clientIds conns) := by
  ext k'
  simp [mem_clientIds, or_comm]

theorem clientIds_concat_toPeer (conns : List NewConnection) (c : PeerConnection) :
    clientIds (conns ++ [.toPeer c]) = clientIds conns := by
  ext k'
  simp [mem_clientIds]

/-- To fill the slot of a peer is to take its connection into account. -/
theorem set_map_slot {peers : List NodeId} (hnodup : peers.Nodup) {conns : List NewConnection}
    {c : PeerConnection} {idx : ℕ} (hidx : peers[idx]? = some c.peerId) :
    (peers.map (slot conns)).set idx (some c) = peers.map (slot (conns ++ [.toPeer c])) := by
  apply List.ext_getElem?
  intro i
  rw [List.getElem?_set, List.getElem?_map, List.getElem?_map]
  obtain ⟨hlt, hc⟩ := List.getElem?_eq_some_iff.mp hidx
  split
  · next heq =>
      subst heq
      simp [hlt, hc, slot]
  · next hne =>
      cases hp : peers[i]? with
      | none => rfl
      | some p =>
          have hpc : p ≠ c.peerId := by
            intro heq
            obtain ⟨hi, hpi⟩ := List.getElem?_eq_some_iff.mp hp
            exact hne ((List.Nodup.getElem_inj_iff hnodup).mp (by rw [hc, hpi, heq]))
          have hmem : (NewConnection.toPeer ⟨p⟩ ∈ conns ++ [.toPeer c]) ↔ .toPeer ⟨p⟩ ∈ conns := by
            simp only [List.mem_append, List.mem_singleton, or_iff_left_iff_imp]
            rintro ⟨⟩
            exact absurd rfl hpc
          simp [slot, hmem]

/-! ## The loop -/

/-- The tables are what the connections received so far make of them. -/
structure Tracked (cfg : Config) (n : Network M) : Prop where
  peers : n.peers = cfg.peers
  slots : n.peerConnections = n.peers.map (slot n.received)
  entries : ∀ k, n.clientConnections.lookup k =
    if k ∈ clientIds n.received then some ⟨k⟩ else none
  silent : n.clientSends = []

/-- The loop takes the connections in order and has not had enough before its end. -/
structure Loop (cfg : Config) (n : Network M) : Prop where
  order : n.initializing = true → n.handedOver = n.received ++ n.connectionSource
  taken : n.received <+: n.handedOver
  waiting : n.panicked = false → ∀ earlier later, n.received = earlier ++ later → earlier ≠ [] →
    later ≠ [] ∨ n.initializing = true → ¬ Ready cfg.numClients cfg.peers earlier
  returned : n.initializing = false →
    n.received ≠ [] ∧ Ready cfg.numClients cfg.peers n.received ∧ n.panicked = false

section

variable {cfg : Config} {t : Transport} {n : Network M}

/-- The tables keep up with the next connection. -/
theorem tracked_insert (h : n.Tracked cfg) (c : NewConnection) (rest : List NewConnection) :
    (insertConnection c { n with connectionSource := rest, received := n.received ++ [c] }).Tracked
      cfg := by
  cases c with
  | toPeer c =>
      have hentries : ∀ k, n.clientConnections.lookup k =
          if k ∈ clientIds (n.received ++ [.toPeer c]) then some ⟨k⟩ else none := by
        intro k
        rw [clientIds_concat_toPeer]
        exact h.entries k
      unfold insertConnection
      dsimp only
      split
      · -- an unknown peer changes no slot
        next hidx =>
          refine ⟨h.peers, ?_, hentries, h.silent⟩
          have hnot : c.peerId ∉ n.peers := by
            simpa [clusterIdToIdx] using hidx
          rw [h.slots]
          apply List.map_congr_left
          intro p hp
          have hpc : p ≠ c.peerId := fun heq => hnot (heq ▸ hp)
          have hmem : (NewConnection.toPeer ⟨p⟩ ∈ n.received ++ [.toPeer c]) ↔
              .toPeer ⟨p⟩ ∈ n.received := by
            simp only [List.mem_append, List.mem_singleton, or_iff_left_iff_imp]
            rintro ⟨⟩
            exact absurd rfl hpc
          simp [slot, hmem]
      -- a peer has its slot filled
      · next idx hidx =>
          have hget : n.peers[idx]? = some c.peerId := getElem?_of_clusterIdToIdx hidx
          have hlt : idx < n.peerConnections.length := by
            rw [h.slots, List.length_map]
            exact (List.getElem?_eq_some_iff.mp hget).1
          rw [if_pos hlt]
          refine ⟨h.peers, ?_, hentries, h.silent⟩
          have hnodup : n.peers.Nodup := h.peers ▸ cfg.peers_nodup
          rw [h.slots]
          exact set_map_slot hnodup hget
  | toClient c =>
      refine ⟨h.peers, ?_, ?_, h.silent⟩
      -- a client fills no slot
      · refine h.slots.trans (List.map_congr_left fun p _ => ?_)
        simp [slot, insertConnection]
      -- its entry is set, or set again
      · intro k
        change (n.clientConnections.insert c.clientId c).lookup k = _
        rw [lookup_insert_ite, h.entries k]
        change _ = if k ∈ clientIds (n.received ++ [.toClient ⟨c.clientId⟩]) then _ else _
        rw [clientIds_concat_toClient]
        by_cases hk : k = c.clientId
        · simp [hk]
        · simp [hk]

/-- In every run the tables are what the connections make of them. -/
theorem tracked_reachable (hr : (bootstrap M cfg t).Reachable n) : n.Tracked cfg := by
  refine (bootstrap M cfg t).invariant (Tracked cfg) ?_ ?_ n hr
  · rintro _ rfl
    refine ⟨rfl, ?_, by simp [new, clientIds], rfl⟩
    have hnone : slot [] = fun _ => none := funext fun p => by simp [slot]
    simp [new, hnone, List.map_const']
  · intro l n _ _ h
    cases l with
    | handOver i =>
        simp only [bootstrap, update, handOver]
        repeat' split
        all_goals exact ⟨h.peers, h.slots, h.entries, h.silent⟩
    | recvConnection =>
        simp only [bootstrap, update, recvConnection]
        split
        · exact h
        · next c rest _ =>
            have hins := tracked_insert h c rest
            split
            · exact ⟨hins.peers, hins.slots, hins.entries, hins.silent⟩
            · exact hins
    | _ => exact ⟨h.peers, h.slots, h.entries, h.silent⟩

/-- The readiness check counts what was received. -/
theorem allConnected_iff (h : n.Tracked cfg) :
    n.allConnected cfg.numClients = true ↔ Ready cfg.numClients cfg.peers n.received := by
  have hkeys : n.clientConnections.keys = clientIds n.received := by
    ext k
    rw [Finmap.mem_keys, ← Finmap.lookup_isSome, h.entries k]
    split <;> simp [*]
  have hslots : n.peerConnections.all Option.isSome = true ↔
      ∀ p ∈ cfg.peers, .toPeer ⟨p⟩ ∈ n.received := by
    rw [h.slots, h.peers]
    simp [slot, List.all_eq_true]
  rw [allConnected, Bool.and_eq_true, decide_eq_true_iff, hkeys, hslots, Ready]

/-- In every run the loop ends with the first connections that suffice. -/
theorem loop_reachable (hr : (bootstrap M cfg t).Reachable n) : n.Loop cfg := by
  refine (bootstrap M cfg t).invariant (Loop cfg) ?_ ?_ n hr
  · rintro _ rfl
    refine ⟨fun _ => rfl, List.prefix_refl _, ?_, by simp [new]⟩
    intro _ earlier later heq hne
    have hnil : earlier ++ later = [] := heq.symm
    exact absurd (List.append_eq_nil_iff.mp hnil).1 hne
  · intro l n hn hg h
    cases l with
    | handOver i =>
        simp only [bootstrap, update, handOver]
        split
        · exact h
        · next c hc =>
            split
            · next hinit =>
                refine ⟨fun _ => ?_, ?_, h.waiting, h.returned⟩
                · simp [h.order hinit]
                · exact h.taken.trans (List.prefix_append _ _)
            · exact ⟨h.order, h.taken, h.waiting, h.returned⟩
    | recvConnection =>
        obtain ⟨hinit, hpanic, hsrc⟩ := hg
        obtain ⟨c, rest, hcons⟩ := List.exists_cons_of_ne_nil (List.isEmpty_eq_false_iff.mp hsrc)
        have htr := tracked_insert (tracked_reachable hn) c rest
        have horder : n.handedOver = (n.received ++ [c]) ++ rest := by
          rw [h.order hinit, hcons]
          simp
        -- the connections before the new one were not enough
        have hbefore : ∀ earlier later, n.received ++ [c] = earlier ++ later → earlier ≠ [] →
            later ≠ [] → ¬ Ready cfg.numClients cfg.peers earlier := by
          intro earlier later heq hearlier hlater
          rcases List.eq_nil_or_concat' later with rfl | ⟨later', c', rfl⟩
          · exact absurd rfl hlater
          · rw [← List.append_assoc] at heq
            have hsplit := List.append_inj_left' heq rfl
            exact h.waiting hpanic earlier later' hsplit hearlier (.inr hinit)
        obtain ⟨slots, table, b, hframe⟩ := insertConnection_frame c
          { n with connectionSource := rest, received := n.received ++ [c] }
        have hstep : (bootstrap M cfg t).update .recvConnection n =
            let n' := insertConnection c
              { n with connectionSource := rest, received := n.received ++ [c] }
            if !n'.panicked && n'.allConnected cfg.numClients then
              { n' with initializing := false, connectionSource := [] } else n' := by
          simp [bootstrap, update, recvConnection, hcons]
        rw [hstep]
        have hready := allConnected_iff htr
        rw [hframe] at hready ⊢
        dsimp only at hready ⊢
        split
        · -- the loop ends with this connection
          next hcheck =>
            rw [Bool.and_eq_true, hready] at hcheck
            refine ⟨by simp, ⟨rest, horder.symm⟩, ?_, ?_⟩
            · rintro _ earlier later heq hearlier (hlater | hfalse)
              · exact hbefore earlier later heq hearlier hlater
              · cases hfalse
            · exact fun _ => ⟨by simp, hcheck.2, by simpa using hcheck.1⟩
        · next hcheck =>
            refine ⟨fun _ => horder, ⟨rest, horder.symm⟩, ?_, ?_⟩
            · intro hb earlier later heq hearlier _
              by_cases hlater : later = []
              · rw [hlater, List.append_nil] at heq
                rw [← heq, ← hready]
                simpa [show b = false from hb] using hcheck
              · exact hbefore earlier later heq hearlier hlater
            · intro hfalse
              exact absurd (hinit.symm.trans hfalse) (by decide)
    | _ => exact ⟨h.order, h.taken, h.waiting, h.returned⟩

theorem aligned_reachable (hr : (bootstrap M cfg t).Reachable n) : n.Aligned :=
  (bootstrap M cfg t).invariant Aligned (fun _ h => h ▸ aligned_new cfg)
    (fun l _ _ _ h => h.update cfg.numClients l) n hr

/-- A start signal is sent to `k`. -/
def Addressed (cfg : Config) (n : Network M) (k : ClientId) : Prop :=
  ∀ startTime, (k, .startSignal startTime) ∈
    (n.sendClientStartSignals cfg.numClients startTime).clientSends

theorem mem_startSignalTargets {numClients : ℕ} {k : ClientId} :
    k ∈ startSignalTargets numClients ↔ 1 ≤ k ∧ k ≤ numClients := by
  rw [startSignalTargets, List.mem_range'_1]
  lia

theorem addressed_iff (h : n.Tracked cfg) {k : ClientId} :
    Addressed cfg n k ↔ 1 ≤ k ∧ k ≤ cfg.numClients := by
  rw [← mem_startSignalTargets]
  unfold Addressed
  simp [clientSends_sendClientStartSignals, h.silent]

/-- Ids start at one. -/
theorem one_le_of_reachable (hr : (bootstrap M cfg t).Reachable n) :
    (∀ k, .toClient ⟨k⟩ ∈ n.handshakes → 1 ≤ k) ∧ (∀ k, .toClient ⟨k⟩ ∈ n.handedOver → 1 ≤ k) := by
  refine (bootstrap M cfg t).invariant (fun n => (∀ k, .toClient ⟨k⟩ ∈ n.handshakes → 1 ≤ k) ∧
    (∀ k, .toClient ⟨k⟩ ∈ n.handedOver → 1 ≤ k)) ?_ ?_ n hr
  · rintro _ rfl
    simp [new]
  · intro l n _ _ h
    rcases h with ⟨hshake, hhanded⟩
    cases l with
    | connectPeer p => simpa [bootstrap, update, connectPeer] using ⟨hshake, hhanded⟩
    | registerClient =>
        refine ⟨fun k hk => ?_, hhanded⟩
        simp only [bootstrap, update, registerClient, List.mem_append, List.mem_singleton,
          NewConnection.toClient.injEq, ClientConnection.mk.injEq] at hk
        rcases hk with hk | rfl
        · exact hshake k hk
        · lia
    | handOver i =>
        simp only [bootstrap, update, handOver]
        split
        · exact ⟨hshake, hhanded⟩
        · next c hc =>
            have hsub : ∀ k, .toClient ⟨k⟩ ∈ n.handshakes.eraseIdx i → 1 ≤ k :=
              fun k hk => hshake k (List.mem_of_mem_eraseIdx hk)
            split
            · refine ⟨hsub, fun k hk => ?_⟩
              rcases List.mem_append.mp hk with hk | hk
              · exact hhanded k hk
              · obtain rfl := List.mem_singleton.mp hk
                exact hshake k (List.mem_of_getElem? hc)
            · exact ⟨hsub, hhanded⟩
    | recvConnection =>
        simp only [bootstrap, update, recvConnection]
        split
        · exact ⟨hshake, hhanded⟩
        · next c rest _ =>
            obtain ⟨slots, table, b, hframe⟩ := insertConnection_frame c
              { n with connectionSource := rest, received := n.received ++ [c] }
            rw [hframe]
            split <;> exact ⟨hshake, hhanded⟩
    | _ => exact ⟨hshake, hhanded⟩

/-- When `Network::new` returns, all clients in the table are numbered within
`1..num_clients` iff the others were handed over too late to be received. -/
theorem clientConnections_le_iff (hr : (bootstrap M cfg t).Reachable n)
    (hret : n.initializing = false) :
    (∀ k ∈ n.clientConnections, k ≤ cfg.numClients) ↔
      ExtraClientsComeLast cfg.numClients cfg.peers n.handedOver := by
  have htr := tracked_reachable hr
  have hloop := loop_reachable hr
  obtain ⟨hne, hready, hpanic⟩ := hloop.returned hret
  have hmem : ∀ k, k ∈ n.clientConnections ↔ .toClient ⟨k⟩ ∈ n.received := by
    intro k
    rw [← Finmap.lookup_isSome, htr.entries k, ← mem_clientIds]
    split <;> simp [*]
  constructor
  · rintro h earlier k later heq hk
    -- connection `k` was not received, so the received ones come before it
    have hnot : .toClient ⟨k⟩ ∉ n.received := by
      intro hin
      exact absurd (h k ((hmem k).mpr hin)) (by lia)
    have hpre : n.received <+: earlier := by
      rcases List.prefix_or_prefix_of_prefix hloop.taken ⟨_, heq.symm⟩ with hp | ⟨mid, hmid⟩
      · exact hp
      · rcases mid with _ | ⟨c, mid⟩
        · rw [← hmid, List.append_nil]
        · exfalso
          obtain ⟨rest, hrest⟩ := hloop.taken
          rw [heq, ← hmid, List.append_assoc, List.append_cancel_left_eq, List.cons_append] at hrest
          have hc : c = .toClient ⟨k⟩ := (List.cons.inj hrest).1
          exact hnot (by rw [← hmid, hc]; simp)
    refine ⟨?_, hready.mono hpre.subset⟩
    rintro rfl
    exact hne (List.prefix_nil.mp hpre)
  · -- an extra client was received, so what came before it was not enough
    intro h k hk
    by_contra hgt
    obtain ⟨earlier, later, heq⟩ := List.append_of_mem ((hmem k).mp hk)
    obtain ⟨rest, hrest⟩ := hloop.taken
    obtain ⟨hearlier, hready'⟩ := h earlier k (later ++ rest)
      (by rw [← hrest, heq]; simp) (by lia)
    exact hloop.waiting hpanic earlier (.toClient ⟨k⟩ :: later) heq hearlier (.inl (by simp)) hready'

/-- When `Network::new` returns, every client in the table is sent a start signal iff no
client numbered above `num_clients` was handed over before the connections to return
with were there. A client that is sent one and has a live connection gets it queued. -/
theorem every_client_started_iff (cfg : Config) (t : Transport) {n : Network M}
    (hr : (bootstrap M cfg t).Reachable n) (hret : n.initializing = false) :
    ((∀ k ∈ n.clientConnections, Addressed cfg n k) ↔
      ExtraClientsComeLast cfg.numClients cfg.peers n.handedOver) ∧
    (∀ k ∈ n.clientConnections, Addressed cfg n k → (n.toClient k).writer.phase ≠ .ended →
      ∀ startTime, .startSignal startTime ∈
        ((n.sendClientStartSignals cfg.numClients startTime).toClient k).writer.accepted) := by
  have htr := tracked_reachable hr
  have hloop := loop_reachable hr
  constructor
  · rw [← clientConnections_le_iff hr hret]
    have hone : ∀ k ∈ n.clientConnections, 1 ≤ k := by
      intro k hk
      rw [← Finmap.lookup_isSome, htr.entries k] at hk
      have hin : k ∈ clientIds n.received := by
        by_contra hnot
        simp [hnot] at hk
      exact (one_le_of_reachable hr).2 k (hloop.taken.subset (mem_clientIds.mp hin))
    constructor
    · intro h k hk
      exact ((addressed_iff htr).mp (h k hk)).2
    · intro h k hk
      exact (addressed_iff htr).mpr ⟨hone k hk, h k hk⟩
  · intro k hk haddr halive startTime
    have htarget : k ∈ startSignalTargets cfg.numClients :=
      mem_startSignalTargets.mpr ((addressed_iff htr).mp haddr)
    have hnodup : (startSignalTargets cfg.numClients).Nodup := List.nodup_range'
    have hacc := accepted_of_startSignals (aligned_reachable hr) hk halive startTime hnodup htarget
    unfold sendClientStartSignals
    rw [hacc]
    simp

end

/-! ## A client that restarts -/

/-- Server 1 of two, which expects one client. -/
def oneClientConfig : Config where
  serverId := 1
  nodes := [1, 2]
  nodes_nodup := by decide
  initialLeader := 1
  numClients := 1

/-- The client registers, the peer connects. -/
def plainStart : List NetworkStep :=
  [.registerClient, .handOver 0, .recvConnection, .connectPeer 2, .handOver 0, .recvConnection]

/-- In that run the client has id 1, and is sent its start signal. -/
theorem every_client_started_when_none_restarts :
    let n := (bootstrap Unit oneClientConfig smallTransport).after (new oneClientConfig) plainStart
    1 ∈ n.clientConnections ∧ Addressed oneClientConfig n 1 := by
  refine ⟨by decide, ?_⟩
  refine (every_client_started_iff oneClientConfig smallTransport
    (Machine.reachable_after _ plainStart (.start rfl) (by decide)) (by decide)).1.mpr ?_ 1
    (by decide)
  have hlist : ((bootstrap Unit oneClientConfig smallTransport).after (new oneClientConfig)
      plainStart).handedOver = [.toClient ⟨1⟩, .toPeer ⟨2⟩] := by decide
  intro earlier k later heq hk
  have hmem : .toClient ⟨k⟩ ∈ [NewConnection.toClient ⟨1⟩, .toPeer ⟨2⟩] := by
    rw [← hlist, heq]
    simp
  obtain rfl : k = 1 := by simpa using hmem
  exact absurd hk (by decide)

/-- The client registers, loses its connection and registers again before the peer
connects. -/
def restartedStart : List NetworkStep :=
  [.registerClient, .handOver 0, .recvConnection, .toClient 1 (.reset 0),
    .registerClient, .handOver 0, .recvConnection, .connectPeer 2, .handOver 0, .recvConnection]

/-- The restarted client is number 2 of one expected client: it is in the table when
`Network::new` returns, and no start signal is sent to it. -/
theorem restarted_client_not_started :
    ¬ ∀ (cfg : Config) (t : Transport) (n : Network Unit), (bootstrap Unit cfg t).Reachable n →
      n.initializing = false → ∀ k ∈ n.clientConnections, Addressed cfg n k := by
  intro h
  have hreach := (bootstrap Unit oneClientConfig smallTransport).reachable_after restartedStart
    (.start rfl) (by decide)
  have haddr := (addressed_iff (tracked_reachable hreach)).mp
    (h oneClientConfig smallTransport _ hreach (by decide) 2 (by decide))
  exact absurd haddr.2 (by decide)

end Network

end Server

end OmnipaxosKv
