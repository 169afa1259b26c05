import OmnipaxosKv.Server.Node

/-! # The start signals of one server

A server queues a start signal to its peers in one step only, the takeover that ends its
bootstrap loop, and sends its clients one for each that it counts in `startSignals`.
-/

namespace OmnipaxosKv

namespace Server

open OmniPaxosServer (isStartSignal startMessages sendOutgoingMsgs)

variable {Ω M : Type} {lib : OmniPaxos Ω M} {decided : Ω → List Command} {cfg : Config}
  {t : Transport}

/-! ## To the peers -/

namespace Network

/-- The readers of the peers have handed on `d`, and the queues to them have accepted at
most `f` start signals. -/
structure PeersWithin (cfg : Config) (d : NodeId → List (ClusterMessage M)) (f : NodeId → ℕ)
    (n : Network M) : Prop where
  carries : n.Carries cfg
  delivered : ∀ p, (n.toPeer p).delivered = d p
  starts : ∀ p, (n.toPeer p).writer.accepted.countP isStartSignal ≤ f p

variable {n : Network M} {d : NodeId → List (ClusterMessage M)} {f f' : NodeId → ℕ}

theorem PeersWithin.mono (h : n.PeersWithin cfg d f) (hle : ∀ p, f p ≤ f' p) :
    n.PeersWithin cfg d f' :=
  ⟨h.carries, h.delivered, fun p => le_trans (h.starts p) (hle p)⟩

/-- A message to a peer raises the bound if it is a start signal. -/
theorem PeersWithin.sendToCluster (h : n.PeersWithin cfg d f) (q : NodeId)
    (msg : ClusterMessage M) : (n.sendToCluster q msg).PeersWithin cfg d
      fun p => f p + if p = q then [msg].countP isStartSignal else 0 := by
  refine ⟨h.carries.sendToCluster q msg, ?_, ?_⟩
  · intro p
    rcases sendToCluster_cases h.carries.aligned q msg with ⟨pipe, hpipe, heq⟩ | ⟨slots, b, heq⟩
    · rw [heq]
      by_cases hp : p = q
      · subst hp
        dsimp only
        rw [Function.update_self, Pipe.delivered_send hpipe]
        exact h.delivered p
      · dsimp only
        rw [Function.update_of_ne hp]
        exact h.delivered p
    · rw [heq]
      exact h.delivered p
  · intro p
    have hstarts := h.starts p
    rcases sendToCluster_cases h.carries.aligned q msg with ⟨pipe, hpipe, heq⟩ | ⟨slots, b, heq⟩
    · rw [heq]
      by_cases hp : p = q
      · subst hp
        dsimp only
        rw [Function.update_self, Pipe.accepted_send hpipe, List.countP_append, if_pos rfl]
        omega
      · dsimp only
        rw [Function.update_of_ne hp, if_neg hp]
        exact hstarts
    · rw [heq]
      exact le_trans hstarts (Nat.le_add_right _ _)

/-- Sends other than start signals start no peers. -/
theorem sendClosed_peersWithin (cfg : Config) (d : NodeId → List (ClusterMessage M))
    (f : NodeId → ℕ) : SendClosed (PeersWithin cfg d f) where
  toClient := by
    intro k msg n h
    have hcarries := h.carries.sendToClient k msg
    rcases sendToClient_cases h.carries.aligned k msg with ⟨_, pipe, _, heq⟩ | ⟨_, heq⟩
    · rw [heq] at hcarries ⊢
      exact ⟨hcarries, h.delivered, h.starts⟩
    · rw [heq] at hcarries ⊢
      exact ⟨hcarries, h.delivered, h.starts⟩
  toCluster := by
    intro q m n h
    refine (h.sendToCluster q (.omniPaxosMessage m)).mono fun p => ?_
    simp [isStartSignal]

/-- `send_cluster_start_signals` queues one start signal for each time a peer is listed. -/
theorem PeersWithin.startSignals (h : n.PeersWithin cfg d f) (startTime : Timestamp)
    (peers : List NodeId) :
    (peers.foldl (fun n p => n.sendToCluster p (.leaderStartSignal startTime)) n).PeersWithin cfg d
      fun p => f p + peers.count p := by
  induction peers generalizing n f with
  | nil => exact h
  | cons q peers ih =>
      refine (ih (h.sendToCluster q (.leaderStartSignal startTime))).mono fun p => ?_
      have hone : [ClusterMessage.leaderStartSignal (M := M) startTime].countP isStartSignal = 1 :=
        rfl
      rw [List.count_cons, hone]
      by_cases hp : p = q
      · simp only [hp, if_true, beq_self_eq_true]
        omega
      · simp only [if_neg hp, beq_iff_eq, if_neg (Ne.symm hp)]
        omega

end Network

namespace OmniPaxosServer

variable {s : OmniPaxosServer Ω M}

/-- The start signals that the queue to peer `p` has accepted. -/
def peerStarts (s : OmniPaxosServer Ω M) (p : NodeId) : ℕ :=
  (s.network.toPeer p).writer.accepted.countP isStartSignal

/-- Among the steps of the main task only a takeover that succeeds starts peers, each once. -/
theorem peers_update (h : s.network.Carries cfg) (l : ServerStep) (p : NodeId) :
    ((s.update lib cfg l).network.toPeer p).delivered = (s.network.toPeer p).delivered ∧
      ((s.update lib cfg l).peerStarts p ≤ s.peerStarts p ∨
        (∃ now, l = .takeover now) ∧ (s.update lib cfg l).phase = .running ∧
          (s.update lib cfg l).peerStarts p ≤ s.peerStarts p + 1) := by
  have hnow : s.network.PeersWithin cfg (fun p => (s.network.toPeer p).delivered) s.peerStarts :=
    ⟨h, fun _ => rfl, fun _ => le_refl _⟩
  have hclosed := Network.sendClosed_peersWithin (M := M) cfg
    (fun p => (s.network.toPeer p).delivered)
  by_cases hl : ∃ now, l = .takeover now
  · rcases hl with ⟨now, rfl⟩
    have hattempt : (takeover.attempt lib s).network.PeersWithin cfg
        (fun p => (s.network.toPeer p).delivered) s.peerStarts :=
      sendClosed_sendOutgoingMsgs (hclosed _) hnow
    simp only [OmniPaxosServer.update, takeover]
    split
    · split
      · -- the takeover succeeds
        have hpeers := hnow.startSignals (now + 2000) cfg.peers
        have hsent : (sendClientStartSignals cfg (now + 2000)
            (sendClusterStartSignals cfg (now + 2000) s)).network.PeersWithin cfg
              (fun p => (s.network.toPeer p).delivered) fun p => s.peerStarts p + cfg.peers.count p :=
          sendClosed_sendClientStartSignals (hclosed _) (now + 2000) hpeers
        refine ⟨hsent.delivered p, .inr ⟨⟨now, rfl⟩, rfl, le_trans (hsent.starts p) ?_⟩⟩
        have hcount := List.nodup_iff_count_le_one.mp cfg.peers_nodup p
        omega
      · exact ⟨hattempt.delivered p, .inl (hattempt.starts p)⟩
    · exact ⟨hattempt.delivered p, .inl (hattempt.starts p)⟩
  · have hrest : (s.update lib cfg l).network.PeersWithin cfg
        (fun p => (s.network.toPeer p).delivered) s.peerStarts := by
      refine network_update (hclosed _) ?_ (fun _ hex => absurd hex hl) hnow
      intro n cluster clients hn
      exact ⟨hn.carries.inboxes cluster clients, hn.delivered, hn.starts⟩
    exact ⟨hrest.delivered p, .inl (hrest.starts p)⟩

/-- The tasks behind the connections neither queue nor hand on anything to peers. -/
theorem peers_network (numClients : ℕ) (l : NetworkStep) (n : Network M) (p : NodeId) :
    ((n.update numClients l).toPeer p).delivered = (n.toPeer p).delivered ∧
      ((n.update numClients l).toPeer p).writer.accepted = (n.toPeer p).writer.accepted := by
  cases l with
  | toPeer q l =>
      simp only [Network.update]
      by_cases hp : p = q
      · subst hp
        rw [Function.update_self]
        exact ⟨Pipe.delivered_update l _, Pipe.accepted_update l _⟩
      · rw [Function.update_of_ne hp]
        exact ⟨rfl, rfl⟩
  | toClient k l => exact ⟨rfl, rfl⟩
  | _ =>
      rw [(Network.pipes_update numClients (by simp) (by simp)).1]
      exact ⟨rfl, rfl⟩

/-- Nobody but the initial leader starts peers, and it does so once, when it leaves the
bootstrap loop. -/
structure StartsPeersOnce (cfg : Config) (s : OmniPaxosServer Ω M) : Prop where
  quiet : s.phase = .establishing ∨ cfg.initialLeader ≠ cfg.serverId → ∀ p, s.peerStarts p = 0
  once : ∀ p, s.peerStarts p ≤ 1

/-- In every run peers are started once, by the initial leader. -/
theorem startsPeersOnce_node (hlib : lib.Lawful decided) (hr : (node lib cfg t).Reachable s) :
    s.StartsPeersOnce cfg := by
  refine (node lib cfg t).invariant (StartsPeersOnce cfg) ?_ ?_ s hr
  · intro s hs
    rcases hs with ⟨ω, rfl⟩
    exact ⟨fun _ _ => rfl, fun _ => Nat.zero_le _⟩
  · intro l s hs hg h
    have hsound := sound_node hlib hs
    -- steps that leave the phase and the queues alone
    have hframe : ∀ s' : OmniPaxosServer Ω M, s'.phase = s.phase →
        (∀ p, s'.peerStarts p = s.peerStarts p) → s'.StartsPeersOnce cfg := by
      intro s' hphase hstarts
      refine ⟨fun hquiet p => ?_, fun p => ?_⟩
      · rw [hstarts]
        rw [hphase] at hquiet
        exact h.quiet hquiet p
      · rw [hstarts]
        exact h.once p
    cases l with
    | main l =>
        have hphase : (s.update lib cfg l).phase = .establishing → s.phase = .establishing :=
          Ledger.phase_step (ledgerStep_update hlib hsound.refines hg.1)
        have hpeers : ∀ p, (s.update lib cfg l).peerStarts p ≤ s.peerStarts p ∨
            (∃ now, l = .takeover now) ∧ (s.update lib cfg l).phase = .running ∧
              (s.update lib cfg l).peerStarts p ≤ s.peerStarts p + 1 :=
          fun p => (peers_update hsound.carries l p).2
        refine ⟨?_, ?_⟩
        · intro hquiet p
          rcases hpeers p with hle | ⟨⟨now, rfl⟩, hrunning, _⟩
          · have hzero := h.quiet (hquiet.imp_left hphase) p
            exact Nat.le_zero.mp (hzero ▸ hle)
          · rcases hg.1 with ⟨_, _, _, hleader⟩
            rcases hquiet with hquiet | hquiet
            · cases hrunning.symm.trans hquiet
            · exact absurd hleader hquiet
        · intro p
          rcases hpeers p with hle | ⟨⟨now, rfl⟩, _, hle⟩
          · exact le_trans hle (h.once p)
          · have hzero := h.quiet (.inl hg.1.2.2.1) p
            rw [hzero] at hle
            exact hle
    | network l =>
        refine hframe _ rfl fun p => ?_
        exact congrArg (List.countP isStartSignal) (peers_network cfg.numClients l s.network p).2
    | peerForward q =>
        refine hframe _ rfl fun p => ?_
        simp only [peerStarts, node, nodeUpdate]
        by_cases hp : p = q
        · subst hp
          rw [Function.update_self]
          rfl
        · rw [Function.update_of_ne hp]
    | _ => exact hframe _ rfl fun _ => rfl

end OmniPaxosServer

/-! ## To the clients -/

/-- Only the main task adds to what the queue of a client accepts. -/
theorem accepted_toClient_node {s : OmniPaxosServer Ω M} {l : OmniPaxosServer.NodeStep M}
    (hl : ∀ l', l ≠ .main l') (k : ClientId) :
    ((OmniPaxosServer.nodeUpdate lib cfg l s).network.toClient k).writer.accepted =
      (s.network.toClient k).writer.accepted := by
  cases l with
  | main l => exact absurd rfl (hl l)
  | network l =>
      simp only [OmniPaxosServer.nodeUpdate]
      cases l with
      | toClient k' l =>
          simp only [Network.update]
          by_cases hk : k = k'
          · subst hk
            rw [Function.update_self]
            exact Pipe.accepted_update l _
          · rw [Function.update_of_ne hk]
      | toPeer p l => rfl
      | _ => rw [(Network.pipes_update cfg.numClients (by simp) (by simp)).2]
  | clientForward k' =>
      simp only [OmniPaxosServer.nodeUpdate]
      by_cases hk : k = k'
      · subst hk
        rw [Function.update_self]
        rfl
      · rw [Function.update_of_ne hk]
  | _ => rfl

/-- One call of `send_client_start_signals` sends each client at most one start signal. -/
theorem length_messagesTo_startMessages (k : ClientId) (starts : List Timestamp) :
    (messagesTo k (startMessages cfg starts)).length ≤ starts.length := by
  have hone : ∀ (startTime : Timestamp) (ks : List ClientId),
      (messagesTo k (ks.map fun k' => (k', ServerMessage.startSignal startTime))).length =
        ks.count k := by
    intro startTime ks
    induction ks with
    | nil => rfl
    | cons k' ks ih =>
        have hsplit := messagesTo_append k [(k', ServerMessage.startSignal startTime)]
          (ks.map fun k' => (k', ServerMessage.startSignal startTime))
        rw [List.map_cons, ← List.singleton_append, hsplit, List.length_append, ih,
          messagesTo_singleton, List.count_cons]
        by_cases hk : k' = k
        · simp [hk, Nat.add_comm]
        · simp [hk]
  induction starts with
  | nil => exact Nat.zero_le _
  | cons startTime starts ih =>
      have htargets : (Network.startSignalTargets cfg.numClients).count k ≤ 1 :=
        List.nodup_iff_count_le_one.mp (List.nodup_range' _) k
      have hsplit : messagesTo k (startMessages cfg (startTime :: starts)) =
          messagesTo k ((Network.startSignalTargets cfg.numClients).map
            fun k' => (k', ServerMessage.startSignal startTime)) ++
          messagesTo k (startMessages cfg starts) := messagesTo_append k _ _
      rw [hsplit, List.length_append, hone, List.length_cons]
      omega

/-- A client is sent no more start signals than the server has started its clients. -/
theorem Ledger.Orderly.starts_le {v : Ledger M} (h : v.Orderly cfg) (k : ClientId) :
    (messagesTo k v.clientSends).countP (fun m => m.commandId.isNone) ≤ v.startSignals.length := by
  have hfilter : (messagesTo k v.clientSends).countP (fun m => m.commandId.isNone) =
      (messagesTo k (v.clientSends.filter fun m => m.2.commandId.isNone)).length := by
    rw [messagesTo, messagesTo, List.countP_map, List.countP_filter, List.length_map,
      List.filter_filter, ← List.countP_eq_length_filter]
    refine List.countP_congr fun m _ => ?_
    simp [and_comm]
  rw [hfilter, h.starts]
  exact length_messagesTo_startMessages k v.startSignals

end Server

end OmnipaxosKv
