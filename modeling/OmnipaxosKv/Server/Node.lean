import OmnipaxosKv.Lib.Machine
import OmnipaxosKv.Server.Ledger
import OmnipaxosKv.Server.Traffic

/-! # A server among its connections

The main task of a server together with the tasks behind its connections. What comes in
from peers and clients is arbitrary here; the cluster says where it comes from.
-/

namespace OmnipaxosKv

namespace Server

namespace OmniPaxosServer

variable {Ω M : Type}

/-! ## What a handler does to the network -/

section

variable {P : Network M → Prop} {lib : OmniPaxos Ω M} {cfg : Config} {s : OmniPaxosServer Ω M}

theorem sendClosed_sendOutgoingMsgs (hP : Network.SendClosed P) (h : P s.network) :
    P (sendOutgoingMsgs lib s).network := by
  refine List.foldlRecOn (motive := P) _ _ h ?_
  intro n hn msg _
  exact hP.toCluster (lib.getReceiver msg) msg n hn

theorem sendClosed_sendClientStartSignals (hP : Network.SendClosed P) (startTime : Timestamp)
    (h : P s.network) : P (sendClientStartSignals cfg startTime s).network := by
  refine List.foldlRecOn (motive := P) _ _ h ?_
  intro n hn k _
  exact hP.toClient k (.startSignal startTime) n hn

/-- What sends keep is kept by applying commands. -/
theorem sendClosed_updateDatabaseAndRespond (hP : Network.SendClosed P) (commands : List Command)
    (h : P s.network) : P (updateDatabaseAndRespond cfg commands s).network := by
  unfold updateDatabaseAndRespond
  induction commands generalizing s with
  | nil => exact h
  | cons c commands ih =>
      refine ih ?_
      unfold applyCommand
      dsimp only
      split
      · exact hP.toClient _ _ _ h
      · exact h

/-- What sending keeps is kept by taking up decided entries. -/
theorem sendClosed_handleDecidedEntries (hP : Network.SendClosed P) (h : P s.network) :
    P (handleDecidedEntries lib cfg s).network := by
  unfold handleDecidedEntries
  dsimp only
  split
  · split
    · exact h
    · split
      · exact h
      · exact sendClosed_updateDatabaseAndRespond hP _ h
  · exact h

theorem sendClosed_handleClusterMessage (hP : Network.SendClosed P) (message : ClusterMessage M)
    (h : P s.network) : P (handleClusterMessage lib cfg message s).network := by
  cases message with
  | omniPaxosMessage m => exact sendClosed_handleDecidedEntries hP h
  | leaderStartSignal startTime => exact sendClosed_sendClientStartSignals hP startTime h

theorem network_appendToLog (client : ClientId) (id : CommandId) (c : KVCommand) :
    (appendToLog lib cfg client id c s).network = s.network := by
  unfold appendToLog
  dsimp only
  split <;> rfl

/-- A step of the main task takes from the two inboxes and sends. Only the takeover sends
anything but library messages to peers. -/
theorem network_update (hP : Network.SendClosed P)
    (hinbox : ∀ n cluster clients, P n →
      P { n with clusterMessages := cluster, clientMessages := clients })
    {l : ServerStep}
    (hstart : ∀ startTime, (∃ now, l = .takeover now) →
      P (sendClusterStartSignals cfg startTime s).network)
    (h : P s.network) : P (s.update lib cfg l).network := by
  cases l with
  | takeover now =>
      have hattempt : P (takeover.attempt lib s).network := sendClosed_sendOutgoingMsgs hP h
      simp only [OmniPaxosServer.update, takeover]
      split
      · split
        -- with a leader elected the peers are told, and then the clients
        · exact sendClosed_sendClientStartSignals hP _ (hstart _ ⟨now, rfl⟩)
        · exact hattempt
      · exact hattempt
  | tick => exact sendClosed_sendOutgoingMsgs hP h
  | recvCluster count => exact hinbox s.network _ s.network.clientMessages h
  | nextClusterMessage =>
      simp only [OmniPaxosServer.update, nextClusterMessage]
      split
      · next received sender message rest _ _ =>
          have hmsg : P (handleClusterMessage lib cfg message { s with
              clusterMsgBuf := rest
              task := .clusterBatch (received || isStartSignal message) }).network :=
            sendClosed_handleClusterMessage hP message h
          split
          · exact hmsg
          -- the last message of a batch sends what the library has
          · split
            · exact sendClosed_sendOutgoingMsgs hP hmsg
            · exact hmsg
      · exact h
  | recvClient count => exact hinbox s.network s.network.clusterMessages _ h
  | nextClientMessage =>
      simp only [OmniPaxosServer.update, nextClientMessage]
      split
      · next client id c rest _ =>
          have happend : P (appendToLog lib cfg client id c
              { s with clientMsgBuf := rest }).network := by
            rw [network_appendToLog]
            exact h
          split
          · exact happend
          · split
            · exact sendClosed_sendOutgoingMsgs hP happend
            · exact happend
      · exact h
  | crash => exact h

end

/-! ## The machine -/

inductive NodeStep (M : Type) where
  | main (l : ServerStep)
  | network (l : NetworkStep)
  /-- a reader task hands on a message it received from a peer -/
  | clusterArrive (sender : NodeId) (msg : ClusterMessage M)
  /-- a reader task hands on a message it received from a client -/
  | clientArrive (client : ClientId) (msg : ClientMessage)
  /-- the reader task at the other end hands on the next message -/
  | peerForward (peer : NodeId)
  | clientForward (client : ClientId)
deriving DecidableEq, Repr

/-- Tasks that need the server's process. What is in a pipe may still arrive, and may
still be written, after the server's end. -/
def NodeStep.Lives : NodeStep M → Prop
  | .network (.toPeer _ _) | .network (.toClient _ _) | .peerForward _ | .clientForward _ => False
  | _ => True

instance : DecidablePred (NodeStep.Lives (M := M))
  | .network (.toPeer _ _) | .network (.toClient _ _) | .peerForward _ | .clientForward _ =>
      .isFalse id
  | .main _ | .clusterArrive _ _ | .clientArrive _ _ | .network (.connectPeer _)
  | .network .registerClient | .network (.handOver _) | .network .recvConnection => .isTrue trivial

def nodeGuard (cfg : Config) (t : Transport) : NodeStep M → OmniPaxosServer Ω M → Prop
  | .main l, s => s.guard cfg l
  | .network l, s => s.network.guard t l
  | .clusterArrive _ _, s => s.network.clusterMessages.length < networkBatchSize
  | .clientArrive _ _, s => s.network.clientMessages.length < networkBatchSize
  | .peerForward p, s => (s.network.toPeer p).next?.isSome
  | .clientForward k, s => (s.network.toClient k).next?.isSome

def nodeUpdate (lib : OmniPaxos Ω M) (cfg : Config) : NodeStep M → OmniPaxosServer Ω M →
    OmniPaxosServer Ω M
  | .main l, s => s.update lib cfg l
  | .network l, s => { s with network := s.network.update cfg.numClients l }
  | .clusterArrive sender msg, s => { s with network := { s.network with
      clusterMessages := s.network.clusterMessages ++ [(sender, msg)] } }
  | .clientArrive k msg, s => { s with network := { s.network with
      clientMessages := s.network.clientMessages ++ [(k, msg)] } }
  | .peerForward p, s => { s with network := { s.network with
      toPeer := Function.update s.network.toPeer p (s.network.toPeer p).forward } }
  | .clientForward k, s => { s with network := { s.network with
      toClient := Function.update s.network.toClient k (s.network.toClient k).forward } }

instance (cfg : Config) (t : Transport) (l : NodeStep M) (s : OmniPaxosServer Ω M) :
    Decidable (nodeGuard cfg t l s) :=
  match l with
  | .main l => inferInstanceAs (Decidable (s.guard cfg l))
  | .network l => inferInstanceAs (Decidable (s.network.guard t l))
  | .clusterArrive _ _ =>
      inferInstanceAs (Decidable (s.network.clusterMessages.length < networkBatchSize))
  | .clientArrive _ _ =>
      inferInstanceAs (Decidable (s.network.clientMessages.length < networkBatchSize))
  | .peerForward p => inferInstanceAs (Decidable ((s.network.toPeer p).next?.isSome = true))
  | .clientForward k => inferInstanceAs (Decidable ((s.network.toClient k).next?.isSome = true))

def node (lib : OmniPaxos Ω M) (cfg : Config) (t : Transport) :
    Machine (OmniPaxosServer Ω M) (NodeStep M) where
  init := fun s => ∃ ω, s = new cfg ω
  guard := fun l s => nodeGuard cfg t l s ∧ (l.Lives → s.crashed = false)
  update := nodeUpdate lib cfg

section

variable {lib : OmniPaxos Ω M} {decided : Ω → List Command} {cfg : Config} {t : Transport}
  {s : OmniPaxosServer Ω M}

/-- A node is a replica: its connections are an environment. -/
theorem refines_node (hlib : lib.Lawful decided) (hr : (node lib cfg t).Reachable s) :
    s.Refines decided := by
  refine refines_reachable hlib (Machine.reachable_map (M := node lib cfg t)
    (N := replica lib cfg) id (fun _ => True) (fun _ _ => trivial) (fun _ h => h) ?_ s hr)
  intro l s hg _
  -- a step of the main task is one of the replica; any other changes the network only
  right
  cases l with
  | main l => exact ⟨.main l, hg.1, rfl⟩
  | _ => exact ⟨.environment _, trivial, rfl⟩

/-- The tasks behind the connections do not touch the ledger. -/
theorem ledger_network (l : NetworkStep) :
    ({ s with network := s.network.update cfg.numClients l } : OmniPaxosServer Ω M).ledger =
      s.ledger := by
  cases l with
  | handOver i =>
      simp only [Network.update, Network.handOver]
      repeat' split
      all_goals rfl
  | recvConnection =>
      simp only [Network.update, Network.recvConnection]
      split
      · rfl
      · next c rest _ =>
          rcases Network.insertConnection_frame c { s.network with
            connectionSource := rest, received := s.network.received ++ [c] } with
            ⟨slots, entries, b, heq⟩
          rw [heq]
          split <;> rfl
  | _ => rfl

theorem carries_sendClusterStartSignals (h : s.network.Carries cfg) (startTime : Timestamp) :
    (sendClusterStartSignals cfg startTime s).network.Carries cfg := by
  refine List.foldlRecOn cfg.peers _ h ?_
  intro n hn p _
  exact hn.sendToCluster p (.leaderStartSignal startTime)

theorem carries_update (h : s.network.Carries cfg) (l : ServerStep) :
    (s.update lib cfg l).network.Carries cfg :=
  network_update (Network.sendClosed_carries cfg) (fun _ cluster clients hn => hn.inboxes cluster clients)
    (fun startTime _ => carries_sendClusterStartSignals h startTime) h

/-- What every reachable node keeps. -/
structure Sound (decided : Ω → List Command) (cfg : Config) (s : OmniPaxosServer Ω M) : Prop where
  refines : s.Refines decided
  carries : s.network.Carries cfg
  orderly : s.ledger.Orderly cfg

/-- Every reachable node is sound. -/
theorem sound_node (hlib : lib.Lawful decided) (hr : (node lib cfg t).Reachable s) :
    s.Sound decided cfg := by
  refine (node lib cfg t).invariant (Sound decided cfg) ?_ ?_ s hr
  · intro s hs
    rcases hs with ⟨ω, rfl⟩
    exact ⟨refines_node hlib (t := t) (.start ⟨ω, rfl⟩), Network.carries_new cfg,
      Ledger.orderly_new cfg ω⟩
  · intro l s hs hg h
    have hrefines := refines_node hlib (.step l hs hg)
    refine ⟨hrefines, ?_, ?_⟩
    · cases l with
      | main l => exact carries_update h.carries l
      | network l => exact h.carries.update hg.1
      | clusterArrive sender msg => exact h.carries.inboxes _ _
      | clientArrive k msg => exact h.carries.inboxes _ _
      | peerForward p =>
          rcases Option.isSome_iff_exists.mp hg.1 with ⟨m, hm⟩
          exact h.carries.toPeer_update ((h.carries.ordered p).forward hm) rfl
      | clientForward k =>
          rcases Option.isSome_iff_exists.mp hg.1 with ⟨m, hm⟩
          exact h.carries.toClient_update ((h.carries.streamed k).forward hm) rfl
    · cases l with
      | main l => exact h.orderly.step (ledgerStep_update hlib h.refines hg.1)
      | network l =>
          change ({ s with network := s.network.update cfg.numClients l } :
            OmniPaxosServer Ω M).ledger.Orderly cfg
          rw [ledger_network]
          exact h.orderly
      | _ =>
          exact ⟨h.orderly.idle, h.orderly.clusterBatch, h.orderly.clientBatch, h.orderly.own,
            h.orderly.answers, h.orderly.starts⟩

/-! ## How the pipes grow -/

/-- What a client's queue accepts in a step is part of what is sent to the client in it. -/
theorem accepted_toClient_update (lib : OmniPaxos Ω M) (h : s.network.Carries cfg) (l : ServerStep)
    (k : ClientId) :
    ∃ delta sub, (s.update lib cfg l).network.clientSends = s.network.clientSends ++ delta ∧
      ((s.update lib cfg l).network.toClient k).writer.accepted =
        (s.network.toClient k).writer.accepted ++ sub ∧
      sub.Sublist (messagesTo k delta) := by
  have hP : Network.SendClosed fun n : Network M => n.Carries cfg ∧ ∃ delta sub,
      n.clientSends = s.network.clientSends ++ delta ∧
      (n.toClient k).writer.accepted = (s.network.toClient k).writer.accepted ++ sub ∧
      sub.Sublist (messagesTo k delta) := by
    constructor
    · intro k' msg n hn
      rcases hn with ⟨hn, delta, sub, hsends, hacc, hsub⟩
      refine ⟨hn.sendToClient k' msg, delta ++ [(k', msg)], ?_⟩
      rcases Network.sendToClient_cases hn.aligned k' msg with ⟨_, pipe, hpipe, heq⟩ | ⟨_, heq⟩
      · -- the message goes to `k` or to another client
        by_cases hk : k' = k
        · subst hk
          refine ⟨sub ++ [msg], ?_, ?_, ?_⟩
          · simp [heq, hsends]
          · simp [heq, Pipe.accepted_send hpipe, hacc]
          · rw [messagesTo_append, messagesTo_singleton, if_pos rfl]
            exact hsub.append (List.Sublist.refl [msg])
        · refine ⟨sub, ?_, ?_, ?_⟩
          · simp [heq, hsends]
          · rw [heq]
            dsimp only
            rw [Function.update_of_ne (Ne.symm hk)]
            exact hacc
          · rw [messagesTo_append, messagesTo_singleton, if_neg hk, List.append_nil]
            exact hsub
      -- the pipe is gone, or there is none: nothing is accepted
      · refine ⟨sub, ?_, ?_, ?_⟩
        · simp [heq, hsends]
        · rw [heq]
          exact hacc
        · rw [messagesTo_append]
          exact hsub.trans (List.sublist_append_left _ _)
    -- messages to peers are no business of the client
    · intro p m n hn
      rcases hn with ⟨hn, hrest⟩
      refine ⟨hn.sendToCluster p (.omniPaxosMessage m), ?_⟩
      rcases Network.sendToCluster_cases hn.aligned p (.omniPaxosMessage m) with
        ⟨pipe, _, heq⟩ | ⟨slots, b, heq⟩
      · rw [heq]
        exact hrest
      · rw [heq]
        exact hrest
  refine (network_update hP ?_ ?_ ?_).2
  · intro n cluster clients hn
    exact ⟨hn.1.inboxes cluster clients, hn.2⟩
  · intro startTime _
    refine ⟨carries_sendClusterStartSignals h startTime, [], [], ?_, ?_, List.Sublist.refl _⟩
    · rcases foldl_sendToCluster_eq (fun peer => (peer, .leaderStartSignal startTime)) cfg.peers
        s.network with ⟨slots, toPeer, b, heq⟩
      simp only [sendClusterStartSignals, heq, List.append_nil]
    · rcases foldl_sendToCluster_eq (fun peer => (peer, .leaderStartSignal startTime)) cfg.peers
        s.network with ⟨slots, toPeer, b, heq⟩
      simp only [sendClusterStartSignals, heq, List.append_nil]
  · exact ⟨h, [], [], by simp, by simp, List.Sublist.refl _⟩

/-! ## What a step leaves to the other parties -/

/-- What the clients' connections see of a server has not changed. -/
structure Still (s s' : OmniPaxosServer Ω M) : Prop where
  arrived : s'.ledger.arrived = s.ledger.arrived
  delivered : ∀ k, (s'.network.toClient k).delivered = (s.network.toClient k).delivered
  maxClientId : s'.network.maxClientId = s.network.maxClientId

theorem still_refl (s : OmniPaxosServer Ω M) : s.Still s := ⟨rfl, fun _ => rfl, rfl⟩

/-- A server whose main task makes a step is still, too. -/
theorem still_main (hlib : lib.Lawful decided) (h : s.Sound decided cfg) {l : ServerStep}
    (hg : s.guard cfg l) : s.Still (s.update lib cfg l) := by
  have hP : Network.SendClosed fun n : Network M => n.Carries cfg ∧
      (∀ k, (n.toClient k).delivered = (s.network.toClient k).delivered) ∧
      n.maxClientId = s.network.maxClientId := by
    constructor
    · intro k msg n hn
      refine ⟨hn.1.sendToClient k msg, ?_⟩
      rcases Network.sendToClient_cases hn.1.aligned k msg with ⟨_, pipe, hpipe, heq⟩ | ⟨_, heq⟩
      · rw [heq]
        refine ⟨fun k' => ?_, hn.2.2⟩
        dsimp only
        by_cases hk : k' = k
        · subst hk
          rw [Function.update_self, Pipe.delivered_send hpipe]
          exact hn.2.1 k'
        · rw [Function.update_of_ne hk]
          exact hn.2.1 k'
      · rw [heq]
        exact hn.2
    · intro p m n hn
      refine ⟨hn.1.sendToCluster p _, ?_⟩
      rcases Network.sendToCluster_cases hn.1.aligned p (.omniPaxosMessage m) with
        ⟨pipe, _, heq⟩ | ⟨slots, b, heq⟩
      · rw [heq]
        exact hn.2
      · rw [heq]
        exact hn.2
  have hnetwork : (s.update lib cfg l).network.Carries cfg ∧
      (∀ k, ((s.update lib cfg l).network.toClient k).delivered =
        (s.network.toClient k).delivered) ∧
      (s.update lib cfg l).network.maxClientId = s.network.maxClientId := by
    refine network_update hP ?_ ?_ ⟨h.carries, fun _ => rfl, rfl⟩
    · intro n cluster clients hn
      exact ⟨hn.1.inboxes cluster clients, hn.2⟩
    · intro startTime _
      rcases foldl_sendToCluster_eq (fun peer => (peer, .leaderStartSignal startTime)) cfg.peers
        s.network with ⟨slots, toPeer, b, heq⟩
      refine ⟨carries_sendClusterStartSignals h.carries startTime, fun k => ?_, ?_⟩
      · simp only [sendClusterStartSignals, heq]
      · simp only [sendClusterStartSignals, heq]
  exact ⟨Ledger.arrived_step h.orderly (ledgerStep_update hlib h.refines hg), hnetwork.2.1,
    hnetwork.2.2⟩

/-- A server is still while its network makes a step, unless a client registers. -/
theorem still_network {l : NetworkStep} (hl : l ≠ .registerClient) :
    s.Still { s with network := s.network.update cfg.numClients l } := by
  have hclients : (∀ k, ((s.network.update cfg.numClients l).toClient k).delivered =
      (s.network.toClient k).delivered) ∧
      (s.network.update cfg.numClients l).maxClientId = s.network.maxClientId := by
    cases l with
    | registerClient => exact absurd rfl hl
    | handOver i =>
        simp only [Network.update, Network.handOver]
        repeat' split
        all_goals exact ⟨fun _ => rfl, rfl⟩
    | recvConnection =>
        simp only [Network.update, Network.recvConnection]
        split
        · exact ⟨fun _ => rfl, rfl⟩
        · next c rest _ =>
            rcases Network.insertConnection_frame c { s.network with
              connectionSource := rest, received := s.network.received ++ [c] } with
              ⟨slots, entries, b, heq⟩
            rw [heq]
            split <;> exact ⟨fun _ => rfl, rfl⟩
    | toClient k l =>
        refine ⟨fun k' => ?_, rfl⟩
        simp only [Network.update]
        by_cases hk : k' = k
        · subst hk
          rw [Function.update_self]
          exact Pipe.delivered_update l _
        · rw [Function.update_of_ne hk]
    | _ => exact ⟨fun _ => rfl, rfl⟩
  exact ⟨by rw [ledger_network], hclients.1, hclients.2⟩

/-- Only three steps concern the clients' connections as others see them. -/
theorem still_node (hlib : lib.Lawful decided) (h : s.Sound decided cfg) {l : NodeStep M}
    (hg : nodeGuard cfg t l s) (hregister : l ≠ .network .registerClient)
    (harrive : ∀ k msg, l ≠ .clientArrive k msg) (hforward : ∀ k, l ≠ .clientForward k) :
    s.Still (nodeUpdate lib cfg l s) := by
  cases l with
  | main l => exact still_main hlib h hg
  | network l => exact still_network (fun hl => hregister (congrArg _ hl))
  | clusterArrive sender msg => exact ⟨rfl, fun _ => rfl, rfl⟩
  | clientArrive k msg => exact absurd rfl (harrive k msg)
  | peerForward p => exact ⟨rfl, fun _ => rfl, rfl⟩
  | clientForward k => exact absurd rfl (hforward k)

end

end OmniPaxosServer

end Server

end OmnipaxosKv
