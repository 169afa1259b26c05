import OmnipaxosKv.Server.Replica

/-! # The ledger of a server

What the main task of a server holds and has done, without the library, the database and
the connections: what came in, what it appended and applied, and what it sent to
clients. `ledgerStep_update` says all that a step does to it.
-/

namespace OmnipaxosKv

namespace Server

namespace OmniPaxosServer

variable {Ω M : Type}

/-! ## What the handlers change -/

/-- The messages of `send_client_start_signals`, once for each start time. -/
def startMessages (cfg : Config) (starts : List Timestamp) : List (ClientId × ServerMessage) :=
  starts.flatMap fun t => (Network.startSignalTargets cfg.numClients).map (·, .startSignal t)

/-- Sends to clients change the client side of the network and no more. -/
theorem sendAll_eq (messages : List (ClientId × ServerMessage)) (n : Network M) :
    ∃ entries toClient, sendAll messages n = { n with
      clientSends := n.clientSends ++ messages
      clientConnections := entries
      toClient := toClient } := by
  unfold sendAll
  induction messages generalizing n with
  | nil => exact ⟨n.clientConnections, n.toClient, by simp⟩
  | cons m messages ih =>
      have hone : ∃ entries toClient, n.sendToClient m.1 m.2 = { n with
          clientSends := n.clientSends ++ [m], clientConnections := entries, toClient := toClient } := by
        unfold Network.sendToClient
        dsimp only
        repeat' split
        all_goals exact ⟨_, _, rfl⟩
      rcases hone with ⟨entries, toClient, heq⟩
      rcases ih (n.sendToClient m.1 m.2) with ⟨entries', toClient', heq'⟩
      refine ⟨entries', toClient', ?_⟩
      rw [List.foldl_cons, heq', heq]
      simp

/-- Sends to peers change the peer side of the network and no more. -/
theorem foldl_sendToCluster_eq {β : Type} (f : β → NodeId × ClusterMessage M) (l : List β)
    (n : Network M) : ∃ slots toPeer b,
      l.foldl (fun n x => n.sendToCluster (f x).1 (f x).2) n =
        { n with peerConnections := slots, toPeer := toPeer, panicked := b } := by
  induction l generalizing n with
  | nil => exact ⟨n.peerConnections, n.toPeer, n.panicked, rfl⟩
  | cons x l ih =>
      have hone : ∃ slots toPeer b, n.sendToCluster (f x).1 (f x).2 =
          { n with peerConnections := slots, toPeer := toPeer, panicked := b } := by
        unfold Network.sendToCluster
        repeat' split
        all_goals exact ⟨_, _, _, rfl⟩
      rcases hone with ⟨slots, toPeer, b, heq⟩
      rcases ih (n.sendToCluster (f x).1 (f x).2) with ⟨slots', toPeer', b', heq'⟩
      refine ⟨slots', toPeer', b', ?_⟩
      rw [List.foldl_cons, heq', heq]

/-- Messages of the library go to peers, and change no more than the peer side. -/
theorem sendOutgoingMsgs_eq (lib : OmniPaxos Ω M) (s : OmniPaxosServer Ω M) :
    ∃ ω slots toPeer b, sendOutgoingMsgs lib s = { s with
      omnipaxos := ω
      network := { s.network with peerConnections := slots, toPeer := toPeer, panicked := b } } := by
  rcases foldl_sendToCluster_eq (fun msg => (lib.getReceiver msg, .omniPaxosMessage msg))
    (lib.takeOutgoingMessages s.omnipaxos).2 s.network with ⟨slots, toPeer, b, heq⟩
  exact ⟨(lib.takeOutgoingMessages s.omnipaxos).1, slots, toPeer, b, by
    simp only [sendOutgoingMsgs, heq]⟩

theorem sendClientStartSignals_eq (cfg : Config) (startTime : Timestamp) (s : OmniPaxosServer Ω M) :
    sendClientStartSignals cfg startTime s = { s with
      network := sendAll (startMessages cfg [startTime]) s.network
      startSignals := s.startSignals ++ [startTime] } := by
  simp [sendClientStartSignals, Network.sendClientStartSignals, startMessages, sendAll,
    List.foldl_map]

section

variable {lib : OmniPaxos Ω M} {decided : Ω → List Command} {cfg : Config}
  {s : OmniPaxosServer Ω M}

/-- A cluster message has decided commands applied and answered, or the clients started. -/
theorem handleClusterMessage_eq (cfg : Config) (hlib : lib.Lawful decided)
    (h : s.Refines decided) (message : ClusterMessage M) : ∃ ω idx commands starts,
      handleClusterMessage lib cfg message s = { s with
        omnipaxos := ω
        currentDecidedIdx := idx
        database := s.database.replayFrom commands
        applied := s.applied ++ commands
        startSignals := s.startSignals ++ starts
        network := sendAll (responses cfg.serverId s.database commands ++ startMessages cfg starts)
          s.network } ∧
      starts.length = [message].countP isStartSignal := by
  cases message with
  | omniPaxosMessage m =>
      have hin : ({ s with omnipaxos := lib.handleIncoming s.omnipaxos m } :
          OmniPaxosServer Ω M).Refines decided :=
        h.grow _ (hlib.handleIncoming_grows _ _) rfl rfl rfl
      refine ⟨lib.handleIncoming s.omnipaxos m, (decided (lib.handleIncoming s.omnipaxos m)).length,
        (decided (lib.handleIncoming s.omnipaxos m)).drop s.currentDecidedIdx, [], ?_, rfl⟩
      simp only [handleClusterMessage]
      rw [handleDecidedEntries_eq cfg hlib hin.cursor, updateDatabaseAndRespond_eq]
      simp [startMessages]
  | leaderStartSignal startTime =>
      refine ⟨s.omnipaxos, s.currentDecidedIdx, [], [startTime], ?_, rfl⟩
      simp only [handleClusterMessage, sendClientStartSignals_eq]
      simp [responses, Database.replayFrom]

end

end OmniPaxosServer

/-! ## The ledger -/

structure Ledger (M : Type) where
  phase : LoopPhase
  task : MainTask
  clusterMsgBuf : List (NodeId × ClusterMessage M)
  clientMsgBuf : List (ClientId × ClientMessage)
  crashed : Bool
  applied : List Command
  appended : List Command
  startSignals : List Timestamp
  clusterMessages : List (NodeId × ClusterMessage M)
  clientMessages : List (ClientId × ClientMessage)
  clientSends : List (ClientId × ServerMessage)

def OmniPaxosServer.ledger {Ω M : Type} (s : OmniPaxosServer Ω M) : Ledger M where
  phase := s.phase
  task := s.task
  clusterMsgBuf := s.clusterMsgBuf
  clientMsgBuf := s.clientMsgBuf
  crashed := s.crashed
  applied := s.applied
  appended := s.appended
  startSignals := s.startSignals
  clusterMessages := s.network.clusterMessages
  clientMessages := s.network.clientMessages
  clientSends := s.network.clientSends

open OmniPaxosServer (isStartSignal responses startMessages)

/-- What a step of the main task does to the ledger. -/
def LedgerStep {M : Type} (cfg : Config) : ServerStep → Ledger M → Ledger M → Prop
  | .takeover now, v, v' => v.task = .idle ∧ v.phase = .establishing ∧
      cfg.initialLeader = cfg.serverId ∧
      (v' = v ∨ v' = { v with
        phase := .running
        startSignals := v.startSignals ++ [now + 2000]
        clientSends := v.clientSends ++ startMessages cfg [now + 2000] })
  | .tick, v, v' => v' = v
  | .recvCluster count, v, v' => v.task = .idle ∧ 1 ≤ count ∧ count ≤ v.clusterMessages.length ∧
      v' = { v with
        clusterMessages := v.clusterMessages.drop count
        clusterMsgBuf := v.clusterMessages.take count
        task := .clusterBatch false }
  | .nextClusterMessage, v, v' => ∃ received sender message rest commands starts,
      v.task = .clusterBatch received ∧ v.clusterMsgBuf = (sender, message) :: rest ∧
      starts.length = [message].countP isStartSignal ∧
      v' = { v with
        clusterMsgBuf := rest
        applied := v.applied ++ commands
        startSignals := v.startSignals ++ starts
        clientSends := v.clientSends ++
          (responses cfg.serverId (Database.replay v.applied) commands ++ startMessages cfg starts)
        task := if rest.isEmpty then .idle else .clusterBatch (received || isStartSignal message)
        phase := if rest.isEmpty && (received || isStartSignal message) then .running
          else v.phase }
  | .recvClient count, v, v' => v.task = .idle ∧ 1 ≤ count ∧ count ≤ v.clientMessages.length ∧
      v' = { v with
        clientMessages := v.clientMessages.drop count
        clientMsgBuf := v.clientMessages.take count
        task := .clientBatch }
  | .nextClientMessage, v, v' => ∃ client id c rest b, v.task = .clientBatch ∧
      v.clientMsgBuf = (client, .append id c) :: rest ∧
      v' = { v with
        clientMsgBuf := rest
        appended := v.appended ++ [⟨client, cfg.serverId, id, c⟩]
        crashed := b
        task := if !b && rest.isEmpty then .idle else .clientBatch }
  | .crash, v, v' => v' = { v with crashed := true }

namespace OmniPaxosServer

variable {Ω M : Type} {lib : OmniPaxos Ω M} {decided : Ω → List Command} {cfg : Config}
  {s : OmniPaxosServer Ω M}

/-- Messages to peers are not in the ledger. -/
@[simp] theorem ledger_sendOutgoingMsgs (lib : OmniPaxos Ω M) (s : OmniPaxosServer Ω M) :
    (sendOutgoingMsgs lib s).ledger = s.ledger := by
  rcases sendOutgoingMsgs_eq lib s with ⟨ω, slots, toPeer, b, heq⟩
  rw [heq]
  rfl

/-- A cluster message may apply commands and start the clients. -/
theorem ledger_handleClusterMessage (cfg : Config) (hlib : lib.Lawful decided)
    (h : s.Refines decided) (message : ClusterMessage M) : ∃ commands starts,
      (handleClusterMessage lib cfg message s).ledger = { s.ledger with
        applied := s.applied ++ commands
        startSignals := s.startSignals ++ starts
        clientSends := s.network.clientSends ++
          (responses cfg.serverId s.database commands ++ startMessages cfg starts) } ∧
      starts.length = [message].countP isStartSignal := by
  rcases handleClusterMessage_eq cfg hlib h message with
    ⟨ω, idx, commands, starts, heq, hlen⟩
  refine ⟨commands, starts, ?_, hlen⟩
  rcases sendAll_eq (responses cfg.serverId s.database commands ++ startMessages cfg starts)
    s.network with ⟨entries, toClient, hsend⟩
  rw [heq, hsend]
  rfl

/-- A takeover ends the bootstrap loop and starts the clients, or it does nothing. -/
theorem ledger_takeover (now : Timestamp) : (takeover lib cfg now s).ledger = s.ledger ∨
    (takeover lib cfg now s).ledger = { s.ledger with
      phase := .running
      startSignals := s.startSignals ++ [now + 2000]
      clientSends := s.network.clientSends ++ startMessages cfg [now + 2000] } := by
  have hattempt : (takeover.attempt lib s).ledger = s.ledger := ledger_sendOutgoingMsgs lib _
  unfold takeover
  split
  · split
    · right
      rcases foldl_sendToCluster_eq (fun peer => (peer, .leaderStartSignal (now + 2000))) cfg.peers
        s.network with ⟨slots, toPeer, b, hpeers⟩
      rcases sendAll_eq (startMessages cfg [now + 2000])
        { s.network with peerConnections := slots, toPeer := toPeer, panicked := b } with
        ⟨entries, toClient, hsend⟩
      simp only [sendClusterStartSignals, hpeers, sendClientStartSignals_eq, hsend]
      rfl
    · exact .inl hattempt
  · exact .inl hattempt

/-- At the end of a batch the task is idle, and out of the bootstrap loop if a start signal was in
the batch. -/
theorem ledger_endClusterBatch (received : Bool) :
    (endClusterBatch lib received s).ledger = { s.ledger with
      task := .idle
      phase := if received then .running else s.ledger.phase } := by
  rcases sendOutgoingMsgs_eq lib s with ⟨ω, slots, toPeer, b, heq⟩
  simp only [endClusterBatch, heq]
  rfl

/-- `append` succeeds, or the server panics. -/
theorem ledger_appendToLog (lib : OmniPaxos Ω M) (cfg : Config) (hlive : s.crashed = false)
    (client : ClientId) (id : CommandId) (c : KVCommand) :
    ∃ b, (appendToLog lib cfg client id c s).crashed = b ∧
      (appendToLog lib cfg client id c s).ledger = { s.ledger with
        appended := s.appended ++ [⟨client, cfg.serverId, id, c⟩]
        crashed := b } := by
  unfold appendToLog
  dsimp only
  split
  · exact ⟨false, hlive, by simp [ledger, hlive]⟩
  · exact ⟨true, rfl, rfl⟩

/-- Each step of the main task does to the ledger what `LedgerStep` says. -/
theorem ledgerStep_update (hlib : lib.Lawful decided) (h : s.Refines decided) {l : ServerStep}
    (hg : s.guard cfg l) : LedgerStep cfg l s.ledger (s.update lib cfg l).ledger := by
  cases l with
  | takeover now =>
      rcases hg with ⟨_, hidle, hphase, hleader⟩
      exact ⟨hidle, hphase, hleader, ledger_takeover now⟩
  | tick => exact ledger_sendOutgoingMsgs lib _
  | recvCluster count => exact ⟨hg.2.1, hg.2.2.1, hg.2.2.2.2, rfl⟩
  | nextClusterMessage =>
      rcases hg with ⟨hup, htask, hbuf⟩
      have hbatch : ∃ received, s.task = .clusterBatch received := by
        rcases htask with htask | htask
        · exact ⟨true, htask⟩
        · exact ⟨false, htask⟩
      rcases hbatch with ⟨received, hreceived⟩
      rcases List.exists_cons_of_ne_nil (List.isEmpty_eq_false_iff.mp hbuf) with
        ⟨⟨sender, message⟩, rest, hcons⟩
      -- the message is off the batch before it is handled
      have hrefines : ({ s with
          clusterMsgBuf := rest
          task := .clusterBatch (received || isStartSignal message) } :
          OmniPaxosServer Ω M).Refines decided := h.grow _ (List.prefix_refl _) rfl rfl rfl
      rcases ledger_handleClusterMessage cfg hlib hrefines message with
        ⟨commands, starts, hledger, hlen⟩
      refine ⟨received, sender, message, rest, commands, starts, hreceived, hcons, hlen, ?_⟩
      have hcrashed : (handleClusterMessage lib cfg message { s with
          clusterMsgBuf := rest
          task := .clusterBatch (received || isStartSignal message) }).crashed = false := by
        have hfield := congrArg Ledger.crashed hledger
        exact hfield.trans hup.2.2
      have hdatabase : Database.replay s.ledger.applied = s.database := h.database.symm
      rw [hdatabase]
      simp only [OmniPaxosServer.update, OmniPaxosServer.nextClusterMessage, hreceived, hcons,
        hcrashed, Bool.false_eq_true, if_false]
      -- the last message of the batch ends it
      by_cases hrest : rest.isEmpty
      · rw [if_pos hrest, ledger_endClusterBatch, hledger]
        simp only [hrest, Bool.true_and, if_true]
        rfl
      · rw [if_neg hrest, hledger]
        simp only [hrest, Bool.false_and, if_false, Bool.false_eq_true]
        rfl
  | recvClient count => exact ⟨hg.2.1, hg.2.2.1, hg.2.2.2.2, rfl⟩
  | nextClientMessage =>
      rcases hg with ⟨hup, htask, hbuf⟩
      rcases List.exists_cons_of_ne_nil (List.isEmpty_eq_false_iff.mp hbuf) with
        ⟨⟨client, ⟨id, c⟩⟩, rest, hcons⟩
      have hlive : ({ s with clientMsgBuf := rest } : OmniPaxosServer Ω M).crashed = false :=
        hup.2.2
      rcases ledger_appendToLog lib cfg hlive client id c with
        ⟨b, hcrashed, hledger⟩
      refine ⟨client, id, c, rest, b, htask, hcons, ?_⟩
      simp only [OmniPaxosServer.update, OmniPaxosServer.nextClientMessage, hcons, hcrashed]
      cases b with
      | true =>
          -- the `append` failed: the task has crashed, and the batch stays open
          simp only [if_true, Bool.not_true, Bool.false_and, Bool.false_eq_true, if_false]
          rw [hledger, ← htask]
          rfl
      | false =>
          by_cases hrest : rest.isEmpty
          · have hend : ∀ s' : OmniPaxosServer Ω M,
                ({ sendOutgoingMsgs lib s' with task := .idle } : OmniPaxosServer Ω M).ledger =
                  { s'.ledger with task := .idle } := by
              intro s'
              rcases sendOutgoingMsgs_eq lib s' with ⟨ω, slots, toPeer, b, heq⟩
              rw [heq]
              rfl
            simp only [Bool.false_eq_true, if_false, hrest, if_true, Bool.not_false, Bool.true_and,
              hend, hledger]
            rfl
          · simp only [Bool.false_eq_true, if_false, hrest, Bool.not_false, Bool.true_and, hledger,
              ← htask]
            rfl
  | crash => rfl

end OmniPaxosServer

/-! ## What every step keeps -/

namespace Ledger

variable {M : Type} {cfg : Config} {v v' : Ledger M} {l : ServerStep}

/-- The client messages that ever came in, appended or not, in their order. -/
def arrived (v : Ledger M) : List (ClientId × ClientMessage) :=
  v.appended.map (fun c => (c.clientId, .append c.id c.kvCmd)) ++
    (v.clientMsgBuf ++ v.clientMessages)

/-- How often the server has started its clients or will on what it has received. -/
def startLoad (v : Ledger M) : ℕ :=
  v.startSignals.length + (v.clusterMsgBuf ++ v.clusterMessages).countP fun m => isStartSignal m.2

structure Orderly (cfg : Config) (v : Ledger M) : Prop where
  idle : v.task = .idle → v.clusterMsgBuf = [] ∧ v.clientMsgBuf = []
  clusterBatch : ∀ b, v.task = .clusterBatch b → v.clusterMsgBuf ≠ [] ∧ v.clientMsgBuf = []
  clientBatch : v.task = .clientBatch → v.clusterMsgBuf = [] ∧
    (v.crashed = false → v.clientMsgBuf ≠ [])
  own : ∀ c ∈ v.appended, c.coordinatorId = cfg.serverId
  answers : v.clientSends.filter (fun m => m.2.commandId.isSome) =
    responses cfg.serverId Database.new v.applied
  starts : v.clientSends.filter (fun m => m.2.commandId.isNone) = startMessages cfg v.startSignals

theorem orderly_new {Ω : Type} (cfg : Config) (ω : Ω) :
    (OmniPaxosServer.new cfg ω : OmniPaxosServer Ω M).ledger.Orderly cfg := by
  constructor <;> simp [OmniPaxosServer.ledger, OmniPaxosServer.new, Network.new, responses,
    startMessages]

theorem isSome_commandId_response (d : Database) (c : Command) :
    (OmniPaxosServer.response d c).commandId = some c.id := by
  unfold OmniPaxosServer.response
  split <;> rfl

/-- All responses have ids. -/
theorem filter_responses (node : NodeId) (d : Database) (log : List Command) :
    (responses node d log).filter (fun m => m.2.commandId.isSome) = responses node d log := by
  rw [List.filter_eq_self]
  induction log generalizing d with
  | nil => simp [responses]
  | cons c log ih =>
      intro m hm
      rcases List.mem_append.mp hm with hm | hm
      · split at hm
        · rw [List.mem_singleton.mp hm, isSome_commandId_response]
          rfl
        · cases hm
      · exact ih _ m hm

/-- The messages of a start are start signals to the first clients. -/
theorem mem_startMessages {starts : List Timestamp} {m : ClientId × ServerMessage} :
    m ∈ startMessages cfg starts ↔
      ∃ t ∈ starts, m.2 = .startSignal t ∧ m.1 ∈ Network.startSignalTargets cfg.numClients := by
  simp only [startMessages, List.mem_flatMap, List.mem_map]
  constructor
  · intro h
    rcases h with ⟨t, ht, k, hk, rfl⟩
    exact ⟨t, ht, rfl, hk⟩
  · intro h
    rcases h with ⟨t, ht, hm, hk⟩
    exact ⟨t, ht, m.1, hk, by rw [← hm]⟩

/-- Start messages have no ids. -/
theorem filter_startMessages (cfg : Config) (starts : List Timestamp) :
    (startMessages cfg starts).filter (fun m => m.2.commandId.isSome) = [] ∧
      (startMessages cfg starts).filter (fun m => m.2.commandId.isNone) =
        startMessages cfg starts := by
  have hnone : ∀ m ∈ startMessages cfg starts, m.2.commandId = none := by
    intro m hm
    rcases mem_startMessages.mp hm with ⟨t, _, ht, _⟩
    rw [ht]
    rfl
  constructor
  · rw [List.filter_eq_nil_iff]
    intro m hm
    simp [hnone m hm]
  · rw [List.filter_eq_self]
    intro m hm
    simp [hnone m hm]

/-- New responses and start signals after the ones sent before. -/
theorem Orderly.send (h : v.Orderly cfg) (commands : List Command) (starts : List Timestamp) :
    ((v.clientSends ++ (responses cfg.serverId (Database.replay v.applied) commands ++
        startMessages cfg starts)).filter (fun m => m.2.commandId.isSome) =
      responses cfg.serverId Database.new (v.applied ++ commands)) ∧
    (v.clientSends ++ (responses cfg.serverId (Database.replay v.applied) commands ++
        startMessages cfg starts)).filter (fun m => m.2.commandId.isNone) =
      startMessages cfg (v.startSignals ++ starts) := by
  constructor
  · rw [List.filter_append, List.filter_append, h.answers, filter_responses,
      (filter_startMessages cfg starts).1, List.append_nil, OmniPaxosServer.responses_append]
    rfl
  · have hresponses : (responses cfg.serverId (Database.replay v.applied) commands).filter
        (fun m => m.2.commandId.isNone) = [] := by
      rw [← filter_responses, List.filter_filter, List.filter_eq_nil_iff]
      intro m _
      cases m.2.commandId <;> simp
    rw [List.filter_append, List.filter_append, h.starts, hresponses,
      (filter_startMessages cfg starts).2]
    simp [startMessages]

/-- Each step of the main task keeps the ledger in order. -/
theorem Orderly.step (h : v.Orderly cfg) (hstep : LedgerStep cfg l v v') : v'.Orderly cfg := by
  cases l with
  | takeover now =>
      rcases hstep with ⟨hidle, _, _, rfl | rfl⟩
      · exact h
      -- a takeover starts the clients
      · have hsend := h.send [] [now + 2000]
        simp only [responses, List.nil_append, List.append_nil] at hsend
        exact ⟨h.idle, h.clusterBatch, h.clientBatch, h.own, hsend.1, hsend.2⟩
  | tick =>
      obtain rfl : v' = v := hstep
      exact h
  | recvCluster count =>
      rcases hstep with ⟨hidle, hpos, hle, rfl⟩
      refine ⟨fun ht => (by cases ht), ?_, fun ht => (by cases ht), h.own, h.answers, h.starts⟩
      -- a batch is not empty, and there is one at a time
      intro _ _
      refine ⟨?_, (h.idle hidle).2⟩
      rw [← List.length_pos_iff, List.length_take]
      omega
  | nextClusterMessage =>
      rcases hstep with ⟨received, sender, message, rest, commands, starts, htask, hbuf, _, rfl⟩
      have hsend := h.send commands starts
      have hclient : v.clientMsgBuf = [] := (h.clusterBatch received htask).2
      -- the batch ends with its last message, or it goes on
      refine ⟨?_, ?_, ?_, h.own, hsend.1, hsend.2⟩
      · intro ht
        dsimp only at ht ⊢
        split at ht
        · next hrest => exact ⟨List.isEmpty_iff.mp hrest, hclient⟩
        · cases ht
      · intro b ht
        dsimp only at ht ⊢
        split at ht
        · cases ht
        · next hrest => exact ⟨fun hnil => hrest (List.isEmpty_iff.mpr hnil), hclient⟩
      · intro ht
        dsimp only at ht
        split at ht <;> cases ht
  | recvClient count =>
      rcases hstep with ⟨hidle, hpos, hle, rfl⟩
      refine ⟨fun ht => (by cases ht), fun _ ht => (by cases ht), ?_, h.own, h.answers, h.starts⟩
      intro _
      refine ⟨(h.idle hidle).1, fun _ => ?_⟩
      rw [← List.length_pos_iff, List.length_take]
      omega
  | nextClientMessage =>
      rcases hstep with ⟨client, id, c, rest, b, htask, hbuf, rfl⟩
      have hcluster : v.clusterMsgBuf = [] := (h.clientBatch htask).1
      -- the same for the clients, where a crash may leave the batch empty and open
      refine ⟨?_, ?_, ?_, ?_, h.answers, h.starts⟩
      · intro ht
        dsimp only at ht ⊢
        split at ht
        · next hrest =>
            simp only [Bool.and_eq_true] at hrest
            exact ⟨hcluster, List.isEmpty_iff.mp hrest.2⟩
        · cases ht
      · intro _ ht
        dsimp only at ht
        split at ht <;> cases ht
      · intro ht
        dsimp only at ht ⊢
        split at ht
        · cases ht
        · next hrest =>
            refine ⟨hcluster, fun hb hnil => hrest ?_⟩
            simp [hb, hnil]
      -- what is appended names its own server
      · intro c' hc'
        rcases List.mem_append.mp hc' with hold | hnew
        · exact h.own c' hold
        · rw [List.mem_singleton.mp hnew]
  | crash =>
      obtain rfl : v' = { v with crashed := true } := hstep
      refine ⟨h.idle, h.clusterBatch, fun ht => ⟨(h.clientBatch ht).1, fun hc => (by cases hc)⟩,
        h.own, h.answers, h.starts⟩

/-- Steps of the main task move client messages along, and neither lose nor invent any. -/
theorem arrived_step (h : v.Orderly cfg) (hstep : LedgerStep cfg l v v') :
    v'.arrived = v.arrived := by
  cases l with
  | takeover now =>
      rcases hstep with ⟨_, _, _, rfl | rfl⟩
      · rfl
      · rfl
  | tick =>
      obtain rfl : v' = v := hstep
      rfl
  | recvCluster count =>
      rcases hstep with ⟨_, _, _, rfl⟩
      rfl
  | nextClusterMessage =>
      rcases hstep with ⟨received, sender, message, rest, commands, starts, _, _, _, rfl⟩
      rfl
  | recvClient count =>
      rcases hstep with ⟨hidle, _, _, rfl⟩
      simp [arrived, (h.idle hidle).2]
  | nextClientMessage =>
      rcases hstep with ⟨client, id, c, rest, b, _, hbuf, rfl⟩
      simp [arrived, hbuf]
  | crash =>
      obtain rfl : v' = { v with crashed := true } := hstep
      rfl

/-- Only a takeover starts the clients unbidden, and it leaves the bootstrap loop. -/
theorem startLoad_step (h : v.Orderly cfg) (hstep : LedgerStep cfg l v v') :
    v'.startLoad = v.startLoad ∨ (v.phase = .establishing ∧ cfg.initialLeader = cfg.serverId ∧
      v'.phase = .running ∧ v'.startLoad = v.startLoad + 1) := by
  cases l with
  | takeover now =>
      rcases hstep with ⟨_, hphase, hleader, rfl | rfl⟩
      · exact .inl rfl
      · right
        refine ⟨hphase, hleader, rfl, ?_⟩
        simp only [startLoad, List.length_append, List.length_singleton]
        omega
  | tick =>
      obtain rfl : v' = v := hstep
      exact .inl rfl
  | recvCluster count =>
      rcases hstep with ⟨hidle, _, _, rfl⟩
      left
      simp [startLoad, (h.idle hidle).1]
  | nextClusterMessage =>
      rcases hstep with ⟨received, sender, message, rest, commands, starts, _, hbuf, hlen, rfl⟩
      left
      have hhead : ((sender, message) :: rest ++ v.clusterMessages).countP
          (fun m => isStartSignal m.2) = [message].countP isStartSignal +
            (rest ++ v.clusterMessages).countP fun m => isStartSignal m.2 := by
        rw [List.cons_append, List.countP_cons, List.countP_singleton, Nat.add_comm]
      simp only [startLoad, hbuf, hhead, List.length_append, hlen]
      omega
  | recvClient count =>
      rcases hstep with ⟨_, _, _, rfl⟩
      exact .inl rfl
  | nextClientMessage =>
      rcases hstep with ⟨client, id, c, rest, b, _, _, rfl⟩
      exact .inl rfl
  | crash =>
      obtain rfl : v' = { v with crashed := true } := hstep
      exact .inl rfl

/-- A server that has left the bootstrap loop does not go back to it. -/
theorem phase_step (hstep : LedgerStep cfg l v v') (hphase : v'.phase = .establishing) :
    v.phase = .establishing := by
  cases l with
  | takeover now => exact hstep.2.1
  | tick =>
      obtain rfl : v' = v := hstep
      exact hphase
  | recvCluster count =>
      rcases hstep with ⟨_, _, _, rfl⟩
      exact hphase
  | nextClusterMessage =>
      rcases hstep with ⟨received, sender, message, rest, commands, starts, _, _, _, rfl⟩
      dsimp only at hphase
      split at hphase
      · cases hphase
      · exact hphase
  | recvClient count =>
      rcases hstep with ⟨_, _, _, rfl⟩
      exact hphase
  | nextClientMessage =>
      rcases hstep with ⟨client, id, c, rest, b, _, _, rfl⟩
      exact hphase
  | crash =>
      obtain rfl : v' = { v with crashed := true } := hstep
      exact hphase

end Ledger

end Server

end OmnipaxosKv
