import Mathlib.Data.Finmap
import Mathlib.Data.List.Nodup
import Mathlib.Logic.Function.Basic
import OmnipaxosKv.Common
import OmnipaxosKv.Connection.Pipe

/-! # The network of a server (`server/network.rs`)

The connection tables, the sends that consult them, and the tasks behind the
connections. A connection is known by the id it was registered under; its queue,
tasks and socket are the pipe of that id.

Fields marked as history are written by the operations and read by no one.
-/

namespace OmnipaxosKv

namespace Server

/-- `NETWORK_BATCH_SIZE`: batch size of all tasks and bound of the inbound channels. -/
def networkBatchSize : ℕ := 100

/-- The configuration a server reads (`configs.rs`), as far as the model uses it. Every node has
an address. -/
structure Config where
  serverId : NodeId
  nodes : List NodeId
  nodes_nodup : nodes.Nodup
  initialLeader : NodeId
  numClients : ℕ

/-- `OmniPaxosKVConfig::get_peers`. -/
def Config.getPeers (cfg : Config) (node : NodeId) : List NodeId :=
  cfg.nodes.filter (· ≠ node)

def Config.peers (cfg : Config) : List NodeId := cfg.getPeers cfg.serverId

theorem Config.peers_nodup (cfg : Config) : cfg.peers.Nodup := cfg.nodes_nodup.filter _

structure PeerConnection where
  peerId : NodeId
deriving DecidableEq, Repr

structure ClientConnection where
  clientId : ClientId
deriving DecidableEq, Repr

inductive NewConnection where
  | toPeer (connection : PeerConnection)
  | toClient (connection : ClientConnection)
deriving DecidableEq, Repr

structure Network (M : Type) where
  peers : List NodeId
  peerConnections : List (Option PeerConnection)
  clientConnections : HashMap ClientId ClientConnection
  maxClientId : ClientId
  clusterMessages : List (NodeId × ClusterMessage M)
  clientMessages : List (ClientId × ClientMessage)
  /-- handshake tasks and connectors that have a connection to hand over -/
  handshakes : List NewConnection
  /-- the channel into `initialize_connections` -/
  connectionSource : List NewConnection
  /-- `initialize_connections` has not returned -/
  initializing : Bool
  /-- an `unwrap` or an index failed -/
  panicked : Bool
  toPeer : NodeId → Pipe (ClusterMessage M)
  toClient : ClientId → Pipe ServerMessage
  /-- history: the connections put into the channel -/
  handedOver : List NewConnection
  /-- history: the connections taken out of the channel -/
  received : List NewConnection
  /-- history: the calls of `send_to_client` -/
  clientSends : List (ClientId × ServerMessage)

namespace Network

variable {M : Type}

/-- The network before `initialize_connections`. -/
def new (cfg : Config) : Network M where
  peers := cfg.peers
  peerConnections := List.replicate cfg.peers.length none
  clientConnections := ∅
  maxClientId := 0
  clusterMessages := []
  clientMessages := []
  handshakes := []
  connectionSource := []
  initializing := true
  panicked := false
  toPeer := fun _ => Pipe.new
  toClient := fun _ => Pipe.new
  handedOver := []
  received := []
  clientSends := []

def clusterIdToIdx (n : Network M) (id : NodeId) : Option ℕ := n.peers.idxOf? id

def sendToCluster (receiver : NodeId) (msg : ClusterMessage M) (n : Network M) : Network M :=
  match n.clusterIdToIdx receiver with
  -- not a peer: an error is logged and the message is lost
  | none => n
  | some idx =>
      match n.peerConnections[idx]? with
      | none => { n with panicked := true }
      -- not connected: the message is lost
      | some none => n
      | some (some connection) =>
          match (n.toPeer connection.peerId).send msg with
          | some pipe => { n with toPeer := Function.update n.toPeer connection.peerId pipe }
          -- the writer task is gone: the slot is emptied and never filled again
          | none => { n with peerConnections := n.peerConnections.set idx none }

def sendToClient (receiver : ClientId) (msg : ServerMessage) (n : Network M) : Network M :=
  let n := { n with clientSends := n.clientSends ++ [(receiver, msg)] }
  match n.clientConnections.lookup receiver with
  -- a warning is logged and the message is lost
  | none => n
  | some connection =>
      match (n.toClient connection.clientId).send msg with
      | some pipe => { n with toClient := Function.update n.toClient connection.clientId pipe }
      -- the writer task is gone
      | none => { n with clientConnections := n.clientConnections.erase receiver }

/-- The ids `1..num_clients + 1` that `send_client_start_signals` goes through. -/
def startSignalTargets (numClients : ℕ) : List ClientId := List.range' 1 numClients

/-- `OmniPaxosServer::send_client_start_signals`. -/
def sendClientStartSignals (numClients : ℕ) (startTime : Timestamp) (n : Network M) : Network M :=
  (startSignalTargets numClients).foldl
    (fun n clientId => n.sendToClient clientId (.startSignal startTime)) n

/-! ## `initialize_connections` -/

/-- The table update for one new connection. -/
def insertConnection : NewConnection → Network M → Network M
  | .toPeer connection, n =>
      match n.clusterIdToIdx connection.peerId with
      -- the `unwrap` of the position of a node that is no peer
      | none => { n with panicked := true }
      | some idx =>
          if idx < n.peerConnections.length then
            { n with peerConnections := n.peerConnections.set idx (some connection) }
          else { n with panicked := true }
  | .toClient connection, n =>
      { n with clientConnections := n.clientConnections.insert connection.clientId connection }

/-- `all_clients_connected && all_cluster_connected` -/
def allConnected (numClients : ℕ) (n : Network M) : Bool :=
  decide (numClients ≤ n.clientConnections.keys.card) && n.peerConnections.all Option.isSome

/-- One turn of the loop: insert the next connection, return when all are there. What
is still in the channel then is dropped with it. -/
def recvConnection (numClients : ℕ) (n : Network M) : Network M :=
  match n.connectionSource with
  | [] => n
  | connection :: rest =>
      let n := insertConnection connection
        { n with connectionSource := rest, received := n.received ++ [connection] }
      if !n.panicked && n.allConnected numClients then
        { n with initializing := false, connectionSource := [] }
      else n

/-- A handshake task's `connection_sender.send`. After `initialize_connections` has
returned the channel is closed: the task panics and its connection is dropped. -/
def handOver (i : ℕ) (n : Network M) : Network M :=
  match n.handshakes[i]? with
  | none => n
  | some connection =>
      let n := { n with handshakes := n.handshakes.eraseIdx i }
      if n.initializing then
        { n with
          connectionSource := n.connectionSource ++ [connection]
          handedOver := n.handedOver ++ [connection] }
      else n

/-- A handshake task reads `ClientRegister` and takes the next id. -/
def registerClient (n : Network M) : Network M :=
  { n with
    maxClientId := n.maxClientId + 1
    handshakes := n.handshakes ++ [.toClient ⟨n.maxClientId + 1⟩] }

/-- A handshake task reads `NodeRegister`, or a connector has sent its own. -/
def connectPeer (peerId : NodeId) (n : Network M) : Network M :=
  { n with handshakes := n.handshakes ++ [.toPeer ⟨peerId⟩] }

end Network

/-- What happens to a network without its server's main task sending or receiving. -/
inductive NetworkStep where
  | connectPeer (peerId : NodeId)
  | registerClient
  | handOver (i : ℕ)
  | recvConnection
  | toPeer (peerId : NodeId) (l : PipeStep)
  | toClient (clientId : ClientId) (l : PipeStep)
deriving DecidableEq, Repr

/-- The capacity of the channel into `initialize_connections`. -/
def connectionSourceCapacity : ℕ := 30

abbrev peerTask : Actor := OmnipaxosKv.PeerConnection.writerTask networkBatchSize

abbrev clientTask : Actor := OmnipaxosKv.ClientConnection.writerTask networkBatchSize

namespace Network

variable {M : Type}

def guard (t : Transport) : NetworkStep → Network M → Prop
  | .connectPeer _, _ => True
  | .registerClient, _ => True
  | .handOver i, n => i < n.handshakes.length ∧
      (n.initializing → n.connectionSource.length < connectionSourceCapacity)
  | .recvConnection, n => n.initializing ∧ n.panicked = false ∧ n.connectionSource.isEmpty = false
  | .toPeer p l, n => (n.toPeer p).guard peerTask t l
  | .toClient k l, n => (n.toClient k).guard clientTask t l

instance (t : Transport) (l : NetworkStep) (n : Network M) : Decidable (guard t l n) := by
  cases l <;> unfold guard <;> infer_instance

def update (numClients : ℕ) : NetworkStep → Network M → Network M
  | .connectPeer p, n => n.connectPeer p
  | .registerClient, n => n.registerClient
  | .handOver i, n => n.handOver i
  | .recvConnection, n => n.recvConnection numClients
  | .toPeer p l, n => { n with toPeer := Function.update n.toPeer p ((n.toPeer p).update peerTask l) }
  | .toClient k l, n =>
      { n with toClient := Function.update n.toClient k ((n.toClient k).update clientTask l) }

/-! ## Alignment

A slot or an entry holds the connection it is named after. -/

structure Aligned (n : Network M) : Prop where
  slots : ∀ (i : ℕ) (c : PeerConnection), n.peerConnections[i]? = some (some c) → n.peers[i]? = some c.peerId
  entries : ∀ (k : ClientId) (c : ClientConnection), n.clientConnections.lookup k = some c → c.clientId = k

theorem aligned_new (cfg : Config) : (new cfg : Network M).Aligned where
  slots := by
    intro i c h
    have hmem := List.mem_of_getElem? h
    exact absurd (List.eq_of_mem_replicate hmem) (by simp)
  entries := by simp [new]

/-- `insert_connection` touches only the two tables. -/
theorem insertConnection_frame (c : NewConnection) (n : Network M) :
    ∃ slots entries b, insertConnection c n =
      { n with peerConnections := slots, clientConnections := entries, panicked := b } := by
  cases c with
  | toPeer connection =>
      unfold insertConnection
      dsimp only
      split
      · exact ⟨_, _, _, rfl⟩
      · split
        · exact ⟨_, _, _, rfl⟩
        · exact ⟨_, _, _, rfl⟩
  | toClient connection => exact ⟨_, _, _, rfl⟩

section

variable {n : Network M}

theorem getElem?_of_clusterIdToIdx {id : NodeId} {idx : ℕ} (h : n.clusterIdToIdx id = some idx) :
    n.peers[idx]? = some id := by
  obtain ⟨hlt, heq, _⟩ := List.idxOf?_eq_some_iff.mp h
  rw [List.getElem?_eq_getElem hlt, heq]

/-- To remove a client that is not there does nothing. -/
theorem erase_of_not_mem {k : ClientId} (h : k ∉ n.clientConnections) :
    n.clientConnections.erase k = n.clientConnections := by
  apply Finmap.ext_lookup
  intro k'
  rw [lookup_erase_ite]
  split
  · next heq => rw [heq, Finmap.lookup_eq_none.mpr h]
  · rfl

/-- All that `send_to_client` can do: the message enters the queue of its connection, or
the client has no entry afterwards. -/
theorem sendToClient_cases (h : n.Aligned) (k : ClientId) (msg : ServerMessage) :
    (k ∈ n.clientConnections ∧ ∃ pipe, (n.toClient k).send msg = some pipe ∧
      n.sendToClient k msg = { n with
        clientSends := n.clientSends ++ [(k, msg)]
        toClient := Function.update n.toClient k pipe }) ∨
    ((k ∉ n.clientConnections ∨ (n.toClient k).writer.phase = .ended) ∧
      n.sendToClient k msg = { n with
        clientSends := n.clientSends ++ [(k, msg)]
        clientConnections := n.clientConnections.erase k }) := by
  cases hlook : n.clientConnections.lookup k with
  | none =>
      have hmem : k ∉ n.clientConnections := Finmap.lookup_eq_none.mp hlook
      right
      refine ⟨.inl hmem, ?_⟩
      simp [sendToClient, hlook, erase_of_not_mem hmem]
  | some connection =>
      obtain rfl := h.entries k connection hlook
      cases hsend : (n.toClient connection.clientId).send msg with
      | some pipe =>
          left
          exact ⟨Finmap.mem_of_lookup_eq_some hlook, pipe, rfl, by simp [sendToClient, hlook, hsend]⟩
      | none =>
          right
          exact ⟨.inr (Pipe.send_eq_none_iff.mp hsend), by simp [sendToClient, hlook, hsend]⟩

/-- All that `send_to_cluster` can do: the message enters the queue of its connection, or
only the slots change. -/
theorem sendToCluster_cases (h : n.Aligned) (p : NodeId) (msg : ClusterMessage M) :
    (∃ pipe, (n.toPeer p).send msg = some pipe ∧
      n.sendToCluster p msg = { n with toPeer := Function.update n.toPeer p pipe }) ∨
    (∃ slots b, n.sendToCluster p msg = { n with peerConnections := slots, panicked := b }) := by
  unfold sendToCluster
  split
  · exact .inr ⟨_, _, rfl⟩
  · next idx hidx =>
      split
      · exact .inr ⟨_, _, rfl⟩
      · exact .inr ⟨_, _, rfl⟩
      · next connection hslot =>
          have hpeer : connection.peerId = p := by
            have heq := (h.slots idx connection hslot).symm.trans (getElem?_of_clusterIdToIdx hidx)
            simpa using heq
          subst hpeer
          split
          · next pipe hsend => exact .inl ⟨pipe, hsend, rfl⟩
          · exact .inr ⟨_, _, rfl⟩

/-- A message to a client is noted, whether it is delivered or not. -/
@[simp] theorem clientSends_sendToClient (k : ClientId) (msg : ServerMessage) (n : Network M) :
    (n.sendToClient k msg).clientSends = n.clientSends ++ [(k, msg)] := by
  unfold sendToClient
  dsimp only
  repeat' split
  all_goals rfl

/-- The start signals to the first clients are recorded as sent, in order. -/
theorem clientSends_sendClientStartSignals (numClients : ℕ) (startTime : Timestamp)
    (n : Network M) :
    (n.sendClientStartSignals numClients startTime).clientSends =
      n.clientSends ++ (startSignalTargets numClients).map (·, .startSignal startTime) := by
  unfold sendClientStartSignals
  induction startSignalTargets numClients generalizing n with
  | nil => simp
  | cons k ks ih => rw [List.foldl_cons, ih, clientSends_sendToClient]; simp

/-- An emptied slot is aligned. -/
theorem Aligned.set_none (h : n.Aligned) (idx : ℕ) :
    ({ n with peerConnections := n.peerConnections.set idx none } : Network M).Aligned where
  slots := by
    intro i c hc
    rw [List.getElem?_set] at hc
    split at hc
    · split at hc <;> simp at hc
    · exact h.slots i c hc
  entries := h.entries

/-- A connection is put where it belongs. -/
theorem Aligned.insertConnection (h : n.Aligned) (c : NewConnection) :
    (insertConnection c n).Aligned := by
  cases c with
  | toPeer c =>
      unfold Network.insertConnection
      dsimp only
      split
      · exact ⟨h.slots, h.entries⟩
      · next idx hidx =>
          split
          · refine ⟨fun i c' hc => ?_, h.entries⟩
            rw [List.getElem?_set] at hc
            split at hc
            · next heq =>
                obtain rfl : c = c' := by simpa using hc
                rw [← heq]
                exact getElem?_of_clusterIdToIdx hidx
            · exact h.slots i c' hc
          · exact ⟨h.slots, h.entries⟩
  | toClient c =>
      refine ⟨h.slots, fun k c' hc => ?_⟩
      change (n.clientConnections.insert c.clientId c).lookup k = some c' at hc
      rw [lookup_insert_ite] at hc
      split at hc
      · next hk =>
          obtain rfl : c = c' := by simpa using hc
          exact hk.symm
      · exact h.entries k c' hc

/-- A client that is removed leaves the others aligned. -/
theorem Aligned.erase (h : n.Aligned) (k : ClientId) :
    ({ n with clientConnections := n.clientConnections.erase k } : Network M).Aligned where
  slots := h.slots
  entries := by
    intro k' c hc
    change (n.clientConnections.erase k).lookup k' = some c at hc
    rw [lookup_erase_ite] at hc
    split at hc
    · cases hc
    · exact h.entries k' c hc

/-- A message to a peer keeps the tables aligned. -/
theorem Aligned.sendToCluster (h : n.Aligned) (receiver : NodeId) (msg : ClusterMessage M) :
    (n.sendToCluster receiver msg).Aligned := by
  unfold Network.sendToCluster
  repeat' split
  all_goals first
    | exact h.set_none _
    | exact ⟨h.slots, h.entries⟩

/-- Sending to a client keeps the network aligned. -/
theorem Aligned.sendToClient (h : n.Aligned) (receiver : ClientId) (msg : ServerMessage) :
    (n.sendToClient receiver msg).Aligned := by
  unfold Network.sendToClient
  dsimp only
  repeat' split
  · exact ⟨h.slots, h.entries⟩
  · exact ⟨h.slots, h.entries⟩
  · exact ⟨(h.erase receiver).slots, (h.erase receiver).entries⟩

/-- A send to one client leaves the connections of the others alone. -/
theorem sendToClient_other (h : n.Aligned) {k k' : ClientId} (hne : k' ≠ k) (msg : ServerMessage) :
    (n.sendToClient k msg).toClient k' = n.toClient k' ∧
      (k' ∈ n.clientConnections → k' ∈ (n.sendToClient k msg).clientConnections) := by
  rcases sendToClient_cases h k msg with ⟨_, pipe, _, heq⟩ | ⟨_, heq⟩
  · rw [heq]
    exact ⟨Function.update_of_ne hne _ _, id⟩
  · rw [heq]
    refine ⟨rfl, fun hmem => ?_⟩
    rw [Finmap.mem_erase]
    exact ⟨hne, hmem⟩

/-- Every live connection whose id is among the targets gets one start signal. -/
theorem accepted_of_startSignals (h : n.Aligned) {k : ClientId} (hmem : k ∈ n.clientConnections)
    (halive : (n.toClient k).writer.phase ≠ .ended) (startTime : Timestamp) {ks : List ClientId}
    (hks : ks.Nodup) (hk : k ∈ ks) :
    ((ks.foldl (fun n k => n.sendToClient k (.startSignal startTime)) n).toClient k).writer.accepted
      = (n.toClient k).writer.accepted ++ [.startSignal startTime] := by
  have hrest : ∀ (ks : List ClientId) (n : Network M), n.Aligned → k ∉ ks →
      (ks.foldl (fun n k => n.sendToClient k (.startSignal startTime)) n).toClient k =
        n.toClient k := by
    intro ks
    induction ks with
    | nil => exact fun _ _ _ => rfl
    | cons k₀ ks ih =>
        intro n h hk
        simp only [List.mem_cons, not_or] at hk
        rw [List.foldl_cons, ih _ (h.sendToClient _ _) hk.2, (sendToClient_other h hk.1 _).1]
  induction ks generalizing n with
  | nil => cases hk
  | cons k₀ ks ih =>
      rw [List.nodup_cons] at hks
      rw [List.foldl_cons]
      by_cases heq : k = k₀
      · subst heq
        rw [hrest ks _ (h.sendToClient _ _) hks.1]
        rcases sendToClient_cases h k (.startSignal startTime) with ⟨_, pipe, hsend, hn⟩ | ⟨hno, _⟩
        · rw [hn]
          simpa using Pipe.accepted_send hsend
        · rcases hno with hno | hno
          · exact absurd hmem hno
          · exact absurd hno halive
      · obtain ⟨hsame, hkeep⟩ := sendToClient_other h heq (.startSignal startTime)
        have hk' : k ∈ ks := by simpa [heq] using hk
        rw [ih (h.sendToClient _ _) (hkeep hmem) (by rw [hsame]; exact halive) hks.2 hk', hsame]

/-- Steps outside the pipes leave them alone. -/
theorem pipes_update (numClients : ℕ) {l : NetworkStep} (hp : ∀ p l', l ≠ .toPeer p l')
    (hk : ∀ k l', l ≠ .toClient k l') : (n.update numClients l).toPeer = n.toPeer ∧
      (n.update numClients l).toClient = n.toClient := by
  cases l with
  | handOver i =>
      simp only [Network.update, Network.handOver]
      repeat' split
      all_goals exact ⟨rfl, rfl⟩
  | recvConnection =>
      simp only [Network.update, Network.recvConnection]
      split
      · exact ⟨rfl, rfl⟩
      · next c rest _ =>
          rcases insertConnection_frame c { n with
            connectionSource := rest, received := n.received ++ [c] } with
            ⟨slots, entries, b, heq⟩
          rw [heq]
          split <;> exact ⟨rfl, rfl⟩
  | toPeer p l => exact absurd rfl (hp p l)
  | toClient k l => exact absurd rfl (hk k l)
  | _ => exact ⟨rfl, rfl⟩

/-- Every step of the network keeps the tables aligned. -/
theorem Aligned.update (h : n.Aligned) (numClients : ℕ) (l : NetworkStep) :
    (n.update numClients l).Aligned := by
  cases l with
  | handOver i =>
      simp only [Network.update, Network.handOver]
      repeat' split
      all_goals exact ⟨h.slots, h.entries⟩
  | recvConnection =>
      simp only [Network.update, Network.recvConnection]
      split
      · exact h
      · next c rest _ =>
          have htaken : ({ n with connectionSource := rest, received := n.received ++ [c] } :
              Network M).Aligned := ⟨h.slots, h.entries⟩
          have hins := htaken.insertConnection c
          split
          · exact ⟨hins.slots, hins.entries⟩
          · exact hins
  | _ => exact ⟨h.slots, h.entries⟩

end

end Network

end Server

end OmnipaxosKv
