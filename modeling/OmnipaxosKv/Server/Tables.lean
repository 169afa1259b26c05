import OmnipaxosKv.Server.Bootstrap

/-! # The connection tables of a server

`Server.Network` knows a connection by the id it was registered under. Here every
connection also carries its socket, so that two registrations under one id are two
connections, and the run goes from `Network::new` over `send_to_cluster` and
`send_to_client` to `shutdown`. The registrations are arbitrary.

The tables stay aligned whatever arrives. `tables_safe_iff` says for which runs nothing
panics either.
-/

namespace OmnipaxosKv

namespace Server

namespace Tables

/-- `socket` stands for the tasks and the queue that belong to the socket of that number. -/
structure PeerConnection extends Server.PeerConnection where
  socket : ℕ
deriving DecidableEq, Repr

structure ClientConnection extends Server.ClientConnection where
  socket : ℕ
deriving DecidableEq, Repr

inductive NewConnection where
  | toPeer (connection : PeerConnection)
  | toClient (connection : ClientConnection)
deriving DecidableEq, Repr

/-- Who is at the other end of a socket, by its registration. -/
inductive Party where
  | node (id : NodeId)
  | client (id : ClientId)
deriving DecidableEq, Repr

structure Network where
  peers : List NodeId
  peerConnections : List (Option PeerConnection)
  clientConnections : HashMap ClientId ClientConnection
  maxClientId : ClientId
  /-- peers that a connector task tries to reach -/
  connectors : List NodeId
  /-- handshake tasks and connectors that have a connection to hand over -/
  handshakes : List NewConnection
  /-- the channel into `initialize_connections` -/
  connectionSource : List NewConnection
  /-- `initialize_connections` has not returned -/
  initializing : Bool
  /-- an `unwrap` or an index of the main task failed -/
  panicked : Bool
  /-- an `unwrap` of a handshake task or a connector failed -/
  taskPanicked : Bool
  /-- history: who registered on the sockets, by number -/
  registered : List Party
  /-- history: the messages put into a queue, by addressee and socket -/
  handed : List (Party × ℕ)

namespace Network

def new (cfg : Config) : Network where
  peers := cfg.peers
  peerConnections := List.replicate cfg.peers.length none
  clientConnections := ∅
  maxClientId := 0
  connectors := cfg.peers.filter (· < cfg.serverId)
  handshakes := []
  connectionSource := []
  initializing := true
  panicked := false
  taskPanicked := false
  registered := []
  handed := []

def clusterIdToIdx (n : Network) (id : NodeId) : Option ℕ := n.peers.idxOf? id

/-! ## Registration -/

def registerPeer (peerId : NodeId) (n : Network) : Network :=
  { n with
    handshakes := n.handshakes ++ [.toPeer ⟨⟨peerId⟩, n.registered.length⟩]
    registered := n.registered ++ [.node peerId] }

def registerClient (n : Network) : Network :=
  { n with
    maxClientId := n.maxClientId + 1
    handshakes := n.handshakes ++ [.toClient ⟨⟨n.maxClientId + 1⟩, n.registered.length⟩]
    registered := n.registered ++ [.client (n.maxClientId + 1)] }

/-- What a handshake task does with the item it reads: a message, an item that does not
decode, or the end of the stream. -/
def handleIncomingConnection (item : Option (Except Unit RegistrationMessage)) (n : Network) :
    Network :=
  match item with
  | some (.ok (.nodeRegister nodeId)) => n.registerPeer nodeId
  | some (.ok .clientRegister) => n.registerClient
  | some (.error ()) => n
  | none => n

/-- A connector has reached its peer, and could send its own handshake or not. -/
def connectorDone (i : ℕ) (sent : Bool) (n : Network) : Network :=
  match n.connectors[i]? with
  | none => n
  | some peer =>
      let n := { n with connectors := n.connectors.eraseIdx i }
      if sent then n.registerPeer peer else n

/-- `connection_sender.send(new_connection).await.unwrap()`: the channel is closed when
`initialize_connections` has returned. -/
def handOver (i : ℕ) (n : Network) : Network :=
  match n.handshakes[i]? with
  | none => n
  | some connection =>
      let n := { n with handshakes := n.handshakes.eraseIdx i }
      if n.initializing then
        { n with connectionSource := n.connectionSource ++ [connection] }
      else { n with taskPanicked := true }

/-! ## `initialize_connections` -/

def insertConnection : NewConnection → Network → Network
  | .toPeer connection, n =>
      match n.clusterIdToIdx connection.peerId with
      -- the `unwrap` of the position of a node that is no peer
      | none => { n with panicked := true }
      | some peerIdx =>
          if peerIdx < n.peerConnections.length then
            { n with peerConnections := n.peerConnections.set peerIdx (some connection) }
          -- an index out of range; the table is as long as the list of peers
          else { n with panicked := true }
  | .toClient connection, n =>
      { n with clientConnections := n.clientConnections.insert connection.clientId connection }

def allConnected (numClients : ℕ) (n : Network) : Bool :=
  decide (numClients ≤ n.clientConnections.keys.card) && n.peerConnections.all Option.isSome

/-- One turn of the loop. -/
def recvConnection (numClients : ℕ) (n : Network) : Network :=
  match n.connectionSource with
  | [] => n
  | connection :: rest =>
      let n := insertConnection connection { n with connectionSource := rest }
      if !n.panicked && n.allConnected numClients then
        { n with initializing := false, connectionSource := [] }
      else n

/-! ## Sends and `shutdown` -/

/-- `accepted` is the result of `connection.send`, if it is called. -/
def sendToCluster (receiver : NodeId) (accepted : Bool) (n : Network) : Network :=
  match n.clusterIdToIdx receiver with
  -- not a peer: an error is logged and the message is lost
  | none => n
  | some idx =>
      match n.peerConnections[idx]? with
      | none => { n with panicked := true }
      -- not connected: the message is lost
      | some none => n
      | some (some connection) =>
          if accepted then { n with handed := n.handed ++ [(.node receiver, connection.socket)] }
          else { n with peerConnections := n.peerConnections.set idx none }

def sendToClient (receiver : ClientId) (accepted : Bool) (n : Network) : Network :=
  match n.clientConnections.lookup receiver with
  | none => n
  | some connection =>
      if accepted then { n with handed := n.handed ++ [(.client receiver, connection.socket)] }
      else { n with clientConnections := n.clientConnections.erase receiver }

def shutdown (n : Network) : Network :=
  { n with
    clientConnections := ∅
    -- the drained vector is refilled, one slot for each peer
    peerConnections := List.replicate n.peers.length none }

end Network

inductive Step where
  | incoming (item : Option (Except Unit RegistrationMessage))
  | connectorDone (i : ℕ) (sent : Bool)
  | handOver (i : ℕ)
  | recvConnection
  | sendToCluster (receiver : NodeId) (accepted : Bool)
  | sendToClient (receiver : ClientId) (accepted : Bool)
  | shutdown

namespace Step

/-- The server's main task is in `Network::new` and then calls the methods. -/
def guard : Step → Network → Prop
  | incoming _, _ => True
  | connectorDone i _, n => i < n.connectors.length
  | handOver i, n => i < n.handshakes.length ∧
      (n.initializing → n.connectionSource.length < connectionSourceCapacity)
  | recvConnection, n => n.initializing ∧ n.panicked = false ∧ n.connectionSource.isEmpty = false
  | sendToCluster _ _, n => n.initializing = false ∧ n.panicked = false
  | sendToClient _ _, n => n.initializing = false ∧ n.panicked = false
  | shutdown, n => n.initializing = false ∧ n.panicked = false

def update (numClients : ℕ) : Step → Network → Network
  | incoming item, n => n.handleIncomingConnection item
  | connectorDone i sent, n => n.connectorDone i sent
  | handOver i, n => n.handOver i
  | recvConnection, n => n.recvConnection numClients
  | sendToCluster receiver accepted, n => n.sendToCluster receiver accepted
  | sendToClient receiver accepted, n => n.sendToClient receiver accepted
  | shutdown, n => n.shutdown

instance : (l : Step) → (n : Network) → Decidable (guard l n)
  | incoming _, _ => inferInstanceAs (Decidable True)
  | connectorDone _ _, _ => inferInstanceAs (Decidable (_ < _))
  | handOver _, _ => inferInstanceAs (Decidable (_ ∧ _))
  | recvConnection, _ => inferInstanceAs (Decidable (_ ∧ _))
  | sendToCluster _ _, _ => inferInstanceAs (Decidable (_ ∧ _))
  | sendToClient _ _, _ => inferInstanceAs (Decidable (_ ∧ _))
  | shutdown, _ => inferInstanceAs (Decidable (_ ∧ _))

end Step

/-- A server's connection tables from `Network::new` on. -/
def machine (cfg : Config) : Machine Network Step where
  init := fun n => n = Network.new cfg
  guard := Step.guard
  update := Step.update cfg.numClients

instance (cfg : Config) (l : Step) (n : Network) : Decidable ((machine cfg).guard l n) :=
  inferInstanceAs (Decidable (l.guard n))

/-! ## What always holds -/

namespace NewConnection

def socket : NewConnection → ℕ
  | toPeer connection => connection.socket
  | toClient connection => connection.socket

/-- Whom the connection is named after. -/
def party : NewConnection → Party
  | toPeer connection => .node connection.peerId
  | toClient connection => .client connection.clientId

/-- A connection to a node is one to a peer. -/
def NamesPeer (peers : List NodeId) : NewConnection → Prop
  | toPeer connection => connection.peerId ∈ peers
  | toClient _ => True

instance (peers : List NodeId) : (c : NewConnection) → Decidable (c.NamesPeer peers)
  | toPeer connection => inferInstanceAs (Decidable (connection.peerId ∈ peers))
  | toClient _ => inferInstanceAs (Decidable True)

end NewConnection

namespace Network

/-- The socket of the connection was registered by the party it is named after. -/
def Owns (n : Network) (c : NewConnection) : Prop := n.registered[c.socket]? = some c.party

/-- Slots and entries are named after their places, and a connection is on the socket of
the party it is named after, wherever it is. -/
structure Sound (n : Network) : Prop where
  length : n.peerConnections.length = n.peers.length
  slots : ∀ (i : ℕ) (c : PeerConnection), n.peerConnections[i]? = some (some c) →
    n.peers[i]? = some c.peerId ∧ n.Owns (.toPeer c)
  entries : ∀ (k : ClientId) (c : ClientConnection), n.clientConnections.lookup k = some c →
    c.clientId = k ∧ n.Owns (.toClient c)
  handshakes : ∀ c ∈ n.handshakes, n.Owns c
  connectionSource : ∀ c ∈ n.connectionSource, n.Owns c
  handed : ∀ party socket, (party, socket) ∈ n.handed → n.registered[socket]? = some party

variable {n : Network}

/-- The tables of a new network are sound. -/
theorem sound_new (cfg : Config) : (new cfg).Sound where
  length := List.length_replicate
  slots := by
    intro i c h
    have hmem := List.mem_of_getElem? h
    exact absurd (List.eq_of_mem_replicate hmem) (by simp)
  entries := by simp [new]
  handshakes := by simp [new]
  connectionSource := by simp [new]
  handed := by simp [new]

/-- The index of a peer is its place in the list of peers. -/
theorem getElem?_of_clusterIdToIdx {id : NodeId} {idx : ℕ} (h : n.clusterIdToIdx id = some idx) :
    n.peers[idx]? = some id := by
  rcases List.idxOf?_eq_some_iff.mp h with ⟨hlt, heq, _⟩
  rw [List.getElem?_eq_getElem hlt, heq]

/-- Only a peer has an index. -/
theorem clusterIdToIdx_eq_none_iff {id : NodeId} : n.clusterIdToIdx id = none ↔ id ∉ n.peers :=
  List.idxOf?_eq_none_iff

/-- The index of a peer is an index of the table. -/
theorem Sound.lt_of_clusterIdToIdx (h : n.Sound) {id : NodeId} {idx : ℕ}
    (hidx : n.clusterIdToIdx id = some idx) : idx < n.peerConnections.length := by
  rw [h.length]
  exact (List.getElem?_eq_some_iff.mp (getElem?_of_clusterIdToIdx hidx)).1

/-! ### Registration -/

/-- A new socket is registered by the party its connection is named after. -/
theorem Sound.register (h : n.Sound) {c : NewConnection} (hsocket : c.socket = n.registered.length) :
    ({ n with
      handshakes := n.handshakes ++ [c]
      registered := n.registered ++ [c.party] } : Network).Sound := by
  have hkeep : ∀ {socket : ℕ} {party : Party}, n.registered[socket]? = some party →
      (n.registered ++ [c.party])[socket]? = some party := by
    intro socket party hold
    rw [List.getElem?_append_left (List.getElem?_eq_some_iff.mp hold).1]
    exact hold
  have hnew : (n.registered ++ [c.party])[c.socket]? = some c.party := by
    rw [hsocket]
    exact List.getElem?_concat_length
  constructor
  · exact h.length
  · intro i c' hc'
    exact ⟨(h.slots i c' hc').1, hkeep (h.slots i c' hc').2⟩
  · intro k c' hc'
    exact ⟨(h.entries k c' hc').1, hkeep (h.entries k c' hc').2⟩
  · intro c' hc'
    rcases List.mem_append.mp hc' with hold | hlast
    · exact hkeep (h.handshakes c' hold)
    · rw [List.mem_singleton.mp hlast]
      exact hnew
  · exact fun c' hc' => hkeep (h.connectionSource c' hc')
  · exact fun party socket hmem => hkeep (h.handed party socket hmem)

/-- A peer that registers owns its new socket. -/
theorem Sound.registerPeer (h : n.Sound) (peerId : NodeId) : (n.registerPeer peerId).Sound :=
  h.register (c := .toPeer ⟨⟨peerId⟩, n.registered.length⟩) rfl

/-- A client that registers owns its new socket. -/
theorem Sound.registerClient (h : n.Sound) : n.registerClient.Sound := by
  have hcount : ({ n with maxClientId := n.maxClientId + 1 } : Network).Sound :=
    ⟨h.length, h.slots, h.entries, h.handshakes, h.connectionSource, h.handed⟩
  exact hcount.register (c := .toClient ⟨⟨n.maxClientId + 1⟩, n.registered.length⟩) rfl

/-- Whatever a handshake task reads, the tables stay sound. -/
theorem Sound.handleIncomingConnection (h : n.Sound)
    (item : Option (Except Unit RegistrationMessage)) :
    (n.handleIncomingConnection item).Sound := by
  unfold Network.handleIncomingConnection
  split
  · exact h.registerPeer _
  · exact h.registerClient
  · exact h
  · exact h

/-- Whether or not a connector could send its handshake, the tables stay sound. -/
theorem Sound.connectorDone (h : n.Sound) (i : ℕ) (sent : Bool) : (n.connectorDone i sent).Sound := by
  unfold Network.connectorDone
  split
  · exact h
  · next peer _ =>
      have herased : ({ n with connectors := n.connectors.eraseIdx i } : Network).Sound :=
        ⟨h.length, h.slots, h.entries, h.handshakes, h.connectionSource, h.handed⟩
      dsimp only
      split
      · exact herased.registerPeer peer
      · exact herased

/-- A connection that is handed over keeps its socket. -/
theorem Sound.handOver (h : n.Sound) (i : ℕ) : (n.handOver i).Sound := by
  unfold Network.handOver
  split
  · exact h
  · next connection hget =>
      have hrest : ∀ c ∈ n.handshakes.eraseIdx i, n.Owns c :=
        fun c hc => h.handshakes c (List.mem_of_mem_eraseIdx hc)
      dsimp only
      split
      · refine ⟨h.length, h.slots, h.entries, hrest, ?_, h.handed⟩
        intro c hc
        rcases List.mem_append.mp hc with hold | hlast
        · exact h.connectionSource c hold
        · rw [List.mem_singleton.mp hlast]
          exact h.handshakes connection (List.mem_of_getElem? hget)
      · exact ⟨h.length, h.slots, h.entries, hrest, h.connectionSource, h.handed⟩

/-! ### `initialize_connections` -/

/-- The connection goes to the place it is named after, or the main task panics. -/
theorem Sound.insertConnection (h : n.Sound) {c : NewConnection} (hc : n.Owns c) :
    (insertConnection c n).Sound := by
  cases c with
  | toPeer connection =>
      unfold Network.insertConnection
      dsimp only
      -- without an index the task panics and the tables stay
      split
      · exact ⟨h.length, h.slots, h.entries, h.handshakes, h.connectionSource, h.handed⟩
      · next idx hidx =>
          have hlt := h.lt_of_clusterIdToIdx hidx
          rw [if_pos hlt]
          refine ⟨?_, ?_, h.entries, h.handshakes, h.connectionSource, h.handed⟩
          · rw [List.length_set]
            exact h.length
          -- the slot of the peer, or another one
          · intro i c' hslot
            by_cases heq : idx = i
            · rw [← heq, List.getElem?_set_self hlt] at hslot
              have hsame : connection = c' := Option.some.inj (Option.some.inj hslot)
              rw [← heq, ← hsame]
              exact ⟨getElem?_of_clusterIdToIdx hidx, hc⟩
            · rw [List.getElem?_set_ne heq] at hslot
              exact h.slots i c' hslot
  | toClient connection =>
      refine ⟨h.length, h.slots, ?_, h.handshakes, h.connectionSource, h.handed⟩
      intro k c' hlookup
      change (n.clientConnections.insert connection.clientId connection).lookup k = some c' at hlookup
      rw [lookup_insert_ite] at hlookup
      split at hlookup
      · next hk =>
          rw [← Option.some.inj hlookup]
          exact ⟨hk.symm, hc⟩
      · exact h.entries k c' hlookup

/-- A connection taken out of the channel is put where it belongs. -/
theorem Sound.recvConnection (h : n.Sound) (numClients : ℕ) :
    (n.recvConnection numClients).Sound := by
  unfold Network.recvConnection
  split
  · exact h
  · next c rest hsource =>
      have hchannel := h.connectionSource
      rw [hsource] at hchannel
      have htaken : ({ n with connectionSource := rest } : Network).Sound :=
        ⟨h.length, h.slots, h.entries, h.handshakes,
          fun c' hc' => hchannel c' (List.mem_cons_of_mem _ hc'), h.handed⟩
      have hinserted := htaken.insertConnection (c := c) (hchannel c List.mem_cons_self)
      dsimp only
      split
      · exact ⟨hinserted.length, hinserted.slots, hinserted.entries, hinserted.handshakes,
          fun c' hc' => absurd hc' List.not_mem_nil, hinserted.handed⟩
      · exact hinserted

/-! ### Sends and `shutdown` -/

/-- A message may be put into the queue of a socket that its addressee owns. -/
theorem Sound.hand (h : n.Sound) {party : Party} {socket : ℕ}
    (howns : n.registered[socket]? = some party) :
    ({ n with handed := n.handed ++ [(party, socket)] } : Network).Sound := by
  refine ⟨h.length, h.slots, h.entries, h.handshakes, h.connectionSource, ?_⟩
  intro party' socket' hmem
  rcases List.mem_append.mp hmem with hold | hlast
  · exact h.handed party' socket' hold
  · rcases Prod.mk.inj (List.mem_singleton.mp hlast) with ⟨hparty, hsocket⟩
    rw [hparty, hsocket]
    exact howns

/-- A message for a peer goes to a socket that the peer registered. -/
theorem Sound.sendToCluster (h : n.Sound) (receiver : NodeId) (accepted : Bool) :
    (n.sendToCluster receiver accepted).Sound := by
  unfold Network.sendToCluster
  split
  · exact h
  · next idx hidx =>
      split
      · exact ⟨h.length, h.slots, h.entries, h.handshakes, h.connectionSource, h.handed⟩
      · exact h
      · next connection hslot =>
          rcases h.slots idx connection hslot with ⟨hplace, howns⟩
          -- the slot is named after its place, and so after the receiver
          have hreceiver : connection.peerId = receiver := by
            rw [getElem?_of_clusterIdToIdx hidx] at hplace
            exact (Option.some.inj hplace).symm
          split
          · rw [← hreceiver]
            exact h.hand howns
          · refine ⟨?_, ?_, h.entries, h.handshakes, h.connectionSource, h.handed⟩
            · rw [List.length_set]
              exact h.length
            · intro i c hc
              rw [List.getElem?_set] at hc
              split at hc
              · simp at hc
              · exact h.slots i c hc

/-- A message for a client goes to a socket that the client registered. -/
theorem Sound.sendToClient (h : n.Sound) (receiver : ClientId) (accepted : Bool) :
    (n.sendToClient receiver accepted).Sound := by
  unfold Network.sendToClient
  split
  · exact h
  · next connection hlookup =>
      rcases h.entries receiver connection hlookup with ⟨hreceiver, howns⟩
      split
      · rw [← hreceiver]
        exact h.hand howns
      · refine ⟨h.length, h.slots, ?_, h.handshakes, h.connectionSource, h.handed⟩
        intro k c hc
        change (n.clientConnections.erase receiver).lookup k = some c at hc
        rw [lookup_erase_ite] at hc
        split at hc
        · cases hc
        · exact h.entries k c hc

/-- Emptied tables are sound. -/
theorem Sound.shutdown (h : n.Sound) : n.shutdown.Sound where
  length := List.length_replicate
  slots := by
    intro i c hslot
    have hmem := List.mem_of_getElem? hslot
    exact absurd (List.eq_of_mem_replicate hmem) (by simp)
  entries := by simp [Network.shutdown]
  handshakes := h.handshakes
  connectionSource := h.connectionSource
  handed := h.handed

/-- Every step keeps the tables sound. -/
theorem Sound.update (h : n.Sound) (numClients : ℕ) (l : Step) : (l.update numClients n).Sound := by
  cases l with
  | incoming item => exact h.handleIncomingConnection item
  | connectorDone i sent => exact h.connectorDone i sent
  | handOver i => exact h.handOver i
  | recvConnection => exact h.recvConnection numClients
  | sendToCluster receiver accepted => exact h.sendToCluster receiver accepted
  | sendToClient receiver accepted => exact h.sendToClient receiver accepted
  | shutdown => exact h.shutdown

/-! ## With the sockets forgotten

The operations of `Server.Network` are these operations, on tables that do not tell the
connections of one party apart. -/

variable {M : Type} {s : Server.Network M}

/-- The connection without its socket. -/
def forget : NewConnection → Server.NewConnection
  | .toPeer connection => .toPeer connection.toPeerConnection
  | .toClient connection => .toClient connection.toClientConnection

/-- The tables of `s` are those of `n` with the sockets forgotten. -/
structure Forgets (n : Network) (s : Server.Network M) : Prop where
  peers : s.peers = n.peers
  peerConnections : s.peerConnections = n.peerConnections.map (Option.map (·.toPeerConnection))
  clientConnections : ∀ k, s.clientConnections.lookup k =
    (n.clientConnections.lookup k).map (·.toClientConnection)
  maxClientId : s.maxClientId = n.maxClientId
  handshakes : s.handshakes = n.handshakes.map forget
  connectionSource : s.connectionSource = n.connectionSource.map forget
  initializing : s.initializing = n.initializing
  panicked : s.panicked = n.panicked

/-- The tables with and without sockets start alike. -/
theorem forgets_new (cfg : Config) : (new cfg).Forgets (Server.Network.new cfg : Server.Network M) where
  peers := rfl
  peerConnections := by simp [new, Server.Network.new]
  clientConnections := by simp [new, Server.Network.new]
  maxClientId := rfl
  handshakes := rfl
  connectionSource := rfl
  initializing := rfl
  panicked := rfl

/-- The tables with and without sockets agree when a peer registers. -/
theorem Forgets.registerPeer (h : n.Forgets s) (peerId : NodeId) :
    (n.registerPeer peerId).Forgets (s.connectPeer peerId) where
  peers := h.peers
  peerConnections := h.peerConnections
  clientConnections := h.clientConnections
  maxClientId := h.maxClientId
  handshakes := by simp [Network.registerPeer, Server.Network.connectPeer, h.handshakes, forget]
  connectionSource := h.connectionSource
  initializing := h.initializing
  panicked := h.panicked

/-- The tables with and without sockets agree when a client registers, and give it the same id. -/
theorem Forgets.registerClient (h : n.Forgets s) : n.registerClient.Forgets s.registerClient where
  peers := h.peers
  peerConnections := h.peerConnections
  clientConnections := h.clientConnections
  maxClientId := congrArg (· + 1) h.maxClientId
  handshakes := by
    simp [Network.registerClient, Server.Network.registerClient, h.handshakes, h.maxClientId, forget]
  connectionSource := h.connectionSource
  initializing := h.initializing
  panicked := h.panicked

/-- The tables with and without sockets agree when a connection is handed over. -/
theorem Forgets.handOver (h : n.Forgets s) (i : ℕ) : (n.handOver i).Forgets (s.handOver i) := by
  have hget : s.handshakes[i]? = n.handshakes[i]?.map forget := by
    rw [h.handshakes, List.getElem?_map]
  have herase : s.handshakes.eraseIdx i = (n.handshakes.eraseIdx i).map forget := by
    rw [h.handshakes]
    exact List.eraseIdx_map ..
  unfold Network.handOver Server.Network.handOver
  rw [hget]
  cases n.handshakes[i]? with
  | none => exact h
  | some connection =>
      dsimp only [Option.map_some]
      by_cases hinit : n.initializing = true
      · rw [if_pos hinit, if_pos (h.initializing.trans hinit)]
        refine ⟨h.peers, h.peerConnections, h.clientConnections, h.maxClientId, herase, ?_,
          h.initializing, h.panicked⟩
        dsimp only
        rw [h.connectionSource, List.map_append]
        rfl
      · rw [if_neg hinit, if_neg (h.initializing ▸ hinit)]
        exact ⟨h.peers, h.peerConnections, h.clientConnections, h.maxClientId, herase,
          h.connectionSource, h.initializing, h.panicked⟩

/-- The tables with and without sockets find a peer in the same place. -/
theorem Forgets.clusterIdToIdx (h : n.Forgets s) (id : NodeId) :
    s.clusterIdToIdx id = n.clusterIdToIdx id := by
  rw [Server.Network.clusterIdToIdx, h.peers]
  rfl

/-- The tables with and without sockets put a connection in the same place, and fail for the same ones. -/
theorem Forgets.insertConnection (h : n.Forgets s) (c : NewConnection) :
    (insertConnection c n).Forgets (Server.Network.insertConnection (forget c) s) := by
  cases c with
  | toPeer connection =>
      unfold Network.insertConnection Server.Network.insertConnection
      dsimp only [forget]
      rw [h.clusterIdToIdx]
      cases n.clusterIdToIdx connection.peerId with
      | none => exact ⟨h.peers, h.peerConnections, h.clientConnections, h.maxClientId, h.handshakes,
          h.connectionSource, h.initializing, rfl⟩
      | some idx =>
          have hlength : s.peerConnections.length = n.peerConnections.length := by
            rw [h.peerConnections, List.length_map]
          dsimp only
          by_cases hlt : idx < n.peerConnections.length
          · rw [if_pos hlt, if_pos (hlength ▸ hlt)]
            refine ⟨h.peers, ?_, h.clientConnections, h.maxClientId, h.handshakes,
              h.connectionSource, h.initializing, h.panicked⟩
            dsimp only
            rw [h.peerConnections, List.map_set]
            rfl
          · rw [if_neg hlt, if_neg (hlength ▸ hlt)]
            exact ⟨h.peers, h.peerConnections, h.clientConnections, h.maxClientId, h.handshakes,
              h.connectionSource, h.initializing, rfl⟩
  | toClient connection =>
      refine ⟨h.peers, h.peerConnections, ?_, h.maxClientId, h.handshakes, h.connectionSource,
        h.initializing, h.panicked⟩
      intro k
      change (s.clientConnections.insert _ _).lookup k =
        ((n.clientConnections.insert _ _).lookup k).map _
      rw [lookup_insert_ite, lookup_insert_ite, h.clientConnections]
      split
      · rfl
      · rfl

/-- The tables with and without sockets wait for the same connections. -/
theorem Forgets.allConnected (h : n.Forgets s) (numClients : ℕ) :
    s.allConnected numClients = n.allConnected numClients := by
  -- the two tables have the same keys, so they count the same clients
  have hkeys : s.clientConnections.keys = n.clientConnections.keys := by
    ext k
    rw [Finmap.mem_keys, Finmap.mem_keys, ← Finmap.lookup_isSome, ← Finmap.lookup_isSome,
      h.clientConnections, Option.isSome_map]
  have hslots : s.peerConnections.all Option.isSome = n.peerConnections.all Option.isSome := by
    rw [h.peerConnections, List.all_map]
    congr 1
    funext slot
    exact Option.isSome_map
  rw [Server.Network.allConnected, hkeys, hslots]
  rfl

/-- The tables with and without sockets stop waiting at the same time. -/
theorem Forgets.finish (h : n.Forgets s) (numClients : ℕ) :
    (if !n.panicked && n.allConnected numClients then
      { n with initializing := false, connectionSource := [] } else n).Forgets
    (if !s.panicked && s.allConnected numClients then
      { s with initializing := false, connectionSource := [] } else s) := by
  have hcond : (!s.panicked && s.allConnected numClients) =
      (!n.panicked && n.allConnected numClients) := by
    rw [h.panicked, h.allConnected]
  rw [hcond]
  split
  · exact ⟨h.peers, h.peerConnections, h.clientConnections, h.maxClientId, h.handshakes, rfl, rfl,
      h.panicked⟩
  · exact h

/-- The tables with and without sockets agree when a connection is taken out of the channel. -/
theorem Forgets.recvConnection (h : n.Forgets s) (numClients : ℕ) :
    (n.recvConnection numClients).Forgets (s.recvConnection numClients) := by
  unfold Network.recvConnection Server.Network.recvConnection
  rw [h.connectionSource]
  cases n.connectionSource with
  | nil => exact h
  | cons c rest =>
      have htaken : ({ n with connectionSource := rest } : Network).Forgets
          { s with connectionSource := rest.map forget, received := s.received ++ [forget c] } :=
        ⟨h.peers, h.peerConnections, h.clientConnections, h.maxClientId, h.handshakes, rfl,
          h.initializing, h.panicked⟩
      exact (htaken.insertConnection c).finish numClients

/-- `accepted` is whether the queue of the addressee takes the message. -/
theorem Forgets.sendToCluster (h : n.Forgets s) (hsound : n.Sound) (receiver : NodeId)
    (msg : ClusterMessage M) :
    (n.sendToCluster receiver ((s.toPeer receiver).send msg).isSome).Forgets
      (s.sendToCluster receiver msg) := by
  unfold Network.sendToCluster Server.Network.sendToCluster
  rw [h.clusterIdToIdx]
  cases hidx : n.clusterIdToIdx receiver with
  | none => exact h
  | some idx =>
      have hget : s.peerConnections[idx]? =
          n.peerConnections[idx]?.map (Option.map (·.toPeerConnection)) := by
        rw [h.peerConnections, List.getElem?_map]
      dsimp only
      rw [hget]
      cases hslot : n.peerConnections[idx]? with
      | none => exact ⟨h.peers, h.peerConnections, h.clientConnections, h.maxClientId,
          h.handshakes, h.connectionSource, h.initializing, rfl⟩
      | some slot =>
          cases slot with
          | none => exact h
          | some connection =>
              dsimp only [Option.map_some]
              -- the queue that `s` asks is that of the receiver only because the slot is named so
              have hreceiver : connection.peerId = receiver := by
                have hplace := (hsound.slots idx connection hslot).1
                rw [getElem?_of_clusterIdToIdx hidx] at hplace
                exact (Option.some.inj hplace).symm
              rw [hreceiver]
              cases (s.toPeer receiver).send msg with
              | some pipe => exact ⟨h.peers, h.peerConnections, h.clientConnections,
                  h.maxClientId, h.handshakes, h.connectionSource, h.initializing, h.panicked⟩
              | none =>
                  rw [Option.isSome_none, if_neg Bool.false_ne_true]
                  refine ⟨h.peers, ?_, h.clientConnections, h.maxClientId, h.handshakes,
                    h.connectionSource, h.initializing, h.panicked⟩
                  dsimp only
                  rw [h.peerConnections, List.map_set]
                  rfl

/-- `accepted` is whether the queue of the client takes the message. -/
theorem Forgets.sendToClient (h : n.Forgets s) (hsound : n.Sound) (receiver : ClientId)
    (msg : ServerMessage) :
    (n.sendToClient receiver ((s.toClient receiver).send msg).isSome).Forgets
      (s.sendToClient receiver msg) := by
  unfold Network.sendToClient Server.Network.sendToClient
  dsimp only
  rw [h.clientConnections]
  cases hlookup : n.clientConnections.lookup receiver with
  | none => exact ⟨h.peers, h.peerConnections, h.clientConnections, h.maxClientId,
      h.handshakes, h.connectionSource, h.initializing, h.panicked⟩
  | some connection =>
      dsimp only [Option.map_some]
      rw [(hsound.entries receiver connection hlookup).1]
      cases (s.toClient receiver).send msg with
      | some pipe => exact ⟨h.peers, h.peerConnections, h.clientConnections,
          h.maxClientId, h.handshakes, h.connectionSource, h.initializing, h.panicked⟩
      | none =>
          refine ⟨h.peers, h.peerConnections, ?_, h.maxClientId, h.handshakes,
            h.connectionSource, h.initializing, h.panicked⟩
          intro k
          change (s.clientConnections.erase receiver).lookup k =
            ((n.clientConnections.erase receiver).lookup k).map _
          rw [lookup_erase_ite, lookup_erase_ite, h.clientConnections]
          split
          · rfl
          · rfl

/-! ## What panics -/

/-- No operation has panicked so far, in the main task or in another. -/
def Running (n : Network) : Prop := n.panicked = false ∧ n.taskPanicked = false

/-- Only a connection to a node that is no peer makes the main task panic. -/
theorem running_insertConnection_iff (h : n.Sound) (c : NewConnection) :
    (insertConnection c n).Running ↔ n.Running ∧ c.NamesPeer n.peers := by
  cases c with
  | toPeer connection =>
      unfold insertConnection
      dsimp only
      split
      · next hnone =>
          have hunknown := clusterIdToIdx_eq_none_iff.mp hnone
          simp [Running, NewConnection.NamesPeer, hunknown]
      · next idx hidx =>
          rw [if_pos (h.lt_of_clusterIdToIdx hidx)]
          have hpeer := List.mem_of_getElem? (getElem?_of_clusterIdToIdx hidx)
          exact ⟨fun hrun => ⟨hrun, hpeer⟩, fun hboth => hboth.1⟩
  | toClient connection => exact ⟨fun hrun => ⟨hrun, trivial⟩, fun hboth => hboth.1⟩

/-- A network runs on after taking a connection just if the connection names a peer. -/
theorem running_recvConnection_iff (h : n.Sound) (numClients : ℕ) :
    (n.recvConnection numClients).Running ↔
      n.Running ∧ ∀ c ∈ n.connectionSource.head?, c.NamesPeer n.peers := by
  unfold recvConnection
  split
  · next hempty => simp [hempty]
  · next c rest hsource =>
      have htaken : ({ n with connectionSource := rest } : Network).Sound :=
        ⟨h.length, h.slots, h.entries, h.handshakes,
          fun c' hc' => h.connectionSource c' (hsource ▸ List.mem_cons_of_mem _ hc'), h.handed⟩
      have hinsert := running_insertConnection_iff htaken c
      have hhead : (∀ c' ∈ n.connectionSource.head?, c'.NamesPeer n.peers) ↔
          c.NamesPeer n.peers := by
        rw [hsource]
        simp
      rw [hhead]
      dsimp only
      split
      · exact hinsert
      · exact hinsert

/-- A hand-over panics just if `initialize_connections` has returned. -/
theorem running_handOver_iff {i : ℕ} (hi : i < n.handshakes.length) :
    (n.handOver i).Running ↔ n.Running ∧ n.initializing = true := by
  unfold handOver
  rw [List.getElem?_eq_getElem hi]
  cases n.initializing with
  | true => exact (and_iff_left rfl).symm
  | false => simp [Running]

/-- No send panics: an index that is found is an index of the table. -/
theorem running_sendToCluster (h : n.Sound) (hrun : n.Running) (receiver : NodeId)
    (accepted : Bool) : (n.sendToCluster receiver accepted).Running := by
  unfold sendToCluster
  split
  · exact hrun
  · next idx hidx =>
      split
      · next hnone =>
          rw [List.getElem?_eq_getElem (h.lt_of_clusterIdToIdx hidx)] at hnone
          cases hnone
      · exact hrun
      · split
        · exact hrun
        · exact hrun

/-- A message to a client makes nothing panic. -/
theorem running_sendToClient (hrun : n.Running) (receiver : ClientId) (accepted : Bool) :
    (n.sendToClient receiver accepted).Running := by
  unfold sendToClient
  split
  · exact hrun
  · split
    · exact hrun
    · exact hrun

/-- Nothing that a handshake task reads makes it panic. -/
theorem running_handleIncomingConnection (hrun : n.Running)
    (item : Option (Except Unit RegistrationMessage)) :
    (n.handleIncomingConnection item).Running := by
  unfold handleIncomingConnection
  split
  all_goals exact hrun

/-- A connector that gives up or gets through does not panic. -/
theorem running_connectorDone (hrun : n.Running) (i : ℕ) (sent : Bool) :
    (n.connectorDone i sent).Running := by
  unfold connectorDone
  split
  · exact hrun
  · cases sent
    · exact hrun
    · exact hrun

end Network

namespace Step

/-- A connection to a node that is taken out of the channel names a peer, and a connection
is handed over before `initialize_connections` has returned. -/
def Meets : Step → Network → Prop
  | recvConnection, n => ∀ c ∈ n.connectionSource.head?, c.NamesPeer n.peers
  | handOver _, n => n.initializing = true
  | _, _ => True

instance : (l : Step) → (n : Network) → Decidable (l.Meets n)
  | incoming _, _ => inferInstanceAs (Decidable True)
  | connectorDone _ _, _ => inferInstanceAs (Decidable True)
  | handOver _, n => inferInstanceAs (Decidable (n.initializing = true))
  | recvConnection, n =>
      inferInstanceAs (Decidable (∀ c ∈ n.connectionSource.head?, c.NamesPeer n.peers))
  | sendToCluster _ _, _ => inferInstanceAs (Decidable True)
  | sendToClient _ _, _ => inferInstanceAs (Decidable True)
  | shutdown, _ => inferInstanceAs (Decidable True)

/-- A step panics unless it meets the condition. -/
theorem running_update_iff {n : Network} (h : n.Sound) (hrun : n.Running) {l : Step}
    (hg : l.guard n) (numClients : ℕ) : (l.update numClients n).Running ↔ l.Meets n := by
  cases l with
  | incoming item =>
      exact iff_of_true (Network.running_handleIncomingConnection hrun item) trivial
  | connectorDone i sent => exact iff_of_true (Network.running_connectorDone hrun i sent) trivial
  | handOver i => exact (Network.running_handOver_iff hg.1).trans (and_iff_right hrun)
  | recvConnection =>
      exact (Network.running_recvConnection_iff h numClients).trans (and_iff_right hrun)
  | sendToCluster receiver accepted =>
      exact iff_of_true (Network.running_sendToCluster h hrun receiver accepted) trivial
  | sendToClient receiver accepted =>
      exact iff_of_true (Network.running_sendToClient hrun receiver accepted) trivial
  | shutdown => exact iff_of_true hrun trivial

end Step

/-! ## Whole runs -/

/-- A run of `Server.Network` is a run of these tables with the sockets forgotten. -/
theorem forgets_of_reachable {M : Type} {cfg : Config} {t : Transport} {s : Server.Network M}
    (h : (Server.Network.bootstrap M cfg t).Reachable s) :
    ∃ n, (machine cfg).Reachable n ∧ n.Forgets s := by
  induction h with
  | start hinit =>
      refine ⟨Network.new cfg, .start rfl, ?_⟩
      rw [hinit]
      exact Network.forgets_new cfg
  | @step s l hs hg ih =>
      rcases ih with ⟨n, hreach, hforgets⟩
      have hstep : ∀ l : Step, l.guard n →
          (machine cfg).Reachable (l.update cfg.numClients n) := fun l hl => .step l hreach hl
      cases l with
      | connectPeer peerId =>
          exact ⟨_, hstep (.incoming (some (.ok (.nodeRegister peerId)))) trivial,
            hforgets.registerPeer peerId⟩
      | registerClient =>
          exact ⟨_, hstep (.incoming (some (.ok .clientRegister))) trivial,
            hforgets.registerClient⟩
      | handOver i =>
          have hguard : (Step.handOver i).guard n := by
            rcases hg with ⟨hi, hcap⟩
            rw [hforgets.handshakes, List.length_map] at hi
            rw [hforgets.initializing, hforgets.connectionSource, List.length_map] at hcap
            exact ⟨hi, hcap⟩
          exact ⟨_, hstep (.handOver i) hguard, hforgets.handOver i⟩
      | recvConnection =>
          have hguard : Step.recvConnection.guard n := by
            rcases hg with ⟨hinit, hp, hsource⟩
            rw [hforgets.initializing] at hinit
            rw [hforgets.panicked] at hp
            rw [hforgets.connectionSource, List.isEmpty_map] at hsource
            exact ⟨hinit, hp, hsource⟩
          exact ⟨_, hstep .recvConnection hguard, hforgets.recvConnection cfg.numClients⟩
      -- what happens behind a connection is not in these tables
      | toPeer p l =>
          exact ⟨n, hreach, hforgets.peers, hforgets.peerConnections, hforgets.clientConnections,
            hforgets.maxClientId, hforgets.handshakes, hforgets.connectionSource,
            hforgets.initializing, hforgets.panicked⟩
      | toClient k l =>
          exact ⟨n, hreach, hforgets.peers, hforgets.peerConnections, hforgets.clientConnections,
            hforgets.maxClientId, hforgets.handshakes, hforgets.connectionSource,
            hforgets.initializing, hforgets.panicked⟩

/-- Nothing has panicked, the tables are aligned, and every message went into the queue of a
connection that its addressee registered. -/
structure Network.Safe (n : Network) : Prop where
  running : n.panicked = false ∧ n.taskPanicked = false
  length : n.peerConnections.length = n.peers.length
  slots : ∀ (i : ℕ) (c : PeerConnection), n.peerConnections[i]? = some (some c) →
    n.peers[i]? = some c.peerId
  entries : ∀ (k : ClientId) (c : ClientConnection), n.clientConnections.lookup k = some c →
    c.clientId = k
  handed : ∀ party socket, (party, socket) ∈ n.handed → n.registered[socket]? = some party

/-- Sound tables are safe just as long as nothing has panicked. -/
theorem Network.Sound.safe_iff {n : Network} (h : n.Sound) : n.Safe ↔ n.Running := by
  constructor
  · exact fun hsafe => hsafe.running
  · intro hrun
    exact ⟨hrun, h.length, fun i c hc => (h.slots i c hc).1, fun k c hc => (h.entries k c hc).1,
      h.handed⟩

/-- A new network is safe. -/
theorem Network.safe_new (cfg : Config) : (Network.new cfg).Safe :=
  (Network.sound_new cfg).safe_iff.mpr ⟨rfl, rfl⟩

/-- Whatever registers and in whatever order, and whatever is sent then: the states of a run
are safe just as long as every connection to a node that `initialize_connections` takes out
of the channel names a peer and no handshake is handed over after it has returned. -/
theorem tables_safe_iff (cfg : Config) {steps : List Step}
    (hvalid : (machine cfg).Valid (Network.new cfg) steps) :
    (∀ done rest, steps = done ++ rest → ((machine cfg).after (Network.new cfg) done).Safe) ↔
      ∀ done l rest, steps = done ++ l :: rest →
        l.Meets ((machine cfg).after (Network.new cfg) done) := by
  have hstep : ∀ l n, (machine cfg).guard l n → n.Sound → n.Safe →
      (((machine cfg).update l n).Safe ↔ l.Meets n) := by
    intro l n hg hn hsafe
    exact (hn.update cfg.numClients l).safe_iff.trans
      (Step.running_update_iff hn hsafe.running hg cfg.numClients)
  have halong := (machine cfg).good_along_iff Network.Sound Network.Safe
    (fun l n _ _ hn => hn.update cfg.numClients l) hstep hvalid (Network.sound_new cfg)
    (Network.safe_new cfg)
  rw [halong, Machine.valid_restrict_iff]
  exact and_iff_right hvalid

/-- Server 2 of three, which expects one client. -/
def middleServer : Config where
  serverId := 2
  nodes := [1, 2, 3]
  nodes_nodup := by decide
  initialLeader := 1
  numClients := 1

/-- Both peers and the client connect, node 3 twice; one socket sends rubbish. A send to
node 3 fails. -/
def orderlyRun : List Step :=
  [.incoming (some (.ok (.nodeRegister 3))), .incoming (some (.error ())),
    .incoming (some (.ok .clientRegister)), .incoming (some (.ok (.nodeRegister 3))),
    .connectorDone 0 true, .handOver 0, .handOver 0, .handOver 0, .handOver 0,
    .recvConnection, .recvConnection, .recvConnection, .recvConnection,
    .sendToCluster 3 true, .sendToCluster 3 false, .sendToCluster 3 true, .sendToClient 1 true,
    .shutdown, .sendToCluster 1 true]

/-- All steps of that run meet the condition, so it ends in a safe state. -/
theorem tables_safe_in_orderly_run :
    ((machine middleServer).after (Network.new middleServer) orderlyRun).Safe := by
  have hrun : ((machine middleServer).restrict Step.Meets).Valid (Network.new middleServer)
      orderlyRun := by decide +kernel
  have hmeets := (Machine.valid_restrict_iff _ _ _ _).mp hrun
  exact (tables_safe_iff middleServer hmeets.1).mpr hmeets.2 orderlyRun []
    (List.append_nil _).symm

/-- A socket that registers as node 9 stops the server. -/
theorem unknown_node_panics : ¬ ∀ (cfg : Config) (steps : List Step),
    (machine cfg).Valid (Network.new cfg) steps → ∀ done rest, steps = done ++ rest →
      ((machine cfg).after (Network.new cfg) done).Safe := by
  intro h
  have hsafe := h middleServer
    [.incoming (some (.ok (.nodeRegister 9))), .handOver 0, .recvConnection] (by decide +kernel)
    _ [] (List.append_nil _).symm
  exact absurd hsafe.running.1 (by decide +kernel)

end Tables

end Server

end OmnipaxosKv
