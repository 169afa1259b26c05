import OmnipaxosKv.Client.Handoff
import OmnipaxosKv.Cluster.Links

/-! # No deadlock among the queues

Requests and responses go round a cycle of queues. A step can only wait for room in a
bounded one: a shim's command queue and `server_messages` wait for its `network.send`, that
for the connection to the server, that for the server's inboxes, and these for nothing,
since the queues the server sends into are unbounded.
-/

namespace OmnipaxosKv

namespace Cluster

open Server Client
open Server.OmniPaxosServer (NodeStep node nodeUpdate nodeGuard)

variable {Ω M : Type} {lib : OmniPaxos Ω M} {decided : Ω → List Command} {cfg : Config}
  {t : Transport} {s : State Ω M}

open State

/-! ## Pipes that flow -/

/-- All connections of a server work. -/
structure PipesFlow (n : Server.Network M) : Prop where
  peers : ∀ p, (n.toPeer p).Flowing peerTask
  clients : ∀ k, (n.toClient k).Flowing clientTask

theorem PipesFlow.toPeer_update {n : Server.Network M} (h : PipesFlow n) {p : NodeId}
    {pipe : Pipe (ClusterMessage M)} (hpipe : pipe.Flowing peerTask) :
    PipesFlow { n with toPeer := Function.update n.toPeer p pipe } :=
  ⟨forall_update h.peers hpipe, h.clients⟩

theorem PipesFlow.toClient_update {n : Server.Network M} (h : PipesFlow n) {k : ClientId}
    {pipe : Pipe ServerMessage} (hpipe : pipe.Flowing clientTask) :
    PipesFlow { n with toClient := Function.update n.toClient k pipe } :=
  ⟨h.peers, forall_update h.clients hpipe⟩

/-- A message to a peer leaves the connections flowing. -/
theorem PipesFlow.sendToCluster {n : Server.Network M} (h : PipesFlow n) (ha : n.Aligned)
    (p : NodeId) (msg : ClusterMessage M) : PipesFlow (n.sendToCluster p msg) := by
  rcases Server.Network.sendToCluster_cases ha p msg with ⟨pipe, hpipe, heq⟩ | ⟨slots, b, heq⟩
  · rw [heq]
    exact h.toPeer_update ((h.peers p).send hpipe)
  · rw [heq]
    exact ⟨h.peers, h.clients⟩

/-- A message to a client leaves the connections flowing. -/
theorem PipesFlow.sendToClient {n : Server.Network M} (h : PipesFlow n) (ha : n.Aligned)
    (k : ClientId) (msg : ServerMessage) : PipesFlow (n.sendToClient k msg) := by
  rcases Server.Network.sendToClient_cases ha k msg with ⟨_, pipe, hpipe, heq⟩ | ⟨_, heq⟩
  · rw [heq]
    have hclients := h.toClient_update (k := k) ((h.clients k).send hpipe)
    exact ⟨hclients.peers, hclients.clients⟩
  · rw [heq]
    exact ⟨h.peers, h.clients⟩

/-- Sends of the main task go into queues without bound. -/
theorem pipesFlow_main {cfg : Server.Config} {v : OmniPaxosServer Ω M} (h : PipesFlow v.network)
    (hcarries : v.network.Carries cfg) (l : ServerStep) :
    PipesFlow (v.update lib cfg l).network := by
  have hclosed : Server.Network.SendClosed fun n : Server.Network M =>
      n.Carries cfg ∧ PipesFlow n := by
    constructor
    · intro k msg n hn
      exact ⟨hn.1.sendToClient k msg, hn.2.sendToClient hn.1.aligned k msg⟩
    · intro p m n hn
      exact ⟨hn.1.sendToCluster p _, hn.2.sendToCluster hn.1.aligned p _⟩
  refine (OmniPaxosServer.network_update hclosed ?_ ?_ ⟨hcarries, h⟩).2
  · intro n cluster clients hn
    exact ⟨hn.1.inboxes cluster clients, hn.2.peers, hn.2.clients⟩
  · intro startTime _
    have hboth : v.network.Carries cfg ∧ PipesFlow v.network := ⟨hcarries, h⟩
    refine List.foldlRecOn
      (motive := fun n : Server.Network M => n.Carries cfg ∧ PipesFlow n) cfg.peers _ hboth ?_
    intro n hn p _
    exact ⟨hn.1.sendToCluster p _, hn.2.sendToCluster hn.1.aligned p _⟩

/-- The steps with which a connection fails. After a failed `feed` the writers to peers and to
servers go on with the next batch. -/
def Action.IsFault : Action → Prop
  | .network _ (.toPeer _ l) => l.Fails peerTask
  | .network _ (.toClient _ l) => l.Fails clientTask
  | .connection _ l => l.Fails serverTask
  | _ => False

instance : DecidablePred Action.IsFault
  | .network _ (.toPeer _ l) => inferInstanceAs (Decidable (l.Fails peerTask))
  | .network _ (.toClient _ l) => inferInstanceAs (Decidable (l.Fails clientTask))
  | .connection _ l => inferInstanceAs (Decidable (l.Fails serverTask))
  | .server _ _ | .shim _ _ | .bench _ _ | .register _ | .clusterArrive _ _ | .clusterLose _ _
  | .clientArrive _ | .serverArrive _ | .network _ (.connectPeer _) | .network _ .registerClient
  | .network _ (.handOver _) | .network _ .recvConnection => .isFalse id

/-- Every step of the network that fails no connection leaves the connections flowing. -/
theorem pipesFlow_network {n : Server.Network M} (h : PipesFlow n) {numClients : ℕ} {m : NodeId}
    {l : NetworkStep} (hg : n.guard t l) (hf : ¬ (Action.network m l).IsFault) :
    PipesFlow (n.update numClients l) := by
  cases l with
  | toPeer p l => exact h.toPeer_update (Pipe.Flowing.update hg hf (h.peers p))
  | toClient k l => exact h.toClient_update (Pipe.Flowing.update hg hf (h.clients k))
  | _ =>
      constructor
      · rw [(Server.Network.pipes_update numClients (by simp) (by simp)).1]
        exact h.peers
      · rw [(Server.Network.pipes_update numClients (by simp) (by simp)).2]
        exact h.clients

/-- The connection of a shim works. -/
def ShimFlows (cfg : Config) (e : EndpointId) (endpoint : Endpoint) : Prop :=
  ∀ sh, endpoint = .shim sh → (sh.network.toServer (cfg.activeServer e)).Flowing serverTask

/-- No connection has failed. -/
structure Flows (cfg : Config) (s : State Ω M) : Prop where
  servers : ∀ n, PipesFlow (s.servers n).network
  shims : ∀ e, ShimFlows cfg e (s.endpoints e)

theorem Flows.onServer (h : Flows cfg s) {n : NodeId} {l : NodeStep M}
    (hn : PipesFlow (nodeUpdate lib (cfg.server n) l (s.servers n)).network) :
    Flows cfg (s.onServer lib cfg n l) := by
  refine ⟨?_, h.shims⟩
  exact forall_onServer (P := fun _ v => PipesFlow v.network) hn h.servers

theorem Flows.onEndpoint (h : Flows cfg s) {e : EndpointId} {l : EndpointStep}
    (he : ShimFlows cfg e ((s.endpoints e).update (cfg.activeServer e) l)) :
    Flows cfg (s.onEndpoint cfg e l) := by
  refine ⟨h.servers, ?_⟩
  exact forall_onEndpoint (P := ShimFlows cfg) he h.shims

/-- No step of the shim fails its connection. -/
theorem shimFlows_task {e : EndpointId} {endpoint : Endpoint} (h : ShimFlows cfg e endpoint)
    (hsound : endpoint.Sound (cfg.activeServer e)) {l : ShimStep} :
    ShimFlows cfg e (endpoint.update (cfg.activeServer e) (.shim l)) := by
  cases endpoint with
  | bench c => exact h
  | shim sh =>
      intro sh' hsh'
      obtain rfl := Endpoint.shim.inj hsh'
      have hflows := h sh rfl
      by_cases hl : l = .resolveSend
      · subst hl
        simp only [Shim.update, Shim.resolveSend]
        split
        · exact hflows
        · split
          · exact hflows
          · next n hn =>
              rcases Endpoint.send_frame hsound.session.aligned hn with ⟨_, hsame | hsent⟩
              · rw [hsame]
                exact hflows
              · exact hflows.send hsent
      · have hpipe : (sh.update (cfg.activeServer e) l).pipe (cfg.activeServer e) =
            sh.pipe (cfg.activeServer e) := Shim.pipe_update hl
        rw [Shim.pipe, Shim.pipe] at hpipe
        rw [hpipe]
        exact hflows

/-- Steps of the connection, or of the reader at its other end. -/
theorem shimFlows_withPipe {e : EndpointId} {endpoint : Endpoint} (h : ShimFlows cfg e endpoint)
    {pipe : Pipe ClientMessage}
    (hpipe : (endpoint.pipe (cfg.activeServer e)).Flowing serverTask → pipe.Flowing serverTask) :
    ShimFlows cfg e (endpoint.withNetwork (endpoint.network.withPipe (cfg.activeServer e) pipe)) := by
  cases endpoint with
  | bench c =>
      intro sh hsh
      cases hsh
  | shim sh =>
      intro sh' hsh'
      obtain rfl := Endpoint.shim.inj hsh'
      simp only [Client.Network.withPipe, Function.update_self]
      exact hpipe (h sh rfl)

/-- Every action that fails no connection keeps the flow. -/
theorem flows_act (hc : Coherent lib cfg t s) (hlib : lib.Lawful decided) (h : Flows cfg s)
    {a : Action} (hg : s.guard lib cfg t a) (hf : ¬ a.IsFault) : Flows cfg (s.act lib cfg a) := by
  have hforward : ∀ n p, Flows cfg (s.onServer lib cfg n (.peerForward p)) := by
    intro n p
    exact h.onServer ((h.servers n).toPeer_update ((h.servers n).peers p).forward)
  cases a with
  | server n l => exact h.onServer (pipesFlow_main (h.servers n) (hc.sound hlib n).carries l)
  | network n l => exact h.onServer (pipesFlow_network (h.servers n) hg.2.2.1 hf)
  | shim e l =>
      have hact := h.onEndpoint (shimFlows_task (h.shims e) (hc.endpoints e) (l := l))
      exact ⟨hact.servers, hact.shims⟩
  | bench e l =>
      -- a benchmark client is no shim before and none after
      refine h.onEndpoint ?_
      cases he : s.endpoints e with
      | shim sh =>
          have hshim := h.shims e
          rw [he] at hshim
          exact hshim
      | bench c =>
          intro sh hsh
          cases hsh
  | connection e l =>
      exact h.onEndpoint (shimFlows_withPipe (h.shims e) fun hflow => hflow.update hg hf)
  | register e =>
      have hact : Flows cfg (s.onServer lib cfg (cfg.activeServer e) (.network .registerClient)) :=
        h.onServer ⟨(h.servers _).peers, (h.servers _).clients⟩
      exact ⟨hact.servers, hact.shims⟩
  | clusterArrive sender receiver =>
      simp only [act]
      split
      · exact h
      -- the sender hands on, and then the receiver has one message more
      · have hf' := hforward sender receiver
        exact hf'.onServer ⟨(hf'.servers _).peers, (hf'.servers _).clients⟩
  | clusterLose sender receiver => exact hforward sender receiver
  | clientArrive e =>
      simp only [act]
      split
      · have hhand : Flows cfg (s.onEndpoint cfg e .handOn) :=
          h.onEndpoint (shimFlows_withPipe (h.shims e) fun hflow => hflow.forward)
        exact hhand.onServer ⟨(hhand.servers _).peers, (hhand.servers _).clients⟩
      · exact h
  | serverArrive e =>
      simp only [act]
      split
      · next k msg _ _ =>
          have hforward : Flows cfg (s.onServer lib cfg (cfg.activeServer e) (.clientForward k)) :=
            h.onServer ((h.servers _).toClient_update ((h.servers _).clients k).forward)
          -- what arrives does not touch the pipe to the server
          refine hforward.onEndpoint ?_
          have hshim := hforward.shims e
          cases he : (s.onServer lib cfg (cfg.activeServer e) (.clientForward k)).endpoints e with
          | shim sh =>
              intro sh' hsh'
              obtain rfl := Endpoint.shim.inj hsh'
              exact hshim sh he
          | bench c =>
              intro sh hsh
              cases hsh
      · exact h

/-- The runs in which no connection fails. -/
def healthy (lib : OmniPaxos Ω M) (decided : Ω → List Command) (cfg : Config) (t : Transport) :
    Machine (State Ω M) Label :=
  (cluster lib decided cfg t).restrict fun l _ => ¬ l.action.IsFault

instance (l : Label) (s : State Ω M) : Decidable ((healthy lib decided cfg t).guard l s) :=
  Machine.decidableRestrict _ _ _ _

/-- While no connection has failed, all of them flow. -/
theorem flows_reachable (hlib : lib.Lawful decided)
    (hr : (healthy lib decided cfg t).Reachable s) : Flows cfg s := by
  refine (healthy lib decided cfg t).invariant (Flows cfg) ?_ ?_ s hr
  · intro s hs
    rcases hs with ⟨ω, _, rfl⟩
    refine ⟨fun n => ⟨fun _ => Pipe.flowing_new _, fun _ => Pipe.flowing_new _⟩, fun e sh hsh => ?_⟩
    cases hkind : cfg.kind e with
    | shim =>
        simp only [State.new, hkind, Endpoint.new] at hsh
        rw [← Endpoint.shim.inj hsh]
        exact Pipe.flowing_new _
    | bench intervals =>
        simp only [State.new, hkind, Endpoint.new] at hsh
        cases hsh
  · intro l s hs hg h
    have hc := coherent_reachable hlib (Machine.reachable_of_restrict hs)
    have hact := flows_act hc hlib h hg.1 hg.2
    exact ⟨hact.servers, hact.shims⟩

/-! ## Waiting -/

/-- Where a message can be held on its way. The main task of a server holds the rest of the
batch it works through. -/
inductive Place where
  | commands (e : EndpointId)
  | sending (e : EndpointId)
  | toServer (e : EndpointId)
  | clientMessages (n : NodeId)
  | clientBatch (n : NodeId)
  | clusterMessages (n : NodeId)
  | clusterBatch (n : NodeId)
  | toPeer (n p : NodeId)
  | toClient (n : NodeId) (k : ClientId)
  | serverMessages (e : EndpointId)
deriving DecidableEq, Repr

/-- The place is one of a shim or of a server, and a message is held there. A pipe is its
outgoing queue, the batch, the buffers, the socket and the chunk in one. -/
def Holds (cfg : Config) (s : State Ω M) : Place → Prop
  | .commands e => ∃ sh, s.endpoints e = .shim sh ∧ sh.cmdRx ≠ []
  | .sending e => ∃ sh, s.endpoints e = .shim sh ∧ sh.sending ≠ none
  | .toServer e => ∃ sh, s.endpoints e = .shim sh ∧ (sh.pipe (cfg.activeServer e)).contents ≠ []
  | .clientMessages n => n ∈ cfg.nodes ∧ (s.servers n).network.clientMessages ≠ []
  | .clientBatch n => n ∈ cfg.nodes ∧ (s.servers n).clientMsgBuf ≠ []
  | .clusterMessages n => n ∈ cfg.nodes ∧ (s.servers n).network.clusterMessages ≠ []
  | .clusterBatch n => n ∈ cfg.nodes ∧ (s.servers n).clusterMsgBuf ≠ []
  | .toPeer n p => n ∈ cfg.nodes ∧ ((s.servers n).network.toPeer p).contents ≠ []
  | .toClient n k => n ∈ cfg.nodes ∧ ((s.servers n).network.toClient k).contents ≠ []
  | .serverMessages e => ∃ sh, s.endpoints e = .shim sh ∧ sh.network.serverMessages ≠ []

/-- The steps that take a message of a place further or consume it. -/
def MovesFrom (cfg : Config) (s : State Ω M) : Place → Action → Prop
  | .commands e, .shim f .takeCommand => f = e
  | .sending e, .shim f .resolveSend => f = e
  | .toServer e, .connection f l => f = e ∧ l.Moves
  | .toServer e, .clientArrive f => f = e
  | .clientMessages n, .server m (.recvClient _) => m = n
  | .clientBatch n, .server m .nextClientMessage => m = n
  | .clusterMessages n, .server m (.recvCluster _) => m = n
  | .clusterBatch n, .server m .nextClusterMessage => m = n
  | .toPeer n p, .network m (.toPeer q l) => m = n ∧ q = p ∧ l.Moves
  | .toPeer n p, .clusterArrive m q => m = n ∧ q = p
  | .toClient n k, .network m (.toClient j l) => m = n ∧ j = k ∧ l.Moves
  | .toClient n k, .serverArrive e => cfg.activeServer e = n ∧ s.clientId e = some k
  | .serverMessages e, .shim f .recvServer => f = e
  | _, _ => False

/-! ## What such a step changes -/

/-- What the place holds has got on: a queue or a batch has lost its first messages, or a pipe
has got on. -/
def Advances (cfg : Config) (s s' : State Ω M) : Place → Prop
  | .commands e => ∃ sh sh', s.endpoints e = .shim sh ∧ s'.endpoints e = .shim sh' ∧
      ∃ cmd, sh.cmdRx = cmd :: sh'.cmdRx
  | .sending e => (s.endpoints e).sending ≠ none ∧ (s'.endpoints e).sending = none
  | .toServer e => ((s.endpoints e).pipe (cfg.activeServer e)).Advances
      ((s'.endpoints e).pipe (cfg.activeServer e))
  | .clientMessages n =>
      (s'.servers n).network.clientMessages.length < (s.servers n).network.clientMessages.length
  | .clientBatch n => ∃ m, (s.servers n).clientMsgBuf = m :: (s'.servers n).clientMsgBuf
  | .clusterMessages n =>
      (s'.servers n).network.clusterMessages.length < (s.servers n).network.clusterMessages.length
  | .clusterBatch n => ∃ m, (s.servers n).clusterMsgBuf = m :: (s'.servers n).clusterMsgBuf
  | .toPeer n p => ((s.servers n).network.toPeer p).Advances ((s'.servers n).network.toPeer p)
  | .toClient n k =>
      ((s.servers n).network.toClient k).Advances ((s'.servers n).network.toClient k)
  | .serverMessages e => ∃ m, (s.endpoints e).network.serverMessages =
      m :: (s'.endpoints e).network.serverMessages

/-- The network is not changed by what a message says. -/
theorem network_handleServerMessage (msg : ServerMessage) (sh : Shim) :
    (sh.handleServerMessage msg).network = sh.network := by
  cases msg with
  | write id =>
      rw [Shim.handleServerMessage]
      split <;> rfl
  | read id value =>
      rw [Shim.handleServerMessage]
      split <;> rfl
  | startSignal startTime => rfl

/-- A step of a shim that takes a message further. -/
theorem advances_shim {x : Place} {e : EndpointId} {l : ShimStep}
    (hmove : MovesFrom cfg s x (.shim e l)) (hg : s.guard lib cfg t (.shim e l)) :
    Advances cfg s (s.act lib cfg (.shim e l)) x := by
  have hnext : (s.act lib cfg (.shim e l)).endpoints e =
      (s.endpoints e).update (cfg.activeServer e) (.shim l) := endpoints_onEndpoint_self e _ s
  rw [State.guard] at hg
  cases he : s.endpoints e with
  | bench c =>
      rw [he] at hg
      exact absurd hg id
  | shim sh =>
      rw [he] at hg hnext
      cases x with
      | commands f =>
          cases l with
          | takeCommand =>
              -- a command leaves the queue of the handlers
              obtain rfl : e = f := hmove
              rcases List.exists_cons_of_ne_nil (List.isEmpty_eq_false_iff.mp hg.2.2) with
                ⟨cmd, rest, hcons⟩
              refine ⟨sh, sh.takeCommand, he, hnext, cmd, ?_⟩
              rw [Shim.takeCommand, hcons]
          | _ => exact absurd hmove id
      | sending f =>
          cases l with
          | resolveSend =>
              -- the send that was suspended has come through
              obtain rfl : e = f := hmove
              rcases hg with ⟨_, msg, hmsg, hsome⟩
              rcases Option.isSome_iff_exists.mp hsome with ⟨network, hsend⟩
              have hsending : sh.sending = some msg := hmsg
              have hdone : (sh.resolveSend (cfg.activeServer e)).sending = none := by
                rw [Shim.resolveSend, hsending]
                dsimp only
                rw [hsend]
              refine ⟨?_, ?_⟩
              · rw [he]
                exact fun habsurd => Option.some_ne_none msg (hsending.symm.trans habsurd)
              · rw [hnext]
                exact hdone
          | _ => exact absurd hmove id
      | serverMessages f =>
          cases l with
          -- a server message is handled
          | recvServer =>
              obtain rfl : e = f := hmove
              rcases List.exists_cons_of_ne_nil (List.isEmpty_eq_false_iff.mp hg.2.2) with
                ⟨msg, rest, hcons⟩
              refine ⟨msg, ?_⟩
              rw [he, hnext]
              show sh.network.serverMessages = msg :: (sh.recvServer).network.serverMessages
              rw [Shim.recvServer, hcons]
              dsimp only
              rw [network_handleServerMessage]
              show _ = msg :: sh.network.serverMessages.tail
              rw [hcons]
              rfl
          | _ => exact absurd hmove id
      | _ => exact absurd hmove id

/-- A step of the main task of a server that takes a message further. -/
theorem advances_server (hlib : lib.Lawful decided) {n : NodeId}
    (hrefines : (s.servers n).Refines decided) {x : Place} {l : ServerStep}
    (hmove : MovesFrom cfg s x (.server n l)) (hg : s.guard lib cfg t (.server n l)) :
    Advances cfg s (s.act lib cfg (.server n l)) x := by
  have hledger := OmniPaxosServer.ledgerStep_update hlib hrefines hg.2.1
  have hnext : (s.act lib cfg (.server n l)).servers n = (s.servers n).update lib (cfg.server n) l :=
    servers_onServer_self n _ s
  rw [← hnext] at hledger
  -- two queues are taken by batches, and two batches message by message
  cases x with
  | clientMessages m =>
      cases l with
      | recvClient count =>
          obtain rfl : n = m := hmove
          rcases hledger with ⟨_, hpos, hle, hledger⟩
          have hqueue := congrArg (fun v : Ledger M => v.clientMessages.length) hledger
          dsimp only [OmniPaxosServer.ledger] at hqueue hle
          rw [List.length_drop] at hqueue
          show List.length _ < List.length _
          omega
      | _ => exact absurd hmove id
  | clientBatch m =>
      cases l with
      | nextClientMessage =>
          obtain rfl : n = m := hmove
          rcases hledger with ⟨client, id, c, rest, b, _, hbuf, hledger⟩
          refine ⟨(client, .append id c), ?_⟩
          have hrest : ((s.act lib cfg (.server n .nextClientMessage)).servers n).clientMsgBuf =
              rest := congrArg Ledger.clientMsgBuf hledger
          rw [hrest]
          exact hbuf
      | _ => exact absurd hmove id
  | clusterMessages m =>
      cases l with
      | recvCluster count =>
          obtain rfl : n = m := hmove
          rcases hledger with ⟨_, hpos, hle, hledger⟩
          have hqueue := congrArg (fun v : Ledger M => v.clusterMessages.length) hledger
          dsimp only [OmniPaxosServer.ledger] at hqueue hle
          rw [List.length_drop] at hqueue
          show List.length _ < List.length _
          omega
      | _ => exact absurd hmove id
  | clusterBatch m =>
      cases l with
      | nextClusterMessage =>
          obtain rfl : n = m := hmove
          rcases hledger with ⟨received, sender, message, rest, _, _, _, hbuf, _, hledger⟩
          refine ⟨(sender, message), ?_⟩
          have hrest : ((s.act lib cfg (.server n .nextClusterMessage)).servers n).clusterMsgBuf =
              rest := congrArg Ledger.clusterMsgBuf hledger
          rw [hrest]
          exact hbuf
      | _ => exact absurd hmove id
  | _ => exact absurd hmove id

/-- A step of the connection from a server. -/
theorem advances_network {x : Place} {n : NodeId} {l : NetworkStep}
    (hmove : MovesFrom cfg s x (.network n l)) (hg : s.guard lib cfg t (.network n l)) :
    Advances cfg s (s.act lib cfg (.network n l)) x := by
  have hguard : (s.servers n).network.guard t l := hg.2.2.1
  have hnext : (s.act lib cfg (.network n l)).servers n =
      nodeUpdate lib (cfg.server n) (.network l) (s.servers n) := servers_onServer_self n _ s
  cases x with
  | toPeer m p =>
      cases l with
      | toPeer q l =>
          rcases hmove with ⟨rfl, rfl, hl⟩
          left
          have hpipe : (nodeUpdate lib (cfg.server n) (.network (.toPeer q l))
              (s.servers n)).network.toPeer q = ((s.servers n).network.toPeer q).update peerTask l :=
            Function.update_self _ _ _
          rw [hnext, hpipe]
          exact Pipe.ahead_update_lt hguard hl
      | _ => exact absurd hmove id
  | toClient m k =>
      cases l with
      | toClient j l =>
          rcases hmove with ⟨rfl, rfl, hl⟩
          left
          have hpipe : (nodeUpdate lib (cfg.server n) (.network (.toClient j l))
              (s.servers n)).network.toClient j = ((s.servers n).network.toClient j).update clientTask l :=
            Function.update_self _ _ _
          rw [hnext, hpipe]
          exact Pipe.ahead_update_lt hguard hl
      | _ => exact absurd hmove id
  | _ => exact absurd hmove id

/-- A step of the connection from a shim. -/
theorem advances_connection {x : Place} {e : EndpointId} {l : PipeStep}
    (hmove : MovesFrom cfg s x (.connection e l)) (hg : s.guard lib cfg t (.connection e l)) :
    Advances cfg s (s.act lib cfg (.connection e l)) x := by
  have hnext : (s.act lib cfg (.connection e l)).endpoints e =
      (s.endpoints e).update (cfg.activeServer e) (.connection l) := endpoints_onEndpoint_self e _ s
  cases x with
  | toServer f =>
      rcases hmove with ⟨rfl, hl⟩
      left
      have hpipe : ((s.endpoints e).update (cfg.activeServer e) (.connection l)).pipe
          (cfg.activeServer e) = ((s.endpoints e).pipe (cfg.activeServer e)).update serverTask l := by
        rw [Endpoint.pipe, Endpoint.update, Endpoint.network_withNetwork]
        exact Function.update_self _ _ _
      rw [hnext, hpipe]
      exact Pipe.ahead_update_lt hg hl
  | _ => exact absurd hmove id

/-- The reader at a peer hands on a message. -/
theorem advances_clusterArrive {x : Place} {sender receiver : NodeId}
    (hmove : MovesFrom cfg s x (.clusterArrive sender receiver))
    (hg : s.guard lib cfg t (.clusterArrive sender receiver)) :
    Advances cfg s (s.act lib cfg (.clusterArrive sender receiver)) x := by
  cases x with
  | toPeer n p =>
      rcases hmove with ⟨rfl, rfl⟩
      rcases Option.isSome_iff_exists.mp hg.2.2.1 with ⟨msg, hmsg⟩
      right
      refine ⟨msg, ?_⟩
      have hforward : ((s.act lib cfg (.clusterArrive sender receiver)).servers sender).network.toPeer
          receiver = ((s.servers sender).network.toPeer receiver).forward := by
        rw [act, hmsg]
        dsimp only
        by_cases hsame : sender = receiver
        · subst hsame
          rw [servers_onServer_self, servers_onServer_self]
          exact Function.update_self _ _ _
        · rw [servers_onServer_of_ne hsame, servers_onServer_self]
          exact Function.update_self _ _ _
      rw [hforward]
      exact Pipe.contents_forward hmsg
  | _ => exact absurd hmove id

/-- The reader at the server of a shim hands on a message. -/
theorem advances_clientArrive {x : Place} {e : EndpointId}
    (hmove : MovesFrom cfg s x (.clientArrive e)) (hg : s.guard lib cfg t (.clientArrive e)) :
    Advances cfg s (s.act lib cfg (.clientArrive e)) x := by
  cases x with
  | toServer f =>
      obtain rfl : e = f := hmove
      rcases Option.isSome_iff_exists.mp hg.1 with ⟨k, hk⟩
      rcases Option.isSome_iff_exists.mp hg.2.1 with ⟨msg, hmsg⟩
      right
      refine ⟨msg, ?_⟩
      have hforward : ((s.act lib cfg (.clientArrive e)).endpoints e).pipe (cfg.activeServer e) =
          ((s.endpoints e).pipe (cfg.activeServer e)).forward := by
        rw [act, hk, hmsg]
        dsimp only
        rw [endpoints_onServer, endpoints_onEndpoint_self, Endpoint.pipe, Endpoint.update,
          Endpoint.network_withNetwork]
        exact Function.update_self _ _ _
      rw [hforward]
      exact Pipe.contents_forward hmsg
  | _ => exact absurd hmove id

/-- The reader of a shim hands on a message. -/
theorem advances_serverArrive {x : Place} {e : EndpointId}
    (hmove : MovesFrom cfg s x (.serverArrive e)) (hg : s.guard lib cfg t (.serverArrive e)) :
    Advances cfg s (s.act lib cfg (.serverArrive e)) x := by
  cases x with
  | toClient n k =>
      rcases hmove with ⟨rfl, hk⟩
      rcases Option.isSome_iff_exists.mp hg.1 with ⟨msg, hmsg⟩
      right
      refine ⟨msg, ?_⟩
      have hpipe : ((s.servers (cfg.activeServer e)).network.toClient k).next? = some msg := by
        rw [nextToClient, hk] at hmsg
        exact hmsg
      have hforward : ((s.act lib cfg (.serverArrive e)).servers
          (cfg.activeServer e)).network.toClient k =
            ((s.servers (cfg.activeServer e)).network.toClient k).forward := by
        rw [act, hk, hmsg]
        dsimp only
        rw [servers_onEndpoint, servers_onServer_self]
        exact Function.update_self _ _ _
      rw [hforward]
      exact Pipe.contents_forward hpipe
  | _ => exact absurd hmove id

/-- A step that takes a message of a place further does change what is held there. -/
theorem advances_of_movesFrom (hlib : lib.Lawful decided)
    (hrefines : ∀ n, (s.servers n).Refines decided) {x : Place} {a : Action}
    (hmove : MovesFrom cfg s x a) (hg : s.guard lib cfg t a) :
    Advances cfg s (s.act lib cfg a) x := by
  cases a with
  | server n l => exact advances_server hlib (hrefines n) hmove hg
  | network n l => exact advances_network hmove hg
  | shim e l => exact advances_shim hmove hg
  | connection e l => exact advances_connection hmove hg
  | clusterArrive sender receiver => exact advances_clusterArrive hmove hg
  | clientArrive e => exact advances_clientArrive hmove hg
  | serverArrive e => exact advances_serverArrive hmove hg
  | bench e l => cases x <;> exact absurd hmove id
  | register e => cases x <;> exact absurd hmove id
  | clusterLose sender receiver => cases x <;> exact absurd hmove id

/-- The endpoint is a shim that serves its queue. -/
def Looping : Endpoint → Prop
  | .shim sh => sh.phase = .looping
  | .bench _ => False

instance : DecidablePred Looping
  | .shim sh => inferInstanceAs (Decidable (sh.phase = .looping))
  | .bench _ => .isFalse id

/-- Bootstrap is over: the servers are up, and each shim that was started is in its loop. -/
structure Bootstrapped (cfg : Config) (s : State Ω M) : Prop where
  servers : ∀ n ∈ cfg.nodes, (s.servers n).Up
  shims : ∀ e, Looping (s.endpoints e) ∨
    (s.clientId e = none ∧ s.endpoints e = Endpoint.new (cfg.activeServer e) .shim)

/-- What a message waits for is never at a place of the same or a higher rank. -/
def Place.rank : Place → ℕ
  | .clientBatch _ | .clusterBatch _ => 0
  | .clientMessages _ | .clusterMessages _ => 1
  | .toServer _ | .toPeer _ _ => 2
  | .sending _ => 3
  | .serverMessages _ => 4
  | .toClient _ _ | .commands _ => 5

theorem Looping.exists {endpoint : Endpoint} (h : Looping endpoint) :
    ∃ sh, endpoint = .shim sh ∧ sh.phase = .looping := by
  cases endpoint with
  | shim sh => exact ⟨sh, rfl, h⟩
  | bench c => exact absurd h id

theorem accepted_of_contents {α : Type} {p : Pipe α} (ho : p.Ordered) (hne : p.contents ≠ []) :
    p.writer.accepted ≠ [] := by
  intro hnil
  have hsub := ho
  rw [Pipe.Ordered, hnil, List.sublist_nil, List.append_eq_nil_iff] at hsub
  exact hne hsub.2

/-- A step that succeeds fails no connection. -/
theorem not_fails_of_moves (a : Actor) {l : PipeStep} (h : l.Moves) : ¬ l.Fails a := by
  cases l with
  | feedError => exact absurd h id
  | flushError => exact absurd h id
  | reset k => exact absurd h id
  | _ => exact id

/-- A step that is no fault takes a message of the place further. -/
def Movable (lib : OmniPaxos Ω M) (cfg : Config) (t : Transport) (s : State Ω M) (x : Place) :
    Prop :=
  ∃ a, MovesFrom cfg s x a ∧ s.guard lib cfg t a ∧ ¬ a.IsFault

/-- The message that is next at the place can go on, or one that is ahead of it is held. -/
def Proceeds (lib : OmniPaxos Ω M) (cfg : Config) (t : Transport) (s : State Ω M) (x : Place) :
    Prop :=
  Movable lib cfg t s x ∨ ∃ y, Holds cfg s y ∧ y.rank < x.rank

/-- What holds after bootstrap in the runs in which no connection fails. -/
structure Working (lib : OmniPaxos Ω M) (decided : Ω → List Command) (cfg : Config) (t : Transport)
    (s : State Ω M) : Prop where
  coherent : Coherent lib cfg t s
  sound : ∀ n, (s.servers n).Sound decided (cfg.server n)
  flows : Flows cfg s
  bootstrapped : Bootstrapped cfg s

namespace Working

/-! ## The shims -/

/-- A shim that holds something was started. -/
theorem looping (h : Working lib decided cfg t s) {e : EndpointId} {sh : Shim}
    (he : s.endpoints e = .shim sh) (hsh : sh ≠ Shim.new (cfg.activeServer e)) :
    sh.phase = .looping := by
  have hshim := h.bootstrapped.shims e
  rw [he] at hshim
  rcases hshim with hphase | ⟨_, hnew⟩
  · exact hphase
  · exact absurd (Endpoint.shim.inj hnew) hsh

theorem pending (h : Working lib decided cfg t s) {e : EndpointId} {sh : Shim}
    (he : s.endpoints e = .shim sh) : sh.Pending (cfg.activeServer e) := by
  have hsound := h.coherent.endpoints e
  rw [he] at hsound
  exact (hsound.shim sh rfl).1

/-- A shim in its loop is registered. -/
theorem registered (h : Working lib decided cfg t s) {e : EndpointId} {sh : Shim}
    (he : s.endpoints e = .shim sh) (hphase : sh.phase = .looping) :
    ∃ k, s.clientId e = some k := by
  rcases (h.pending he).started hphase with ⟨startTime, hstart⟩
  cases hk : s.clientId e with
  | some k => exact ⟨k, rfl⟩
  | none =>
      exfalso
      have hreceived := (h.coherent.linked.fresh e hk).2
      rw [he, Client.Network.received, List.append_eq_nil_iff, Endpoint.network] at hreceived
      rw [hreceived.1] at hstart
      cases hstart

/-- A shim takes its next command, unless it is in a `network.send`. -/
theorem commands (h : Working lib decided cfg t s) {e : EndpointId}
    (hx : Holds cfg s (.commands e)) : Proceeds lib cfg t s (.commands e) := by
  rcases hx with ⟨sh, he, hcmd⟩
  have hphase : sh.phase = .looping := by
    refine h.looping he ?_
    intro hnew
    rw [hnew] at hcmd
    exact hcmd rfl
  by_cases hsending : sh.sending = none
  · left
    refine ⟨.shim e .takeCommand, rfl, ?_, id⟩
    rw [State.guard, he]
    exact ⟨hphase, hsending, List.isEmpty_eq_false_iff.mpr hcmd⟩
  · -- the task is suspended in `network.send`
    right
    exact ⟨.sending e, ⟨sh, he, hsending⟩, by simp [Place.rank]⟩

/-- A shim takes its next server message, unless it is in a `network.send`. -/
theorem serverMessages (h : Working lib decided cfg t s) {e : EndpointId}
    (hx : Holds cfg s (.serverMessages e)) : Proceeds lib cfg t s (.serverMessages e) := by
  rcases hx with ⟨sh, he, hmsgs⟩
  have hphase : sh.phase = .looping := by
    refine h.looping he ?_
    intro hnew
    rw [hnew] at hmsgs
    exact hmsgs rfl
  by_cases hsending : sh.sending = none
  · left
    refine ⟨.shim e .recvServer, rfl, ?_, id⟩
    rw [State.guard, he]
    exact ⟨hphase, hsending, List.isEmpty_eq_false_iff.mpr hmsgs⟩
  · -- the same task serves the two branches
    right
    exact ⟨.sending e, ⟨sh, he, hsending⟩, by simp [Place.rank]⟩

/-- A suspended `network.send` waits for the outgoing queue, which is then not empty. -/
theorem sending (h : Working lib decided cfg t s) {e : EndpointId}
    (hx : Holds cfg s (.sending e)) : Proceeds lib cfg t s (.sending e) := by
  rcases hx with ⟨sh, he, hsending⟩
  have hphase : sh.phase = .looping := by
    refine h.looping he ?_
    intro hnew
    rw [hnew] at hsending
    exact hsending rfl
  rcases Option.ne_none_iff_exists'.mp hsending with ⟨msg, hmsg⟩
  cases hsend : sh.network.send (cfg.activeServer e) msg with
  | some n =>
      left
      refine ⟨.shim e .resolveSend, rfl, ?_, id⟩
      rw [State.guard, he]
      exact ⟨hphase, msg, hmsg, by rw [hsend]; rfl⟩
  | none =>
      right
      have hroom := (Client.Network.send_eq_none (h.pending he).session.aligned hsend).2
      refine ⟨.toServer e, ⟨sh, he, ?_⟩, by simp [Place.rank]⟩
      intro hnil
      refine hroom ?_
      intro cap hcap
      simp only [Pipe.contents, List.append_eq_nil_iff] at hnil
      have hqueue : (sh.network.toServer (cfg.activeServer e)).writer.queue = [] := hnil.2.2.2
      rw [hqueue, ← Option.some.inj hcap]
      decide

/-- The connection to the server carries on, unless the queue of the server is full. -/
theorem toServer (h : Working lib decided cfg t s) {e : EndpointId}
    (hx : Holds cfg s (.toServer e)) : Proceeds lib cfg t s (.toServer e) := by
  rcases hx with ⟨sh, he, hne⟩
  have hphase : sh.phase = .looping := by
    refine h.looping he ?_
    intro hnew
    rw [hnew] at hne
    exact hne rfl
  have hflow := h.flows.shims e sh he
  rcases hflow.progress (t := t) (by decide) hne with ⟨l, hl, hg⟩ | ⟨m, hm⟩
  · left
    refine ⟨.connection e l, ⟨rfl, hl⟩, ?_, not_fails_of_moves _ hl⟩
    rw [State.guard, he]
    exact hg
  · -- the reader at the server waits for `client_messages`
    rcases h.registered he hphase with ⟨k, hk⟩
    have hhome := h.coherent.linked.home e k hk
    by_cases hfull : (s.serverOf cfg e).network.clientMessages.length < Server.networkBatchSize
    · left
      refine ⟨.clientArrive e, rfl, ⟨?_, ?_, hfull, (h.bootstrapped.servers _ hhome).2.2⟩, id⟩
      · rw [hk]
        rfl
      · rw [nextToServer, he]
        exact Option.isSome_of_eq_some hm
    · right
      refine ⟨.clientMessages (cfg.activeServer e), ⟨hhome, ?_⟩, by simp [Place.rank]⟩
      intro hnil
      rw [serverOf, hnil] at hfull
      exact hfull (by decide)

/-! ## The servers -/

/-- A main task is free for the next batch, or works through one. -/
theorem task_idle_or (h : Working lib decided cfg t s) {n : NodeId} (hn : n ∈ cfg.nodes) :
    (s.servers n).task = .idle ∨ ∃ y, Holds cfg s y ∧ y.rank < 1 := by
  have horderly := (h.sound n).orderly
  cases htask : (s.servers n).task with
  | idle => exact .inl rfl
  | clusterBatch b => exact .inr ⟨.clusterBatch n, ⟨hn, (horderly.clusterBatch b htask).1⟩, one_pos⟩
  | clientBatch =>
      have hlive := (h.bootstrapped.servers n hn).2.2
      exact .inr ⟨.clientBatch n, ⟨hn, (horderly.clientBatch htask).2 hlive⟩, one_pos⟩

/-- A server takes up its client messages, unless it is at a batch. -/
theorem clientMessages (h : Working lib decided cfg t s) {n : NodeId}
    (hx : Holds cfg s (.clientMessages n)) : Proceeds lib cfg t s (.clientMessages n) := by
  rcases hx with ⟨hn, hne⟩
  have hup := h.bootstrapped.servers n hn
  rcases h.task_idle_or hn with hidle | ⟨y, hy, hrank⟩
  · left
    refine ⟨.server n (.recvClient 1), rfl,
      ⟨hn, ⟨hup, hidle, le_refl 1, by decide, ?_⟩, fun _ => hup.2.2⟩, id⟩
    exact List.length_pos_iff.mpr hne
  · right
    exact ⟨y, hy, hrank⟩

/-- A server takes up its cluster messages, unless it is at a batch. -/
theorem clusterMessages (h : Working lib decided cfg t s) {n : NodeId}
    (hx : Holds cfg s (.clusterMessages n)) : Proceeds lib cfg t s (.clusterMessages n) := by
  rcases hx with ⟨hn, hne⟩
  have hup := h.bootstrapped.servers n hn
  rcases h.task_idle_or hn with hidle | ⟨y, hy, hrank⟩
  · left
    refine ⟨.server n (.recvCluster 1), rfl,
      ⟨hn, ⟨hup, hidle, le_refl 1, by decide, ?_⟩, fun _ => hup.2.2⟩, id⟩
    exact List.length_pos_iff.mpr hne
  · right
    exact ⟨y, hy, hrank⟩

/-- Handlers never wait: the next message of a batch can be handled. -/
theorem clientBatch (h : Working lib decided cfg t s) {n : NodeId}
    (hx : Holds cfg s (.clientBatch n)) : Movable lib cfg t s (.clientBatch n) := by
  rcases hx with ⟨hn, hne⟩
  have hup := h.bootstrapped.servers n hn
  have horderly := (h.sound n).orderly
  have htask : (s.servers n).task = .clientBatch := by
    cases htask : (s.servers n).task with
    | idle => exact absurd (horderly.idle htask).2 hne
    | clusterBatch b => exact absurd (horderly.clusterBatch b htask).2 hne
    | clientBatch => rfl
  exact ⟨.server n .nextClientMessage, rfl,
    ⟨hn, ⟨hup, htask, List.isEmpty_eq_false_iff.mpr hne⟩, fun _ => hup.2.2⟩, id⟩

/-- A server works off its batch, whatever its connections do. -/
theorem clusterBatch (h : Working lib decided cfg t s) {n : NodeId}
    (hx : Holds cfg s (.clusterBatch n)) : Movable lib cfg t s (.clusterBatch n) := by
  rcases hx with ⟨hn, hne⟩
  have hup := h.bootstrapped.servers n hn
  have horderly := (h.sound n).orderly
  have htask : (s.servers n).task = .clusterBatch true ∨ (s.servers n).task = .clusterBatch false := by
    cases htask : (s.servers n).task with
    | idle => exact absurd (horderly.idle htask).1 hne
    | clusterBatch b => cases b <;> simp
    | clientBatch => exact absurd (horderly.clientBatch htask).1 hne
  exact ⟨.server n .nextClusterMessage, rfl,
    ⟨hn, ⟨hup, htask, List.isEmpty_eq_false_iff.mpr hne⟩, fun _ => hup.2.2⟩, id⟩

/-- The connection to a peer carries on, unless the queue of the peer is full. -/
theorem toPeer (h : Working lib decided cfg t s) {n p : NodeId}
    (hx : Holds cfg s (.toPeer n p)) : Proceeds lib cfg t s (.toPeer n p) := by
  rcases hx with ⟨hn, hne⟩
  have hup := h.bootstrapped.servers n hn
  rcases ((h.flows.servers n).peers p).progress (t := t) (by decide) hne with ⟨l, hl, hg⟩ | ⟨m, hm⟩
  · left
    exact ⟨.network n (.toPeer p l), ⟨rfl, rfl, hl⟩,
      ⟨hn, by simp, hg, fun _ => hup.2.2⟩, not_fails_of_moves _ hl⟩
  · -- the reader at the peer waits for `cluster_messages`
    have hp : p ∈ cfg.nodes := by
      have hcarries := (h.sound n).carries
      by_contra hp
      refine accepted_of_contents (hcarries.ordered p) hne (hcarries.strangers p ?_)
      intro hmem
      exact hp (List.mem_of_mem_filter hmem)
    by_cases hfull : (s.servers p).network.clusterMessages.length < Server.networkBatchSize
    · left
      exact ⟨.clusterArrive n p, ⟨rfl, rfl⟩,
        ⟨hn, hp, Option.isSome_of_eq_some hm, hfull, (h.bootstrapped.servers p hp).2.2⟩, id⟩
    · right
      refine ⟨.clusterMessages p, ⟨hp, ?_⟩, by simp [Place.rank]⟩
      intro hnil
      rw [hnil] at hfull
      exact hfull (Nat.zero_lt_succ 99)

/-- The connection to a client carries on, unless the queue of the client is full. -/
theorem toClient (h : Working lib decided cfg t s) {n : NodeId} {k : ClientId}
    (hx : Holds cfg s (.toClient n k)) : Proceeds lib cfg t s (.toClient n k) := by
  rcases hx with ⟨hn, hne⟩
  have hup := h.bootstrapped.servers n hn
  have hflow := (h.flows.servers n).clients k
  rcases hflow.progress (t := t) (by decide) hne with ⟨l, hl, hg⟩ | ⟨m, hm⟩
  · left
    exact ⟨.network n (.toClient k l), ⟨rfl, rfl, hl⟩,
      ⟨hn, by simp, hg, fun _ => hup.2.2⟩, not_fails_of_moves _ hl⟩
  · -- the reader of the client `k` waits for `server_messages`
    have hcarries := (h.sound n).carries
    have hordered : ((s.servers n).network.toClient k).Ordered := by
      rw [Pipe.Ordered, (hcarries.streamed k).intact hflow.unbroken hflow.alive]
    have hreg : (s.servers n).network.Registered k := by
      by_contra hreg
      exact accepted_of_contents hordered hne (hcarries.unregistered k hreg)
    rcases h.coherent.linked.known n k hreg with ⟨e, rfl, hk⟩
    have hloop : Looping (s.endpoints e) := by
      rcases h.bootstrapped.shims e with hloop | ⟨hnone, _⟩
      · exact hloop
      · rw [hk] at hnone
        cases hnone
    rcases hloop.exists with ⟨sh, he, hphase⟩
    -- with room in its queue the message arrives, and with a full one the shim has to go first
    by_cases hfull : sh.network.serverMessages.length < Client.networkBatchSize
    · left
      refine ⟨.serverArrive e, ⟨rfl, hk⟩, ⟨?_, ?_, ?_⟩, id⟩
      · rw [nextToClient, hk]
        exact Option.isSome_of_eq_some hm
      · rw [he, Endpoint.Connected, hphase]
        simp
      · rw [he]
        exact hfull
    · right
      refine ⟨.serverMessages e, ⟨sh, he, ?_⟩, by simp [Place.rank]⟩
      intro hnil
      rw [hnil] at hfull
      exact hfull (by decide)

/-- Whatever is held anywhere proceeds. -/
theorem proceeds (h : Working lib decided cfg t s) (x : Place) (hx : Holds cfg s x) :
    Proceeds lib cfg t s x := by
  cases x with
  | commands e => exact h.commands hx
  | sending e => exact h.sending hx
  | toServer e => exact h.toServer hx
  | clientMessages n => exact h.clientMessages hx
  | clientBatch n => exact .inl (h.clientBatch hx)
  | clusterMessages n => exact h.clusterMessages hx
  | clusterBatch n => exact .inl (h.clusterBatch hx)
  | toPeer n p => exact h.toPeer hx
  | toClient n k => exact h.toClient hx
  | serverMessages e => exact h.serverMessages hx

end Working

/-- After bootstrap, in a run in which no connection fails: if a message is held anywhere,
some message that is held can be moved or consumed, and the step does take it on. -/
theorem no_deadlock (hlib : lib.Lawful decided) (hr : (healthy lib decided cfg t).Reachable s)
    (hboot : Bootstrapped cfg s) {x : Place} (hx : Holds cfg s x) :
    ∃ y a, Holds cfg s y ∧ MovesFrom cfg s y a ∧ Advances cfg s (s.act lib cfg a) y ∧
      ∀ d, (healthy lib decided cfg t).guard ⟨a, d⟩ s := by
  have hc := coherent_reachable hlib (Machine.reachable_of_restrict hr)
  have hworking : Working lib decided cfg t s :=
    ⟨hc, hc.sound hlib, flows_reachable hlib hr, hboot⟩
  -- from a place that waits to one of lower rank, until a message can move
  have hmove := exists_movable_of_rank (Holds cfg s)
    (fun y => Holds cfg s y ∧ Movable lib cfg t s y) Place.rank ?_ x hx
  · rcases hmove with ⟨y, hy, a, ha, hg, hf⟩
    exact ⟨y, a, hy, ha, advances_of_movesFrom hlib (fun n => (hworking.sound n).refines) ha hg,
      fun _ => ⟨hg, hf⟩⟩
  · intro y hy
    exact (hworking.proceeds y hy).imp_left fun hmove => ⟨hy, hmove⟩

/-! ## A suspended shim -/

/-- The endpoint that an action concerns. -/
def Action.endpoint? : Action → Option EndpointId
  | .shim e _ | .bench e _ | .connection e _ | .register e | .clientArrive e | .serverArrive e =>
      some e
  | .server _ _ | .network _ _ | .clusterArrive _ _ | .clusterLose _ _ => none

/-- An action leaves all other endpoints alone. -/
theorem endpoint_act_of_ne (lib : OmniPaxos Ω M) (cfg : Config) {a : Action} {e : EndpointId}
    (h : a.endpoint? ≠ some e) (s : State Ω M) :
    (s.act lib cfg a).endpoints e = s.endpoints e ∧ (s.act lib cfg a).clientId e = s.clientId e := by
  have hne : ∀ f, a.endpoint? = some f → e ≠ f := by
    intro f hf heq
    subst heq
    exact h hf
  cases a with
  | server n l => exact ⟨rfl, rfl⟩
  | network n l => exact ⟨rfl, rfl⟩
  | shim f l => exact ⟨endpoints_onEndpoint_of_ne (hne f rfl) (.shim l) s, rfl⟩
  | bench f l => exact ⟨endpoints_onEndpoint_of_ne (hne f rfl) (.bench l) s, rfl⟩
  | connection f l => exact ⟨endpoints_onEndpoint_of_ne (hne f rfl) (.connection l) s, rfl⟩
  | register f => exact ⟨rfl, Function.update_of_ne (hne f rfl) _ _⟩
  | clusterArrive sender receiver =>
      simp only [act]
      split <;> exact ⟨rfl, rfl⟩
  | clusterLose sender receiver => exact ⟨rfl, rfl⟩
  | clientArrive f =>
      simp only [act]
      split
      · exact ⟨endpoints_onEndpoint_of_ne (hne f rfl) .handOn s, rfl⟩
      · exact ⟨rfl, rfl⟩
  | serverArrive f =>
      simp only [act]
      split
      · next k msg _ _ =>
          exact ⟨endpoints_onEndpoint_of_ne (hne f rfl) (.arrive msg)
            (s.onServer lib cfg (cfg.activeServer f) (.clientForward k)), rfl⟩
      · exact ⟨rfl, rfl⟩

/-- Shim 0 takes request `r` as far as its `network.send`. -/
def takeActions (r : RequestId) : List Action :=
  [.shim 0 (.invoke (.get "k")), .shim 0 (.enqueue r), .shim 0 .takeCommand]

/-- The writer task does not run, so the outgoing queue fills up. -/
def suspendedActions : List Action :=
  bootActions ++ (List.range 100).flatMap (fun r => takeActions r ++ [.shim 0 .resolveSend]) ++
    takeActions 100

def suspendedRun : List Label := suspendedActions.map (⟨·, []⟩)

def twoNodesHealthy : Machine (State Relay (NodeId × Option Command)) Label :=
  healthy relayLibrary Relay.log twoNodes smallTransport

def suspended : State Relay (NodeId × Option Command) :=
  twoNodesHealthy.after twoNodesStart suspendedRun

instance (l : Label) (s : State Relay (NodeId × Option Command)) :
    Decidable (twoNodesHealthy.guard l s) :=
  Machine.decidableRestrict _ _ _ _

theorem suspendedRun_valid : twoNodesHealthy.Valid twoNodesStart suspendedRun := by
  decide +kernel

theorem suspended_reachable :
    (healthy relayLibrary Relay.log twoNodes smallTransport).Reachable suspended :=
  twoNodesHealthy.reachable_after suspendedRun
    (.start ⟨fun n => ⟨n, [], []⟩, fun _ => rfl, rfl⟩) suspendedRun_valid

theorem holds_sending {e : EndpointId} (hloop : Looping (s.endpoints e))
    (hsending : (s.endpoints e).sending ≠ none) : Holds cfg s (.sending e) := by
  rcases hloop.exists with ⟨sh, he, _⟩
  rw [he] at hsending
  exact ⟨sh, he, hsending⟩

/-- Only shim 0 does anything in the run. -/
theorem endpoint_suspendedRun {l : Label} (hl : l ∈ suspendedRun) {e : EndpointId} (he : e ≠ 0) :
    l.action.endpoint? ≠ some e := by
  have hall : ∀ l ∈ suspendedRun, l.action.endpoint? ∈ [none, some 0] := by decide +kernel
  have hmem := hall l hl
  intro heq
  rw [heq] at hmem
  simp [he] at hmem

/-- Bootstrap is over. -/
theorem suspended_bootstrapped : Bootstrapped twoNodes suspended where
  servers := by
    show ∀ n ∈ [1, 2], (suspended.servers n).Up
    decide +kernel
  shims := by
    intro e
    by_cases he : e = 0
    · left
      subst he
      decide +kernel
    · right
      refine twoNodesHealthy.after_invariant
        (fun s => s.clientId e = none ∧ s.endpoints e = Endpoint.new (twoNodes.activeServer e) .shim)
        ⟨rfl, rfl⟩ suspendedRun_valid ?_
      intro l hl s _ hs
      rcases endpoint_act_of_ne relayLibrary twoNodes (endpoint_suspendedRun hl he) s with
        ⟨hendpoint, hid⟩
      exact ⟨hid.trans hs.1, hendpoint.trans hs.2⟩

theorem suspended_holds : Holds twoNodes suspended (.sending 0) :=
  holds_sending (by decide +kernel) (by decide +kernel)

/-- The shim is suspended with request 100, and yet there is a way on. -/
theorem no_deadlock_suspended :
    ¬ suspended.guard relayLibrary twoNodes smallTransport (.shim 0 .resolveSend) ∧
      ∃ y a, Holds twoNodes suspended y ∧ MovesFrom twoNodes suspended y a ∧
        Advances twoNodes suspended (suspended.act relayLibrary twoNodes a) y ∧
        ∀ d, (healthy relayLibrary Relay.log twoNodes smallTransport).guard ⟨a, d⟩ suspended := by
  constructor
  · decide +kernel
  · exact no_deadlock relayLibrary_lawful suspended_reachable suspended_bootstrapped suspended_holds

end Cluster

end OmnipaxosKv
