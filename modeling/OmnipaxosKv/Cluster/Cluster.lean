import Mathlib.Data.List.Perm.Subperm
import OmnipaxosKv.Client.Endpoint
import OmnipaxosKv.Lib.Linearizability
import OmnipaxosKv.Server.Node

/-! # A cluster and its clients

Servers, shims and benchmark clients, and the connections between them. A connection has
a pipe for each direction, kept with the party that writes into it; a reader task at the
other end takes its messages out one by one.

The consensus library is a parameter. `Agreed` is what it promises about the servers
together: they decide prefixes of one log, and each entry of the log was appended.
-/

namespace OmnipaxosKv

namespace Cluster

open Server Client
open Server.OmniPaxosServer (NodeStep node nodeUpdate nodeGuard)

abbrev EndpointId := ℕ

/-- The configuration files of all parties, as far as they are read. -/
structure Config where
  nodes : List NodeId
  nodes_nodup : nodes.Nodup
  initialLeader : NodeId
  numClients : NodeId → ℕ
  kind : EndpointId → EndpointKind
  activeServer : EndpointId → NodeId

/-- The configuration of one server. -/
def Config.server (cfg : Config) (n : NodeId) : Server.Config where
  serverId := n
  nodes := cfg.nodes
  nodes_nodup := cfg.nodes_nodup
  initialLeader := cfg.initialLeader
  numClients := cfg.numClients n

/-- An HTTP request: a shim, and a position among its requests. -/
abbrev Ticket := EndpointId × RequestId

abbrev HttpEvent := Linearizability.Event Ticket HttpOp Status

structure State (Ω M : Type) where
  servers : NodeId → OmniPaxosServer Ω M
  endpoints : EndpointId → Endpoint
  /-- the id under which an endpoint's server knows it -/
  clientId : EndpointId → Option ClientId
  /-- the log of which the servers decide prefixes -/
  log : List Command
  /-- history: the HTTP requests and their answers -/
  history : List HttpEvent

inductive Action where
  | server (n : NodeId) (l : ServerStep)
  | network (n : NodeId) (l : NetworkStep)
  | shim (e : EndpointId) (l : ShimStep)
  | bench (e : EndpointId) (l : Benchmark.ClientStep)
  | connection (e : EndpointId) (l : PipeStep)
  /-- the server reads the `ClientRegister` of an endpoint -/
  | register (e : EndpointId)
  | clusterArrive (sender receiver : NodeId)
  /-- a message between servers is lost, for instance with the handshake -/
  | clusterLose (sender receiver : NodeId)
  | clientArrive (e : EndpointId)
  | serverArrive (e : EndpointId)
deriving DecidableEq, Repr

/-- An action, and the entries that are decided with it. -/
structure Label where
  action : Action
  decided : List Command
deriving DecidableEq, Repr

section

variable {Ω M : Type}

def State.new (cfg : Config) (ω : NodeId → Ω) : State Ω M where
  servers := fun n => OmniPaxosServer.new (cfg.server n) (ω n)
  endpoints := fun e => Endpoint.new (cfg.activeServer e) (cfg.kind e)
  clientId := fun _ => none
  log := []
  history := []

/-- The HTTP event that a step of a shim is. -/
def httpEvents (e : EndpointId) (l : ShimStep) (before after : Endpoint) : List HttpEvent :=
  match l, before, after with
  | .invoke op, .shim s, _ => [.invoke (e, s.requests.length) op]
  | .enqueue r, _, .shim s | .answer r, _, .shim s =>
      match s.handlerOf r with
      | some (.answered status) => [.respond (e, r) status]
      | _ => []
  | _, _, _ => []

namespace State

/-- The server to which an endpoint connects. -/
def serverOf (cfg : Config) (s : State Ω M) (e : EndpointId) : OmniPaxosServer Ω M :=
  s.servers (cfg.activeServer e)

def onServer (lib : OmniPaxos Ω M) (cfg : Config) (n : NodeId) (l : NodeStep M) (s : State Ω M) :
    State Ω M :=
  { s with servers := Function.update s.servers n (nodeUpdate lib (cfg.server n) l (s.servers n)) }

def onEndpoint (cfg : Config) (e : EndpointId) (l : EndpointStep) (s : State Ω M) : State Ω M :=
  { s with
    endpoints := Function.update s.endpoints e ((s.endpoints e).update (cfg.activeServer e) l) }

/-- The message that the reader at the server of `e` hands on next. -/
def nextToServer (cfg : Config) (s : State Ω M) (e : EndpointId) : Option ClientMessage :=
  ((s.endpoints e).pipe (cfg.activeServer e)).next?

/-- The message that the reader of `e` hands on next. -/
def nextToClient (cfg : Config) (s : State Ω M) (e : EndpointId) : Option ServerMessage :=
  match s.clientId e with
  | none => none
  | some k => ((s.serverOf cfg e).network.toClient k).next?

def nextToPeer (s : State Ω M) (sender receiver : NodeId) : Option (ClusterMessage M) :=
  ((s.servers sender).network.toPeer receiver).next?

def act (lib : OmniPaxos Ω M) (cfg : Config) : Action → State Ω M → State Ω M
  | .server n l, s => s.onServer lib cfg n (.main l)
  | .network n l, s => s.onServer lib cfg n (.network l)
  | .shim e l, s =>
      { s.onEndpoint cfg e (.shim l) with
        history := s.history ++ httpEvents e l (s.endpoints e)
          ((s.endpoints e).update (cfg.activeServer e) (.shim l)) }
  | .bench e l, s => s.onEndpoint cfg e (.bench l)
  | .connection e l, s => s.onEndpoint cfg e (.connection l)
  | .register e, s =>
      { s.onServer lib cfg (cfg.activeServer e) (.network .registerClient) with
        clientId := Function.update s.clientId e
          (some ((s.serverOf cfg e).network.maxClientId + 1)) }
  | .clusterArrive sender receiver, s =>
      match s.nextToPeer sender receiver with
      | none => s
      | some msg => (s.onServer lib cfg sender (.peerForward receiver)).onServer lib cfg receiver
          (.clusterArrive sender msg)
  | .clusterLose sender receiver, s => s.onServer lib cfg sender (.peerForward receiver)
  | .clientArrive e, s =>
      match s.clientId e, s.nextToServer cfg e with
      | some k, some msg =>
          (s.onEndpoint cfg e .handOn).onServer lib cfg (cfg.activeServer e) (.clientArrive k msg)
      | _, _ => s
  | .serverArrive e, s =>
      match s.clientId e, s.nextToClient cfg e with
      | some k, some msg =>
          (s.onServer lib cfg (cfg.activeServer e) (.clientForward k)).onEndpoint cfg e (.arrive msg)
      | _, _ => s

def guard (lib : OmniPaxos Ω M) (cfg : Config) (t : Transport) : Action → State Ω M → Prop
  | .server n l, s => n ∈ cfg.nodes ∧ (node lib (cfg.server n) t).guard (.main l) (s.servers n)
  | .network n l, s => n ∈ cfg.nodes ∧ l ≠ .registerClient ∧
      (node lib (cfg.server n) t).guard (.network l) (s.servers n)
  | .shim e l, s => (s.endpoints e).guard (cfg.activeServer e) t (.shim l)
  | .bench e l, s => (s.endpoints e).guard (cfg.activeServer e) t (.bench l)
  | .connection e l, s => (s.endpoints e).guard (cfg.activeServer e) t (.connection l)
  | .register e, s => cfg.activeServer e ∈ cfg.nodes ∧ s.clientId e = none ∧
      (s.serverOf cfg e).crashed = false
  | .clusterArrive sender receiver, s => sender ∈ cfg.nodes ∧ receiver ∈ cfg.nodes ∧
      (s.nextToPeer sender receiver).isSome ∧
      (s.servers receiver).network.clusterMessages.length < Server.networkBatchSize ∧
      (s.servers receiver).crashed = false
  | .clusterLose sender receiver, s => sender ∈ cfg.nodes ∧ receiver ∈ cfg.nodes ∧
      (s.nextToPeer sender receiver).isSome
  | .clientArrive e, s => (s.clientId e).isSome ∧ (s.nextToServer cfg e).isSome ∧
      (s.serverOf cfg e).network.clientMessages.length < Server.networkBatchSize ∧
      (s.serverOf cfg e).crashed = false
  | .serverArrive e, s => (s.nextToClient cfg e).isSome ∧ (s.endpoints e).Connected ∧
      (s.endpoints e).network.serverMessages.length < Client.networkBatchSize

end State

instance (lib : OmniPaxos Ω M) (cfg : Server.Config) (t : Transport) (l : NodeStep M)
    (s : OmniPaxosServer Ω M) : Decidable ((node lib cfg t).guard l s) :=
  inferInstanceAs (Decidable (_ ∧ _))

instance (lib : OmniPaxos Ω M) (cfg : Config) (t : Transport) (a : Action) (s : State Ω M) :
    Decidable (s.guard lib cfg t a) := by
  cases a <;> unfold State.guard <;> infer_instance

def cluster (lib : OmniPaxos Ω M) (decided : Ω → List Command) (cfg : Config) (t : Transport) :
    Machine (State Ω M) Label where
  init := fun s => ∃ ω, (∀ n, decided (ω n) = []) ∧ s = State.new cfg ω
  guard := fun l s => s.guard lib cfg t l.action
  update := fun l s => { s.act lib cfg l.action with log := s.log ++ l.decided }

instance (lib : OmniPaxos Ω M) (decided : Ω → List Command) (cfg : Config) (t : Transport)
    (l : Label) (s : State Ω M) : Decidable ((cluster lib decided cfg t).guard l s) :=
  inferInstanceAs (Decidable (s.guard lib cfg t l.action))

/-- The commands that the servers passed to `append`. -/
def State.appended (cfg : Config) (s : State Ω M) : List Command :=
  cfg.nodes.flatMap fun n => (s.servers n).appended

/-- The promises of the consensus library about all servers: what each has decided is a
prefix of the one log, and each `append` has put at most one entry into it. -/
structure Agreed (decided : Ω → List Command) (cfg : Config) (s : State Ω M) : Prop where
  decides : ∀ n ∈ cfg.nodes, decided (s.servers n).omnipaxos <+: s.log
  appended : s.log.Subperm (s.appended cfg)

instance (decided : Ω → List Command) (cfg : Config) (s : State Ω M) :
    Decidable (Agreed decided cfg s) :=
  decidable_of_iff ((∀ n ∈ cfg.nodes, decided (s.servers n).omnipaxos <+: s.log) ∧
    s.log.Subperm (s.appended cfg)) ⟨fun h => ⟨h.1, h.2⟩, fun h => ⟨h.1, h.2⟩⟩

/-- The runs of the cluster in which the library keeps its promises. -/
def agreeing (lib : OmniPaxos Ω M) (decided : Ω → List Command) (cfg : Config) (t : Transport) :
    Machine (State Ω M) Label :=
  (cluster lib decided cfg t).restrict fun l s =>
    Agreed decided cfg ((cluster lib decided cfg t).update l s)

instance decidableAgreeing (lib : OmniPaxos Ω M) (decided : Ω → List Command) (cfg : Config)
    (t : Transport) (l : Label) (s : State Ω M) :
    Decidable ((agreeing lib decided cfg t).guard l s) :=
  Machine.decidableRestrict _ _ _ _

end

/-! ## A small cluster

Two servers over the relay library, with shims at the first. -/

theorem nodup_twoNodes : ([1, 2] : List NodeId).Nodup := by decide

def twoNodes : Config where
  nodes := [1, 2]
  nodes_nodup := nodup_twoNodes
  initialLeader := 1
  numClients
    | 1 => 1
    | _ => 0
  kind := fun _ => .shim
  activeServer := fun _ => 1

/-- The way of one message through a pipe. -/
def through (f : PipeStep → Action) : List Action :=
  [f (.recvMany 1), f (.feed 0), f (.write 1), f (.fill 1), f .decode, f .release]

/-- The servers connect, shim 0 registers, and the start signals go out. -/
def bootActions : List Action :=
  [.network 1 (.connectPeer 2), .network 2 (.connectPeer 1), .network 1 (.handOver 0),
    .network 2 (.handOver 0), .network 1 .recvConnection, .network 2 .recvConnection, .register 0,
    .network 1 (.handOver 0), .network 1 .recvConnection, .shim 0 .connected,
    .server 1 (.takeover 0)] ++
  through (fun l => .network 1 (.toClient 1 l)) ++ [.serverArrive 0, .shim 0 .recvStart] ++
  through (fun l => .network 1 (.toPeer 2 l)) ++
  [.clusterArrive 1 2, .server 2 (.recvCluster 1), .server 2 .nextClusterMessage]

/-- Request `r` of shim 0 goes to server 1. -/
def requestActions (r : RequestId) (op : HttpOp) : List Action :=
  [.shim 0 (.invoke op), .shim 0 (.enqueue r), .shim 0 .takeCommand, .shim 0 .resolveSend] ++
  through (fun l => .connection 0 l) ++ [.clientArrive 0, .server 1 (.recvClient 1)]

/-- Server 2 learns of the new entry and confirms it; server 1 applies and answers it. -/
def answerActions (r : RequestId) : List Action :=
  through (fun l => .network 1 (.toPeer 2 l)) ++
  [.clusterArrive 1 2, .server 2 (.recvCluster 1), .server 2 .nextClusterMessage] ++
  through (fun l => .network 2 (.toPeer 1 l)) ++
  [.clusterArrive 2 1, .server 1 (.recvCluster 1), .server 1 .nextClusterMessage] ++
  through (fun l => .network 1 (.toClient 1 l)) ++
  [.serverArrive 0, .shim 0 .recvServer, .shim 0 (.answer r)]

/-- One request from its arrival at shim 0 to its answer. -/
def requestRun (r : RequestId) (op : HttpOp) : List Label :=
  (requestActions r op).map (⟨·, []⟩) ++ [⟨.server 1 .nextClientMessage, [⟨1, 1, r, op.kvCommand⟩]⟩] ++
    (answerActions r).map (⟨·, []⟩)

/-- A `Put` and then a `Get` of its key. -/
def putGetRun : List Label :=
  bootActions.map (⟨·, []⟩) ++ requestRun 0 (.put "k" "v") ++ requestRun 1 (.get "k")

def twoNodesStart : State Relay (NodeId × Option Command) :=
  State.new twoNodes fun n => ⟨n, [], []⟩

def twoNodesMachine : Machine (State Relay (NodeId × Option Command)) Label :=
  agreeing relayLibrary Relay.log twoNodes smallTransport

instance (l : Label) (s : State Relay (NodeId × Option Command)) :
    Decidable (twoNodesMachine.guard l s) :=
  decidableAgreeing _ _ _ _ _ _

theorem putGetRun_valid : twoNodesMachine.Valid twoNodesStart putGetRun := by decide +kernel

theorem putGetRun_reachable :
    twoNodesMachine.Reachable (twoNodesMachine.after twoNodesStart putGetRun) :=
  twoNodesMachine.reachable_after putGetRun (.start ⟨fun n => ⟨n, [], []⟩, fun _ => rfl, rfl⟩)
    putGetRun_valid

end Cluster

end OmnipaxosKv
