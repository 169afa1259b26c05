import OmnipaxosKv.Server.Network
import OmnipaxosKv.Server.OmniPaxos

/-! # The server (`server/server.rs`)

The main task of a server: `establish_initial_leader`, then the main loop. Both are
`select!` loops over a timer and the two inbound channels, and handlers run to their
end without awaiting anything. A batch is handled one message a step, so that the
tasks behind the connections may act (and fail) in between.
-/

namespace OmnipaxosKv

namespace Server

/-- Which of the two `select!` loops the main task is in. -/
inductive LoopPhase where
  | establishing
  | running
deriving DecidableEq, Repr

/-- What the main task is doing: waiting in `select!`, or working through a batch. -/
inductive MainTask where
  | idle
  | clusterBatch (receivedStartSignal : Bool)
  | clientBatch
deriving DecidableEq, Repr

structure OmniPaxosServer (Ω M : Type) where
  database : Database
  network : Network M
  omnipaxos : Ω
  currentDecidedIdx : ℕ
  phase : LoopPhase
  task : MainTask
  clusterMsgBuf : List (NodeId × ClusterMessage M)
  clientMsgBuf : List (ClientId × ClientMessage)
  /-- the process panicked or was killed -/
  crashed : Bool
  /-- history: the commands applied to the database -/
  applied : List Command
  /-- history: the commands passed to the library's `append` -/
  appended : List Command
  /-- history: the calls of `send_client_start_signals` -/
  startSignals : List Timestamp

namespace OmniPaxosServer

variable {Ω M : Type}

/-- `OmniPaxosServer::new`, up to the call of `initialize_connections`. -/
def new (cfg : Config) (ω : Ω) : OmniPaxosServer Ω M where
  database := Database.new
  network := Network.new cfg
  omnipaxos := ω
  currentDecidedIdx := 0
  phase := .establishing
  task := .idle
  clusterMsgBuf := []
  clientMsgBuf := []
  crashed := false
  applied := []
  appended := []
  startSignals := []

def panic (s : OmniPaxosServer Ω M) : OmniPaxosServer Ω M := { s with crashed := true }

/-- The response of the coordinator to a command applied to `d`. -/
def response (d : Database) (command : Command) : ServerMessage :=
  match (d.handleCommand command.kvCmd).2 with
  | some readResult => .read command.id readResult
  | none => .write command.id

/-- One turn of the loop of `update_database_and_respond`. -/
def applyCommand (cfg : Config) (s : OmniPaxosServer Ω M) (command : Command) :
    OmniPaxosServer Ω M :=
  { s with
    database := (s.database.handleCommand command.kvCmd).1
    applied := s.applied ++ [command]
    network :=
      if command.coordinatorId = cfg.serverId then
        s.network.sendToClient command.clientId (response s.database command)
      else s.network }

def updateDatabaseAndRespond (cfg : Config) (commands : List Command) (s : OmniPaxosServer Ω M) :
    OmniPaxosServer Ω M :=
  commands.foldl (applyCommand cfg) s

/-- The commands of a decided suffix; `none` is the `unreachable!()` on another entry. -/
def decidedCommands : List LogEntry → Option (List Command)
  | [] => some []
  | .decided cmd :: entries => (decidedCommands entries).map (cmd :: ·)
  | .other :: _ => none

def handleDecidedEntries (lib : OmniPaxos Ω M) (cfg : Config) (s : OmniPaxosServer Ω M) :
    OmniPaxosServer Ω M :=
  let newDecidedIdx := lib.getDecidedIdx s.omnipaxos
  if s.currentDecidedIdx < newDecidedIdx then
    match lib.readDecidedSuffix s.omnipaxos s.currentDecidedIdx with
    -- the `unwrap` of `read_decided_suffix`
    | none => s.panic
    | some decidedEntries =>
        -- the cursor moves before the commands are applied
        let s := { s with currentDecidedIdx := newDecidedIdx }
        match decidedCommands decidedEntries with
        -- the `unreachable!()`
        | none => s.panic
        | some commands => updateDatabaseAndRespond cfg commands s
  else s

def sendOutgoingMsgs (lib : OmniPaxos Ω M) (s : OmniPaxosServer Ω M) : OmniPaxosServer Ω M :=
  let (omnipaxos, msgs) := lib.takeOutgoingMessages s.omnipaxos
  { s with
    omnipaxos := omnipaxos
    network := msgs.foldl
      (fun n msg => n.sendToCluster (lib.getReceiver msg) (.omniPaxosMessage msg)) s.network }

def sendClusterStartSignals (cfg : Config) (startTime : Timestamp) (s : OmniPaxosServer Ω M) :
    OmniPaxosServer Ω M :=
  { s with
    network := cfg.peers.foldl
      (fun n peer => n.sendToCluster peer (.leaderStartSignal startTime)) s.network }

def sendClientStartSignals (cfg : Config) (startTime : Timestamp) (s : OmniPaxosServer Ω M) :
    OmniPaxosServer Ω M :=
  { s with
    network := s.network.sendClientStartSignals cfg.numClients startTime
    startSignals := s.startSignals ++ [startTime] }

def appendToLog (lib : OmniPaxos Ω M) (cfg : Config) (client : ClientId) (commandId : CommandId)
    (kvCommand : KVCommand) (s : OmniPaxosServer Ω M) : OmniPaxosServer Ω M :=
  let command : Command := ⟨client, cfg.serverId, commandId, kvCommand⟩
  let s := { s with appended := s.appended ++ [command] }
  match lib.append s.omnipaxos command with
  | some omnipaxos => { s with omnipaxos := omnipaxos }
  -- the `expect` on the result of `append`
  | none => s.panic

/-! ## The steps of the main task -/

/-- The body of the takeover branch; `now` is the leader's clock. -/
def takeover (lib : OmniPaxos Ω M) (cfg : Config) (now : Timestamp) (s : OmniPaxosServer Ω M) :
    OmniPaxosServer Ω M :=
  match lib.getCurrentLeader s.omnipaxos with
  | some (currLeader, true) =>
      if currLeader = cfg.serverId then
        let experimentSyncStart := now + 2000
        { sendClientStartSignals cfg experimentSyncStart
            (sendClusterStartSignals cfg experimentSyncStart s) with phase := .running }
      -- another server leads
      else attempt s
  -- no leader yet, or one that is not in its accept phase
  | _ => attempt s
where
  attempt (s : OmniPaxosServer Ω M) : OmniPaxosServer Ω M :=
    sendOutgoingMsgs lib { s with omnipaxos := lib.tryBecomeLeader s.omnipaxos }

def tick (lib : OmniPaxos Ω M) (s : OmniPaxosServer Ω M) : OmniPaxosServer Ω M :=
  sendOutgoingMsgs lib { s with omnipaxos := lib.tick s.omnipaxos }

def recvCluster (count : ℕ) (s : OmniPaxosServer Ω M) : OmniPaxosServer Ω M :=
  { s with
    network := { s.network with clusterMessages := s.network.clusterMessages.drop count }
    clusterMsgBuf := s.network.clusterMessages.take count
    task := .clusterBatch false }

def recvClient (count : ℕ) (s : OmniPaxosServer Ω M) : OmniPaxosServer Ω M :=
  { s with
    network := { s.network with clientMessages := s.network.clientMessages.drop count }
    clientMsgBuf := s.network.clientMessages.take count
    task := .clientBatch }

/-- The end of `handle_cluster_messages` and of the branch that called it: in
`establish_initial_leader` a start signal in the batch ends the loop. -/
def endClusterBatch (lib : OmniPaxos Ω M) (receivedStartSignal : Bool)
    (s : OmniPaxosServer Ω M) : OmniPaxosServer Ω M :=
  { sendOutgoingMsgs lib s with
    task := .idle
    phase := if receivedStartSignal then .running else s.phase }

/-- One message of `handle_cluster_messages`. -/
def handleClusterMessage (lib : OmniPaxos Ω M) (cfg : Config) (message : ClusterMessage M)
    (s : OmniPaxosServer Ω M) : OmniPaxosServer Ω M :=
  match message with
  | .omniPaxosMessage m =>
      handleDecidedEntries lib cfg { s with omnipaxos := lib.handleIncoming s.omnipaxos m }
  | .leaderStartSignal startTime => sendClientStartSignals cfg startTime s

def isStartSignal : ClusterMessage M → Bool
  | .omniPaxosMessage _ => false
  | .leaderStartSignal _ => true

/-- One turn of the loop of `handle_cluster_messages`. -/
def nextClusterMessage (lib : OmniPaxos Ω M) (cfg : Config) (s : OmniPaxosServer Ω M) :
    OmniPaxosServer Ω M :=
  match s.task, s.clusterMsgBuf with
  | .clusterBatch received, (_, message) :: rest =>
      let received := received || isStartSignal message
      let s := handleClusterMessage lib cfg message
        { s with clusterMsgBuf := rest, task := .clusterBatch received }
      if s.crashed then s
      -- messages are sent out once, behind the last of the batch
      else if rest.isEmpty then endClusterBatch lib received s
      else s
  | _, _ => s

/-- One turn of the loop of `handle_client_messages`, and its end. -/
def nextClientMessage (lib : OmniPaxos Ω M) (cfg : Config) (s : OmniPaxosServer Ω M) :
    OmniPaxosServer Ω M :=
  match s.clientMsgBuf with
  | (client, .append commandId kvCommand) :: rest =>
      let s := appendToLog lib cfg client commandId kvCommand { s with clientMsgBuf := rest }
      if s.crashed then s
      else if rest.isEmpty then { sendOutgoingMsgs lib s with task := .idle }
      else s
  | [] => s

end OmniPaxosServer

/-- The steps of the main task. -/
inductive ServerStep where
  | takeover (now : Timestamp)
  | tick
  | recvCluster (count : ℕ)
  | nextClusterMessage
  | recvClient (count : ℕ)
  | nextClientMessage
  | crash
deriving DecidableEq, Repr

namespace OmniPaxosServer

variable {Ω M : Type}

/-- `Network::new` has returned and the process lives. -/
def Up (s : OmniPaxosServer Ω M) : Prop :=
  s.network.initializing = false ∧ s.network.panicked = false ∧ s.crashed = false

instance (s : OmniPaxosServer Ω M) : Decidable s.Up := inferInstanceAs (Decidable (_ ∧ _))

def guard (cfg : Config) : ServerStep → OmniPaxosServer Ω M → Prop
  | .takeover _, s => s.Up ∧ s.task = .idle ∧ s.phase = .establishing ∧
      cfg.initialLeader = cfg.serverId
  | .tick, s => s.Up ∧ s.task = .idle ∧ s.phase = .running
  | .recvCluster count, s => s.Up ∧ s.task = .idle ∧ 1 ≤ count ∧ count ≤ networkBatchSize ∧
      count ≤ s.network.clusterMessages.length
  | .nextClusterMessage, s => s.Up ∧ (s.task = .clusterBatch true ∨ s.task = .clusterBatch false) ∧
      s.clusterMsgBuf.isEmpty = false
  | .recvClient count, s => s.Up ∧ s.task = .idle ∧ 1 ≤ count ∧ count ≤ networkBatchSize ∧
      count ≤ s.network.clientMessages.length
  | .nextClientMessage, s => s.Up ∧ s.task = .clientBatch ∧ s.clientMsgBuf.isEmpty = false
  | .crash, _ => True

instance (cfg : Config) (l : ServerStep) (s : OmniPaxosServer Ω M) : Decidable (guard cfg l s) := by
  cases l <;> unfold guard <;> infer_instance

def update (lib : OmniPaxos Ω M) (cfg : Config) : ServerStep → OmniPaxosServer Ω M →
    OmniPaxosServer Ω M
  | .takeover now, s => s.takeover lib cfg now
  | .tick, s => s.tick lib
  | .recvCluster count, s => s.recvCluster count
  | .nextClusterMessage, s => s.nextClusterMessage lib cfg
  | .recvClient count, s => s.recvClient count
  | .nextClientMessage, s => s.nextClientMessage lib cfg
  | .crash, s => s.panic

end OmniPaxosServer

end Server

end OmnipaxosKv
