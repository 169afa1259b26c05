import Mathlib.Data.Finmap
import OmnipaxosKv.Lib.Machine
import OmnipaxosKv.Client.Network

/-! # The HTTP shim (`client/api_shim.rs`)

HTTP handlers put commands into a bounded queue and wait on a oneshot channel. One task
connects to the server, waits for its start signal and then serves the queue and the
server's messages in turn; while it is suspended in `network.send` it serves neither.
-/

namespace OmnipaxosKv

namespace Client

/-- A request is known by its position among the requests of its shim. -/
abbrev RequestId := ℕ

/-- The two routes under `/kv/:key`. -/
inductive HttpOp where
  | put (key value : String)
  | get (key : String)
deriving DecidableEq, Repr

/-- What is sent through a `reply_to` channel. -/
inductive Reply where
  | written
  | value (v : Option String)
deriving DecidableEq, Repr

inductive Oneshot where
  | empty
  | completed (reply : Reply)
  | dropped
deriving DecidableEq, Repr

/-- The status (and body) of an HTTP response: 204, 200, 404, 500. -/
inductive Status where
  | noContent
  | ok (body : String)
  | notFound
  | internalServerError
deriving DecidableEq, Repr

/-- Where the handler of a request is: in `cmd_tx.send`, in `reply_rx.await`, done, or
dropped because the HTTP client went away. -/
inductive Handler where
  | enqueuing
  | waiting
  | answered (status : Status)
  | gone
deriving DecidableEq, Repr

structure Request where
  op : HttpOp
  handler : Handler
  reply : Oneshot
deriving DecidableEq, Repr

inductive ApiCommand where
  | put (key value : String) (replyTo : RequestId)
  | get (key : String) (replyTo : RequestId)
deriving DecidableEq, Repr

namespace ApiCommand

def replyTo : ApiCommand → RequestId
  | put _ _ r => r
  | get _ r => r

def kvCommand : ApiCommand → KVCommand
  | put key value _ => .put key value
  | get key _ => .get key

end ApiCommand

namespace HttpOp

/-- The command that `put_key` or `get_key` builds. -/
def apiCommand (r : RequestId) : HttpOp → ApiCommand
  | put key value => .put key value r
  | get key => .get key r

def kvCommand : HttpOp → KVCommand
  | put key value => .put key value
  | get key => .get key

/-- The last `match` of `put_key` and of `get_key`. -/
def status : HttpOp → Oneshot → Status
  | put _ _, .completed .written => .noContent
  | get _, .completed (.value (some value)) => .ok value
  | get _, .completed (.value none) => .notFound
  | _, _ => .internalServerError

@[simp] theorem replyTo_apiCommand (r : RequestId) (op : HttpOp) :
    (op.apiCommand r).replyTo = r := by
  cases op <;> rfl

@[simp] theorem kvCommand_apiCommand (r : RequestId) (op : HttpOp) :
    (op.apiCommand r).kvCommand = op.kvCommand := by
  cases op <;> rfl

end HttpOp

/-- The capacity of the command queue. -/
def cmdCapacity : ℕ := 128

inductive ShimPhase where
  | connecting
  | waitingStart
  | looping
  | ended
deriving DecidableEq, Repr

structure Shim where
  phase : ShimPhase
  network : Network
  cmdRx : List ApiCommand
  nextRequestId : CommandId
  pendingPut : HashMap CommandId RequestId
  pendingGet : HashMap CommandId RequestId
  /-- the message of the `network.send` the task is in -/
  sending : Option ClientMessage
  requests : List Request
  /-- history: the commands taken from the queue -/
  issued : List (RequestId × KVCommand)

namespace Shim

def new (activeServer : NodeId) : Shim where
  phase := .connecting
  network := Network.new [activeServer]
  cmdRx := []
  nextRequestId := 0
  pendingPut := ∅
  pendingGet := ∅
  sending := none
  requests := []
  issued := []

/-! ## The handlers -/

def invoke (op : HttpOp) (s : Shim) : Shim :=
  { s with requests := s.requests ++ [⟨op, .enqueuing, .empty⟩] }

def setHandler (r : RequestId) (h : Handler) (s : Shim) : Shim :=
  { s with requests := s.requests.modify r fun q => { q with handler := h } }

def setReply (r : RequestId) (reply : Oneshot) (s : Shim) : Shim :=
  { s with requests := s.requests.modify r fun q => { q with reply := reply } }

/-- `cmd_tx.send` resolves: an error iff the task, and with it the receiver, is gone. -/
def enqueue (r : RequestId) (s : Shim) : Shim :=
  match s.requests[r]? with
  | none => s
  | some q =>
      -- the handler answers 500 when the receiver is gone
      if s.phase = .ended then s.setHandler r (.answered .internalServerError)
      else { s.setHandler r .waiting with cmdRx := s.cmdRx ++ [q.op.apiCommand r] }

/-- `reply_rx.await` resolves. -/
def answer (r : RequestId) (s : Shim) : Shim :=
  match s.requests[r]? with
  | none => s
  | some q => s.setHandler r (.answered (q.op.status q.reply))

/-! ## The task -/

/-- `Network::new` returns. -/
def connected (activeServer : NodeId) (s : Shim) : Shim :=
  { s with phase := .waitingStart, network := s.network.connect [activeServer] }

/-- `Network::new` panics: the task ends and drops the queue with the channels in it. -/
def connectFailed (s : Shim) : Shim :=
  { s with
    phase := .ended
    cmdRx := []
    -- a `reply_to` in the queue is dropped, so its handler gets an error
    requests := s.requests.mapIdx fun r q =>
      if r ∈ s.cmdRx.map ApiCommand.replyTo then { q with reply := .dropped } else q }

/-- The loop before the start signal: other messages are discarded. -/
def recvStart (s : Shim) : Shim :=
  { s with
    phase := match s.network.serverMessages.head? with
      | some (.startSignal _) => .looping
      | _ => s.phase
    network := s.network.recv }

/-- The command branch, up to its `network.send`. -/
def takeCommand (s : Shim) : Shim :=
  match s.cmdRx with
  | [] => s
  | cmd :: rest =>
      let requestId := s.nextRequestId
      { s with
        cmdRx := rest
        nextRequestId := s.nextRequestId + 1
        pendingPut := match cmd with
          | .put _ _ replyTo => s.pendingPut.insert requestId replyTo
          | .get _ _ => s.pendingPut
        pendingGet := match cmd with
          | .put _ _ _ => s.pendingGet
          | .get _ replyTo => s.pendingGet.insert requestId replyTo
        sending := some (.append requestId cmd.kvCommand)
        issued := s.issued ++ [(cmd.replyTo, cmd.kvCommand)] }

/-- `network.send` returns. It reports nothing. -/
def resolveSend (activeServer : NodeId) (s : Shim) : Shim :=
  match s.sending with
  | none => s
  | some msg =>
      match s.network.send activeServer msg with
      | none => s
      | some network => { s with network := network, sending := none }

/-- The server message branch. -/
def handleServerMessage (msg : ServerMessage) (s : Shim) : Shim :=
  match msg with
  | .write id =>
      match s.pendingPut.lookup id with
      | none => s
      | some tx => { s.setReply tx (.completed .written) with pendingPut := s.pendingPut.erase id }
  | .read id value =>
      match s.pendingGet.lookup id with
      | none => s
      | some tx =>
          { s.setReply tx (.completed (.value value)) with pendingGet := s.pendingGet.erase id }
  | .startSignal _ => s

def recvServer (s : Shim) : Shim :=
  match s.network.serverMessages with
  | [] => s
  | msg :: _ => handleServerMessage msg { s with network := s.network.recv }

end Shim

/-- The steps of the handlers and of the task. -/
inductive ShimStep where
  | invoke (op : HttpOp)
  | enqueue (r : RequestId)
  | answer (r : RequestId)
  | disconnect (r : RequestId)
  | connected
  | connectFailed
  | recvStart
  | takeCommand
  | resolveSend
  | recvServer
deriving DecidableEq, Repr

namespace Shim

/-- The handler of request `r`. -/
def handlerOf (s : Shim) (r : RequestId) : Option Handler := s.requests[r]?.map Request.handler

def guard (activeServer : NodeId) : ShimStep → Shim → Prop
  | .invoke _, _ => True
  | .enqueue r, s => s.handlerOf r = some .enqueuing ∧
      (s.phase = .ended ∨ s.cmdRx.length < cmdCapacity)
  | .answer r, s => s.handlerOf r = some .waiting ∧ s.requests[r]?.map Request.reply ≠ some .empty
  | .disconnect r, s => s.handlerOf r = some .enqueuing ∨ s.handlerOf r = some .waiting
  | .connected, s => s.phase = .connecting
  | .connectFailed, s => s.phase = .connecting
  | .recvStart, s => s.phase = .waitingStart ∧ s.network.serverMessages.isEmpty = false
  | .takeCommand, s => s.phase = .looping ∧ s.sending = none ∧ s.cmdRx.isEmpty = false
  | .resolveSend, s => s.phase = .looping ∧
      ∃ msg ∈ s.sending, (s.network.send activeServer msg).isSome
  | .recvServer, s => s.phase = .looping ∧ s.sending = none ∧
      s.network.serverMessages.isEmpty = false

instance (activeServer : NodeId) (l : ShimStep) (s : Shim) : Decidable (guard activeServer l s) := by
  cases l <;> unfold guard <;> infer_instance

def update (activeServer : NodeId) : ShimStep → Shim → Shim
  | .invoke op, s => s.invoke op
  | .enqueue r, s => s.enqueue r
  | .answer r, s => s.answer r
  | .disconnect r, s => s.setHandler r .gone
  | .connected, s => s.connected activeServer
  | .connectFailed, s => s.connectFailed
  | .recvStart, s => s.recvStart
  | .takeCommand, s => s.takeCommand
  | .resolveSend, s => s.resolveSend activeServer
  | .recvServer, s => s.recvServer

end Shim

end Client

end OmnipaxosKv
