import OmnipaxosKv.Client.Session

/-! # The benchmark client (`client/client.rs`)

`Client::run` waits for the start signal and then issues requests at a fixed pace, one
interval after another, until it has seen the last interval expire. Which of the ready
branches of its `select!` a turn takes is left open, and so are the clock and the draws
of `rand`.
-/

namespace OmnipaxosKv

namespace Benchmark

open OmnipaxosKv.Client (Network Session)

/-- `RequestInterval`, less the read ratio that only weighs the draws. -/
structure RequestInterval where
  durationSec : ℕ
  requestsPerSec : ℕ
deriving DecidableEq, Repr

/-- `get_request_delay` in milliseconds; `none` is its failed assertion. -/
def RequestInterval.getRequestDelay (i : RequestInterval) : Option ℕ :=
  if i.requestsPerSec = 0 then some 999999000
  else if 1000 / i.requestsPerSec = 0 then none
  else some (1000 / i.requestsPerSec)

/-- Both `interval` timers of an interval can be set up: no assertion fails, and no
period is zero. -/
def RequestInterval.Valid (i : RequestInterval) : Prop :=
  i.getRequestDelay.isSome ∧ 0 < i.durationSec

instance (i : RequestInterval) : Decidable i.Valid := inferInstanceAs (Decidable (_ ∧ _))

/-! ## The collected data (`client/data_collection.rs`) -/

structure RequestData where
  requestTime : Timestamp
  write : Bool
  responseTime : Option Timestamp
deriving DecidableEq, Repr

structure ClientData where
  requestData : List RequestData
  responseCount : ℕ
deriving DecidableEq, Repr

namespace ClientData

def new : ClientData := ⟨[], 0⟩

def newRequest (now : Timestamp) (isWrite : Bool) (d : ClientData) : ClientData :=
  { d with requestData := d.requestData ++ [⟨now, isWrite, none⟩] }

/-- `none`: the index is out of range. -/
def newResponse (now : Timestamp) (id : CommandId) (d : ClientData) : Option ClientData :=
  if id < d.requestData.length then
    some {
      requestData := d.requestData.modify id fun row => { row with responseTime := some now }
      responseCount := d.responseCount + 1 }
  else none

def requestCount (d : ClientData) : ℕ := d.requestData.length

end ClientData

/-- Where `Client::run` can panic. -/
inductive Panic where
  | connection
  | errorWaitingForStartSignal
  | requestInterval
  | unimplementedCommandId
  | requestDataIndex
deriving DecidableEq, Repr

inductive ClientPhase where
  | connecting
  | waitingStart
  | running
  | finished
  | panicked (reason : Panic)
deriving DecidableEq, Repr

structure Client where
  phase : ClientPhase
  network : Network
  clientData : ClientData
  /-- the intervals not yet begun -/
  intervals : List RequestInterval
  finalRequestCount : Option ℕ
  nextRequestId : CommandId
  /-- the `is_write` of the `send_request` the task is in -/
  sending : Option Bool
  /-- history: the commands issued -/
  commands : List KVCommand

namespace Client

def new (activeServer : NodeId) (intervals : List RequestInterval) : Client where
  phase := .connecting
  network := Network.new [activeServer]
  clientData := ClientData.new
  intervals := intervals
  finalRequestCount := none
  nextRequestId := 0
  sending := none
  commands := []

def panic (reason : Panic) (c : Client) : Client := { c with phase := .panicked reason }

/-- `Network::new` returns. -/
def connected (activeServer : NodeId) (c : Client) : Client :=
  { c with phase := .waitingStart, network := c.network.connect [activeServer] }

/-- The wait for the start signal and what follows up to the main loop. -/
def recvStart (c : Client) : Client :=
  match c.network.serverMessages with
  | .startSignal _ :: _ =>
      match c.intervals with
      -- without intervals `run` returns at once
      | [] => { c with phase := .finished, network := c.network.recv }
      | first :: rest =>
          if first.Valid then
            { c with phase := .running, network := c.network.recv, intervals := rest }
          else ({ c with network := c.network.recv } : Client).panic .requestInterval
  -- any other first message is a panic
  | _ => ({ c with network := c.network.recv } : Client).panic .errorWaitingForStartSignal

def handleServerMessage (now : Timestamp) (msg : ServerMessage) (c : Client) : Client :=
  match msg with
  | .startSignal _ => c
  | serverResponse =>
      match serverResponse.commandId with
      | none => c.panic .unimplementedCommandId
      | some cmdId =>
          match c.clientData.newResponse now cmdId with
          | none => c.panic .requestDataIndex
          | some clientData => { c with clientData := clientData }

def runFinished (c : Client) : Bool :=
  match c.finalRequestCount with
  -- compared with the number of requests, not of responses
  | some count => count ≤ c.clientData.requestCount
  | none => false

/-- The test at the end of two branches, and what follows the loop. -/
def breakIfFinished (c : Client) : Client :=
  if c.runFinished then { c with phase := .finished, network := c.network.shutdown } else c

/-- The branch for a server message. -/
def recvServer (now : Timestamp) (c : Client) : Client :=
  match c.network.serverMessages with
  | [] => c
  | msg :: _ =>
      let c := handleServerMessage now msg { c with network := c.network.recv }
      -- a panic in the handler ends the task
      if c.phase = .running then c.breakIfFinished else c

/-- The command `send_request` builds. -/
def command (id : CommandId) (isWrite : Bool) : KVCommand :=
  if isWrite then .put (toString id) (toString id) else .get (toString id)

/-- The branch for a request tick, up to the `network.send` of `send_request`. -/
def requestTick (isWrite : Bool) (c : Client) : Client :=
  { c with sending := some isWrite, commands := c.commands ++ [command c.nextRequestId isWrite] }

/-- The message of the `network.send` the task is in. -/
def message (c : Client) : Option ClientMessage :=
  c.sending.map fun isWrite => .append c.nextRequestId (command c.nextRequestId isWrite)

/-- `network.send` returns, and `send_request` with it. -/
def resolveSend (activeServer : NodeId) (now : Timestamp) (c : Client) : Client :=
  match c.sending with
  | none => c
  | some isWrite =>
      match c.network.send activeServer
          (.append c.nextRequestId (command c.nextRequestId isWrite)) with
      | none => c
      | some network =>
          { c with
            network := network
            sending := none
            clientData := c.clientData.newRequest now isWrite
            nextRequestId := c.nextRequestId + 1 }

/-- The branch for an interval tick. -/
def intervalTick (c : Client) : Client :=
  match c.intervals with
  | newInterval :: rest =>
      if newInterval.Valid then { c with intervals := rest } else c.panic .requestInterval
  -- the last interval has expired
  | [] => ({ c with finalRequestCount := some c.clientData.requestCount } : Client).breakIfFinished

end Client

inductive ClientStep where
  | connected
  | connectFailed
  | recvStart
  | recvServer (now : Timestamp)
  | requestTick (isWrite : Bool)
  | resolveSend (now : Timestamp)
  | intervalTick
deriving DecidableEq, Repr

namespace Client

def guard (activeServer : NodeId) : ClientStep → Client → Prop
  | .connected, c => c.phase = .connecting
  | .connectFailed, c => c.phase = .connecting
  | .recvStart, c => c.phase = .waitingStart ∧ c.network.serverMessages.isEmpty = false
  | .recvServer _, c => c.phase = .running ∧ c.sending = none ∧
      c.network.serverMessages.isEmpty = false
  | .requestTick _, c => c.phase = .running ∧ c.sending = none ∧ c.finalRequestCount = none
  | .resolveSend _, c => c.phase = .running ∧
      ∃ msg ∈ c.message, (c.network.send activeServer msg).isSome
  | .intervalTick, c => c.phase = .running ∧ c.sending = none

instance (activeServer : NodeId) (l : ClientStep) (c : Client) :
    Decidable (guard activeServer l c) := by
  cases l <;> unfold guard <;> infer_instance

def update (activeServer : NodeId) : ClientStep → Client → Client
  | .connected, c => c.connected activeServer
  | .connectFailed, c => c.panic .connection
  | .recvStart, c => c.recvStart
  | .recvServer now, c => c.recvServer now
  | .requestTick isWrite, c => c.requestTick isWrite
  | .resolveSend now, c => c.resolveSend activeServer now
  | .intervalTick, c => c.intervalTick

/-! ## The session of the client -/

/-- The ids and the rows of the collected data follow the commands, the last of which
may still be in its `network.send`. -/
structure Conversing (activeServer : NodeId) (c : Client) : Prop where
  session : Session activeServer c.network c.commands c.message
  next : c.nextRequestId + c.sending.toList.length = c.commands.length
  rows : c.clientData.requestCount = c.nextRequestId
  started : c.phase = .running → ∃ startTime, .startSignal startTime ∈ c.network.taken

section

variable {activeServer : NodeId} {c : Client}

theorem conversing_new (activeServer : NodeId) (intervals : List RequestInterval) :
    (new activeServer intervals).Conversing activeServer where
  session := Session.init _
  next := rfl
  rows := rfl
  started := fun h => by cases h

/-- Steps that leave the commands alone and keep the session. -/
theorem Conversing.frame (h : c.Conversing activeServer) (c' : Client)
    (hsession : Session activeServer c'.network c.commands c.message)
    (hcommands : c'.commands = c.commands) (hsending : c'.sending = c.sending)
    (hnext : c'.nextRequestId = c.nextRequestId)
    (hrows : c'.clientData.requestCount = c.clientData.requestCount)
    (hstarted : c'.phase = .running → ∃ startTime, .startSignal startTime ∈ c'.network.taken) :
    c'.Conversing activeServer where
  session := by
    have hmessage : c'.message = c.message := by simp [message, hsending, hnext]
    rw [hcommands, hmessage]
    exact hsession
  next := by rw [hnext, hsending, hcommands, h.next]
  rows := by rw [hrows, hnext, h.rows]
  started := hstarted

theorem Conversing.breakIfFinished (h : c.Conversing activeServer) :
    c.breakIfFinished.Conversing activeServer := by
  unfold Client.breakIfFinished
  split
  · exact h.frame _ h.session.shutdown rfl rfl rfl rfl (fun hp => by cases hp)
  · exact h

/-- A response adds no row. -/
theorem requestCount_newResponse {now : Timestamp} {id : CommandId} {d d' : ClientData}
    (h : d.newResponse now id = some d') : d'.requestCount = d.requestCount := by
  unfold ClientData.newResponse at h
  split at h
  · rw [← Option.some.inj h]
    simp [ClientData.requestCount]
  · cases h

/-- A server message adds no row and issues nothing. -/
theorem Conversing.handleServerMessage (h : c.Conversing activeServer) (now : Timestamp)
    (msg : ServerMessage) : (handleServerMessage now msg c).Conversing activeServer := by
  have hpanic : ∀ reason, (c.panic reason).Conversing activeServer := by
    intro reason
    exact h.frame _ h.session rfl rfl rfl rfl (fun hp => by cases hp)
  unfold Client.handleServerMessage
  split
  · exact h
  · split
    · exact hpanic _
    · split
      · exact hpanic _
      · next d hd =>
          exact h.frame _ h.session rfl rfl rfl (requestCount_newResponse hd) h.started

theorem Conversing.recv (h : c.Conversing activeServer) :
    ({ c with network := c.network.recv } : Client).Conversing activeServer := by
  refine h.frame _ h.session.recv rfl rfl rfl rfl ?_
  intro hp
  rcases h.started hp with ⟨startTime, hmem⟩
  exact ⟨startTime, List.mem_append_left _ hmem⟩

/-- The wait for the start signal issues nothing. -/
theorem Conversing.recvStart (h : c.Conversing activeServer) :
    c.recvStart.Conversing activeServer := by
  have hrecv := h.recv
  unfold Client.recvStart
  split
  · next startTime rest hcons =>
      split
      · exact hrecv.frame _ hrecv.session rfl rfl rfl rfl (fun hp => by cases hp)
      · split
        · refine hrecv.frame _ hrecv.session rfl rfl rfl rfl ?_
          intro _
          exact ⟨startTime, by simp [Network.recv, hcons]⟩
        · exact hrecv.frame _ hrecv.session rfl rfl rfl rfl (fun hp => by cases hp)
  · exact hrecv.frame _ hrecv.session rfl rfl rfl rfl (fun hp => by cases hp)

/-- Every step of the client keeps ids, rows and commands together. -/
theorem Conversing.update (h : c.Conversing activeServer) {l : ClientStep}
    (hg : c.guard activeServer l) : (c.update activeServer l).Conversing activeServer := by
  cases l with
  | connected => exact h.frame _ (h.session.connect _) rfl rfl rfl rfl (fun hp => by cases hp)
  | connectFailed => exact h.frame _ h.session rfl rfl rfl rfl (fun hp => by cases hp)
  | recvStart => exact h.recvStart
  | recvServer now =>
      simp only [Client.update, Client.recvServer]
      split
      · exact h
      · next msg _ _ =>
          have hmsg := h.recv.handleServerMessage now msg
          split
          · exact hmsg.breakIfFinished
          · exact hmsg
  | requestTick isWrite =>
      rcases hg with ⟨hphase, hsending, _⟩
      -- nothing is being sent, so the next id is the number of commands
      have hlen : c.commands.length = c.nextRequestId := by
        have hnext := h.next
        simp only [hsending, Option.toList_none, List.length_nil] at hnext
        exact hnext.symm
      have hsession := h.session
      rw [message, hsending] at hsession
      refine ⟨?_, ?_, h.rows, h.started⟩
      · have hissue := hsession.issue (command c.nextRequestId isWrite) (h.started hphase)
        rw [hlen] at hissue
        exact hissue
      · simp [Client.update, requestTick, hlen]
  | resolveSend now =>
      simp only [Client.update, Client.resolveSend]
      split
      · exact h
      · next isWrite hsending =>
          split
          · exact h
          -- the send that was suspended comes through, and only now is its row written
          · next n hn =>
              have hsession := h.session
              rw [message, hsending] at hsession
              have hnext := h.next
              simp only [hsending, Option.toList_some, List.length_singleton] at hnext
              refine ⟨hsession.resolve hn, hnext, ?_, ?_⟩
              · simpa [ClientData.newRequest, ClientData.requestCount] using h.rows
              · have htaken : n.taken = c.network.taken := by
                  rcases Network.send_cases h.session.aligned hn with
                    ⟨_, _, _, rfl⟩ | ⟨_, _, rfl, _⟩ <;> rfl
                exact htaken ▸ h.started
  | intervalTick =>
      simp only [Client.update, Client.intervalTick]
      split
      · split
        · exact h.frame _ h.session rfl rfl rfl rfl h.started
        · exact h.frame _ h.session rfl rfl rfl rfl (fun hp => by cases hp)
      -- the last interval: the number of requests is final
      · have hfinal := h.frame ({ c with
            finalRequestCount := some c.clientData.requestCount } : Client)
          h.session rfl rfl rfl rfl h.started
        exact hfinal.breakIfFinished

end

end Client

end Benchmark

end OmnipaxosKv
